import Bloodhound.Indexer.JobFailure
import Bloodhound.Indexer.Poll

/-!
# Running a job

`processJob` of `processor.ts` and the part of the loop of `processJobs` around it, as one journaled
operation: the work of a claimed job, its completion, and the handlers of exceptions. The work of the
jobs that write neither entries of a history nor jobs of their own is a parameter.
-/

namespace Bloodhound.Indexer

open Chain Store Bloodhound.Graph
open Journal.Op (query run mem when forEach)

/-- What a run takes from its surroundings: the hackers that the tick has cached, the providers of
its calls, whether it leaves recent activity to write, whether it spends the budget of the tick, and
what an exception carries. -/
structure JobInputs where
  hackers : Option (List Address) := none
  calls : PollCalls
  recentActivity : Bool := false
  budgetSpent : Bool := false
  retryAt : Nat := 0
  quotaKind : D1QuotaKind := .write
  other : Job → StoreM Unit := fun _ => pure ()

namespace JobRun

/-! ## The work -/

/-- The options of a `process_tx` job. -/
def processTxOptions (config : AppConfig) : ProcessTxOptions where
  maxGraphEdgesPerTx := some config.maxGraphEdgesPerTx |>.filter (0 < ·)
  maxEdgesPerJob := some config.maxEdgesPerJob |>.filter (0 < ·)
  minExpandSats := config.minExpandSats
  minVictimIngestSats := config.minVictimIngestSats

/-- The branch of `processJob` for the type of the job. -/
def work (env : Env) (inputs : JobInputs) : Job → StoreM Unit
  | .backfillHackerAddress payload => backfillHacker env payload inputs.hackers true
  | .expandDownstream payload => expandDownstream env payload inputs.hackers
  | .pollHackerAddress payload => pollHacker env inputs.calls payload inputs.hackers
  | .pollDownstreamAddress payload => pollDownstream env inputs.calls payload inputs.hackers
  | .processTx txid => do
    let hackers ← inputs.hackers.elim getHackerAddressSet pure
    let _ ← processTxForHackTrace env txid hackers (processTxOptions env.config)
    pure ()
  | .refreshLiveBalance address => do
    let stats ← withProvider env (·.getAddressStats address)
    let _ ← applyAddressStats address stats
    pure ()
  | job => inputs.other job

/-- `flushRecentHackerActivity`. -/
def flushRecentHackerActivity (inputs : JobInputs) : StoreM Unit :=
  when inputs.recentActivity (run (.scheduler .flushRecentHackers))

/-- `processJob`: the buffer is written whether or not the work throws. -/
def processJob (env : Env) (inputs : JobInputs) (job : Job) : StoreM Unit := do
  (work env inputs job).tryCatch fun e => do
    flushRecentHackerActivity inputs
    Journal.Op.throw e
  flushRecentHackerActivity inputs

/-! ## The run -/

/-- The `catch` block of the loop; whether the tick stops then does not matter to a single job. -/
def onJobError (config : AppConfig) (inputs : JobInputs) (id : Nat) (row : JobRow) (e : Err) :
    StoreM Unit := do
  let _ ← Indexer.onJobError config ⟨pure inputs.retryAt, pure inputs.quotaKind⟩ id row e
  pure ()

/-- What follows the completion in the `try` block: the resume of the queue, the depth for the log,
and the next call of the provider. -/
def afterCompletion (env : Env) (inputs : JobInputs) : StoreM Unit := do
  maybeClearQueueSchedulingPause env
  query fun _ => ()
  when (inputs.budgetSpent = false) (query fun _ => ())

/-- The `try` block of the loop. -/
def tryJob (env : Env) (inputs : JobInputs) (id : Nat) (row : JobRow) : StoreM Unit := do
  processJob env inputs row.job
  completeJob id
  afterCompletion env inputs

/-- What the loop does with a claimed job. -/
def processClaimed (env : Env) (inputs : JobInputs) (id : Nat) (row : JobRow) : StoreM Unit :=
  (tryJob env inputs id row).tryCatch (onJobError env.config inputs id row)

end JobRun

end Bloodhound.Indexer
