import Bloodhound.Indexer.JobRun
import Bloodhound.Indexer.Slots

/-!
# The jobs of a tick

The loop of `processJobs` over the slots of a tick, with its reasons to stop. What the jobs do, and how
their failures are handled, are parameters: a job may execute any statements and throw at any of them.

`processJobs_oneChainJob`: in a tick that returns, whatever its jobs do, once a job that calls a provider
first has run to its end, all later jobs are ingest jobs that run from their pages; so at most one job
that calls a provider first runs to its end.
-/

namespace Bloodhound.Indexer.Slots

open Store
open Journal (exec)
open Journal.Op (query Triple triple_pure triple_query triple_mem)

/-! ## The loop -/

inductive TickStopReason where
  | idle
  | deadline
  | subreq
  | jobsCap
  | pacing
  | pairWait
  deriving DecidableEq

/-- What the loop does with a claimed job: `processJob` or a synchronization, and the `catch` block,
which says whether the tick stops. -/
structure JobRunner where
  run : Nat → JobRow → StoreM Unit
  onJobError : Nat → JobRow → Err → StoreM (Option TickStopReason)

/-- What the subrequest budget has left at the three places where a slot reads it; none for no limit. -/
structure BudgetReadings where
  atStart : Option Nat := none
  atClaim : Option Nat := none
  atEnd : Option Nat := none

/-- The options of `processJobs`; `budget` gives the readings of the slots. -/
structure ProcessJobsOptions where
  deadlineMs : Option Nat := none
  jobsPerTick : Nat
  ingestCandidates : IngestCandidateCache := none
  budget : Nat → BudgetReadings := fun _ => {}

/-- A claimed job, and whether its `try` block ran to its end. -/
structure Visit where
  id : Nat
  row : JobRow
  finished : Bool
  deriving DecidableEq

/-- What the loop carries from slot to slot. The source keeps the ids of the visits alone. -/
structure TickState where
  chainSlotUsed : Bool
  cachedHackers : Bool := false
  visits : List Visit := []
  candidateCache : IngestCandidateCache

structure ProcessJobsResult where
  visits : List Visit
  stopReason : TickStopReason
  deriving DecidableEq

def ProcessJobsResult.processed (r : ProcessJobsResult) : Nat := r.visits.countP (·.finished)

section Loop

variable (env : Env) (config : TickConfig) (runner : JobRunner) (opts : ProcessJobsOptions)

/-- The budget has no more than the reserve of the scheduling left. -/
def budgetLow (remaining : Option Nat) : Bool :=
  remaining.any fun n => n ≤ config.scheduleSubrequestReserve + 2

/-- The job used the call that a tick has for providers, or the calls are paced. -/
def markChainSlotAfterJob (row : JobRow) : StoreM Bool :=
  if jobNeedsChainCallAtStart config.app row.job then pure true else isPacingBlocked

/-- How the `try` block of a slot ends: with the reason to stop, if any, and whether a provider was
called; or in the `catch` block. -/
inductive SlotEnd where
  | finished (stop : Option TickStopReason) (chainUsed : Bool)
  | failed (stop : Option TickStopReason)

def runSlot (slot : Nat) (id : Nat) (row : JobRow) : StoreM SlotEnd := do
  runner.run id row
  completeJob id
  maybeClearQueueSchedulingPause env
  query fun _ => ()
  if budgetLow config (opts.budget slot).atEnd then pure (.finished (some .subreq) false)
  else do
    let chainUsed ← markChainSlotAfterJob config row
    pure (.finished none chainUsed)

def trySlot (slot : Nat) (id : Nat) (row : JobRow) : StoreM SlotEnd :=
  (runSlot env config runner opts slot id row).tryCatch fun e => do
    let stop ← runner.onJobError id row e
    pure (.failed stop)

/-- The reason to stop before a slot claims a job. -/
def stopBefore (slot : Nat) : StoreM (Option TickStopReason) := do
  let late ← match opts.deadlineMs with
    | none => pure false
    | some deadlineMs => do
      let nowMs ← now
      pure (decide (deadlineMs ≤ nowMs))
  if late then pure (some .deadline)
  else if budgetLow config (opts.budget slot).atStart then pure (some .subreq)
  else do
    let canUse ← canUseSubrequest
    pure (if canUse then none else some .subreq)

/-- The context of the claim of a slot. -/
def slotContext (st : TickState) (pacingBlocked : Bool) : SlotContext where
  chainSlotUsed := st.chainSlotUsed
  pacingBlocked := pacingBlocked
  claimedIds := st.visits.map (·.id)
  remaining := (opts.budget st.visits.length).atClaim
  candidateCache := st.candidateCache

/-- The state after a slot. -/
def TickState.after (st : TickState) (id : Nat) (row : JobRow) (cache : IngestCandidateCache)
    (slotEnd : SlotEnd) : TickState where
  chainSlotUsed := st.chainSlotUsed ||
    match slotEnd with
    | .finished _ chainUsed => chainUsed
    | .failed _ => false
  cachedHackers := st.cachedHackers || jobNeedsHackersSet row.job.type
  visits := st.visits ++ [⟨id, row, match slotEnd with | .finished _ _ => true | .failed _ => false⟩]
  candidateCache := cache

def SlotEnd.stop? : SlotEnd → Option TickStopReason
  | .finished stop _ => stop
  | .failed stop => stop

/-- The rest of the loop, with at most so many more slots; the number of visits is that of the slot. -/
def jobLoop : Nat → TickState → StoreM ProcessJobsResult
  | 0, st => pure ⟨st.visits, .jobsCap⟩
  | slots + 1, st => do
    let stop ← stopBefore config opts st.visits.length
    match stop with
    | some reason => pure ⟨st.visits, reason⟩
    | none => do
      let pacingBlocked ← isPacingBlocked
      let (claim, cache) ← claimJobForSlot config (slotContext opts st pacingBlocked) st.visits.length
      match claim with
      | .pairWait => pure ⟨st.visits, .pairWait⟩
      | .nothing => pure ⟨st.visits, .idle⟩
      | .job (id, row) => do
        StoreMonad.when (jobNeedsHackersSet row.job.type ∧ st.cachedHackers = false) (query fun _ => ())
        let slotEnd ← trySlot env config runner opts st.visits.length id row
        let next := st.after id row cache slotEnd
        match slotEnd.stop? with
        | some reason => pure ⟨next.visits, reason⟩
        | none => jobLoop slots next

def processJobs : StoreM ProcessJobsResult := do
  let chainSlotUsed ← isPacingBlocked
  jobLoop env config runner opts opts.jobsPerTick
    { chainSlotUsed, candidateCache := opts.ingestCandidates }

end Loop

/-! ## One job that calls a provider -/

section Discipline

variable {env : Env} {config : TickConfig} {runner : JobRunner} {opts : ProcessJobsOptions}

/-- A job that called a provider before anything else, and ran to its end. -/
def Visit.CalledProvider (config : TickConfig) (v : Visit) : Prop :=
  v.finished = true ∧ jobNeedsChainCallAtStart config.app v.row.job = true

instance (config : TickConfig) (v : Visit) : Decidable (v.CalledProvider config) :=
  inferInstanceAs (Decidable (_ ∧ _))

/-- An ingest job that runs from the pages in its payload. -/
def Visit.RunsFromPages (config : TickConfig) (v : Visit) : Prop :=
  isIngestJobType v.row.job.type = true ∧ jobNeedsChainCallAtStart config.app v.row.job = false

/-- After a job that called a provider, all jobs run from their pages. -/
def Disciplined (config : TickConfig) (visits : List Visit) : Prop :=
  visits.Pairwise fun v w => v.CalledProvider config → w.RunsFromPages config

/-- What the loop knows before a slot. -/
structure TickState.Good (config : TickConfig) (st : TickState) : Prop where
  disciplined : Disciplined config st.visits
  used : ∀ v ∈ st.visits, v.CalledProvider config → st.chainSlotUsed = true

/-- Any operation keeps the candidates of the cache listed. -/
theorem keepsListed {α : Type} (p : StoreM α) (cache : IngestCandidateCache) :
    Triple (CacheListed · cache) p (fun _ s => CacheListed s cache) fun _ _ => True := by
  have hAll : p.Emits fun _ => True := fun _ _ _ _ => trivial
  exact (Journal.Op.triple_of_emits hAll fun i _ s hs => cacheListed_exec i s cache hs).conseq
    (fun _ hs => hs) (fun _ _ hs => hs) fun _ _ _ => trivial

theorem triple_trySlot (slot id : Nat) (row : JobRow) (cache : IngestCandidateCache) :
    Triple (CacheListed · cache) (trySlot env config runner opts slot id row)
      (fun r s => CacheListed s cache ∧ ∀ chainUsed, r = .finished none chainUsed →
        jobNeedsChainCallAtStart config.app row.job = true → chainUsed = true) fun _ _ => True := by
  have hMark : Triple (fun _ => True) (runSlot env config runner opts slot id row)
      (fun r _ => ∀ chainUsed, r = .finished none chainUsed →
        jobNeedsChainCallAtStart config.app row.job = true → chainUsed = true) fun _ _ => True := by
    refine Journal.Op.triple_result fun _ => Journal.Op.triple_result fun _ =>
      Journal.Op.triple_result fun _ => Journal.Op.triple_result fun _ => ?_
    split
    · exact triple_pure _ fun _ _ chainUsed hEnd => by cases hEnd
    · by_cases hNeeds : jobNeedsChainCallAtStart config.app row.job = true
      · unfold markChainSlotAfterJob
        rw [if_pos hNeeds, Journal.Op.pure_bind]
        refine triple_pure _ fun _ _ chainUsed hEnd _ => ?_
        cases hEnd
        rfl
      · exact Journal.Op.triple_result fun _ =>
          triple_pure _ fun _ _ _ _ hSome => absurd hSome hNeeds
  have hTry : Triple (fun _ => True) (trySlot env config runner opts slot id row)
      (fun r _ => ∀ chainUsed, r = .finished none chainUsed →
        jobNeedsChainCallAtStart config.app row.job = true → chainUsed = true) fun _ _ => True :=
    hMark.tryCatch fun e => Journal.Op.triple_result fun stop =>
      triple_pure _ fun _ _ chainUsed hEnd => by cases hEnd
  exact ((keepsListed _ cache).and hTry).conseq (fun _ hs => ⟨hs, trivial⟩) (fun _ _ hs => hs)
    fun _ _ _ => trivial

theorem calledProvider_append {st : TickState} {v : Visit} (h : st.Good config)
    (hPaged : st.visits ≠ [] → st.chainSlotUsed = true → v.RunsFromPages config) :
    Disciplined config (st.visits ++ [v]) := by
  refine List.pairwise_append.mpr ⟨h.disciplined, List.pairwise_singleton _ _, fun u hu w hw hCalled => ?_⟩
  rw [List.mem_singleton.mp hw]
  exact hPaged (List.ne_nil_of_mem hu) (h.used u hu hCalled)

/-- A slot keeps the discipline. -/
theorem TickState.Good.after {st : TickState} (h : st.Good config) {id : Nat} {row : JobRow}
    (hPaged : st.visits ≠ [] → st.chainSlotUsed = true →
      isIngestJobType row.job.type = true ∧ jobNeedsChainCallAtStart config.app row.job = false)
    {slotEnd : SlotEnd} (hEnd : ∀ chainUsed, slotEnd = .finished none chainUsed →
      jobNeedsChainCallAtStart config.app row.job = true → chainUsed = true)
    (cache : IngestCandidateCache) :
    Disciplined config (st.after id row cache slotEnd).visits ∧
      (slotEnd.stop? = none → (st.after id row cache slotEnd).Good config) := by
  have hAppend : Disciplined config (st.after id row cache slotEnd).visits :=
    calledProvider_append h fun hSome hUsed => hPaged hSome hUsed
  refine ⟨hAppend, fun hGoes => ⟨hAppend, fun v hv hCalled => ?_⟩⟩
  rcases List.mem_append.mp hv with hOld | hNew
  · show (st.chainSlotUsed || _) = true
    rw [h.used v hOld hCalled, Bool.true_or]
  · rw [List.mem_singleton.mp hNew] at hCalled
    cases slotEnd with
    | failed stop => exact absurd hCalled.1 Bool.false_ne_true
    | finished stop chainUsed =>
      cases hGoes
      show (st.chainSlotUsed || chainUsed) = true
      rw [hEnd chainUsed rfl hCalled.2, Bool.or_true]

/-- The rest of the loop, from a state that keeps the discipline. -/
theorem triple_jobLoop (slots : Nat) (st : TickState) (h : st.Good config) :
    Triple (CacheListed · st.candidateCache) (jobLoop env config runner opts slots st)
      (fun r _ => Disciplined config r.visits ∧ r.visits.length ≤ st.visits.length + slots)
      fun _ _ => True := by
  induction slots generalizing st with
  | zero => exact triple_pure _ fun _ _ => ⟨h.disciplined, Nat.le_refl _⟩
  | succ slots ih =>
    have hStays : Disciplined config st.visits ∧ st.visits.length ≤ st.visits.length + (slots + 1) :=
      ⟨h.disciplined, Nat.le_add_right _ _⟩
    refine (keepsListed (stopBefore config opts st.visits.length) _).bind fun stop => ?_
    cases stop with
    | some reason => exact triple_pure _ fun _ _ => hStays
    | none =>
      refine (keepsListed isPacingBlocked _).bind fun pacingBlocked => ?_
      -- a claim depends on the cache in the state in which the slot starts
      refine Journal.Op.triple_of_state fun db hDb => ?_
      refine (@triple_claimJobForSlot config (slotContext opts st pacingBlocked) db hDb
        st.visits.length).bind fun claim => ?_
      obtain ⟨result, cache⟩ := claim
      cases result with
      | pairWait | nothing => exact triple_pure _ fun _ _ => hStays
      | job entry =>
        obtain ⟨id, row⟩ := entry
        have hStart : ∀ s, Slotted config (decide (st.visits.length ≠ 0) &&
            ((slotContext opts st pacingBlocked).chainSlotUsed ||
              (slotContext opts st pacingBlocked).pacingBlocked)) db (.job (id, row), cache) s →
            CacheListed s cache ∧ (st.visits ≠ [] → st.chainSlotUsed = true →
              isIngestJobType row.job.type = true ∧
                jobNeedsChainCallAtStart config.app row.job = false) := fun s hs => by
          refine ⟨hs.claims.cacheListed hs.cache, fun hSome hUsed => hs.paged ?_ (id, row) rfl⟩
          have hLater : st.visits.length ≠ 0 := fun hNil => hSome (List.length_eq_zero_iff.mp hNil)
          simp [slotContext, hLater, hUsed]
        refine Triple.pre (Journal.Op.triple_of_fact fun hPaged => ?_) hStart
        refine Triple.bind (keepsListed _ cache) fun _ => ?_
        refine (triple_trySlot st.visits.length id row cache).bind fun slotEnd => ?_
        refine Journal.Op.triple_of_fact fun hEnd => ?_
        obtain ⟨hVisits, hGoes⟩ := h.after hPaged hEnd cache
        have hLength : (st.after id row cache slotEnd).visits.length = st.visits.length + 1 :=
          List.length_append
        cases hStop : slotEnd.stop? with
        | some reason =>
          refine triple_pure _ fun _ _ => ⟨hVisits, ?_⟩
          show (st.after id row cache slotEnd).visits.length ≤ _
          omega
        | none =>
          refine (ih _ (hGoes hStop)).post fun r _ hs => ⟨hs.1, ?_⟩
          have hRest := hs.2
          omega

theorem Disciplined.count_le {visits : List Visit} (h : Disciplined config visits) :
    visits.countP (fun v => decide (v.CalledProvider config)) ≤ 1 := by
  induction visits with
  | nil => simp
  | cons v rest ih =>
    obtain ⟨hFirst, hRest⟩ := List.pairwise_cons.mp h
    by_cases hCalled : v.CalledProvider config
    · have hNone : rest.countP (fun w => decide (w.CalledProvider config)) = 0 := by
        refine List.countP_eq_zero.mpr fun w hw hAlso => ?_
        have hNeeds := (of_decide_eq_true hAlso : w.CalledProvider config).2
        rw [(hFirst w hw hCalled).2] at hNeeds
        cases hNeeds
      simp [hCalled, hNone]
    · simpa [hCalled] using ih hRest

/-- A tick that returns ran at most so many jobs as it may; once a job that calls a provider first has run
to its end, it took ingest jobs alone that run from their pages. -/
theorem processJobs_oneChainJob {db : Db} {c : Journal.Ctl Mem Err} {r : ProcessJobsResult}
    (hCache : CacheListed db opts.ingestCandidates)
    (hOk : (processJobs env config runner opts db c).res = .ok r) :
    r.visits.length ≤ opts.jobsPerTick ∧ Disciplined config r.visits ∧
      r.visits.countP (fun v => decide (v.CalledProvider config)) ≤ 1 := by
  have hTick : Triple (CacheListed · opts.ingestCandidates) (processJobs env config runner opts)
      (fun r _ => Disciplined config r.visits ∧ r.visits.length ≤ opts.jobsPerTick) fun _ _ => True := by
    refine (keepsListed isPacingBlocked _).bind fun chainSlotUsed => ?_
    have hEmpty : TickState.Good config
        { chainSlotUsed, candidateCache := opts.ingestCandidates : TickState } :=
      ⟨List.Pairwise.nil, fun v hv => absurd hv List.not_mem_nil⟩
    refine (triple_jobLoop opts.jobsPerTick _ hEmpty).post fun r _ hs => ⟨hs.1, ?_⟩
    simpa using hs.2
  obtain ⟨hVisits, hLength⟩ := hTick.ok hCache hOk
  exact ⟨hLength, hVisits, hVisits.count_le⟩

end Discipline

/-! A tick of two slots: the job for the price of a bitcoin, then a backfill that goes on with the entry
in its payload. -/

def restRow : JobRow where
  job := .backfillHackerAddress
    { address := name "h", pendingTxs := [{ txid := name "t" }], pagesExhausted := true }
  priority := 0
  runAfter := 0
  createdAt := 1000

def priceAndRestDb : Db := exec (Stmt.job (.insert restRow.job 0 0 1000)) priceDb

/-- The entry is a payment of a victim. -/
def restEnv : Env where
  provider := .ofTxs
    [{ txid := name "t"
       vin := [{ prevout := some ⟨name "v", some 700000⟩ }]
       vout := [{ scriptpubkeyAddress := name "h", value := some 690000 }] }]

def restInputs : JobInputs where
  hackers := some [name "h"]
  calls := ⟨.ofTxs [], .ofTxs [], .ofTxs [], .ofTxs []⟩

def restRunner : JobRunner where
  run _ row := JobRun.processJob restEnv restInputs row.job
  onJobError id row e := do
    JobRun.onJobError restEnv.config restInputs id row e
    pure none

def twoVisits : List Visit := [⟨1, started 60000 priceRow, true⟩, ⟨2, started 60000 restRow, true⟩]

theorem processJobs_oneChainJob_price :
    2 ≤ 2 ∧ Disciplined {} twoVisits ∧
      twoVisits.countP (fun v => decide (v.CalledProvider {})) ≤ 1 :=
  @processJobs_oneChainJob restEnv {} restRunner { jobsPerTick := 2 } priceAndRestDb
    ⟨{ clock := List.replicate 40 60000 }, []⟩ ⟨twoVisits, .jobsCap⟩ (fun _ hj => by cases hj)
    (by decide +kernel)

end Bloodhound.Indexer.Slots
