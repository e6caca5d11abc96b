import Bloodhound.Lib.Tally
import Bloodhound.Store.Counters

/-!
# The job queue

The operations of `store.ts` on the table `jobs`, with the counters of the scheduler row that
they adjust by hand. They are written for every monad that executes statements and reads the
clock (`StoreMonad`): the same text runs as a journaled operation, on its own, and as a process
whose statements interleave with those of others.
-/

namespace Bloodhound.Store

open Indexer

/-! ## Rows -/

section Rows

variable (t : JobTable)

theorem lookup_insertRow (row : JobRow) (id : Nat) :
    (t.insertRow row).lookup id = if id = t.nextId then some row else t.lookup id :=
  Table.lookup_insert_if _ _ _ _

theorem lookup_update (id id' : Nat) (f : JobRow → JobRow) :
    (t.update id f).lookup id' = if id' = id then (t.lookup id').map f else t.lookup id' :=
  Table.lookup_modify id id' f t.rows

theorem lookup_keep (p : Nat → JobRow → Bool) (id : Nat) :
    (t.keep p).lookup id = (t.lookup id).filter (p id) :=
  Table.lookup_filter p t.rows id

end Rows

/-! ## Monads of the store -/

/-- A monad that executes groups of statements as one unit each, reads the state before them, and
reads the clock. -/
class StoreMonad (m : Type → Type) extends Monad m where
  step {α : Type} (group : List Stmt) (read : Db → α) : m α
  clock : m Nat

instance : StoreMonad StoreM where
  step := Journal.Op.step
  clock := now

namespace StoreMonad

variable {m : Type → Type} [StoreMonad m] {α : Type}

def query (read : Db → α) : m α := step [] read

def run (i : Stmt) : m Unit := step [i] fun _ => ()

def when (cond : Prop) [Decidable cond] (p : m Unit) : m Unit := if cond then p else pure ()

def forEach : List α → (α → m Unit) → m Unit
  | [], _ => pure ()
  | a :: as, body => do
    body a
    forEach as body

end StoreMonad

/-- A loop of journaled operations. -/
theorem emits_storeForEach {α : Type} {P : Stmt → Prop} {as : List α} {body : α → StoreM Unit}
    (h : ∀ a, (body a).Emits P) : (StoreMonad.forEach as body : StoreM Unit).Emits P := by
  induction as with
  | nil => exact Journal.Op.emits_pure ()
  | cons a as ih => exact (h a).bind fun _ => ih

open StoreMonad

variable {m : Type → Type} [StoreMonad m]

/-! ## Counters -/

/-- `cachedActiveJobCountField`. -/
def cachedActiveJobCountField : JobType → Option Counter
  | .expandDownstream => some .activeExpand
  | .backfillHackerAddress => some .activeBackfill
  | .auditHackerBackfill => some .activeAudit
  | .processTx => some .activeProcessTx
  | _ => none

def adjustPendingJobCount (delta : Int) : m Unit :=
  when (delta ≠ 0) (run (.scheduler (.adjust .pendingJob delta)))

def adjustActiveJobCount (type : JobType) (delta : Int) : m Unit :=
  when (delta ≠ 0) (forEach (cachedActiveJobCountField type).toList fun field =>
    run (.scheduler (.adjust field delta)))

def afterJobInserted (type : JobType) : m Unit := do
  adjustPendingJobCount 1
  adjustActiveJobCount type 1

/-! ## Enqueueing -/

/-- `countActiveJobsForAddress` reads at most the given number of rows. -/
def countActiveJobsForAddress (type : JobType) (address : Address) (cap : Nat) : m Nat :=
  query fun db => min cap (db.jobs.rows.entries.countP fun e =>
    e.2.job.type = type && e.2.active && e.2.job.address = some address)

/-- The address of an expand job has as many active jobs as it may. -/
def expandAddressFull (env : Env) : Job → m Bool
  | .expandDownstream p => do
    let perAddr ← countActiveJobsForAddress .expandDownstream p.address
      (env.store.maxPendingExpandPerAddress + 1)
    pure (env.store.maxPendingExpandPerAddress ≤ perAddr)
  | _ => pure false

/-- `shouldAllowEnqueue`; a full queue sets the latch. -/
def shouldAllowEnqueue (env : Env) (job : Job) (bypassQueueCap : Bool) : m Bool :=
  if bypassQueueCap then pure true
  else do
    let state ← query (·.scheduler)
    let continuation := isIngestContinuation job
    if state.queueSchedulingPaused then
      pure (job.type = .backfillHackerAddress && continuation)
    else if job.type = .expandDownstream ∧
        (env.store.maxPendingExpandGlobal : Int) ≤ state.counter .activeExpand then pure false
    else do
      let full ← expandAddressFull env job
      if full then pure false
      else if job.type = .backfillHackerAddress ∧ continuation = false ∧
          (env.store.maxPendingBackfillGlobal : Int) ≤ state.counter .activeBackfill then pure false
      else if job.type = .auditHackerBackfill ∧
          (env.store.maxPendingAuditGlobal : Int) ≤ state.counter .activeAudit then pure false
      else if (env.store.maxQueueDepth : Int) ≤ state.counter .pendingJob then do
        run (.scheduler (.setQueueSchedulingPaused true))
        pure continuation
      else pure true

/-- `enqueueJob`: the id of the new job, or nothing where it is refused. -/
def enqueueJob (env : Env) (job : Job) (priority : Int) (runAfter : Option Nat)
    (bypassQueueCap : Bool) : m (Option Nat) := do
  let allowed ← shouldAllowEnqueue env job bypassQueueCap
  if allowed then do
    let runAt ← runAfter.elim clock pure
    let createdAt ← clock
    let id ← step [.job (.insert job priority runAt createdAt)] (·.jobs.nextId)
    afterJobInserted job.type
    pure (some id)
  else pure none

structure EnqueueIfAbsentOptions where
  dedupeTypes : Option (List JobType) := none
  address : Option Address := none
  bypassQueueCap : Bool := false

/-- `enqueueJobIfAbsent`: one statement inserts the job where no active job matches. -/
def enqueueJobIfAbsent (env : Env) (job : Job) (priority : Int) (runAfter : Option Nat)
    (opts : EnqueueIfAbsentOptions) : m (Option Nat) := do
  let allowed ← shouldAllowEnqueue env job opts.bypassQueueCap
  if allowed then do
    let types := opts.dedupeTypes.getD [job.type]
    let address := opts.address.or job.address
    let runAt ← runAfter.elim clock pure
    let createdAt ← clock
    let inserted ← step [.job (.insertIfAbsent job priority runAt createdAt types address)] fun db =>
      if db.jobs.hasActive types address then none else some db.jobs.nextId
    forEach inserted.toList fun _ => afterJobInserted job.type
    pure inserted
  else pure none

/-! ## Claims -/

/-- `markJobRunning`: nothing where the job is not pending any more. -/
def markJobRunning (id ts : Nat) : m (Option JobRow) := do
  let claimed ← step [.job (.claim id ts)] fun db => (db.jobs.lookup id).any (·.status = .pending)
  if claimed then do
    adjustPendingJobCount (-1)
    let job ← query (·.jobs.lookup id)
    pure (job.map fun r => { r with status := .running, startedAt := some ts, completedAt := none })
  else pure none

/-- `claimNextJob`, `claimOldestMaintCosmeticJob`, `claimIngestJobById` and `claimNextIngestJob`:
a query picks a job at the time of the claim, and the job is marked running. -/
def claimSelected (select : Db → Nat → Option Nat) : m (Option (Nat × JobRow)) := do
  let ts ← clock
  let head ← query fun db => select db ts
  head.elim (pure none) fun id => do
    let job ← markJobRunning id ts
    pure (job.map (id, ·))

/-! ## Ends of a run -/

def maybeUpdateLastCompletedJobCache (completedAt : Nat) : m Unit := do
  let state ← query (·.scheduler)
  when (state.lastCompletedJobAt.all (· < completedAt))
    (run (.scheduler (.setLastCompletedJob completedAt)))

def completeJob (id : Nat) : m Unit := do
  let job ← query (·.jobs.lookup id)
  let completedAt ← clock
  run (.job (.complete id completedAt))
  when (job.any (·.status = .pending)) (adjustPendingJobCount (-1))
  forEach job.toList fun row => when row.active (adjustActiveJobCount row.job.type (-1))
  when job.isSome (maybeUpdateLastCompletedJobCache completedAt)
  run (.scheduler .markJobDirty)

def failJob (id : Nat) (runAfter : Option Nat) : m Unit := do
  let job ← query (·.jobs.lookup id)
  let runAt ← runAfter.elim clock pure
  run (.job (.requeue id ((job.map (·.attempts)).getD 0 + 1) runAt))
  when (job.any (·.status = .running)) (adjustPendingJobCount 1)

def deferJob (id runAfter : Nat) : m Unit := do
  let job ← query (·.jobs.lookup id)
  run (.job (.requeue id 0 runAfter))
  when (job.any (·.status = .running)) (adjustPendingJobCount 1)

structure ReclaimOptions where
  staleMs : Nat := 0
  jobReclaimDeferAfter : Nat := 0
  jobReclaimDeferSec : Nat := 86400

/-- What `resetRunningJobs` does with one job that it has read as running. -/
def reclaimJob (opts : ReclaimOptions) (id : Nat) (row : JobRow) : m Unit :=
  let progress := extractIngestProgressSnapshot row.job
  if 0 < opts.jobReclaimDeferAfter ∧ opts.jobReclaimDeferAfter ≤ row.reclaimCount + 1 ∧
      row.reclaimProgress = some progress then do
    let nowMs ← clock
    deferJob id (nowMs + opts.jobReclaimDeferSec * 1000)
    run (.job (.clearReclaim id))
  else do
    run (.job (.reclaim id (row.reclaimCount + 1) progress))
    adjustPendingJobCount 1

/-- The running jobs that were started before the cutoff, or all of them. -/
def JobTable.stale (staleMs nowMs : Nat) (t : JobTable) : List (Nat × JobRow) :=
  (t.rows.entries.filter fun e => e.2.status = .running &&
    (staleMs = 0 || e.2.startedAt.all (· + staleMs ≤ nowMs))).map fun e => (e.1, e.2)

def resetRunningJobs (opts : ReclaimOptions) : m Unit := do
  let nowMs ← clock
  let staleJobs ← query fun db => db.jobs.stale opts.staleMs nowMs
  forEach staleJobs fun job => reclaimJob opts job.1 job.2

/-! ## Deletions -/

def deleteActiveJobsForAddress (address : Address) : m Unit := do
  let rows ← query fun db => (db.jobs.rows.entries.filter fun e =>
    e.2.active && e.2.job.address = some address).map (·.2)
  run (.job (.deleteActiveForAddress address))
  adjustPendingJobCount (-(rows.countP (·.status = .pending) : Int))
  forEach (Tally.tally (rows.map fun row => (row.job.type, -1))) fun e =>
    adjustActiveJobCount e.1 e.2

def deleteActiveJobs : m Unit := do
  query fun _ => ()
  query fun _ => ()
  run (.job .deleteActive)
  run (.scheduler .zeroQueueCounters)

def pruneDoneJobsBatch (batchSize cutoff : Nat) : m Unit :=
  run (.job (.pruneDone cutoff (max 1 batchSize)))

/-- A statement of a reset on the job that it reclaims. -/
def JobStmt.reclaims (id : Nat) : JobStmt → Prop
  | .requeue id' _ _ | .reclaim id' _ _ | .clearReclaim id' => id' = id
  | _ => False

/-! ## What the operations write

As journaled operations they write the given jobs and, of the scheduler row, counters and the time
of the last completion; a check of an enqueue may set the latch. -/

theorem isQueue_cachedActiveJobCountField {type : JobType} {c : Counter}
    (h : cachedActiveJobCountField type = some c) : c.isQueue = true := by
  cases type <;> cases h <;> rfl

/-- What an operation on a single job writes of the scheduler row. -/
def Stmt.isQueueCounter : Stmt → Bool
  | .scheduler (.adjust c _) => c.isQueue
  | .scheduler (.setLastCompletedJob _) | .scheduler .markJobDirty => true
  | _ => false

theorem isCounter_of_isQueueCounter {i : Stmt} (h : i.isQueueCounter) : i.isCounter := by
  cases i with
  | scheduler s => cases s <;> first | rfl | cases h
  | _ => cases h

theorem queueCounters {P : Stmt → Prop} (hP : ∀ i, Stmt.isCounter i → P i) :
    ∀ i, Stmt.isQueueCounter i → P i := fun i hi => hP i (isCounter_of_isQueueCounter hi)

section Emits

open Journal.Op

variable {P : Stmt → Prop}

theorem emits_runAt (runAfter : Option Nat) :
    (runAfter.elim StoreMonad.clock pure : StoreM Nat).Emits P := by
  cases runAfter with
  | none => exact emits_now
  | some t => exact emits_pure t

theorem emits_adjustPendingJobCount (hP : ∀ i, Stmt.isQueueCounter i → P i) (d : Int) :
    (adjustPendingJobCount d : StoreM Unit).Emits P :=
  emits_when fun _ => emits_run (hP _ rfl)

theorem emits_adjustActiveJobCount (hP : ∀ i, Stmt.isQueueCounter i → P i) (type : JobType) (d : Int) :
    (adjustActiveJobCount type d : StoreM Unit).Emits P :=
  emits_when fun _ => by
    cases hField : cachedActiveJobCountField type with
    | none => exact emits_pure ()
    | some c =>
      have hCounter : P (.scheduler (.adjust c d)) := hP _ (isQueue_cachedActiveJobCountField hField)
      exact (emits_run hCounter).bind fun _ => emits_pure ()

theorem emits_afterJobInserted (hP : ∀ i, Stmt.isQueueCounter i → P i) (type : JobType) :
    (afterJobInserted type : StoreM Unit).Emits P :=
  (emits_adjustPendingJobCount hP 1).bind fun _ => emits_adjustActiveJobCount hP type 1

theorem emits_shouldAllowEnqueue (hLatch : P (.scheduler (.setQueueSchedulingPaused true)))
    (env : Env) (job : Job) (bypass : Bool) :
    (shouldAllowEnqueue env job bypass : StoreM Bool).Emits P := by
  have hFull : (expandAddressFull env job : StoreM Bool).Emits P := by
    cases job with
    | expandDownstream => exact (emits_query _).bind fun _ => emits_pure _
    | _ => exact emits_pure _
  have hPause : (StoreMonad.run (.scheduler (.setQueueSchedulingPaused true)) : StoreM Unit).Emits P :=
    emits_run hLatch
  unfold shouldAllowEnqueue
  split
  · exact emits_pure _
  refine Emits.bind (emits_query _) fun state => ?_
  dsimp only
  split
  · exact emits_pure _
  split
  · exact emits_pure _
  refine hFull.bind fun full => ?_
  split
  · exact emits_pure _
  split
  · exact emits_pure _
  split
  · exact emits_pure _
  split
  · exact hPause.bind fun _ => emits_pure _
  · exact emits_pure _

theorem emits_enqueueJob (hP : ∀ i, Stmt.isQueueCounter i → P i)
    (hLatch : P (.scheduler (.setQueueSchedulingPaused true))) (env : Env) {job : Job} {priority : Int}
    (hJob : ∀ runAt createdAt, P (.job (.insert job priority runAt createdAt)))
    (runAfter : Option Nat) (bypass : Bool) :
    (enqueueJob env job priority runAfter bypass : StoreM (Option Nat)).Emits P := by
  refine (emits_shouldAllowEnqueue hLatch env job bypass).bind fun allowed => ?_
  split
  · refine (emits_runAt runAfter).bind fun runAt => Emits.bind (emits_mem _) fun createdAt => ?_
    refine Emits.bind (emits_step _ (by simpa using hJob runAt createdAt)) fun id => ?_
    exact (emits_afterJobInserted hP job.type).bind fun _ => emits_pure _
  · exact emits_pure _

theorem emits_enqueueJobIfAbsent (hP : ∀ i, Stmt.isQueueCounter i → P i)
    (hLatch : P (.scheduler (.setQueueSchedulingPaused true))) (env : Env) {job : Job}
    {priority : Int} (hJob : ∀ runAt createdAt types address,
      P (.job (.insertIfAbsent job priority runAt createdAt types address)))
    (runAfter : Option Nat) (opts : EnqueueIfAbsentOptions) :
    (enqueueJobIfAbsent env job priority runAfter opts : StoreM (Option Nat)).Emits P := by
  refine (emits_shouldAllowEnqueue hLatch env job opts.bypassQueueCap).bind fun allowed => ?_
  split
  · refine (emits_runAt runAfter).bind fun runAt => Emits.bind (emits_mem _) fun createdAt => ?_
    refine Emits.bind (emits_step _ (by simpa using hJob runAt createdAt _ _)) fun inserted => ?_
    exact (emits_storeForEach fun _ => emits_afterJobInserted hP job.type).bind
      fun _ => emits_pure _
  · exact emits_pure _

theorem emits_markJobRunning (hP : ∀ i, Stmt.isQueueCounter i → P i) {id ts : Nat}
    (hJob : P (.job (.claim id ts))) : (markJobRunning id ts : StoreM (Option JobRow)).Emits P := by
  refine Emits.bind (emits_step _ (by simpa using hJob)) fun claimed => ?_
  split
  · exact (emits_adjustPendingJobCount hP _).bind fun _ => Emits.bind (emits_query _) fun _ =>
      emits_pure _
  · exact emits_pure _

theorem emits_claimSelected (hP : ∀ i, Stmt.isQueueCounter i → P i)
    (hJob : ∀ id ts, P (.job (.claim id ts))) (select : Db → Nat → Option Nat) :
    (claimSelected select : StoreM (Option (Nat × JobRow))).Emits P := by
  refine Emits.bind (emits_mem _) fun ts => Emits.bind (emits_query _) fun head => ?_
  cases head with
  | none => exact emits_pure _
  | some id => exact (emits_markJobRunning hP (hJob id ts)).bind fun _ => emits_pure _

theorem emits_completeJob (hP : ∀ i, Stmt.isQueueCounter i → P i) {id : Nat}
    (hJob : ∀ completedAt, P (.job (.complete id completedAt))) :
    (completeJob id : StoreM Unit).Emits P := by
  refine Emits.bind (emits_query _) fun job => Emits.bind (emits_mem _) fun completedAt =>
    (emits_run (hJob completedAt)).bind fun _ => ?_
  refine Emits.bind (emits_when fun _ => emits_adjustPendingJobCount hP _) fun _ =>
    Emits.bind (emits_storeForEach fun row => emits_when fun _ => emits_adjustActiveJobCount hP _ _)
      fun _ => Emits.bind (emits_when fun _ => ?_) fun _ => emits_run (hP _ rfl)
  exact Emits.bind (emits_query _) fun state => emits_when fun _ => emits_run (hP _ rfl)

theorem emits_failJob (hP : ∀ i, Stmt.isQueueCounter i → P i) {id : Nat}
    (hJob : ∀ attempts runAt, P (.job (.requeue id attempts runAt))) (runAfter : Option Nat) :
    (failJob id runAfter : StoreM Unit).Emits P := by
  refine Emits.bind (emits_query _) fun job => (emits_runAt runAfter).bind fun runAt => ?_
  exact (emits_run (hJob _ runAt)).bind fun _ => emits_when fun _ => emits_adjustPendingJobCount hP _

theorem emits_deferJob_of (hP : ∀ i, Stmt.isQueueCounter i → P i) {id runAfter : Nat}
    (hJob : P (.job (.requeue id 0 runAfter))) : (deferJob id runAfter : StoreM Unit).Emits P :=
  Emits.bind (emits_query _) fun _ => (emits_run hJob).bind fun _ =>
    emits_when fun _ => emits_adjustPendingJobCount hP _

theorem emits_reclaimJob (hP : ∀ i, Stmt.isQueueCounter i → P i) {id : Nat}
    (hJob : ∀ s, s.reclaims id → P (.job s)) (opts : ReclaimOptions) (row : JobRow) :
    (reclaimJob opts id row : StoreM Unit).Emits P := by
  unfold reclaimJob
  dsimp only
  split
  · exact Emits.bind emits_now fun nowMs => (emits_deferJob_of hP (hJob (.requeue id 0 _) rfl)).bind
      fun _ => emits_run (hJob (.clearReclaim id) rfl)
  · exact (emits_run (hJob (.reclaim id _ _) rfl)).bind fun _ => emits_adjustPendingJobCount hP 1

theorem emits_resetRunningJobs (hP : ∀ i, Stmt.isQueueCounter i → P i)
    (hJob : ∀ id s, s.reclaims id → P (.job s)) (opts : ReclaimOptions) :
    (resetRunningJobs opts : StoreM Unit).Emits P :=
  Emits.bind (emits_mem _) fun _ => (emits_query _).bind fun _ =>
    emits_storeForEach fun job => emits_reclaimJob hP (hJob job.1) opts job.2

theorem emits_deleteActiveJobsForAddress (hP : ∀ i, Stmt.isQueueCounter i → P i) {address : Address}
    (hJob : P (.job (.deleteActiveForAddress address))) :
    (deleteActiveJobsForAddress address : StoreM Unit).Emits P :=
  (emits_query _).bind fun _ => (emits_run hJob).bind fun _ =>
    (emits_adjustPendingJobCount hP _).bind fun _ =>
      emits_storeForEach fun e => emits_adjustActiveJobCount hP e.1 e.2

end Emits

end Bloodhound.Store
