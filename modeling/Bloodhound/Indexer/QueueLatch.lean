import Bloodhound.Indexer.JobRun
import Bloodhound.Store.Admission

/-!
# The latch of the queue

A check that finds the depth of the queue at or above `maxQueueDepth` sets the latch, and
`maybeClearQueueSchedulingPause` clears it at or below `queueSchedulingResumeDepth`. Between the two
only continued backfills enter; no other operation of the queue writes the latch.

* `latch_hysteresis`: both halves, for every run of operations on the queue.
-/

namespace Bloodhound.Indexer

open Store Journal Journal.Op

/-! ## Operations -/

/-- The operations on the queue, and the resume of the worker. -/
inductive LatchOp where
  | queue (op : QueueOp)
  | maybeClearQueueSchedulingPause

def LatchOp.run (env : Env) : LatchOp → StoreM Unit
  | .queue op => op.run env
  | .maybeClearQueueSchedulingPause => Indexer.maybeClearQueueSchedulingPause env

/-- The job whose admission the operation checks. -/
def LatchOp.checks : LatchOp → Option Job
  | .queue op => op.enqueues.bind fun e => if e.2 then none else some e.1
  | .maybeClearQueueSchedulingPause => none

theorem enqueues_of_checks {op : LatchOp} {job : Job} (h : op.checks = some job) :
    ∃ op', op = .queue op' ∧ op'.enqueues = some (job, false) := by
  cases op with
  | queue op' =>
    refine ⟨op', rfl, ?_⟩
    unfold LatchOp.checks at h
    obtain ⟨⟨job', bypass⟩, hEnqueues, hJob⟩ := Option.bind_eq_some_iff.mp h
    cases bypass with
    | true => cases hJob
    | false =>
      cases hJob
      exact hEnqueues
  | maybeClearQueueSchedulingPause => cases h

/-! ## Operations that leave the latch -/

def LeavesLatch (i : Stmt) : Prop := ∀ db : Db, (exec i db).latched = db.latched

theorem leavesLatch_job (s : JobStmt) : LeavesLatch (.job s) := fun _ => rfl

theorem leavesLatch_of_isQueueCounter (i : Stmt) (hi : i.isQueueCounter) : LeavesLatch i := by
  intro db
  cases i with
  | scheduler s => cases s <;> first | rfl | cases hi
  | _ => cases hi

/-- Apart from the checks of enqueues, the queue does not write the latch. -/
theorem emits_leavesLatch {env : Env} {op : QueueOp} (h : op.enqueues = none) :
    (op.run env).Emits LeavesLatch := by
  have hCounter := leavesLatch_of_isQueueCounter
  cases op with
  | enqueueJob | enqueueJobIfAbsent => cases h
  | claim select =>
    exact (emits_claimSelected hCounter (fun _ _ => leavesLatch_job _) select).bind fun _ => emits_pure ()
  | completeJob id => exact emits_completeJob hCounter fun _ => leavesLatch_job _
  | failJob id runAfter => exact emits_failJob hCounter (fun _ _ => leavesLatch_job _) runAfter
  | deferJob id runAfter => exact emits_deferJob_of hCounter (leavesLatch_job _)
  | resetRunningJobs opts => exact emits_resetRunningJobs hCounter (fun _ s _ => leavesLatch_job s) opts
  | deleteActiveJobsForAddress a => exact emits_deleteActiveJobsForAddress hCounter (leavesLatch_job _)
  | deleteActiveJobs =>
    exact (emits_query _).bind fun _ => (emits_query _).bind fun _ =>
      (emits_run (leavesLatch_job _)).bind fun _ => emits_run fun _ => rfl
  | pruneDoneJobsBatch batchSize cutoff => exact emits_run (leavesLatch_job _)

/-- The resume clears the latch at a low depth only. -/
theorem triple_maybeClearQueueSchedulingPause (env : Env) (db : Db) :
    Triple (fun s => s = db) (maybeClearQueueSchedulingPause env : StoreM Unit) (fun _ s => s.latched =
      (db.latched && decide ((env.store.queueSchedulingResumeDepth : Int) < db.depth))) fun _ _ => True := by
  refine Triple.bind (Q := fun state s => s = db ∧ state = db.scheduler) (triple_query
    (fun s hs => ⟨hs, hs ▸ rfl⟩) fun _ _ _ => trivial) fun state => triple_of_fact fun hState => ?_
  subst hState
  refine triple_when (fun hLow => triple_run (fun s hs => ?_) fun _ _ _ => trivial) fun hHigh s hs => ?_
  · have hNot : ¬ (env.store.queueSchedulingResumeDepth : Int) < db.depth := not_lt.mpr hLow
    show false = _
    rw [decide_eq_false hNot, Bool.and_false]
  · have hDepth : (env.store.queueSchedulingResumeDepth : Int) < db.depth := not_le.mp hHigh
    rw [hs, decide_eq_true hDepth, Bool.and_true]

/-- The latch after an enqueue. -/
theorem latch_of_outcome {env : Env} {job : Job} {bypass : Bool} {duplicate : Prop} {db s : Db}
    {id : Option Nat} (h : EnqueueOutcome env job bypass duplicate db id s) :
    ∃ allowed s', Admission env job bypass db allowed s' ∧ s.latched = s'.latched := by
  cases h with
  | refused h => exact ⟨false, s, h, rfl⟩
  | duplicate h => exact ⟨true, s, h, rfl⟩
  | inserted row h hJob _ hJobs hLatch => exact ⟨true, _, h, hLatch⟩

/-! ## The latch is set -/

/-- The check of the job comes to the depth and finds it at or above the bound. -/
structure FindsFull (env : Env) (job : Job) (db : Db) : Prop where
  noCap : ¬ CapReached env job db
  depth : env.store.maxQueueDepth ≤ db.depth

theorem latched_of_full {env : Env} {job : Job} {db s : Db} {allowed : Bool}
    (h : Admission env job false db allowed s) (hFull : FindsFull env job db) : s.latched = true := by
  cases h with
  | bypassed h => cases h
  | latched _ hLatch => exact hLatch
  | capped _ _ hCap => exact absurd hCap hFull.noCap
  | full => rfl
  | room _ _ _ hDepth => exact absurd hFull.depth (not_le.mpr hDepth)

theorem latched_of_admission {env : Env} {job : Job} {bypass : Bool} {db s : Db} {allowed : Bool}
    (h : Admission env job bypass db allowed s) (hLatch : db.latched = true) : s.latched = true := by
  cases h with
  | full => rfl
  | _ => exact hLatch

/-- No resume sees a depth at or below the resume depth. -/
def Unresumed (env : Env) : LatchOp → Db → Prop
  | .maybeClearQueueSchedulingPause, db => (env.store.queueSchedulingResumeDepth : Int) < db.depth
  | _, _ => True

theorem latched_of_step {env : Env} {op : LatchOp} {db : Db} {c : Ctl Mem Err}
    (hUnresumed : Unresumed env op db) (hOk : (op.run env db c).res = .ok ()) (hLatch : db.latched = true) :
    ((op.run env).final db c).latched = true := by
  cases op with
  | maybeClearQueueSchedulingPause =>
    refine ((triple_maybeClearQueueSchedulingPause env db).ok rfl hOk).trans ?_
    rw [hLatch, Bool.true_and]
    exact decide_eq_true hUnresumed
  | queue op =>
    cases hEnqueues : op.enqueues with
    | none =>
      exact (triple_of_emits (P := fun s : Db => s.latched = true) (emits_leavesLatch hEnqueues)
        fun i hi s hs => (hi s).trans hs).ok hLatch hOk
    | some e =>
      obtain ⟨_, _, h⟩ := outcome_of_op hEnqueues hOk
      obtain ⟨_, _, hAdmission, hSame⟩ := latch_of_outcome h
      exact hSame.trans (latched_of_admission hAdmission hLatch)

theorem continued_of_admission {env : Env} {job : Job} {db s : Db} {allowed : Bool}
    (h : Admission env job false db allowed s) (hLatch : db.latched = true) (hAllowed : allowed = true) :
    job.type = .backfillHackerAddress ∧ isIngestContinuation job = true := by
  cases h with
  | bypassed h => cases h
  | latched => rwa [Bool.and_eq_true, decide_eq_true_eq] at hAllowed
  | capped => cases hAllowed
  | full _ hOpen | room _ hOpen =>
    rw [hLatch] at hOpen
    cases hOpen

/-- Behind the latch a checked job is a continued backfill where it enters. -/
theorem continued_of_latched {env : Env} {job : Job} {duplicate : Prop} {db s : Db} {id : Option Nat}
    (h : EnqueueOutcome env job false duplicate db id s) (hLatch : db.latched = true) {new : Nat}
    {row : JobRow} (hOld : db.jobs.lookup new = none) (hNew : s.jobs.lookup new = some row) :
    row.job.type = .backfillHackerAddress ∧ isIngestContinuation row.job = true := by
  cases h with
  | refused h | duplicate h =>
    rw [h.jobs, hOld] at hNew
    cases hNew
  | inserted row' h hJob _ hJobs =>
    rw [hJobs, lookup_insertRow] at hNew
    split at hNew
    · cases hNew
      exact hJob ▸ continued_of_admission h hLatch rfl
    · rw [hOld] at hNew
      cases hNew

/-! ## The latch is clear -/

theorem clear_of_step {env : Env} {op : LatchOp} {db : Db} {c : Ctl Mem Err}
    (hDepth : db.depth < env.store.maxQueueDepth) (hOk : (op.run env db c).res = .ok ())
    (hClear : db.latched = false) : ((op.run env).final db c).latched = false := by
  cases op with
  | maybeClearQueueSchedulingPause =>
    refine ((triple_maybeClearQueueSchedulingPause env db).ok rfl hOk).trans ?_
    rw [hClear, Bool.false_and]
  | queue op =>
    cases hEnqueues : op.enqueues with
    | none =>
      exact (triple_of_emits (P := fun s : Db => s.latched = false) (emits_leavesLatch hEnqueues)
        fun i hi s hs => (hi s).trans hs).ok hClear hOk
    | some e =>
      obtain ⟨_, _, h⟩ := outcome_of_op hEnqueues hOk
      obtain ⟨_, _, hAdmission, hSame⟩ := latch_of_outcome h
      refine hSame.trans ?_
      cases hAdmission with
      | full _ _ _ hFull => exact absurd hFull (not_le.mpr hDepth)
      | _ => exact hClear

/-- Where the latch is clear and the depth is below its bound, only a cap or a duplicate refuses. -/
theorem refused_of_clear {env : Env} {job : Job} {bypass : Bool} {duplicate : Prop} {db s : Db}
    (h : EnqueueOutcome env job bypass duplicate db none s) (hClear : db.latched = false)
    (hDepth : db.depth < env.store.maxQueueDepth) : CapReached env job db ∨ duplicate := by
  cases h with
  | duplicate _ h => exact Or.inr h
  | refused h =>
    generalize hRefused : false = allowed at h
    cases h with
    | bypassed | room => cases hRefused
    | latched _ hLatch =>
      rw [hClear] at hLatch
      cases hLatch
    | capped _ _ hCap => exact Or.inl hCap
    | full _ _ _ hFull => exact absurd hFull (not_le.mpr hDepth)

/-! ## Runs -/

/-- A run without a resume at a low depth. -/
abbrev UnresumedRun (env : Env) : Db → Db → Prop :=
  OpRun (LatchOp.run env) fun op db _ => Unresumed env op db

/-- A run whose operations start below the bound on the depth. -/
abbrev ShallowRun (env : Env) : Db → Db → Prop :=
  OpRun (LatchOp.run env) fun _ db _ => db.depth < env.store.maxQueueDepth

/-- After a check that has found the queue full, and until a resume at a low depth, every checked
job that enters is a continued backfill. From a clear latch, as long as the depth is below its
bound, an enqueue is refused by a cap or as a duplicate only. -/
theorem latch_hysteresis {env : Env} :
    (∀ (db db' : Db) (op later : LatchOp) (job job' : Job) (c c' : Ctl Mem Err) (id : Nat) (row : JobRow),
      op.checks = some job → FindsFull env job db → (op.run env db c).res = .ok () →
      UnresumedRun env ((op.run env).final db c) db' →
      later.checks = some job' → (later.run env db' c').res = .ok () →
      db'.jobs.lookup id = none → ((later.run env).final db' c').jobs.lookup id = some row →
      row.job.type = .backfillHackerAddress ∧ isIngestContinuation row.job = true) ∧
    ∀ (db db' : Db) (job : Job) (priority : Int) (runAfter : Option Nat) (c : Ctl Mem Err),
      db.latched = false → ShallowRun env db db' → db'.depth < env.store.maxQueueDepth →
      (∀ bypass, (enqueueJob (m := StoreM) env job priority runAfter bypass db' c).res = .ok none →
        CapReached env job db') ∧
      ∀ opts, (enqueueJobIfAbsent (m := StoreM) env job priority runAfter opts db' c).res = .ok none →
        CapReached env job db' ∨ db'.jobs.hasActive (opts.dedupeTypes.getD [job.type])
          (opts.address.or job.address) = true := by
  constructor
  · intro db db' op later job job' c c' id row hChecks hFull hOk hRun hLater hOk' hOld hNew
    have hSet : ((op.run env).final db c).latched = true := by
      obtain ⟨op', rfl, hEnqueues⟩ := enqueues_of_checks hChecks
      obtain ⟨_, _, h⟩ := outcome_of_op hEnqueues hOk
      obtain ⟨_, _, hAdmission, hSame⟩ := latch_of_outcome h
      exact hSame.trans (latched_of_full hAdmission hFull)
    have hLatch : db'.latched = true :=
      opRun_invariant (I := fun s : Db => s.latched = true)
        (fun _ _ _ hUnresumed hOk hI => latched_of_step hUnresumed hOk hI) hRun hSet
    obtain ⟨later', rfl, hEnqueues⟩ := enqueues_of_checks hLater
    obtain ⟨_, _, h⟩ := outcome_of_op hEnqueues hOk'
    exact continued_of_latched h hLatch hOld hNew
  · intro db db' job priority runAfter c hClear hRun hDepth
    have hLatch : db'.latched = false :=
      opRun_invariant (I := fun s : Db => s.latched = false)
        (fun _ _ _ hShallow hOk hI => clear_of_step hShallow hOk hI) hRun hClear
    constructor
    · intro bypass hOk
      have h := (triple_enqueueJob env job priority runAfter db' bypass).ok rfl hOk
      exact (refused_of_clear h hLatch hDepth).elim (fun h => h) False.elim
    · intro opts hOk
      have h := (triple_enqueueJobIfAbsent env job priority runAfter db' opts).ok rfl hOk
      exact refused_of_clear h hLatch hDepth

/-! ### A full queue of one job -/

def latchEnv : Env where
  provider := .ofTxs []
  store :=
    { maxQueueDepth := 1, queueSchedulingResumeDepth := 0, maxPendingExpandPerAddress := 0 }

def enqueueOp (job : Job) : LatchOp := .queue (.enqueueJob job 1 none false)

def claimOp : LatchOp := .queue (.claim fun _ _ => some 1)

def continuedBackfill : Job := .backfillHackerAddress { address := name "h", chainCursor := some (name "t") }

def afterOp (op : LatchOp) (db : Db) : Db := (op.run latchEnv).final db ⟨{}, []⟩

def oneEnqueued : Db := afterOp (enqueueOp (.processTx (name "t"))) .initial

/-- A second job is refused, a resume at depth one keeps the latch, and the job is claimed. -/
def drained : Db :=
  afterOp claimOp (afterOp .maybeClearQueueSchedulingPause (afterOp (enqueueOp (.processTx (name "u"))) oneEnqueued))

theorem returns_of_toOption {op : LatchOp} {db : Db}
    (h : ((op.run latchEnv db ⟨{}, []⟩).res.toOption.map id) = some ()) :
    (op.run latchEnv db ⟨{}, []⟩).res = .ok () := by
  obtain ⟨_, hOk, _⟩ := exists_ok h
  exact hOk

theorem findsFull_oneEnqueued : FindsFull latchEnv (.processTx (name "u")) oneEnqueued where
  noCap := by
    rintro (⟨hType, _⟩ | ⟨_, hType, _⟩ | ⟨hType, _⟩ | ⟨hType, _⟩) <;> cases hType
  depth := by decide +kernel

/-- The drained queue still admits a continued backfill only; a new store refuses an expand job by
its cap. -/
theorem latch_hysteresis_drained :
    (continuedBackfill.type = .backfillHackerAddress ∧ isIngestContinuation continuedBackfill = true) ∧
    CapReached latchEnv (.expandDownstream { address := name "a" }) .initial := by
  have hLatch := @latch_hysteresis latchEnv
  have hDepth : (latchEnv.store.queueSchedulingResumeDepth : Int) <
      (afterOp (enqueueOp (.processTx (name "u"))) oneEnqueued).depth := by decide +kernel
  have hResume : OpStep (LatchOp.run latchEnv) (fun op db _ => Unresumed latchEnv op db)
      (afterOp (enqueueOp (.processTx (name "u"))) oneEnqueued) _ :=
    ⟨.maybeClearQueueSchedulingPause, ⟨{}, []⟩, hDepth, returns_of_toOption (by decide +kernel), rfl⟩
  have hClaim : OpStep (LatchOp.run latchEnv) (fun op db _ => Unresumed latchEnv op db)
      (afterOp .maybeClearQueueSchedulingPause (afterOp (enqueueOp (.processTx (name "u"))) oneEnqueued))
      drained := ⟨claimOp, ⟨{}, []⟩, trivial, returns_of_toOption (by decide +kernel), rfl⟩
  constructor
  · exact hLatch.1 oneEnqueued drained (enqueueOp (.processTx (name "u"))) (enqueueOp continuedBackfill) _
      continuedBackfill ⟨{}, []⟩ ⟨{}, []⟩ 2
      { job := continuedBackfill, priority := 1, runAfter := 0, createdAt := 0 } rfl findsFull_oneEnqueued
      (returns_of_toOption (by decide +kernel)) ((Relation.ReflTransGen.single hResume).tail hClaim) rfl
      (returns_of_toOption (by decide +kernel)) (by decide +kernel) (by decide +kernel)
  · refine (hLatch.2 .initial .initial (.expandDownstream { address := name "a" }) 1 none ⟨{}, []⟩ rfl .refl
      (by decide +kernel)).1 false ?_
    have hRefused : ((enqueueJob (m := StoreM) latchEnv (.expandDownstream { address := name "a" }) 1 none
        false .initial ⟨{}, []⟩).res.toOption.map id) = some none := by decide +kernel
    obtain ⟨_, hOk, rfl⟩ := exists_ok hRefused
    exact hOk

end Bloodhound.Indexer
