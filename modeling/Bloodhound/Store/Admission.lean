import Bloodhound.Store.QueueCounters

/-!
# Admission to the queue

What `shouldAllowEnqueue` decides from the state that it reads (`Admission`), and what `enqueueJob`
and `enqueueJobIfAbsent` then leave (`EnqueueOutcome`, and `EnqueueFailure` where they throw). Nothing is said here of the counters that
the check reads.
-/

namespace Bloodhound.Store

open Indexer Journal Journal.Op

/-! ## Active jobs -/

/-- The number of active jobs that satisfy `q`. -/
def JobTable.activeCount (q : Job → Bool) (t : JobTable) : Nat :=
  t.count fun r => r.active && q r.job

def ofType (type : JobType) (job : Job) : Bool := job.type = type

def ofAddress (type : JobType) (address : Address) (job : Job) : Bool :=
  job.type = type && job.address = some address

/-! ## The check -/

/-- A cap refuses the job. -/
inductive CapReached (env : Env) (job : Job) (db : Db) : Prop where
  | expand (hType : job.type = .expandDownstream)
    (hCap : (env.store.maxPendingExpandGlobal : Int) ≤ db.scheduler.counter .activeExpand)
  | expandAddress (address : Address) (hType : job.type = .expandDownstream)
    (hAddress : job.address = some address)
    (hCap : env.store.maxPendingExpandPerAddress ≤
      db.jobs.activeCount (ofAddress .expandDownstream address))
  | backfill (hType : job.type = .backfillHackerAddress) (hNew : isIngestContinuation job = false)
    (hCap : (env.store.maxPendingBackfillGlobal : Int) ≤ db.scheduler.counter .activeBackfill)
  | audit (hType : job.type = .auditHackerBackfill)
    (hCap : (env.store.maxPendingAuditGlobal : Int) ≤ db.scheduler.counter .activeAudit)

/-- The depth that the check compares. -/
def Db.depth (db : Db) : Int := db.scheduler.counter .pendingJob

def Db.latched (db : Db) : Bool := db.scheduler.queueSchedulingPaused

/-- The answer of a check, and the state after it. -/
inductive Admission (env : Env) (job : Job) (bypassQueueCap : Bool) (db : Db) : Bool → Db → Prop where
  | bypassed (h : bypassQueueCap = true) : Admission env job bypassQueueCap db true db
  | latched (h : bypassQueueCap = false) (hLatch : db.latched = true) :
    Admission env job bypassQueueCap db
      (job.type = .backfillHackerAddress && isIngestContinuation job) db
  | capped (h : bypassQueueCap = false) (hLatch : db.latched = false) (hCap : CapReached env job db) :
    Admission env job bypassQueueCap db false db
  | full (h : bypassQueueCap = false) (hLatch : db.latched = false) (hCap : ¬ CapReached env job db)
    (hDepth : env.store.maxQueueDepth ≤ db.depth) :
    Admission env job bypassQueueCap db (isIngestContinuation job)
      (exec (Stmt.scheduler (.setQueueSchedulingPaused true)) db)
  | room (h : bypassQueueCap = false) (hLatch : db.latched = false) (hCap : ¬ CapReached env job db)
    (hDepth : db.depth < env.store.maxQueueDepth) : Admission env job bypassQueueCap db true db

theorem Admission.jobs {env : Env} {job : Job} {bypass allowed : Bool} {db db' : Db}
    (h : Admission env job bypass db allowed db') : db'.jobs = db.jobs := by
  cases h <;> rfl

/-- The jobs of the address of an expand job, as the check counts them. -/
theorem triple_expandAddressFull (env : Env) (job : Job) (db : Db) :
    Triple (fun s => s = db) (expandAddressFull env job : StoreM Bool)
      (fun full s => s = db ∧ (full = true ↔ ∃ address, job.type = .expandDownstream ∧
        job.address = some address ∧ env.store.maxPendingExpandPerAddress ≤
          db.jobs.activeCount (ofAddress .expandDownstream address))) fun _ _ => True := by
  cases job with
  | expandDownstream p =>
    refine Triple.bind (Q := fun n s => s = db ∧ n = min (env.store.maxPendingExpandPerAddress + 1)
      (db.jobs.activeCount (ofAddress .expandDownstream p.address))) (triple_query (fun s h => ⟨h, ?_⟩)
        fun _ _ _ => trivial) fun n => triple_pure _ fun s h => ⟨h.1, ?_⟩
    · subst h
      congr 1
      refine List.countP_congr fun e _ => ?_
      simp only [ofAddress, Bool.and_eq_true]
      tauto
    · rw [decide_eq_true_eq, h.2]
      constructor
      · intro hFull
        exact ⟨p.address, rfl, rfl, by omega⟩
      · rintro ⟨address, _, hAddress, hCap⟩
        cases hAddress
        omega
  | _ =>
    refine triple_pure _ fun s h => ⟨h, iff_of_false Bool.false_ne_true ?_⟩
    rintro ⟨_, hType, _⟩
    cases hType

theorem triple_shouldAllowEnqueue (env : Env) (job : Job) (bypass : Bool) (db : Db) :
    Triple (fun s => s = db) (shouldAllowEnqueue env job bypass : StoreM Bool)
      (Admission env job bypass db) fun _ _ => True := by
  unfold shouldAllowEnqueue
  split
  · next h => exact triple_pure _ fun s hs => hs ▸ .bypassed h
  next h =>
  rw [Bool.not_eq_true] at h
  refine Triple.bind (Q := fun state s => s = db ∧ state = db.scheduler) (triple_query
    (fun s hs => ⟨hs, hs ▸ rfl⟩) fun _ _ _ => trivial) fun state => triple_of_fact fun hState => ?_
  subst hState
  dsimp only
  split
  · next hLatch => exact triple_pure _ fun s (hs : s = db) => hs.symm ▸ .latched h hLatch
  next hOpen =>
  have hLatch : db.latched = false := Bool.eq_false_iff.mpr hOpen
  have hCapped : CapReached env job db → Triple (fun s => s = db) (pure false : StoreM Bool)
      (Admission env job bypass db) fun _ _ => True :=
    fun hCap => triple_pure _ fun s (hs : s = db) => hs.symm ▸ .capped h hLatch hCap
  split
  · next hExpand => exact hCapped (.expand hExpand.1 hExpand.2)
  next hExpand =>
  refine (triple_expandAddressFull env job db).bind fun full => triple_of_fact fun hFull => ?_
  split
  · next hTrue =>
    obtain ⟨address, hType, hAddress, hCap⟩ := hFull.mp hTrue
    exact hCapped (.expandAddress address hType hAddress hCap)
  next hAddress =>
  split
  · next hBackfill => exact hCapped (.backfill hBackfill.1 hBackfill.2.1 hBackfill.2.2)
  next hBackfill =>
  split
  · next hAudit => exact hCapped (.audit hAudit.1 hAudit.2)
  next hAudit =>
  have hCap : ¬ CapReached env job db := by
    rintro (⟨hType, hCap⟩ | ⟨address, hType, hAt, hCap⟩ | ⟨hType, hNew, hCap⟩ | ⟨hType, hCap⟩)
    · exact hExpand ⟨hType, hCap⟩
    · exact hAddress (hFull.mpr ⟨address, hType, hAt, hCap⟩)
    · exact hBackfill ⟨hType, hNew, hCap⟩
    · exact hAudit ⟨hType, hCap⟩
  split
  · next hDepth =>
    exact Triple.bind (Q := fun _ s => s = exec (Stmt.scheduler (.setQueueSchedulingPaused true)) db)
      (triple_run (fun s hs => hs ▸ rfl) fun _ _ _ => trivial) fun _ =>
        triple_pure _ fun s hs => hs ▸ .full h hLatch hCap hDepth
  · next hDepth => exact triple_pure _ fun s (hs : s = db) => hs.symm ▸ .room h hLatch hCap (not_le.mp hDepth)

/-! ## The enqueue -/

/-- What an enqueue returns and leaves; `duplicate` holds where an active job stands for it. -/
inductive EnqueueOutcome (env : Env) (job : Job) (bypassQueueCap : Bool) (duplicate : Prop) (db : Db) :
    Option Nat → Db → Prop where
  | refused {s : Db} (h : Admission env job bypassQueueCap db false s) :
    EnqueueOutcome env job bypassQueueCap duplicate db none s
  | duplicate {s : Db} (h : Admission env job bypassQueueCap db true s) (hDuplicate : duplicate) :
    EnqueueOutcome env job bypassQueueCap duplicate db none s
  | inserted {s s' : Db} (row : JobRow) (h : Admission env job bypassQueueCap db true s)
    (hJob : row.job = job) (hActive : row.active = true) (hJobs : s'.jobs = db.jobs.insertRow row)
    (hLatch : s'.latched = s.latched) :
    EnqueueOutcome env job bypassQueueCap duplicate db (some db.jobs.nextId) s'

/-- What an enqueue that throws leaves: the jobs as they were, or with the job that was admitted. -/
inductive EnqueueFailure (env : Env) (job : Job) (bypassQueueCap : Bool) (db : Db) : Db → Prop where
  | before {s : Db} (hJobs : s.jobs = db.jobs) : EnqueueFailure env job bypassQueueCap db s
  | inserted {s s' : Db} (row : JobRow) (h : Admission env job bypassQueueCap db true s)
    (hJob : row.job = job) (hActive : row.active = true) (hJobs : s'.jobs = db.jobs.insertRow row) :
    EnqueueFailure env job bypassQueueCap db s'

/-- A check writes no job, wherever it stops. -/
theorem triple_jobs_shouldAllowEnqueue (env : Env) (job : Job) (bypass : Bool) (db : Db) :
    Triple (fun s => s = db) (shouldAllowEnqueue env job bypass : StoreM Bool)
      (fun _ s => s.jobs = db.jobs) fun _ s => s.jobs = db.jobs :=
  (triple_of_emits (emits_shouldAllowEnqueue (P := fun i => ∀ s : Db, (exec i s).jobs = s.jobs)
    (fun _ => rfl) env job bypass) fun _ hi s hs => (hi s).trans hs).pre fun _ hs => hs ▸ rfl

/-- The counters are adjusted after the insertion, and nothing else changes. -/
theorem triple_afterInserted (type : JobType) (t : JobTable) (latch : Bool) :
    Triple (fun db => db.jobs = t ∧ db.latched = latch) (afterJobInserted type : StoreM Unit)
      (fun _ db => db.jobs = t ∧ db.latched = latch) fun _ db => db.jobs = t ∧ db.latched = latch := by
  have hEmits := emits_afterJobInserted (P := fun i => ∀ db : Db,
    (exec i db).jobs = db.jobs ∧ (exec i db).latched = db.latched) (fun i hi db => ?_) type
  · exact triple_of_emits hEmits fun i hi db h => ⟨(hi db).1.trans h.1, (hi db).2.trans h.2⟩
  · cases i with
    | scheduler s => cases s <;> first | exact ⟨rfl, rfl⟩ | cases hi
    | _ => cases hi

section Enqueue

variable (env : Env) (job : Job) (priority : Int) (runAfter : Option Nat) (db : Db)

theorem triple_enqueueJob (bypass : Bool) :
    Triple (fun s => s = db) (enqueueJob env job priority runAfter bypass : StoreM (Option Nat))
      (EnqueueOutcome env job bypass False db) fun _ => EnqueueFailure env job bypass db := by
  have hCheck : Triple (fun s => s = db) (shouldAllowEnqueue env job bypass : StoreM Bool)
      (Admission env job bypass db) fun _ => EnqueueFailure env job bypass db :=
    ((triple_shouldAllowEnqueue env job bypass db).and
      (triple_jobs_shouldAllowEnqueue env job bypass db)).conseq (fun _ h => ⟨h, h⟩) (fun _ _ h => h.1)
      fun _ _ h => .before h.2
  refine hCheck.bind fun allowed => ?_
  split
  · next hAllowed =>
    subst hAllowed
    refine (triple_runAt runAfter).bind fun runAt => triple_clock.bind fun createdAt => ?_
    let row : JobRow := { job, priority, runAfter := runAt, createdAt }
    refine triple_of_state fun s hs => ?_
    refine Triple.bind (Q := fun id s' => (s'.jobs = db.jobs.insertRow row ∧ s'.latched = s.latched) ∧
      id = db.jobs.nextId) (triple_step ?_ ?_) fun id => triple_of_fact fun hId => ?_
    · rintro s' rfl
      have hJobs := hs.jobs
      exact ⟨⟨hJobs ▸ rfl, rfl⟩, hJobs ▸ rfl⟩
    · rintro s' rfl e
      exact .before hs.jobs
    · refine ((triple_afterInserted job.type _ _).conseq (fun _ h => h) (fun _ _ h => h)
        fun _ _ h => EnqueueFailure.inserted row hs rfl rfl h.1).bind fun _ =>
          triple_pure _ fun s' h => ?_
      exact hId ▸ .inserted row hs rfl rfl h.1 h.2
  · next hAllowed =>
    cases Bool.eq_false_iff.mpr hAllowed
    exact triple_pure _ fun s hs => .refused hs

theorem triple_enqueueJobIfAbsent (opts : EnqueueIfAbsentOptions) :
    Triple (fun s => s = db)
      (enqueueJobIfAbsent env job priority runAfter opts : StoreM (Option Nat))
      (EnqueueOutcome env job opts.bypassQueueCap (db.jobs.hasActive
        (opts.dedupeTypes.getD [job.type]) (opts.address.or job.address) = true) db)
      fun _ _ => True := by
  refine (triple_shouldAllowEnqueue env job opts.bypassQueueCap db).bind fun allowed => ?_
  split
  · next hAllowed =>
    subst hAllowed
    refine (triple_runAt runAfter).bind fun runAt => triple_clock.bind fun createdAt => ?_
    let row : JobRow := { job, priority, runAfter := runAt, createdAt }
    refine triple_of_state fun s hs => ?_
    have hJobs := hs.jobs
    cases hHas : db.jobs.hasActive (opts.dedupeTypes.getD [job.type]) (opts.address.or job.address) with
    | true =>
      refine Triple.bind (Q := fun inserted s' => s' = s ∧ inserted = none) (triple_step ?_
        fun _ _ _ => trivial) fun inserted => triple_of_fact fun hNone => ?_
      · rintro s' rfl
        rw [← hJobs] at hHas
        refine ⟨?_, if_pos hHas⟩
        show { s' with jobs := if _ then _ else _ } = s'
        rw [if_pos hHas]
      · subst hNone
        exact triple_pure _ fun s' h => h ▸ .duplicate hs rfl
    | false =>
      refine Triple.bind (Q := fun inserted s' => (s'.jobs = db.jobs.insertRow row ∧
        s'.latched = s.latched) ∧ inserted = some db.jobs.nextId) (triple_step ?_
          fun _ _ _ => trivial) fun inserted => triple_of_fact fun hSome => ?_
      · rintro s' rfl
        rw [← hJobs] at hHas
        have hNot : ¬ s'.jobs.hasActive (opts.dedupeTypes.getD [job.type])
            (opts.address.or job.address) = true := by rw [hHas]; exact Bool.false_ne_true
        refine ⟨⟨?_, rfl⟩, ?_⟩
        · show (if _ then _ else _) = _
          rw [if_neg hNot, hJobs]
        · show (if _ then _ else _) = _
          rw [if_neg hNot, hJobs]
      · subst hSome
        rw [forEach_eq]
        have hAfter := (triple_afterInserted job.type (db.jobs.insertRow row) s.latched).conseq
          (fun _ h => h) (fun _ _ h => h) fun _ _ _ => trivial
        exact (triple_forEach fun _ _ => hAfter).bind fun _ =>
          triple_pure _ fun s' h => .inserted row hs rfl rfl h.1 h.2
  · next hAllowed =>
    cases Bool.eq_false_iff.mpr hAllowed
    exact triple_pure _ fun s hs => .refused hs

end Enqueue

/-- The job that an operation enqueues, and whether it bypasses the check. -/
def QueueOp.enqueues : QueueOp → Option (Job × Bool)
  | .enqueueJob job _ _ bypassQueueCap => some (job, bypassQueueCap)
  | .enqueueJobIfAbsent job _ _ opts => some (job, opts.bypassQueueCap)
  | _ => none

theorem outcome_of_op {env : Env} {op : QueueOp} {job : Job} {bypass : Bool} {db : Db}
    {c : Ctl Mem Err} (h : op.enqueues = some (job, bypass)) (hOk : (op.run env db c).res = .ok ()) :
    ∃ duplicate id, EnqueueOutcome env job bypass duplicate db id ((op.run env).final db c) := by
  have hDiscard : ∀ {p : StoreM (Option Nat)} {duplicate : Prop},
      Triple (fun s => s = db) p (EnqueueOutcome env job bypass duplicate db) (fun _ _ => True) →
      Triple (fun s => s = db) (p >>= fun _ => (pure () : StoreM Unit))
        (fun _ s => ∃ duplicate id, EnqueueOutcome env job bypass duplicate db id s) fun _ _ => True :=
    fun hp => hp.bind fun id => triple_pure () fun s hs => ⟨_, id, hs⟩
  cases op with
  | enqueueJob job' priority runAfter bypass' =>
    cases h
    have hEnqueue := (triple_enqueueJob env job priority runAfter db bypass).conseq (fun _ h => h)
      (fun _ _ h => h) fun _ _ _ => trivial
    exact (hDiscard hEnqueue).ok rfl hOk
  | enqueueJobIfAbsent job' priority runAfter opts =>
    cases h
    exact (hDiscard (triple_enqueueJobIfAbsent env job priority runAfter db opts)).ok rfl hOk
  | _ => cases h

end Bloodhound.Store
