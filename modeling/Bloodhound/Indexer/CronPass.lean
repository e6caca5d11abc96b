import Bloodhound.Lib.Memory
import Bloodhound.Indexer.CronRequests
import Bloodhound.Store.AddressCounters

/-!
# The cron pass

A run of `scheduleTick` against the requests that `Cron.scheduled` collects. The queue takes a request of
a pass exactly where `takes` says so (`Inserted.outcome`): the latch and the counters move with the
insertions only, and a latch that is set on the way finds a queue that stays full. Each step of a pass
inserts what the gate admits of its requests, and so does the whole (`insertedSince_scheduleTick`).
-/

namespace Bloodhound.Indexer

open Store Journal
open Journal.Op (query run when forEach Triple triple_pure triple_query triple_run triple_when
  triple_of_state triple_of_fact triple_mem triple_of_emits emits_query emits_run emits_forEach)

/-! ## What a request leaves -/

/-- The scheduler row after a job of the type was inserted. -/
def counted (type : JobType) (state : SchedulerState) : SchedulerState :=
  (cachedActiveJobCountField type).elim (state.adjust .pendingJob 1) fun c =>
    (state.adjust .pendingJob 1).adjust c 1

theorem triple_counted (type : JobType) (db : Db) :
    Triple (fun s => s = db) (afterJobInserted type : StoreM Unit)
      (fun _ s => s = { db with scheduler := counted type db.scheduler }) fun _ _ => True := by
  have hPending : Triple (fun s => s = db) (adjustPendingJobCount 1 : StoreM Unit)
      (fun _ s => s = { db with scheduler := db.scheduler.adjust .pendingJob 1 }) fun _ _ => True := by
    refine triple_when (fun _ => triple_run (fun s hs => hs ▸ rfl) fun _ _ _ => trivial) fun h => ?_
    exact absurd (by decide) h
  refine hPending.bind fun _ => triple_when (fun _ => ?_) fun h => absurd (by decide) h
  rw [forEach_eq]
  unfold counted
  cases cachedActiveJobCountField type with
  | none => exact triple_pure () fun _ hs => hs
  | some c =>
    refine Triple.bind (Q := fun _ s => s = { db with
      scheduler := (db.scheduler.adjust .pendingJob 1).adjust c 1 }) ?_ fun _ => triple_pure () fun _ hs => hs
    exact triple_run (fun s hs => hs ▸ rfl) fun _ _ _ => trivial

/-- What the enqueue of a tick returns and leaves. -/
inductive TickOutcome (env : Env) (r : Request) (db : Db) : Option Nat → Db → Prop where
  | refused {s : Db} (h : Admission env r.job false db false s) : TickOutcome env r db none s
  | duplicate {s : Db} (h : Admission env r.job false db true s)
    (hDuplicate : db.jobs.hasActive r.types r.address = true) : TickOutcome env r db none s
  | inserted {s : Db} (row : JobRow) (h : Admission env r.job false db true s)
    (hNew : db.jobs.hasActive r.types r.address = false) (hJob : row.job = r.job)
    (hActive : row.active = true) : TickOutcome env r db (some db.jobs.nextId)
      { s with jobs := db.jobs.insertRow row, scheduler := counted r.job.type s.scheduler }

theorem triple_enqueueForTick (env : Env) (job : Job) (priority : Int) {opts : EnqueueIfAbsentOptions}
    (hOpts : opts.bypassQueueCap = false) (db : Db) :
    Triple (fun s => s = db) (enqueueForTick env job priority opts)
      (TickOutcome env (request job opts) db) fun _ _ => True := by
  have hCheck : Triple (fun s => s = db) (shouldAllowEnqueue env job opts.bypassQueueCap : StoreM Bool)
      (Admission env job false db) fun _ _ => True := by
    rw [hOpts]
    exact triple_shouldAllowEnqueue env job false db
  refine hCheck.bind fun allowed => ?_
  split
  · next hAllowed =>
    subst hAllowed
    refine (triple_runAt none).bind fun runAt => triple_clock.bind fun createdAt => ?_
    let row : JobRow := { job, priority, runAfter := runAt, createdAt }
    refine triple_of_state fun s hs => ?_
    have hJobs := hs.jobs
    cases hHas : db.jobs.hasActive (opts.dedupeTypes.getD [job.type]) (opts.address.or job.address) with
    | true =>
      refine Triple.bind (Q := fun inserted s' => s' = s ∧ inserted = none) (Journal.Op.triple_step ?_
        fun _ _ _ => trivial) fun inserted => triple_of_fact fun hNone => ?_
      · rintro s' rfl
        rw [← hJobs] at hHas
        refine ⟨?_, if_pos hHas⟩
        show { s' with jobs := if _ then _ else _ } = s'
        rw [if_pos hHas]
      · subst hNone
        exact triple_pure _ fun s' h => h ▸ .duplicate hs hHas
    | false =>
      refine Triple.bind (Q := fun inserted s' => s' = { s with jobs := db.jobs.insertRow row } ∧
        inserted = some db.jobs.nextId) (Journal.Op.triple_step ?_ fun _ _ _ => trivial) fun inserted =>
          triple_of_fact fun hSome => ?_
      · rintro s' rfl
        have hNot : ¬ s'.jobs.hasActive (opts.dedupeTypes.getD [job.type])
            (opts.address.or job.address) = true := by rw [hJobs, hHas]; exact Bool.false_ne_true
        refine ⟨?_, ?_⟩
        · show { s' with jobs := if _ then _ else _ } = _
          rw [if_neg hNot, hJobs]
        · show (if _ then _ else _) = _
          rw [if_neg hNot, hJobs]
      · subst hSome
        rw [forEach_eq]
        have hCounted : Triple (fun s' => s' = { s with jobs := db.jobs.insertRow row })
            (do afterJobInserted job.type; pure () : StoreM Unit) (fun _ s' => s' =
              { s with jobs := db.jobs.insertRow row, scheduler := counted job.type s.scheduler })
            fun _ _ => True :=
          (triple_counted job.type _).bind fun _ => triple_pure () fun _ h => h
        exact hCounted.bind fun _ => triple_pure _ fun s' h => h ▸ .inserted row hs hHas rfl rfl
  · next hAllowed =>
    cases Bool.eq_false_iff.mpr hAllowed
    exact triple_pure _ fun s hs => .refused hs

/-! ## The jobs of a pass -/

/-- Some jobs have been inserted since the state `db`, and of the latch and the counters of the queue
only that is different. -/
structure Inserted (env : Env) (db : Db) (keys : List JobKey) (s : Db) : Prop where
  since : insertedSince db s = keys
  nextId : s.jobs.nextId = db.jobs.nextId + keys.length
  active : ∀ types address, s.jobs.hasActive types address = (db.jobs.hasActive types address ||
    keys.any fun key => types.contains key.1 && address.all fun a => key.2 = some a)
  expands : ∀ a, s.jobs.activeCount (ofAddress .expandDownstream a) =
    db.jobs.activeCount (ofAddress .expandDownstream a) + keys.count (.expandDownstream, some a)
  counter : ∀ c, c.isQueue → max (-1) (s.scheduler.counter c) = level db keys c
  latched : db.latched = true → s.latched = true
  latch : s.latched = true → db.latched = true ∨ (env.store.maxQueueDepth : Int) ≤ level db keys .pendingJob

theorem hasActive_insertRow (t : JobTable) {row : JobRow} (h : row.active = true) (types : List JobType)
    (address : Option Address) : (t.insertRow row).hasActive types address = (t.hasActive types address ||
      types.contains row.job.type && address.all fun a => row.job.address = some a) := by
  have hNew : t.nextId ∉ t.rows := fun hMem => lt_irrefl _ (t.fresh _ hMem)
  unfold JobTable.hasActive JobTable.insertRow
  dsimp only
  rw [AList.entries_insert_of_notMem hNew, List.any_cons, h, Bool.true_and, Bool.or_comm]
  simp

theorem activeCount_insertRow (t : JobTable) {row : JobRow} (h : row.active = true) (q : Job → Bool) :
    (t.insertRow row).activeCount q = t.activeCount q + if q row.job then 1 else 0 := by
  have hNew : t.nextId ∉ t.rows := fun hMem => lt_irrefl _ (t.fresh _ hMem)
  unfold JobTable.activeCount JobTable.count JobTable.insertRow
  dsimp only
  rw [AList.entries_insert_of_notMem hNew, List.countP_cons, h, Bool.true_and]

theorem inserted_nil (env : Env) (db : Db) : Inserted env db [] db where
  since := by simp [insertedSince]
  nextId := rfl
  active := by simp
  expands := by simp
  counter c _ := by simp [level]
  latched h := h
  latch h := .inl h

section Inserted

variable {env : Env} {db : Db} {keys : List JobKey} {s : Db}

theorem level_append (key : JobKey) (c : Counter) : level db (keys ++ [key]) c = level db keys c +
    if c = .pendingJob || cachedActiveJobCountField key.1 = some c then 1 else 0 := by
  unfold level
  rw [List.countP_append, List.countP_singleton]
  split <;> simp [add_assoc]

theorem level_pendingJob : level db keys .pendingJob = max (-1) db.depth + keys.length := by
  simp [level, Db.depth]

theorem counter_counted (type : JobType) (state : SchedulerState) (c : Counter) :
    max (-1) ((counted type state).counter c) = max (-1) (state.counter c) +
      if c = .pendingJob || cachedActiveJobCountField type = some c then 1 else 0 := by
  unfold counted
  cases hField : cachedActiveJobCountField type with
  | none =>
    by_cases hc : c = .pendingJob
    · subst hc
      simp [SchedulerState.adjust]
      omega
    · simp [SchedulerState.adjust, hc]
  | some c' =>
    have hNot : c' ≠ .pendingJob := (field_isQueue hField).2
    by_cases hc : c = .pendingJob
    · subst hc
      simp [SchedulerState.adjust, hNot.symm]
      omega
    · by_cases hc' : c = c'
      · subst hc'
        simp [SchedulerState.adjust, hNot]
        omega
      · simp [SchedulerState.adjust, hc, hc', Ne.symm hc']

theorem Inserted.le_counter (h : Inserted env db keys s) {c : Counter} (hc : c.isQueue) (cap : Nat) :
    (cap : Int) ≤ s.scheduler.counter c ↔ (cap : Int) ≤ level db keys c := by
  rw [← h.counter c hc]
  omega

theorem Inserted.capReached_iff (h : Inserted env db keys s) (job : Job) :
    CapReached env job s ↔ isCapped env db keys job = true := by
  constructor
  · rintro (⟨hType, hCap⟩ | ⟨a, hType, hAddress, hCap⟩ | ⟨hType, hNew, hCap⟩ | ⟨hType, hCap⟩)
    · simp [isCapped, hType, (h.le_counter rfl _).mp hCap]
    · rw [h.expands a] at hCap
      simp [isCapped, hType, hAddress, hCap]
    · simp [isCapped, hType, hNew, (h.le_counter rfl _).mp hCap]
    · simp [isCapped, hType, (h.le_counter rfl _).mp hCap]
  · intro hCapped
    unfold isCapped at hCapped
    split at hCapped
    · next hType =>
      rw [Bool.or_eq_true, decide_eq_true_eq] at hCapped
      rcases hCapped with hCap | hCap
      · exact .expand hType ((h.le_counter rfl _).mpr hCap)
      · obtain ⟨a, hAddress, hCap⟩ := (Option.any_eq_true _ _).mp hCap
        exact .expandAddress a hType hAddress (by rw [h.expands a]; simpa using hCap)
    · next hType =>
      rw [Bool.and_eq_true, decide_eq_true_eq, Bool.not_eq_true'] at hCapped
      exact .backfill hType hCapped.1 ((h.le_counter rfl _).mpr hCapped.2)
    · next hType => exact .audit hType ((h.le_counter rfl _).mpr (by simpa using hCapped))
    · cases hCapped

/-- A check inserts nothing. -/
theorem Inserted.admission (h : Inserted env db keys s) {job : Job} {allowed : Bool} {s' : Db}
    (hCheck : Admission env job false s allowed s') : Inserted env db keys s' := by
  cases hCheck with
  | bypassed hNot => cases hNot
  | latched => exact h
  | capped => exact h
  | room => exact h
  | full _ _ _ hDepth =>
    exact { h with
      latched := fun _ => rfl
      latch := fun _ => .inr ((h.le_counter (c := .pendingJob) rfl _).mp hDepth) }

/-- A request is allowed where the state before the pass and the jobs since allow it. -/
theorem Inserted.allowed_iff (h : Inserted env db keys s) {job : Job} {allowed : Bool} {s' : Db}
    (hContinues : isIngestContinuation job = true → job.type = .backfillHackerAddress)
    (hCheck : Admission env job false s allowed s') :
    allowed = (isIngestContinuation job || !db.latched && !isCapped env db keys job &&
      level db keys .pendingJob < env.store.maxQueueDepth) := by
  have hUncapped : isIngestContinuation job = true → ¬ CapReached env job s := by
    intro hTrue hCap
    have hType := hContinues hTrue
    cases hCap with
    | expand hOther => cases hOther.symm.trans hType
    | expandAddress _ hOther => cases hOther.symm.trans hType
    | backfill _ hNew => cases hNew.symm.trans hTrue
    | audit hOther => cases hOther.symm.trans hType
  have hDepth : s.depth < env.store.maxQueueDepth ↔ level db keys .pendingJob < env.store.maxQueueDepth :=
    not_le.symm.trans ((not_congr (h.le_counter (c := .pendingJob) rfl _)).trans not_le)
  cases hContinuation : isIngestContinuation job with
  | true =>
    cases hCheck with
    | bypassed hNot => cases hNot
    | latched => simp [hContinues hContinuation, hContinuation]
    | capped _ _ hCap => exact absurd hCap (hUncapped hContinuation)
    | full => simp [hContinuation]
    | room => rfl
  | false =>
    rw [Bool.false_or]
    cases hCheck with
    | bypassed hNot => cases hNot
    | latched _ hLatch =>
      rw [hContinuation, Bool.and_false]
      rcases h.latch hLatch with hOld | hFull
      · simp [hOld]
      · simp [hFull]
    | capped _ _ hCap => simp [(h.capReached_iff job).mp hCap]
    | full _ _ _ hFull => simp [hContinuation, (h.le_counter (c := .pendingJob) rfl _).mp hFull]
    | room _ hLatch hCap hRoom =>
      have hOld : db.latched = false := by
        by_contra hOld
        exact absurd (h.latched (Bool.not_eq_false _ ▸ hOld)) (by simp [hLatch])
      have hNot : isCapped env db keys job = false := by
        rwa [← Bool.not_eq_true, ← h.capReached_iff job]
      simp [hOld, hNot, hDepth.mp hRoom]

/-- The job of a request that is taken. -/
theorem Inserted.insert (h : Inserted env db keys s) {row : JobRow} (hActive : row.active = true) :
    Inserted env db (keys ++ [(row.job.type, row.job.address)])
      { s with jobs := s.jobs.insertRow row, scheduler := counted row.job.type s.scheduler } where
  since := by
    have hNext : (s.jobs.insertRow row).nextId - db.jobs.nextId = keys.length + 1 := by
      show s.jobs.nextId + 1 - db.jobs.nextId = _
      rw [h.nextId]
      omega
    have hOld := h.since
    unfold insertedSince at hOld ⊢
    rw [h.nextId, Nat.add_sub_cancel_left] at hOld
    dsimp only
    rw [hNext, List.range'_concat, List.filterMap_append]
    congr 1
    · refine (List.filterMap_congr fun id hId => ?_).trans hOld
      have hLt := (List.mem_range'_1.mp hId).2
      rw [lookup_insertRow, if_neg (by rw [h.nextId]; omega)]
    · simp [lookup_insertRow, h.nextId]
  nextId := by
    show s.jobs.nextId + 1 = _
    rw [h.nextId, List.length_append]
    rfl
  active types address := by
    rw [hasActive_insertRow _ hActive, h.active, List.any_append, Bool.or_assoc]
    simp
  expands a := by
    rw [activeCount_insertRow _ hActive, h.expands, List.count_append, List.count_singleton]
    simp [ofAddress, add_assoc, Prod.ext_iff]
  counter c hc := by
    rw [level_append]
    show max (-1) ((counted row.job.type s.scheduler).counter c) = _
    rw [counter_counted, h.counter c hc]
  latched hOld := by
    show (counted row.job.type s.scheduler).queueSchedulingPaused = true
    unfold counted
    cases cachedActiveJobCountField row.job.type <;> exact h.latched hOld
  latch hNew := by
    have hBefore : s.latched = true := by
      revert hNew
      show (counted row.job.type s.scheduler).queueSchedulingPaused = true → _
      unfold counted
      cases cachedActiveJobCountField row.job.type <;> exact id
    rw [level_append]
    exact (h.latch hBefore).imp_right fun hFull => hFull.trans (by split <;> simp)

/-- The queue takes a request exactly where `takes` says so. -/
theorem Inserted.outcome (h : Inserted env db keys s) {r : Request} {id : Option Nat} {s' : Db}
    (hContinues : isIngestContinuation r.job = true → r.job.type = .backfillHackerAddress)
    (hOutcome : TickOutcome env r s id s') : id.isSome = takes env db keys r ∧
      Inserted env db (keys ++ if takes env db keys r then [r.key] else []) s' := by
  have hDuplicate : isDuplicate db keys r = s.jobs.hasActive r.types r.address := (h.active _ _).symm
  unfold takes
  rw [hDuplicate]
  cases hOutcome with
  | refused hCheck =>
    rw [← h.allowed_iff hContinues hCheck]
    simpa using h.admission hCheck
  | duplicate hCheck hHas =>
    rw [hHas]
    simpa using h.admission hCheck
  | @inserted s₁ row hCheck hNew hJob hActive =>
    rw [hNew, ← h.allowed_iff hContinues hCheck]
    have hInsert := (h.admission hCheck).insert hActive
    rw [hJob, hCheck.jobs] at hInsert
    exact ⟨rfl, hInsert⟩

end Inserted

/-! ## Runs of a pass -/

/-- A pass on its way: the jobs that it has inserted, the addresses and the rotation as they are now,
and the other tables as they were. -/
structure Passed (env : Env) (db : Db) (keys : List JobKey) (t : AddressTable) (r : Nat × Nat) (s : Db) :
    Prop extends Inserted env db keys s where
  addresses : s.addresses = t
  rotation : rotation s = r
  edges : s.edges = db.edges
  transactions : s.transactions = db.transactions
  syncState : s.syncState = db.syncState
  lastSyncAt : s.lastSyncAt = db.lastSyncAt

section Steps

variable {env : Env} {db : Db} {keys : List JobKey} {t : AddressTable} {r : Nat × Nat} {α β : Type}

theorem TickOutcome.passed {rq : Request} {id : Option Nat} {s s' : Db} (h : Passed env db keys t r s)
    (hOutcome : TickOutcome env rq s id s') {keys' : List JobKey} (h' : Inserted env db keys' s') :
    Passed env db keys' t r s' := by
  have hCheck : ∀ {allowed : Bool} {s₁ : Db}, Admission env rq.job false s allowed s₁ →
      Passed env db keys t r s₁ := fun hAdmission => by
    have hInserted := h.toInserted.admission hAdmission
    cases hAdmission <;> exact { h with toInserted := hInserted }
  cases hOutcome with
  | refused hAdmission => exact { hCheck hAdmission with toInserted := h' }
  | duplicate hAdmission => exact { hCheck hAdmission with toInserted := h' }
  | @inserted s₁ row hAdmission =>
    have hRotation : ∀ state : SchedulerState, ((counted rq.job.type state).hackerPollIndex,
        (counted rq.job.type state).maintenanceCronCounter) =
        (state.hackerPollIndex, state.maintenanceCronCounter) := fun state => by
      unfold counted
      cases cachedActiveJobCountField rq.job.type <;> rfl
    exact { hCheck hAdmission with
      toInserted := h'
      rotation := (hRotation s₁.scheduler).trans (hCheck hAdmission).rotation }

/-- A request of the pass. -/
theorem triple_request {job : Job} (priority : Int) {opts : EnqueueIfAbsentOptions}
    (hOpts : opts.bypassQueueCap = false)
    (hContinues : isIngestContinuation job = true → job.type = .backfillHackerAddress) :
    Triple (Passed env db keys t r) (enqueueForTick env job priority opts) (fun id s =>
      Passed env db (after env db keys [request job opts]) t r s ∧
        id.isSome = takes env db keys (request job opts)) fun _ _ => True := by
  refine triple_of_state fun s hs => ((triple_enqueueForTick env job priority hOpts s).post
    fun id s' hOutcome => ?_)
  obtain ⟨hSome, hInserted⟩ := hs.toInserted.outcome hContinues hOutcome
  rw [after, Gate.admitted_singleton]
  exact ⟨hOutcome.passed hs hInserted, hSome⟩

/-- A request that is made where the condition holds. -/
theorem triple_ask {cond : Prop} [Decidable cond] {b : Bool} (hb : cond ↔ b = true) {job : Job}
    (priority : Int) {opts : EnqueueIfAbsentOptions} (hOpts : opts.bypassQueueCap = false)
    (hContinues : isIngestContinuation job = true → job.type = .backfillHackerAddress) :
    Triple (Passed env db keys t r) (when cond do
        let _ ← enqueueForTick env job priority opts
        pure ())
      (fun _ => Passed env db (after env db keys (ask b (request job opts))) t r) fun _ _ => True := by
  refine triple_when (fun hCond => ?_) fun hNot s hs => ?_
  · rw [hb.mp hCond]
    exact (triple_request priority hOpts hContinues).bind fun _ => triple_pure () fun _ hs => hs.1
  · rw [Bool.eq_false_iff.mpr fun hTrue => hNot (hb.mpr hTrue)]
    simpa [ask, after, Gate.admitted] using hs

/-- What is read is known. -/
theorem triple_read {P : Db → Prop} {read : Db → α} {a : α} (hRead : ∀ s, P s → read s = a)
    {f : α → StoreM β} {R : β → Db → Prop} (h : Triple P (f a) R fun _ _ => True) :
    Triple P (query read >>= f) R fun _ _ => True := by
  refine Triple.bind (Q := fun a' s => P s ∧ a' = a) (triple_query (fun s hs => ⟨hs, hRead s hs⟩)
    fun _ _ _ => trivial) fun a' => triple_of_fact fun hEq => ?_
  rwa [hEq]

/-! ### Statuses -/

/-- A statement beside the queue and the tables that a pass reads. -/
def isAside : Stmt → Bool
  | .scheduler (.adjust c _) => !c.isQueue
  | i => i.isBeside

theorem Passed.aside {i : Stmt} (hi : isAside i = true) {s : Db} (h : Passed env db keys t r s) :
    Passed env db keys t r (exec i s) := by
  cases i with
  | scheduler st =>
    cases st with
    | adjust c d =>
      exact { h with
        counter := fun c' hc' => by
          have hNe : c' ≠ c := by
            rintro rfl
            simp [isAside, hc'] at hi
          rw [← h.counter c' hc']
          exact congrArg (max (-1)) (if_neg hNe) }
    | _ => first | exact { h with } | cases hi
  | _ => first | exact { h with } | cases hi

theorem triple_setExpandStatus (address : Address) :
    Triple (Passed env db keys t r) (setExpandStatus address .queued)
      (fun _ => Passed env db keys ((AddressStmt.setExpandStatus address .queued).exec t) r)
      fun _ _ => True := by
  have hAside : ∀ i, Stmt.isBeside i → isAside i = true := fun i hi => by
    cases i with
    | scheduler st => cases st <;> first | exact hi | cases hi
    | _ => exact hi
  refine Triple.bind (Q := fun _ => Passed env db keys t r) (triple_query (fun _ hs => hs)
    fun _ _ _ => trivial) fun existing => ?_
  refine Triple.bind (Q := fun _ => Passed env db keys
    ((AddressStmt.setExpandStatus address .queued).exec t) r) (triple_run (fun s hs => ?_)
      fun _ _ _ => trivial) fun _ => ?_
  · exact { hs with addresses := congrArg (AddressStmt.setExpandStatus address .queued).exec hs.addresses }
  · refine (triple_of_emits (S := fun i => isAside i = true) (emits_forEach fun row _ => ?_)
      fun i hi s hs => hs.aside hi).conseq (fun _ hs => hs) (fun _ _ hs => hs) fun _ _ _ => trivial
    have hCounter : ∀ c d, c.isQueue = false → (adjustCounter c d).Emits fun i => isAside i = true :=
      fun c d hc => Journal.Op.emits_when fun _ => emits_run (by rw [isAside, hc]; rfl)
    refine Journal.Op.Emits.bind (hCounter .crawlPending _ rfl) fun _ => ?_
    refine Journal.Op.Emits.bind (emits_adjustOnChange (fun d => hCounter .crawlExpanded d rfl) _ _)
      fun _ => Journal.Op.Emits.bind (emits_query _) fun updated => ?_
    exact emits_forEach fun after _ => (beside_maybeMarkMonitorSnapshotDirty existing (some after)).mono hAside

/-- A write of the rotation. -/
theorem passed_rotate {s : Db} (h : Passed env db keys t r s) {st : SchedulerStmt} {r' : Nat × Nat}
    (hState : ∀ state : SchedulerState, (st.exec state).counter = state.counter ∧
      (st.exec state).queueSchedulingPaused = state.queueSchedulingPaused)
    (hRotation : rotation (exec (Stmt.scheduler st) s) = r') :
    Passed env db keys t r' (exec (Stmt.scheduler st) s) := by
  have hCounter : (exec (Stmt.scheduler st) s).scheduler.counter = s.scheduler.counter :=
    (hState s.scheduler).1
  have hLatch : (exec (Stmt.scheduler st) s).latched = s.latched := (hState s.scheduler).2
  exact { h with
    counter := fun c hc => by rw [hCounter, h.counter c hc]
    latched := fun hOld => by rw [hLatch, h.latched hOld]
    latch := fun hNew => h.latch (by rwa [← hLatch])
    rotation := hRotation }

end Steps

namespace Cron

section Run

variable (k : Cron) {low : BudgetLow} {db : Db} {keys : List JobKey} {t : AddressTable} {r : Nat × Nat}

theorem continues_backfill {payload : BackfillPayload} :
    isIngestContinuation (.backfillHackerAddress payload) = true →
      Job.type (.backfillHackerAddress payload) = .backfillHackerAddress := fun _ => rfl

/-! ### Synchronizations -/

theorem triple_scheduleSync {cache : ScheduleEnqueueCache} (hAccepts : cache.accepts k.env = k.accepts db)
    (sync : Job × List SyncSource × Nat) (priority : Int) (hNew : isIngestContinuation sync.1 = false) :
    Triple (Passed k.env db keys t r)
      (scheduleSync k.env cache low.nonCritical sync.2.1 sync.2.2 k.nowMs sync.1 priority)
      (fun _ => Passed k.env db (after k.env db keys
        (ask (!low.nonCritical && k.accepts db && k.syncDue db sync) (request sync.1 {}))) t r)
      fun _ _ => True := by
  have hContinues : isIngestContinuation sync.1 = true → sync.1.type = .backfillHackerAddress :=
    fun hTrue => absurd (hNew.symm.trans hTrue) Bool.false_ne_true
  refine triple_read (a := (sync.2.1.filterMap db.lastSyncAt).max?) (fun s hs => by rw [hs.lastSyncAt]) ?_
  refine triple_ask ?_ priority rfl hContinues
  rw [hAccepts]
  simp only [syncDue, Bool.and_eq_true, Bool.not_eq_true']
  tauto

theorem syncRequests_eq : k.syncRequests low db = (k.syncs.map fun sync =>
    ask (!low.nonCritical && k.accepts db && k.syncDue db sync) (request sync.1 {})).flatten := by
  unfold syncRequests
  split
  · next hAsk =>
    simp only [hAsk, Bool.true_and]
    induction k.syncs with
    | nil => rfl
    | cons sync rest ih =>
      rw [List.map_cons, List.flatten_cons, ← ih, List.filter_cons]
      cases k.syncDue db sync <;> rfl
  · next hNot => simp [ask, Bool.eq_false_iff.mpr hNot]

/-! ### Maintenance -/

theorem triple_enqueueBackfillResume (address : Address) :
    Triple (Passed k.env db keys t r) (enqueueBackfillResume k.env address)
      (fun _ => Passed k.env db (after k.env db keys [backfillRequest db address]) t r)
      fun _ _ => True := by
  have hPayload : Triple (Passed k.env db keys t r) (buildBackfillJobPayload address)
      (fun payload s => Passed k.env db keys t r s ∧ payload = backfillPayload db address)
      fun _ _ => True :=
    triple_read (a := db.syncState.lookup address) (fun s hs => by rw [hs.syncState])
      (triple_pure _ fun s hs => ⟨hs, rfl⟩)
  refine hPayload.bind fun payload => triple_of_fact fun hEq => ?_
  rw [hEq]
  exact (triple_request JobPriority.backfillHacker rfl continues_backfill).bind fun _ =>
    triple_pure () fun _ hs => hs.1

theorem triple_maintainBackfill (h : FlaggedHacker) :
    Triple (Passed k.env db keys t r)
      (maintainBackfill k.env h.address (status db h.address) (db.syncState.lookup h.address)
        (k.auditDue db h) (k.throttled db))
      (fun _ => Passed k.env db (after k.env db keys
        (if needsBackfill db h then [backfillRequest db h.address]
          else ask (k.auditDue db h && !k.throttled db) (auditRequest h.address))) t r)
      fun _ _ => True := by
  have hNeeds : (status db h.address = .pending ∨ status db h.address = .backfilling ∨
      (status db h.address = .expanded ∧
        (db.syncState.lookup h.address).any (·.backfillComplete) = false)) ↔
      needsBackfill db h = true := by
    simp [needsBackfill, isComplete, or_assoc]
  unfold maintainBackfill
  split
  · next hYes =>
    rw [if_pos (hNeeds.mp hYes)]
    exact triple_enqueueBackfillResume k h.address
  · next hNo =>
    rw [if_neg fun hYes => hNo (hNeeds.mpr hYes)]
    exact triple_ask (by simp) JobPriority.auditHackerBackfill rfl fun hTrue => by cases hTrue

theorem triple_maintainPoll (h : FlaggedHacker) :
    Triple (Passed k.env db keys t r) (maintainPoll k.env h k.nowMs (k.auditDue db h))
      (fun _ => Passed k.env db (after k.env db keys
        (ask (k.balanceStale h && !k.pollDue db h && !k.auditDue db h) (refreshRequest h.address) ++
          ask (k.pollDue db h) (pollRequest h.address))) t r) fun _ _ => True := by
  have hRest : ∀ sync : Option SyncStateRow, (isComplete db h &&
      isDue (sync.bind (·.lastPolledAt)) k.env.config.cronIntervalSec k.nowMs) = k.pollDue db h →
      Triple (Passed k.env db keys t r) (do
        when (isDue h.liveBalanceAt k.env.config.balanceRefreshIntervalSec k.nowMs ∧
            (isComplete db h && isDue (sync.bind (·.lastPolledAt))
              k.env.config.cronIntervalSec k.nowMs) = false ∧ k.auditDue db h = false) do
          let _ ← enqueueForTick k.env (.refreshLiveBalance h.address) JobPriority.refreshBalance
            { address := some h.address }
          pure ()
        when ((isComplete db h && isDue (sync.bind (·.lastPolledAt))
            k.env.config.cronIntervalSec k.nowMs) = true) do
          let _ ← enqueueForTick k.env (.pollHackerAddress { address := h.address })
            JobPriority.pollHacker { address := some h.address }
          pure ())
        (fun _ => Passed k.env db (after k.env db keys
          (ask (k.balanceStale h && !k.pollDue db h && !k.auditDue db h) (refreshRequest h.address) ++
            ask (k.pollDue db h) (pollRequest h.address))) t r) fun _ _ => True := by
    intro sync hDue
    rw [hDue, after_append]
    refine (triple_ask ?_ JobPriority.refreshBalance rfl fun hTrue => by cases hTrue).bind fun _ =>
      triple_ask Iff.rfl JobPriority.pollHacker rfl fun hTrue => by cases hTrue
    simp [balanceStale, and_assoc]
  refine triple_read (a := db.syncState.lookup h.address) (fun s hs => by rw [hs.syncState]) ?_
  dsimp only
  split
  · exact triple_read (a := db.syncState.lookup h.address) (fun s hs => by rw [hs.syncState])
      (hRest _ rfl)
  · next hNot =>
    refine Triple.bind (triple_pure (Q := fun sync s => Passed k.env db keys t r s ∧ sync = none) none
      fun _ hs => ⟨hs, rfl⟩) fun sync => triple_of_fact fun hNone => hRest sync ?_
    have hComplete : isComplete db h = false := Bool.eq_false_iff.mpr hNot
    rw [pollDue, hComplete]
    rfl

theorem triple_maintainOneHacker (h : FlaggedHacker) :
    Triple (Passed k.env db keys db.addresses r)
      (maintainOneHacker k.env h k.nowMs (k.throttled db))
      (fun _ => Passed k.env db (after k.env db keys (k.maintenanceRequests db h)) db.addresses r)
      fun _ _ => True := by
  refine triple_read (a := db.addresses.lookup h.address) (fun s hs => by rw [hs.addresses]) ?_
  refine triple_read (a := db.syncState.lookup h.address) (fun s hs => by rw [hs.syncState]) ?_
  unfold maintenanceRequests
  rw [after_append]
  refine (triple_maintainBackfill k h).bind fun _ => ?_
  cases k.throttled db with
  | true =>
    refine triple_when (fun hFalse => by cases hFalse) fun _ s hs => ?_
    simpa [after, Gate.admitted] using hs
  | false => exact triple_when (fun _ => triple_maintainPoll k h) fun hNot => absurd rfl hNot

/-! ### The tick -/

theorem triple_claim (hHackers : k.hackers.isEmpty = false) {p : Nat}
    (hp : p % k.hackers.length = r.1 % k.hackers.length) :
    Triple (Passed k.env db keys t r) (claimNextHackerPollIndex k.hackers.length)
      (fun idx s => Passed k.env db keys t ((p + 1) % k.hackers.length, r.2) s ∧
        idx = p % k.hackers.length) fun _ _ => True := by
  have hn : 0 < k.hackers.length := List.length_pos_of_ne_nil (by simpa using hHackers)
  have hNext : (r.1 + 1) % k.hackers.length = (p + 1) % k.hackers.length := by
    rw [Nat.add_mod, ← hp, ← Nat.add_mod]
  unfold claimNextHackerPollIndex
  rw [if_neg hn.ne']
  refine Journal.Op.triple_step (fun s hs => ⟨?_, ?_⟩) fun _ _ _ => trivial
  · refine passed_rotate hs (fun state => ⟨rfl, rfl⟩) ?_
    have hIndex : s.scheduler.hackerPollIndex = r.1 := congrArg Prod.fst hs.rotation
    have hTick : s.scheduler.maintenanceCronCounter = r.2 := congrArg Prod.snd hs.rotation
    show ((s.scheduler.hackerPollIndex + 1) % k.hackers.length, s.scheduler.maintenanceCronCounter) = _
    rw [hIndex, hTick, hNext]
  · have hIndex : s.scheduler.hackerPollIndex = r.1 := congrArg Prod.fst hs.rotation
    show ((s.scheduler.hackerPollIndex + 1) % k.hackers.length + k.hackers.length - 1) % k.hackers.length = _
    rw [hIndex, Nat.add_sub_assoc hn, Nat.mod_add_mod, hp]
    have hBack : r.1 + 1 + (k.hackers.length - 1) = r.1 + k.hackers.length := by omega
    rw [hBack, Nat.add_mod_right]

theorem triple_increment : Triple (Passed k.env db keys t (rotation db)) incrementMaintenanceCronCounter
    (fun tick s => Passed k.env db keys t (db.scheduler.hackerPollIndex, Cron.tick db) s ∧
      tick = Cron.tick db) fun _ _ => True := by
  refine Triple.bind (Q := fun _ => Passed k.env db keys t
    (db.scheduler.hackerPollIndex, Cron.tick db)) (triple_run (fun s hs => ?_) fun _ _ _ => trivial)
      fun _ => ?_
  · refine passed_rotate hs (fun state => ⟨rfl, rfl⟩) ?_
    have hIndex : s.scheduler.hackerPollIndex = db.scheduler.hackerPollIndex :=
      congrArg Prod.fst hs.rotation
    have hTick : s.scheduler.maintenanceCronCounter = db.scheduler.maintenanceCronCounter :=
      congrArg Prod.snd hs.rotation
    show (s.scheduler.hackerPollIndex, s.scheduler.maintenanceCronCounter + 1) = _
    rw [hIndex, hTick]
    rfl
  · refine Triple.bind (Q := fun state s => Passed k.env db keys t
      (db.scheduler.hackerPollIndex, Cron.tick db) s ∧ state.maintenanceCronCounter = Cron.tick db)
        (triple_query (fun s hs => ⟨hs, congrArg Prod.snd hs.rotation⟩) fun _ _ _ => trivial)
          fun state => triple_of_fact fun hTick => triple_pure _ fun s hs => ⟨hs, hTick⟩

/-- The index after the maintenance, for the next claim. -/
def nextIndex (low : BudgetLow) (db : Db) : Nat :=
  if k.maintains low db then (db.scheduler.hackerPollIndex + 1) % k.hackers.length
  else db.scheduler.hackerPollIndex

theorem triple_maintenanceStep :
    Triple (Passed k.env db keys db.addresses (db.scheduler.hackerPollIndex, Cron.tick db))
      (maintenanceStep k.env k.hackers low (Cron.tick db) k.nowMs (k.throttled db))
      (fun _ => Passed k.env db
        (after k.env db keys ((k.maintained low db).toList.flatMap (k.maintenanceRequests db)))
        db.addresses (k.nextIndex low db, Cron.tick db)) fun _ _ => True := by
  unfold maintenanceStep
  split
  · next hYes =>
    have hMaintains : k.maintains low db = true := hYes
    have hHackers : k.hackers.isEmpty = false := by
      rw [Bool.and_eq_true, Bool.not_eq_true'] at hYes
      exact hYes.2
    rw [maintained, nextIndex, if_pos hMaintains, if_pos hMaintains, hackerAt, Nat.add_zero]
    refine (triple_claim k hHackers rfl).bind fun idx => triple_of_fact fun hIdx => ?_
    rw [hIdx]
    cases k.hackers[db.scheduler.hackerPollIndex % k.hackers.length]? with
    | none => exact triple_pure _ fun s hs => by simpa [after, Gate.admitted] using hs
    | some h =>
      rw [Option.toList_some, List.flatMap_singleton]
      exact Triple.bind ((triple_maintainOneHacker k h).bind fun _ => triple_pure () fun _ hs => hs)
        fun _ => triple_pure _ fun _ hs => hs
  · next hNo =>
    have hMaintains : k.maintains low db = false := Bool.eq_false_iff.mpr hNo
    rw [maintained, nextIndex, hMaintains]
    exact triple_pure _ fun s hs => by simpa [after, Gate.admitted] using hs

/-! ### The crawl step -/

theorem triple_scheduleOpReturnBackfill {cache : ScheduleEnqueueCache}
    (hAccepts : cache.accepts k.env = k.accepts db) :
    Triple (Passed k.env db keys t r) (scheduleOpReturnBackfill k.env cache low (Cron.tick db))
      (fun _ => Passed k.env db (after k.env db keys (k.opReturnRequests low db)) t r)
      fun _ _ => True := by
  unfold opReturnRequests
  refine triple_when (fun hCond => ?_) fun hNot s hs => ?_
  · rw [hCond.1, ← hAccepts, hCond.2.1, hCond.2.2]
    exact triple_read (a := db.transactions.entries.any fun e => e.2.opReturnDisplay.isNone)
      (fun s hs => by rw [hs.transactions]) (triple_ask (by simp) JobPriority.refreshBalance rfl
        fun hTrue => by cases hTrue)
  · rw [hAccepts] at hNot
    have hNone : (everyNCrons k.env.config.opReturnBackfillEveryNCrons (Cron.tick db) && k.accepts db &&
        !low.opReturn) = false := by
      rw [Bool.eq_false_iff]
      simpa [and_assoc] using hNot
    rw [hNone, Bool.false_and]
    simpa [ask, after, Gate.admitted] using hs

theorem triple_resumePickedBackfill (h : FlaggedHacker) :
    Triple (Passed k.env db keys db.addresses r)
      (when (db.latched = false) (resumePickedBackfill k.env h.address))
      (fun _ => Passed k.env db
        (after k.env db keys (ask (k.resumes db keys h) (backfillRequest db h.address))) db.addresses r)
      fun _ _ => True := by
  have hNothing : k.resumes db keys h = false → ∀ s, Passed k.env db keys db.addresses r s →
      Passed k.env db (after k.env db keys (ask (k.resumes db keys h) (backfillRequest db h.address)))
        db.addresses r s := fun hNone s hs => by
    simpa [hNone, ask, after, Gate.admitted] using hs
  refine triple_when (fun hLatch => ?_) fun hLatch => hNothing (by simp [resumes, hLatch])
  refine Triple.bind (Q := fun state s => Passed k.env db keys db.addresses r s ∧
    (state.counter .activeBackfill < (k.env.store.maxPendingBackfillGlobal : Int) ↔
      level db keys .activeBackfill < k.env.store.maxPendingBackfillGlobal)) (triple_query
        (fun s hs => ⟨hs, not_le.symm.trans ((not_congr (hs.le_counter rfl _)).trans not_le)⟩)
          fun _ _ _ => trivial) fun state => triple_of_fact fun hCap => ?_
  refine triple_when (fun hUnder => ?_) fun hFull => hNothing ?_
  · refine triple_read (a := db.addresses.lookup h.address) (fun s hs => by rw [hs.addresses]) ?_
    have hResumes : k.resumes db keys h = (db.addresses.lookup h.address).any fun row =>
        row.expandStatus = .pending || row.expandStatus = .backfilling := by
      simp [resumes, hLatch, hCap.mp hUnder]
    refine triple_when (fun hStatus => ?_) fun hStatus => hNothing (by rw [hResumes]; simpa using hStatus)
    rw [hResumes, hStatus]
    exact triple_enqueueBackfillResume k h.address
  · rw [hCap] at hFull
    simp [resumes, hFull]

theorem triple_enqueueFrontier (addresses : List Address) :
    Triple (Passed k.env db keys t r) (enqueueFrontier k.env addresses)
      (fun _ => Passed k.env db (after k.env db keys (addresses.map expandRequest))
        ((expanded (Gate.admitted (takes k.env db) Request.key keys (addresses.map expandRequest))).foldl
          (fun t a => (AddressStmt.setExpandStatus a .queued).exec t) t) r) fun _ _ => True := by
  induction addresses generalizing keys t with
  | nil => exact triple_pure _ fun s hs => by simpa [after, Gate.admitted, expanded] using hs
  | cons address rest ih =>
    have hRequest : Triple (Passed k.env db keys t r) (enqueueForTick k.env (.expandDownstream { address, cron := true })
        JobPriority.cronExpand { address := some address }) _ fun _ _ => True :=
      triple_request JobPriority.cronExpand rfl fun hTrue => by cases hTrue
    refine hRequest.bind fun jobId => triple_of_fact fun hTaken => ?_
    have hKey : (request (.expandDownstream { address, cron := true }) { address := some address }).key =
        (.expandDownstream, some address) := rfl
    rw [hTaken, List.map_cons, expandRequest]
    cases hTakes : takes k.env db keys
        (request (.expandDownstream { address, cron := true }) { address := some address }) with
    | true =>
      refine Triple.bind (triple_when (fun _ => triple_setExpandStatus address) fun hNot => absurd rfl hNot)
        fun _ => ?_
      refine Triple.bind ih fun n => triple_pure _ fun s hs => ?_
      rw [after, Gate.admitted, if_pos hTakes, hKey]
      simpa [after, Gate.admitted, hTakes, hKey, expanded] using hs
    | false =>
      refine Triple.bind (Q := fun _ => Passed k.env db (after k.env db keys
        [request (.expandDownstream { address, cron := true }) { address := some address }]) t r)
        (triple_when (fun hTrue => absurd hTrue Bool.false_ne_true) fun _ _ hs => hs) fun _ => ?_
      refine Triple.bind ih fun n => triple_pure _ fun s hs => ?_
      rw [after, Gate.admitted, if_neg (by simp [hTakes])]
      simpa [after, Gate.admitted, hTakes] using hs

theorem triple_enqueuePolls (addresses : List Address) :
    Triple (Passed k.env db keys t r) (enqueuePolls k.env addresses)
      (fun _ => Passed k.env db (after k.env db keys (addresses.map pollDownstreamRequest)) t r)
      fun _ _ => True := by
  induction addresses generalizing keys with
  | nil => exact triple_pure () fun s hs => by simpa [after, Gate.admitted] using hs
  | cons address rest ih =>
    have hRequest : Triple (Passed k.env db keys t r) (do
        let _ ← enqueueForTick k.env (.pollDownstreamAddress { address }) JobPriority.pollDownstream
          { address := some address }
        pure () : StoreM Unit)
        (fun _ => Passed k.env db (after k.env db keys [pollDownstreamRequest address]) t r)
        fun _ _ => True :=
      (triple_request JobPriority.pollDownstream rfl fun hTrue => by cases hTrue).bind fun _ =>
        triple_pure () fun _ hs => hs.1
    refine hRequest.bind fun _ => ?_
    have hSplit : after k.env db keys ((address :: rest).map pollDownstreamRequest) =
        after k.env db (after k.env db keys [pollDownstreamRequest address])
          (rest.map pollDownstreamRequest) := after_append k.env db keys [_] _
    rw [hSplit]
    exact ih

theorem triple_candidates (hacker : Address) :
    Triple (Passed k.env db keys db.addresses r) (getCrawlEnqueueCandidates k.env hacker)
      (fun addresses s => Passed k.env db keys db.addresses r s ∧ addresses = k.candidates db hacker)
      fun _ _ => True := by
  unfold candidates getCrawlEnqueueCandidates
  split
  · exact triple_pure _ fun s hs => ⟨hs, rfl⟩
  · refine triple_query (fun s hs => ⟨hs, ?_⟩) fun _ _ _ => trivial
    rw [hs.edges, hs.addresses]
    rfl

/-- The expansions that the crawl step inserts after some jobs. -/
def expands (low : BudgetLow) (db : Db) (keys : List JobKey) : List JobKey :=
  Gate.admitted (takes k.env db) Request.key keys (k.expandRequests low db)

/-- What a pass has left after its crawl step. -/
def Crawled (low : BudgetLow) (db : Db) (keys : List JobKey) (s : Db) : Prop :=
  let crawlable := after k.env db keys (k.resumeRequests low db keys)
  ∃ r, Passed k.env db (crawlable ++ k.expands low db crawlable)
    (queue db (expanded (k.expands low db crawlable))).addresses r s

theorem triple_crawlOneHacker {cache : ScheduleEnqueueCache}
    (hPaused : cache.queueSchedulingPaused = db.latched) {h : FlaggedHacker}
    (hCrawled : k.crawled low db = some h) :
    Triple (Passed k.env db keys db.addresses r) (crawlOneHacker k.env cache h)
      (fun _ => k.Crawled low db keys) fun _ _ => True := by
  unfold Crawled expands expandRequests resumeRequests
  rw [hCrawled, Option.toList_some, List.flatMap_singleton, List.flatMap_singleton]
  unfold crawlOneHacker
  rw [hPaused]
  refine (triple_resumePickedBackfill k h).bind fun _ => (triple_candidates k h.address).bind
    fun addresses => triple_of_fact fun hEq => ?_
  rw [hEq]
  exact (triple_enqueueFrontier k _).post fun _ s hs => ⟨r, hs⟩

theorem triple_crawlStep {cache : ScheduleEnqueueCache}
    (hPaused : cache.queueSchedulingPaused = db.latched) :
    Triple (Passed k.env db keys db.addresses (k.nextIndex low db, Cron.tick db))
      (crawlStep k.env k.hackers cache) (fun _ => k.Crawled low db keys) fun _ _ => True := by
  have hNobody : k.crawled low db = none → ∀ {r' : Nat × Nat} (s : Db),
      Passed k.env db keys db.addresses r' s → k.Crawled low db keys s := by
    intro hNone r' s hs
    refine ⟨r', ?_⟩
    simpa [expands, expandRequests, resumeRequests, hNone, after, Gate.admitted, expanded, queue] using hs
  unfold crawlStep
  split
  · next hEmpty =>
    have hNil : k.hackers = [] := by simpa using hEmpty
    exact triple_pure _ fun s hs => hNobody (by simp [crawled, hackerAt, hNil]) s hs
  · next hSome =>
    have hIndex : (db.scheduler.hackerPollIndex + if k.maintains low db then 1 else 0) %
        k.hackers.length = k.nextIndex low db % k.hackers.length := by
      unfold nextIndex
      split
      · rw [Nat.mod_mod]
      · rfl
    refine (triple_claim k (Bool.eq_false_iff.mpr hSome) hIndex).bind fun idx =>
      triple_of_fact fun hIdx => ?_
    rw [hIdx]
    have hPicked : k.crawled low db = k.hackers[(db.scheduler.hackerPollIndex +
        if k.maintains low db then 1 else 0) % k.hackers.length]? := rfl
    cases hHacker : k.hackers[(db.scheduler.hackerPollIndex +
        if k.maintains low db then 1 else 0) % k.hackers.length]? with
    | none =>
      exact (triple_pure (0 : Nat) fun s hs => hNobody (hPicked.trans hHacker) s hs).bind fun _ =>
        triple_pure _ fun _ hs => hs
    | some h =>
      exact (triple_crawlOneHacker k hPaused (hPicked.trans hHacker)).bind fun _ =>
        triple_pure _ fun _ hs => hs

/-! ### The whole pass -/

/-- What `scheduleDownstreamCrawl` has left, and its statistics, before the polls. -/
def BeforePolls (low : BudgetLow) (db : Db) (stats : ScheduleTickStats) (s : Db) : Prop :=
  if k.rebuildActive db || k.writeBlocked db then
    stats.picks = none ∧ insertedSince db s = []
  else stats.picks.isSome = true ∧ stats.skipNonCritical = low.nonCritical ∧
    stats.throttled = k.throttled db ∧
    if k.free low db then
      k.Crawled low db (after k.env db (k.maintainedJobs low db) (k.opReturnRequests low db)) s
    else insertedSince db s = k.maintainedJobs low db

theorem triple_crawlUnlessThrottled {cache : ScheduleEnqueueCache}
    (hPaused : cache.queueSchedulingPaused = db.latched) (hAccepts : cache.accepts k.env = k.accepts db)
    {stats : ScheduleTickStats} (hSkip : stats.skipNonCritical = low.nonCritical)
    (hThrottled : stats.throttled = k.throttled db) (maintained : Option Nat)
    (hGoes : (k.rebuildActive db || k.writeBlocked db) = false) :
    Triple (Passed k.env db (k.maintainedJobs low db) db.addresses (k.nextIndex low db, Cron.tick db))
      (crawlUnlessThrottled k.env k.hackers low cache (Cron.tick db) stats maintained)
      (k.BeforePolls low db) fun _ _ => True := by
  have hFree : k.free low db = !(stats.skipNonCritical || stats.throttled) := by
    rw [hSkip, hThrottled, Bool.not_or]
    rfl
  unfold crawlUnlessThrottled BeforePolls
  rw [hGoes, hFree]
  split
  · next hStop =>
    rw [hStop]
    exact triple_pure _ fun s hs => ⟨rfl, hSkip, hThrottled, hs.since⟩
  · next hGo =>
    rw [Bool.eq_false_iff.mpr hGo]
    exact (triple_scheduleOpReturnBackfill k hAccepts).bind fun _ => (triple_crawlStep k hPaused).bind
      fun crawled => triple_pure _ fun s hs => ⟨rfl, hSkip, hThrottled, hs⟩

/-- The tick after its guards and its first reading of the clock. -/
theorem triple_scheduleAt (hGoes : (k.rebuildActive db || k.writeBlocked db) = false) :
    Triple (fun s => s = db) (do
      let cache ← loadScheduleEnqueueCache
      let throttled := (k.env.config.queueSoftThrottleDepth : Int) ≤ cache.queueDepth
      scheduleSync k.env cache low.nonCritical [.coldcardwatch]
        k.env.config.coldcardwatchSyncIntervalSec k.nowMs .syncColdcardwatch JobPriority.syncColdcardwatch
      scheduleSync k.env cache low.nonCritical [.coldcardHackTracker, .coldcardSweepWatch]
        k.env.config.vercelTrackersSyncIntervalSec k.nowMs .syncVercelTrackers
        JobPriority.syncVercelTrackers
      scheduleSync k.env cache low.nonCritical [.bitqueryColdcard]
        k.env.config.bitqueryColdcardSyncIntervalSec k.nowMs .syncBitqueryColdcard
        JobPriority.syncBitqueryColdcard
      let tick ← incrementMaintenanceCronCounter
      let maintained ← maintenanceStep k.env k.hackers low tick k.nowMs throttled
      crawlUnlessThrottled k.env k.hackers low cache tick
        { skipNonCritical := low.nonCritical
          maintTick := everyNCrons k.env.config.hackerMaintenanceEveryNCrons tick
          throttled } maintained)
      (k.BeforePolls low db) fun _ _ => True := by
  have hStart : Passed k.env db [] db.addresses (rotation db) db :=
    { toInserted := inserted_nil k.env db
      addresses := rfl, rotation := rfl, edges := rfl, transactions := rfl, syncState := rfl
      lastSyncAt := rfl }
  refine Triple.bind (Q := fun cache s => Passed k.env db [] db.addresses (rotation db) s ∧
    cache = ⟨db.latched, db.depth⟩) (triple_read (a := db.scheduler) (fun s hs => hs ▸ rfl)
      (triple_pure _ fun s hs => ⟨hs ▸ hStart, rfl⟩)) fun cache => triple_of_fact fun hCache => ?_
  rw [hCache]
  have hAccepts : ScheduleEnqueueCache.accepts ⟨db.latched, db.depth⟩ k.env = k.accepts db := rfl
  have hSync : ∀ {keys : List JobKey} (sync : Job × List SyncSource × Nat) (priority : Int),
      isIngestContinuation sync.1 = false → _ := fun {keys} sync priority hNew =>
    @triple_scheduleSync k low db keys db.addresses (rotation db) _ hAccepts sync priority hNew
  refine (hSync (.syncColdcardwatch, [.coldcardwatch], _) _ rfl).bind fun _ => ?_
  refine (hSync (.syncVercelTrackers, [.coldcardHackTracker, .coldcardSweepWatch], _) _ rfl).bind fun _ => ?_
  refine (hSync (.syncBitqueryColdcard, [.bitqueryColdcard], _) _ rfl).bind fun _ => ?_
  refine (triple_increment k).bind fun tick => triple_of_fact fun hTick => ?_
  rw [hTick]
  refine (triple_maintenanceStep k).bind fun maintained => ?_
  refine (triple_crawlUnlessThrottled k rfl hAccepts rfl rfl maintained hGoes).pre fun s hs => ?_
  unfold maintainedJobs
  rw [after_append, syncRequests_eq]
  simpa only [syncs, List.map_cons, List.map_nil, List.flatten_cons, List.flatten_nil, List.append_nil,
    after_append] using hs

open Journal.Op (MemTriple memTriple_pure memTriple_mem memTriple_step memTriple_true)

/-- A triple says nothing about the memory. -/
theorem memTriple_of_triple {α : Type} {p : StoreM α} {P : Db → Prop} {Q : α → Db → Prop}
    (h : Triple P p Q fun _ _ => True) : MemTriple (fun s _ => P s) p (fun a s _ => Q a s)
      fun _ _ => True := fun _ _ hs => ⟨fun _ ha => h.ok hs ha, fun _ _ => trivial⟩

/-- A reading of the clock that is known. -/
theorem memTriple_now {α : Type} {P : Db → Prop} {R : α → Db → Mem → Prop} {nowMs : Nat}
    {clock : List Nat} {f : Nat → StoreM α}
    (h : MemTriple (fun s m => P s ∧ m.clock = clock) (f nowMs) R fun _ _ => True) :
    MemTriple (fun s m => P s ∧ m.clock = nowMs :: clock) (now >>= f) R fun _ _ => True := by
  refine MemTriple.bind (Q := fun ts s m => ts = nowMs ∧ P s ∧ m.clock = clock)
    (memTriple_mem _ fun s m hs => ?_) fun ts => Journal.Op.memTriple_of_fact fun hTs => ?_
  · rw [hs.2]
    exact ⟨rfl, hs.1, rfl⟩
  · rwa [hTs]

theorem memTriple_scheduleDownstreamCrawl (rest : List Nat) :
    MemTriple (fun s m => s = db ∧ m.clock = k.nowMs :: k.nowMs :: rest)
      (scheduleDownstreamCrawl k.env k.hackers low) (fun stats s _ => k.BeforePolls low db stats s)
      fun _ _ => True := by
  have hNothing : (k.rebuildActive db || k.writeBlocked db) = true → ∀ (stats : ScheduleTickStats) (s : Db),
      stats.picks = none → s = db → k.BeforePolls low db stats s := fun hStops stats s hNone hs => by
    unfold BeforePolls
    rw [if_pos hStops, hs]
    exact ⟨hNone, (inserted_nil k.env db).since⟩
  have hRebuild : MemTriple (fun s m => s = db ∧ m.clock = k.nowMs :: k.nowMs :: rest)
      (isRebuildActive k.env.config) (fun rebuild s m => rebuild = k.rebuildActive db ∧ s = db ∧
        m.clock = k.nowMs :: k.nowMs :: rest) fun _ _ => True := by
    unfold isRebuildActive rebuildActive
    split
    · next hMode => exact memTriple_pure true fun s m hs => ⟨by rw [hMode]; rfl, hs⟩
    · next hMode =>
      exact memTriple_step (fun s m hs => ⟨by rw [Bool.eq_false_iff.mpr hMode, hs.1]; rfl, hs.1, hs.2⟩)
        fun _ _ _ => trivial
  have hBlocked : MemTriple (fun s m => s = db ∧ m.clock = k.nowMs :: k.nowMs :: rest)
      isD1WriteBlocked (fun blocked s m => blocked = k.writeBlocked db ∧ s = db ∧
        m.clock = k.nowMs :: rest) fun _ _ => True := by
    refine MemTriple.bind (Q := fun state s m => state = db.scheduler ∧ s = db ∧
      m.clock = k.nowMs :: k.nowMs :: rest) (memTriple_step (fun s m hs => ⟨by rw [hs.1], hs.1, hs.2⟩)
        fun _ _ _ => trivial) fun state => Journal.Op.memTriple_of_fact fun hState => memTriple_now ?_
    exact memTriple_pure _ fun s m hs => ⟨by rw [hState]; rfl, hs⟩
  refine hRebuild.bind fun rebuild => Journal.Op.memTriple_of_fact fun hEq => ?_
  split
  · next hYes => exact memTriple_pure _ fun s m hs => hNothing (by rw [← hEq, hYes]; rfl) _ s rfl hs.1
  next hNoRebuild =>
  refine hBlocked.bind fun blocked => Journal.Op.memTriple_of_fact fun hEq' => ?_
  split
  · next hYes =>
    exact memTriple_pure _ fun s m hs => hNothing (by rw [← hEq', hYes, Bool.or_true]) _ s rfl hs.1
  next hNotBlocked =>
  have hGoes : (k.rebuildActive db || k.writeBlocked db) = false := by
    rw [← hEq, ← hEq', Bool.eq_false_iff.mpr hNoRebuild, Bool.eq_false_iff.mpr hNotBlocked]
    rfl
  exact memTriple_now ((memTriple_of_triple (triple_scheduleAt k hGoes)).pre fun s m hs => hs.1)

theorem memTriple_scheduleDownstreamPolls (rest : List Nat) {addresses : List Address} :
    MemTriple (fun s m => Passed k.env db keys (queue db addresses).addresses r s ∧
        m.clock = k.nowMs :: rest) (scheduleDownstreamPolls k.env k.polls)
      (fun _ s _ => insertedSince db s = after k.env db keys (k.pollRequests db addresses))
      fun _ _ => True := by
  refine memTriple_now ((memTriple_of_triple (P := Passed k.env db keys (queue db addresses).addresses r)
    (triple_read (a := listDownstreamForPoll k.env.config k.polls k.nowMs (queue db addresses))
      (fun s hs => ?_) ?_)).pre fun s m hs => hs.1)
  · unfold listDownstreamForPoll
    rw [hs.addresses, hs.syncState]
    rfl
  · exact (triple_enqueuePolls k _).post fun _ s hs => hs.since

/-- The clock stands where a pass reads it to decide something. -/
structure ReadsClock (low : BudgetLow) (db : Db) (c : Ctl Mem Err) : Prop where
  start : ∃ rest, c.mem.clock = k.nowMs :: k.nowMs :: rest
  polls : ∃ rest, (scheduleDownstreamCrawl k.env k.hackers low db c).ctl.mem.clock = k.nowMs :: rest

/-- A pass that returns has inserted the jobs that `scheduled` collects from the state before it. -/
theorem insertedSince_scheduleTick {c : Ctl Mem Err} (hClock : k.ReadsClock low db c)
    {stats : ScheduleTickStats} (hOk : (scheduleTick k.env k.polls k.hackers low db c).res = .ok stats) :
    insertedSince db ((scheduleTick k.env k.polls k.hackers low).final db c) = k.scheduled low db := by
  obtain ⟨rest, hStart⟩ := hClock.start
  obtain ⟨rest', hPolls⟩ := hClock.polls
  have hCrawl : (scheduleDownstreamCrawl k.env k.hackers low).Ends db c (k.BeforePolls low db)
      fun _ _ => True := memTriple_scheduleDownstreamCrawl k rest db c ⟨rfl, hStart⟩
  refine (Journal.Op.Ends.bind (R := fun _ s => insertedSince db s = k.scheduled low db) hCrawl
    fun stats _ hBefore => ?_).1 stats hOk
  have hPolled : ∀ {P : Db → Mem → Prop} {s : Db} {c : Ctl Mem Err}, MemTriple P
      (when (stats.picks.isSome ∧ stats.skipNonCritical = false ∧ stats.throttled = false)
        (scheduleDownstreamPolls k.env k.polls)) (fun _ s _ => insertedSince db s = k.scheduled low db)
      (fun _ _ => True) → P s c.mem → Journal.Op.Ends (do
        when (stats.picks.isSome ∧ stats.skipNonCritical = false ∧ stats.throttled = false)
          (scheduleDownstreamPolls k.env k.polls)
        pure stats) s c (fun _ s => insertedSince db s = k.scheduled low db) fun _ _ => True :=
    fun hTriple hs => MemTriple.bind (R := fun _ s _ => insertedSince db s = k.scheduled low db) hTriple
      (fun _ => memTriple_pure stats fun _ _ h => h) _ _ hs
  unfold BeforePolls at hBefore
  unfold scheduled at hPolled ⊢
  by_cases hStops : (k.rebuildActive db || k.writeBlocked db) = true
  · simp only [if_pos hStops] at hBefore hPolled ⊢
    refine hPolled (P := fun s _ => insertedSince db s = []) (Journal.Op.memTriple_when (fun hGo => ?_)
      fun _ _ _ hs => hs) hBefore.2
    rw [hBefore.1] at hGo
    cases hGo.1
  simp only [if_neg hStops] at hBefore hPolled ⊢
  obtain ⟨hPicks, hSkip, hThrottled, hBefore⟩ := hBefore
  by_cases hFree : k.free low db = true
  · simp only [if_pos hFree] at hBefore hPolled ⊢
    obtain ⟨r, hPassed⟩ := hBefore
    have hGo : low.nonCritical = false ∧ k.throttled db = false := by simpa [free] using hFree
    exact hPolled (Journal.Op.memTriple_when (fun _ => memTriple_scheduleDownstreamPolls k rest')
      fun hStay => absurd ⟨hPicks, hSkip.trans hGo.1, hThrottled.trans hGo.2⟩ hStay) ⟨hPassed, hPolls⟩
  · simp only [if_neg hFree] at hBefore hPolled ⊢
    refine hPolled (P := fun s _ => insertedSince db s = k.maintainedJobs low db)
      (Journal.Op.memTriple_when (fun hGo => absurd ?_ hFree) fun _ _ _ hs => hs) hBefore
    rw [hSkip, hThrottled] at hGo
    simp [free, hGo]

end Run

end Cron

end Bloodhound.Indexer
