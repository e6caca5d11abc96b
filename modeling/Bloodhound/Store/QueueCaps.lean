import Bloodhound.Store.Admission

/-!
# Caps of the queue

`shouldAllowEnqueue` admits a job by counters that it reads from the scheduler row, and the jobs
are changed by operations that do not look at the caps. While the counters are exact, an enqueued
job had room under its caps (`Room`); every other operation leaves no more active jobs of any kind
and adds no row (`Fewer`).

* `caps_of_run`: the caps on expand and audit jobs hold in every run, and no new backfill enters
  at its cap.
-/

namespace Bloodhound.Store

open Indexer Journal Journal.Op

/-! ## Active jobs -/

/-- What a row contributes to the number of active jobs. -/
def JobRow.activeShare (q : Job → Bool) (r : JobRow) : Int := if r.active && q r.job then 1 else 0

theorem activeShare_nonneg (q : Job → Bool) (r : JobRow) : 0 ≤ r.activeShare q := by
  unfold JobRow.activeShare
  split <;> decide

theorem activeCount_eq_sum (q : Job → Bool) (t : JobTable) :
    (t.activeCount q : Int) = Table.sum (fun _ r => r.activeShare q) t.rows := by
  unfold JobTable.activeCount JobTable.count Table.sum
  induction t.rows.entries with
  | nil => rfl
  | cons e es ih =>
    rw [List.countP_cons, List.map_cons, List.sum_cons, ← ih]
    unfold JobRow.activeShare
    by_cases h : (e.2.active && q e.2.job) = true
    · simp [h, add_comm]
    · simp [h]

section Changes

variable {q : Job → Bool} {t : JobTable}

theorem activeCount_insertRow_le (row : JobRow) :
    (t.insertRow row).activeCount q ≤ t.activeCount q + if q row.job then 1 else 0 := by
  have hSum : ((t.insertRow row).activeCount q : Int) = t.activeCount q + row.activeShare q := by
    rw [activeCount_eq_sum, activeCount_eq_sum]
    unfold JobTable.insertRow
    rw [Table.sum_insert, lookup_nextId]
    exact sub_zero _
  unfold JobRow.activeShare at hSum
  by_cases hq : q row.job
  · rw [if_pos hq]
    split at hSum <;> omega
  · simp only [hq, Bool.and_false, Bool.false_eq_true, if_false] at hSum ⊢
    omega

/-- An update of a row that activates no job. -/
theorem activeCount_update_le {id : Nat} {f : JobRow → JobRow}
    (h : ∀ r, t.lookup id = some r → (f r).active = true → r.active = true ∧ (f r).job = r.job) :
    (t.update id f).activeCount q ≤ t.activeCount q := by
  have hSum : ((t.update id f).activeCount q : Int) = t.activeCount q +
      (((t.lookup id).map f).elim 0 (·.activeShare q) - (t.lookup id).elim 0 (·.activeShare q)) := by
    rw [activeCount_eq_sum, activeCount_eq_sum]
    exact Table.sum_modify _ id f t.rows
  cases hRow : t.lookup id with
  | none =>
    rw [hRow] at hSum
    simp only [Option.map_none, Option.elim_none] at hSum
    omega
  | some r =>
    rw [hRow] at hSum
    simp only [Option.map_some, Option.elim_some] at hSum
    have hShare : (f r).activeShare q ≤ r.activeShare q := by
      cases hActive : (f r).active with
      | false =>
        unfold JobRow.activeShare
        rw [hActive, Bool.false_and]
        exact activeShare_nonneg q r
      | true =>
        obtain ⟨hOld, hJob⟩ := h r hRow hActive
        unfold JobRow.activeShare
        rw [hActive, hOld, hJob]
    omega

theorem activeCount_keep_le (p : Nat → JobRow → Bool) :
    (t.keep p).activeCount q ≤ t.activeCount q :=
  List.Sublist.countP_le List.filter_sublist

end Changes

/-! ## Operations that enqueue nothing -/

/-- No more active jobs of any kind, and no new row. -/
structure Fewer (t t' : JobTable) : Prop where
  active : ∀ q, t'.activeCount q ≤ t.activeCount q
  rows : ∀ id, t.lookup id = none → t'.lookup id = none

theorem Fewer.refl (t : JobTable) : Fewer t t := ⟨fun _ => Nat.le_refl _, fun _ h => h⟩

theorem Fewer.trans {t t' t'' : JobTable} (h : Fewer t t') (h' : Fewer t' t'') : Fewer t t'' where
  active q := (h'.active q).trans (h.active q)
  rows id hNone := h'.rows id (h.rows id hNone)

theorem fewer_update {t : JobTable} {id : Nat} {f : JobRow → JobRow}
    (h : ∀ r, t.lookup id = some r → (f r).active = true → r.active = true ∧ (f r).job = r.job) :
    Fewer t (t.update id f) where
  active _ := activeCount_update_le h
  rows id' hNone := by
    rw [lookup_update, hNone]
    split <;> rfl

theorem fewer_keep (t : JobTable) (p : Nat → JobRow → Bool) : Fewer t (t.keep p) where
  active _ := activeCount_keep_le p
  rows id hNone := by rw [lookup_keep, hNone, Option.filter_none]

/-- The jobs of the list are not done. -/
def AllNotDone (ids : List Nat) (db : Db) : Prop := ∀ id ∈ ids, NotDone id db

/-- While the jobs of the list are not done, the statement activates nothing and leaves them not
done. -/
def Settles (ids : List Nat) (i : Stmt) : Prop :=
  ∀ db, AllNotDone ids db → AllNotDone ids (exec i db) ∧ Fewer db.jobs (exec i db).jobs

theorem jobs_of_counter {i : Stmt} (hi : i.isQueueCounter) (db : Db) : (exec i db).jobs = db.jobs := by
  cases i with
  | job => cases hi
  | _ => rfl

theorem settles_counter (ids : List Nat) (i : Stmt) (hi : i.isQueueCounter) : Settles ids i := by
  intro db h
  have hJobs := jobs_of_counter hi db
  refine ⟨fun id hMem row hRow => ?_, ?_⟩
  · rw [hJobs] at hRow
    exact h id hMem row hRow
  · rw [hJobs]
    exact Fewer.refl _

/-- A statement on a listed job that does not complete it. -/
theorem settles_update {ids : List Nat} {id : Nat} {s : JobStmt} {f : JobRow → JobRow}
    (hs : ∀ t : JobTable, s.exec t = t.update id f) (hf : ∀ r, (f r).job = r.job)
    (hDone : ∀ r, r.status ≠ .done → (f r).status ≠ .done)
    (hActive : id ∉ ids → ∀ r, (f r).active = true → r.active = true) : Settles ids (.job s) := by
  intro db h
  have hJobs : (exec (Stmt.job s) db).jobs = db.jobs.update id f := hs db.jobs
  constructor
  · intro id' hMem row hRow
    rw [hJobs, lookup_update] at hRow
    split at hRow
    · obtain ⟨row', hRow', rfl⟩ := Option.map_eq_some_iff.mp hRow
      exact hDone row' (h id' hMem row' hRow')
    · exact h id' hMem row hRow
  · rw [hJobs]
    refine fewer_update fun r hRow hNew => ⟨?_, hf r⟩
    by_cases hMem : id ∈ ids
    · have hNot := h id hMem r hRow
      unfold JobRow.active
      cases hs : r.status with
      | done => exact absurd hs hNot
      | _ => rfl
    · exact hActive hMem r hNew

theorem settles_requeue {ids : List Nat} {id : Nat} (h : id ∈ ids) (attempts runAt : Nat) :
    Settles ids (.job (.requeue id attempts runAt)) :=
  settles_update (fun _ => rfl) (fun _ => rfl) (fun _ _ h => by cases h) fun hNot => absurd h hNot

theorem settles_reclaims {ids : List Nat} {id : Nat} (h : id ∈ ids) (s : JobStmt)
    (hs : s.reclaims id) : Settles ids (.job s) := by
  cases s with
  | requeue _ attempts runAt =>
    cases hs
    exact settles_requeue h attempts runAt
  | reclaim _ n progress =>
    cases hs
    exact settles_update (fun _ => rfl) (fun _ => rfl) (fun _ _ h => by cases h)
      fun hNot => absurd h hNot
  | clearReclaim =>
    cases hs
    exact settles_update (fun _ => rfl) (fun _ => rfl) (fun _ h => h) fun _ _ h => h
  | _ => cases hs

theorem settles_claim (ids : List Nat) (id ts : Nat) : Settles ids (.job (.claim id ts)) := by
  refine settles_update (fun _ => rfl) (fun r => ?_) (fun r h => ?_) fun _ r h => ?_
  · split <;> rfl
  · split
    · exact fun hDone => by cases hDone
    · exact h
  · split at h
    · next hPending => simp [JobRow.active, hPending]
    · exact h

theorem settles_complete (id completedAt : Nat) : Settles [] (.job (.complete id completedAt)) := by
  refine fun db _ => ⟨fun _ h => absurd h List.not_mem_nil, fewer_update fun r _ h => ?_⟩
  cases h

theorem settles_keep {s : JobStmt} (hs : ∀ t : JobTable, ∃ p, s.exec t = t.keep p) :
    Settles [] (.job s) := by
  refine fun db _ => ⟨fun _ h => absurd h List.not_mem_nil, ?_⟩
  obtain ⟨p, hp⟩ := hs db.jobs
  show Fewer db.jobs (s.exec db.jobs)
  rw [hp]
  exact fewer_keep _ p

/-- The rule of the operations: what their statements settle. -/
theorem triple_fewer {α : Type} {p : StoreM α} {ids : List Nat} (h : p.Emits (Settles ids))
    (t : JobTable) : Triple (fun db => AllNotDone ids db ∧ Fewer t db.jobs) p
      (fun _ db => AllNotDone ids db ∧ Fewer t db.jobs)
      fun _ db => AllNotDone ids db ∧ Fewer t db.jobs :=
  triple_of_emits h fun _ hi db hdb =>
    ⟨(hi db hdb.1).1, hdb.2.trans (hi db hdb.1).2⟩

theorem fewer_of_emits {α : Type} {p : StoreM α} {ids : List Nat} (h : p.Emits (Settles ids)) {db : Db}
    (hIds : AllNotDone ids db) {c : Ctl Mem Err} {a : α} (hOk : (p db c).res = .ok a) :
    Fewer db.jobs (p.final db c).jobs :=
  ((triple_fewer h db.jobs).ok ⟨hIds, Fewer.refl _⟩ hOk).2

theorem allNotDone_nil (db : Db) : AllNotDone [] db := fun _ h => absurd h List.not_mem_nil

theorem emits_deleteActiveJobs : (deleteActiveJobs : StoreM Unit).Emits (Settles []) := by
  have hDelete : Settles [] (.job .deleteActive) := settles_keep fun _ => ⟨_, rfl⟩
  exact (emits_query _).bind fun _ => (emits_query _).bind fun _ => (emits_run hDelete).bind fun _ =>
    emits_run fun _ _ => ⟨allNotDone_nil _, Fewer.refl _⟩

/-- A reset makes jobs pending that it has read as running. -/
theorem triple_resetRunningJobs (opts : ReclaimOptions) (t : JobTable) :
    Triple (fun db => Fewer t db.jobs) (resetRunningJobs opts : StoreM Unit)
      (fun _ db => Fewer t db.jobs) fun _ _ => True := by
  refine triple_clock.bind fun nowMs => ?_
  refine Triple.bind (Q := fun stale db => AllNotDone (stale.map (·.1)) db ∧ Fewer t db.jobs)
    (triple_query (fun db h => ⟨?_, h⟩) fun _ _ _ => trivial) fun stale => ?_
  · intro id hId row hRow hDone
    obtain ⟨e, he, rfl⟩ := List.mem_map.mp hId
    obtain ⟨row', hRow', hRunning⟩ := (reclaimable_stale opts.staleMs nowMs db).2 e he
    rw [hRow'] at hRow
    cases hRow
    rw [hRunning] at hDone
    cases hDone
  · rw [forEach_eq]
    refine (triple_forEach fun e he => ?_).conseq (fun _ h => h) (fun _ _ h => h.2) fun _ _ h => h
    have hMem : e.1 ∈ stale.map (·.1) := List.mem_map_of_mem he
    have hCounter := settles_counter (stale.map (·.1))
    exact (triple_fewer (emits_reclaimJob hCounter (settles_reclaims hMem) opts e.2) t).conseq
      (fun _ h => h) (fun _ _ h => h) fun _ _ _ => trivial

/-! ## Enqueueing -/

/-- The job has room under its caps. -/
structure Room (env : Env) (job : Job) (t : JobTable) : Prop where
  expand : job.type = .expandDownstream →
    t.activeCount (ofType .expandDownstream) < env.store.maxPendingExpandGlobal
  expandAddress : job.type = .expandDownstream → ∀ address, job.address = some address →
    t.activeCount (ofAddress .expandDownstream address) < env.store.maxPendingExpandPerAddress
  audit : job.type = .auditHackerBackfill →
    t.activeCount (ofType .auditHackerBackfill) < env.store.maxPendingAuditGlobal
  backfill : job.type = .backfillHackerAddress → isIngestContinuation job = false →
    t.activeCount (ofType .backfillHackerAddress) < env.store.maxPendingBackfillGlobal

/-- While the counters are exact, an admitted job has room. -/
theorem Admission.hasRoom {env : Env} {job : Job} {db s : Db} (h : Admission env job false db true s)
    (hExact : QueueExact db) : Room env job db.jobs := by
  have hUnder : ¬ CapReached env job db → Room env job db.jobs := fun hCap => by
    have hCounter := fun {type field} (hf : cachedActiveJobCountField type = some field) {n : Nat}
        (h : ¬ (n : Int) ≤ db.scheduler.counter field) => by
      rw [hExact.active type field hf] at h
      exact_mod_cast not_le.mp h
    exact ⟨fun hType => hCounter rfl fun h => hCap (.expand hType h),
      fun hType address hAddress => not_le.mp fun h => hCap (.expandAddress address hType hAddress h),
      fun hType => hCounter rfl fun h => hCap (.audit hType h),
      fun hType hNew => hCounter rfl fun h => hCap (.backfill hType hNew h)⟩
  generalize hAllowed : true = allowed at h
  cases h with
  | bypassed h => cases h
  | latched =>
    -- behind the latch only a continued backfill passes, which no cap concerns
    have hBoth := hAllowed.symm
    rw [Bool.and_eq_true, decide_eq_true_eq] at hBoth
    exact ⟨fun hType => by simp [hBoth.1] at hType, fun hType => by simp [hBoth.1] at hType,
      fun hType => by simp [hBoth.1] at hType, fun _ hNew => by simp [hBoth.2] at hNew⟩
  | capped => cases hAllowed
  | full _ _ hCap => exact hUnder hCap
  | room _ _ hCap => exact hUnder hCap

/-! ## Runs -/

/-- No cap is bypassed, and no done job is made pending again. -/
def QueueOp.Capped : QueueOp → Db → Prop
  | .enqueueJob _ _ _ bypassQueueCap, _ => bypassQueueCap = false
  | .enqueueJobIfAbsent _ _ _ opts, _ => opts.bypassQueueCap = false
  | op, db => op.Safe db

theorem QueueOp.Capped.safe {op : QueueOp} {db : Db} (h : op.Capped db) : op.Safe db := by
  cases op with
  | enqueueJob | enqueueJobIfAbsent => trivial
  | _ => exact h

/-- What one operation does to the jobs. -/
inductive Changed (env : Env) (t t' : JobTable) : Prop where
  | fewer (h : Fewer t t')
  | inserted (row : JobRow) (hRoom : Room env row.job t) (h : t' = t.insertRow row)

theorem changed_of_outcome {env : Env} {job : Job} {duplicate : Prop} {db s : Db} {id : Option Nat}
    (hExact : QueueExact db) (h : EnqueueOutcome env job false duplicate db id s) :
    Changed env db.jobs s.jobs := by
  cases h with
  | refused h | duplicate h =>
    rw [h.jobs]
    exact .fewer (Fewer.refl _)
  | inserted row h hJob _ hJobs => exact .inserted row (hJob ▸ h.hasRoom hExact) hJobs

theorem changed_of_op {env : Env} {op : QueueOp} {db : Db} {c : Ctl Mem Err} (hExact : QueueExact db)
    (hCapped : op.Capped db) (hOk : (op.run env db c).res = .ok ()) :
    Changed env db.jobs ((op.run env).final db c).jobs := by
  cases op with
  | enqueueJob job priority runAfter bypass =>
    cases (show bypass = false from hCapped)
    obtain ⟨_, _, h⟩ := outcome_of_op rfl hOk
    exact changed_of_outcome hExact h
  | enqueueJobIfAbsent job priority runAfter opts =>
    obtain ⟨_, _, h⟩ := outcome_of_op rfl hOk
    rw [show opts.bypassQueueCap = false from hCapped] at h
    exact changed_of_outcome hExact h
  | claim select =>
    exact .fewer (fewer_of_emits ((emits_claimSelected (settles_counter [])
      (settles_claim []) select).bind fun _ => emits_pure ())
      (allNotDone_nil db) hOk)
  | completeJob id =>
    exact .fewer (fewer_of_emits (emits_completeJob (settles_counter []) (settles_complete id))
      (allNotDone_nil db) hOk)
  | failJob id runAfter =>
    have hIds : AllNotDone [id] db := List.forall_mem_singleton.mpr hCapped
    exact .fewer (fewer_of_emits (emits_failJob (settles_counter [id])
      (settles_requeue List.mem_cons_self) runAfter) hIds hOk)
  | deferJob id runAfter =>
    have hIds : AllNotDone [id] db := List.forall_mem_singleton.mpr hCapped
    exact .fewer (fewer_of_emits (emits_deferJob_of (settles_counter [id])
      (settles_requeue List.mem_cons_self 0 runAfter)) hIds hOk)
  | resetRunningJobs opts => exact .fewer ((triple_resetRunningJobs opts db.jobs).ok (Fewer.refl _) hOk)
  | deleteActiveJobsForAddress a =>
    exact .fewer (fewer_of_emits (emits_deleteActiveJobsForAddress (settles_counter [])
      (settles_keep fun _ => ⟨_, rfl⟩)) (allNotDone_nil db) hOk)
  | deleteActiveJobs => exact .fewer (fewer_of_emits emits_deleteActiveJobs (allNotDone_nil db) hOk)
  | pruneDoneJobsBatch batchSize cutoff =>
    exact .fewer (fewer_of_emits (emits_run (settles_keep fun _ => ⟨_, rfl⟩)) (allNotDone_nil db) hOk)

/-- A kind of jobs that are admitted under a cap only. -/
theorem Changed.activeCount_le {env : Env} {t t' : JobTable} (h : Changed env t t') {q : Job → Bool}
    {cap bound : Nat} (hCap : cap ≤ bound)
    (hRoom : ∀ job, q job = true → Room env job t → t.activeCount q < cap)
    (hBound : t.activeCount q ≤ bound) : t'.activeCount q ≤ bound := by
  cases h with
  | fewer h => exact (h.active q).trans hBound
  | inserted row hRow h =>
    have hInsert := activeCount_insertRow_le (q := q) (t := t) row
    rw [h]
    by_cases hq : q row.job = true
    · have hLess := hRoom row.job hq hRow
      rw [if_pos hq] at hInsert
      omega
    · rw [if_neg hq] at hInsert
      omega

/-- A new row with a backfill that continues nothing came in under the cap on backfills. -/
theorem Changed.backfill {env : Env} {t t' : JobTable} (h : Changed env t t') {id : Nat} {row : JobRow}
    (hOld : t.lookup id = none) (hNew : t'.lookup id = some row)
    (hType : row.job.type = .backfillHackerAddress) (hFresh : isIngestContinuation row.job = false) :
    t.activeCount (ofType .backfillHackerAddress) < env.store.maxPendingBackfillGlobal := by
  cases h with
  | fewer h =>
    rw [h.rows id hOld] at hNew
    cases hNew
  | inserted row' hRow h =>
    rw [h, lookup_insertRow] at hNew
    split at hNew
    · cases hNew
      exact hRow.backfill hType hFresh
    · rw [hOld] at hNew
      cases hNew

/-- A store that was within its caps is within them, and a kind of jobs that was beyond its cap has
not grown. -/
structure WithinCaps (env : Env) (start t : JobTable) : Prop where
  expand : t.activeCount (ofType .expandDownstream) ≤
    max env.store.maxPendingExpandGlobal (start.activeCount (ofType .expandDownstream))
  expandAddress : ∀ address, t.activeCount (ofAddress .expandDownstream address) ≤
    max env.store.maxPendingExpandPerAddress (start.activeCount (ofAddress .expandDownstream address))
  audit : t.activeCount (ofType .auditHackerBackfill) ≤
    max env.store.maxPendingAuditGlobal (start.activeCount (ofType .auditHackerBackfill))

theorem WithinCaps.changed {env : Env} {start t t' : JobTable} (h : WithinCaps env start t)
    (hChanged : Changed env t t') : WithinCaps env start t' where
  expand := hChanged.activeCount_le (Nat.le_max_left _ _)
    (fun _ hq hRoom => hRoom.expand (of_decide_eq_true hq)) h.expand
  expandAddress address := by
    refine hChanged.activeCount_le (Nat.le_max_left _ _) (fun job hq hRoom => ?_) (h.expandAddress address)
    unfold ofAddress at hq
    rw [Bool.and_eq_true, decide_eq_true_eq, decide_eq_true_eq] at hq
    exact hRoom.expandAddress hq.1 address hq.2
  audit := hChanged.activeCount_le (Nat.le_max_left _ _)
    (fun _ hq hRoom => hRoom.audit (of_decide_eq_true hq)) h.audit

/-- Operations that bypass no cap. -/
abbrev CappedRun (env : Env) : Db → Db → Prop := OpRun (QueueOp.run env) fun op db _ => op.Capped db

/-- From exact counters, every run keeps the caps on expand and audit jobs, and an operation inserts
a new backfill only where fewer backfills are active than their cap. -/
theorem caps_of_run {env : Env} {db : Db} (hExact : QueueExact db) :
    (∀ db', CappedRun env db db' → WithinCaps env db.jobs db'.jobs) ∧
    ∀ db' (op : QueueOp) (c : Ctl Mem Err) (id : Nat) (row : JobRow), CappedRun env db db' →
      op.Capped db' → (op.run env db' c).res = .ok () →
      db'.jobs.lookup id = none → ((op.run env).final db' c).jobs.lookup id = some row →
      row.job.type = .backfillHackerAddress → isIngestContinuation row.job = false →
      db'.jobs.activeCount (ofType .backfillHackerAddress) < env.store.maxPendingBackfillGlobal := by
  have hRun : ∀ db', CappedRun env db db' → QueueExact db' ∧ WithinCaps env db.jobs db'.jobs := by
    intro db' h
    refine opRun_invariant (I := fun db' => QueueExact db' ∧ WithinCaps env db.jobs db'.jobs)
      (fun op s c hCapped hOk hI => ?_) h ⟨hExact, Nat.le_max_right _ _, fun _ => Nat.le_max_right _ _,
        Nat.le_max_right _ _⟩
    exact ⟨(queueExact_step_iff op hOk hI.1).mpr hCapped.safe,
      hI.2.changed (changed_of_op hI.1 hCapped hOk)⟩
  refine ⟨fun db' h => (hRun db' h).2, fun db' op c id row h hCapped hOk hOld hNew hType hFresh => ?_⟩
  exact (changed_of_op (hRun db' h).1 hCapped hOk).backfill hOld hNew hType hFresh

def expandOp : QueueOp := .enqueueJob (.expandDownstream { address := name "a" }) 1 none false

def backfillOp : QueueOp := .enqueueJob (.backfillHackerAddress { address := name "h" }) 1 none false

/-- One expand job is within the caps, and a backfill that follows it is the first. -/
theorem caps_of_run_twoJobs :
    WithinCaps queueEnv Db.initial.jobs (applied expandOp .initial).jobs ∧
    (applied expandOp .initial).jobs.activeCount (ofType .backfillHackerAddress) < 3 := by
  have hRun : CappedRun queueEnv .initial (applied expandOp .initial) :=
    .single (opStep_applied .initial rfl (by decide +kernel))
  have hCaps := @caps_of_run queueEnv .initial queueExact_initial
  refine ⟨hCaps.1 _ hRun, hCaps.2 _ backfillOp ⟨{}, []⟩ 2
    { job := .backfillHackerAddress { address := name "h" }, priority := 1, runAfter := 0, createdAt := 0 }
    hRun rfl ?_ (by decide +kernel) ?_ rfl (by decide +kernel)⟩
  · have hReturns : (backfillOp.run queueEnv (applied expandOp .initial) ⟨{}, []⟩).res.toOption.map id =
        some () := by decide +kernel
    obtain ⟨_, hOk, _⟩ := exists_ok hReturns
    exact hOk
  · show (applied backfillOp (applied expandOp .initial)).jobs.lookup 2 = _
    decide +kernel

end Bloodhound.Store
