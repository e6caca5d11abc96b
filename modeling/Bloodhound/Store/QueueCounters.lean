import Bloodhound.Lib.Runs
import Bloodhound.Lib.Triple
import Bloodhound.Store.Counters
import Bloodhound.Store.Queue

/-!
# Counters of the queue

The counters of the scheduler row against the table `jobs` (`QueueExact`). A statement on the
table changes the numbers of jobs by what it does to one row; an operation then owes the
counters this change (`QueueOff`) until it has adjusted each of them. Every operation settles
what it owes, except that `failJob` and `deferJob` do not count a done job that they make
pending again.

* `queueExact_step_iff` says which single operations keep the counters exact.
* `queueExact_of_run` is the invariant of runs.
-/

namespace Bloodhound.Store

open Indexer Journal Journal.Op

/-! ## Counts -/

def JobTable.count (p : JobRow → Bool) (t : JobTable) : Nat := t.rows.entries.countP fun e => p e.2

/-- The counters of the queue are the numbers of jobs. -/
structure QueueExact (db : Db) : Prop where
  pending : db.scheduler.counter .pendingJob = db.jobs.count (·.status = .pending)
  active : ∀ type field, cachedActiveJobCountField type = some field →
    db.scheduler.counter field = db.jobs.count fun r => r.active && r.job.type = type

/-- The job is one of those that the counter counts. -/
def JobRow.counts (row : JobRow) (c : Counter) : Bool :=
  if c = .pendingJob then row.status = .pending
  else row.active && cachedActiveJobCountField row.job.type = some c

/-- What a row contributes to a counter. -/
def JobRow.share (row : JobRow) (c : Counter) : Int := if row.counts c then 1 else 0

def optionShare (row : Option JobRow) (c : Counter) : Int := row.elim 0 (·.share c)

def JobTable.total (c : Counter) (t : JobTable) : Int := Table.sum (fun _ r => r.share c) t.rows

/-- Each counter of the queue misses what it is owed. -/
def QueueOff (owed : Counter → Int) (db : Db) : Prop :=
  ∀ c, c.isQueue → db.scheduler.counter c + owed c = db.jobs.total c

theorem total_eq_count {c : Counter} {p : JobRow → Bool} (t : JobTable)
    (h : ∀ r : JobRow, r.counts c = p r) : t.total c = t.count p := by
  unfold JobTable.total JobTable.count Table.sum JobRow.share
  simp only [h]
  induction t.rows.entries with
  | nil => rfl
  | cons e es ih =>
    rw [List.map_cons, List.sum_cons, ih, List.countP_cons]
    cases p e.2 <;> simp [add_comm]

theorem field_isQueue {type : JobType} {c : Counter}
    (h : cachedActiveJobCountField type = some c) : c.isQueue ∧ c ≠ .pendingJob := by
  cases type <;> cases h <;> exact ⟨rfl, by decide⟩

theorem type_of_field {type type' : JobType} {c : Counter}
    (h : cachedActiveJobCountField type = some c) :
    cachedActiveJobCountField type' = some c ↔ type' = type := by
  cases type <;> cases h <;> cases type' <;> decide

theorem queueExact_iff {db : Db} : QueueExact db ↔ QueueOff (fun _ => 0) db := by
  have hActive : ∀ (type : JobType) {c : Counter}, cachedActiveJobCountField type = some c →
      db.jobs.total c = db.jobs.count fun r => r.active && r.job.type = type := by
    intro type c h
    refine total_eq_count _ fun r => ?_
    unfold JobRow.counts
    rw [if_neg (field_isQueue h).2]
    simp only [type_of_field h]
  have hPending : db.jobs.total .pendingJob = db.jobs.count (·.status = .pending) :=
    total_eq_count _ fun r => if_pos rfl
  constructor
  · intro h c hc
    rw [add_zero]
    cases c with
    | pendingJob => rw [h.pending, hPending]
    | activeExpand => rw [h.active .expandDownstream _ rfl, hActive .expandDownstream rfl]
    | activeBackfill => rw [h.active .backfillHackerAddress _ rfl, hActive .backfillHackerAddress rfl]
    | activeAudit => rw [h.active .auditHackerBackfill _ rfl, hActive .auditHackerBackfill rfl]
    | activeProcessTx => rw [h.active .processTx _ rfl, hActive .processTx rfl]
    | _ => cases hc
  · intro h
    constructor
    · have hp := h .pendingJob rfl
      rwa [add_zero, hPending] at hp
    · intro type field hf
      have ha := h field (field_isQueue hf).1
      rwa [add_zero, hActive type hf] at ha

theorem share_nonneg (row : JobRow) (c : Counter) : 0 ≤ row.share c := by
  unfold JobRow.share
  split <;> decide

theorem total_nonneg (t : JobTable) (c : Counter) : 0 ≤ t.total c := by
  refine List.sum_nonneg fun d hd => ?_
  obtain ⟨e, _, rfl⟩ := List.mem_map.mp hd
  exact share_nonneg e.2 c

/-! ## Totals after a statement -/

section Totals

variable (t : JobTable) (c : Counter)

theorem lookup_nextId : t.rows.lookup t.nextId = none :=
  AList.lookup_eq_none.mpr fun h => lt_irrefl _ (t.fresh _ h)

theorem total_insertRow (row : JobRow) : (t.insertRow row).total c = t.total c + row.share c := by
  unfold JobTable.total JobTable.insertRow
  rw [Table.sum_insert, lookup_nextId]
  exact sub_zero _

theorem total_update (id : Nat) (f : JobRow → JobRow) : (t.update id f).total c =
    t.total c + (optionShare ((t.lookup id).map f) c - optionShare (t.lookup id) c) :=
  Table.sum_modify _ id f t.rows

theorem total_keep (p : Nat → JobRow → Bool) : (t.keep p).total c =
    Table.sum (fun id r => if p id r then r.share c else 0) t.rows :=
  Table.sum_filter _ _ _

end Totals

/-! ## Owed counters -/

theorem QueueOff.job {owed : Counter → Int} {db : Db} (h : QueueOff owed db) (s : JobStmt) :
    QueueOff (fun c => owed c + ((s.exec db.jobs).total c - db.jobs.total c))
      (exec (Stmt.job s) db) := by
  intro c hc
  have hOff := h c hc
  show db.scheduler.counter c + (owed c + ((s.exec db.jobs).total c - db.jobs.total c)) =
    (s.exec db.jobs).total c
  omega

/-- An adjustment by what a counter is owed settles it. -/
theorem QueueOff.adjust {owed : Counter → Int} {db : Db} (h : QueueOff owed db) (c : Counter) :
    QueueOff (Function.update owed c 0) (exec (Stmt.scheduler (.adjust c (owed c))) db) := by
  intro c' hc'
  have hOff := h c' hc'
  show (if c' = c then max 0 (db.scheduler.counter c + owed c) else db.scheduler.counter c') + _ =
    db.jobs.total c'
  by_cases hEq : c' = c
  · subst hEq
    have hNonneg := total_nonneg db.jobs c'
    rw [if_pos rfl, Function.update_self]
    omega
  · rw [if_neg hEq, Function.update_of_ne hEq]
    exact hOff

theorem QueueOff.congr {owed o : Counter → Int} {db : Db} (h : QueueOff owed db)
    (hOwed : ∀ c, c.isQueue → owed c = o c) : QueueOff o db := fun c hc =>
  hOwed c hc ▸ h c hc

theorem forEach_eq {α : Type} (as : List α) (body : α → StoreM Unit) :
    StoreMonad.forEach as body = Op.forEach as body := by
  induction as with
  | nil => rfl
  | cons a as ih => exact congrArg (body a >>= ·) (funext fun _ => ih)

/-- What is owed once the counter of the active jobs of a type is settled. -/
def settleActive (type : JobType) (owed : Counter → Int) (c : Counter) : Int :=
  if cachedActiveJobCountField type = some c then 0 else owed c

section Adjust

variable {owed : Counter → Int} {E : Err → Db → Prop}

theorem triple_adjustPendingJobCount {o : Counter → Int} {d : Int} (hd : o .pendingJob = d)
    (hE : ∀ e db, E e db) : Triple (QueueOff o) (adjustPendingJobCount d : StoreM Unit)
      (fun _ => QueueOff (Function.update o .pendingJob 0)) E := by
  refine triple_when (fun _ => triple_run (fun db h => ?_) fun db _ e => hE e db) fun hZero db h => ?_
  · rw [← hd]
    exact h.adjust .pendingJob
  · rw [not_not] at hZero
    rwa [Function.update_eq_self_iff.mpr (hd.trans hZero).symm]

theorem triple_adjustActiveJobCount {type : JobType} {d : Int}
    (hd : ∀ field, cachedActiveJobCountField type = some field → owed field = d)
    (hE : ∀ e db, E e db) : Triple (QueueOff owed) (adjustActiveJobCount type d : StoreM Unit)
      (fun _ => QueueOff (settleActive type owed)) E := by
  refine triple_when (fun _ => ?_) fun hZero db h => ?_
  · rw [forEach_eq]
    cases hField : cachedActiveJobCountField type with
    | none =>
      refine triple_pure () fun db h => h.congr fun c _ => ?_
      unfold settleActive
      rw [hField]
      rfl
    | some field =>
      refine Triple.bind (Q := fun _ => QueueOff (settleActive type owed)) (triple_run (fun db h => ?_)
        fun db _ e => hE e db) fun _ => triple_pure () fun _ h => h
      rw [← hd field hField]
      refine (h.adjust field).congr fun c _ => ?_
      unfold settleActive
      rw [hField]
      by_cases hc : c = field
      · rw [hc, Function.update_self, if_pos rfl]
      · rw [Function.update_of_ne hc, if_neg fun hs => hc (Option.some.inj hs).symm]
  · rw [not_not] at hZero
    refine h.congr fun c _ => ?_
    unfold settleActive
    split
    · next hc => rw [hd c hc, hZero]
    · rfl

end Adjust

/-! ## Operations -/

/-- An operation that keeps the counters exact where it returns. -/
abbrev KeepsQueue {α : Type} (p : StoreM α) : Prop :=
  Triple QueueExact p (fun _ => QueueExact) fun _ _ => True

theorem QueueOff.exact {owed : Counter → Int} {db : Db} (h : QueueOff owed db)
    (hOwed : ∀ c, owed c = 0) : QueueExact db :=
  queueExact_iff.mpr (h.congr fun c _ => hOwed c)

theorem share_pendingJob (row : JobRow) :
    row.share .pendingJob = if row.status = .pending then 1 else 0 := by
  unfold JobRow.share JobRow.counts
  simp

theorem share_of_ne (row : JobRow) {c : Counter} (hc : c ≠ .pendingJob) : row.share c =
    if row.active ∧ cachedActiveJobCountField row.job.type = some c then 1 else 0 := by
  unfold JobRow.share JobRow.counts
  rw [if_neg hc]
  simp

/-- What an update of one row owes the counters. -/
theorem QueueExact.update {db : Db} (h : QueueExact db) {s : JobStmt} {id : Nat}
    {f : JobRow → JobRow} (hs : s.exec db.jobs = db.jobs.update id f) :
    QueueOff (fun c => optionShare ((db.jobs.lookup id).map f) c - optionShare (db.jobs.lookup id) c)
      (exec (Stmt.job s) db) := by
  refine ((queueExact_iff.mp h).job s).congr fun c _ => ?_
  rw [hs, total_update]
  omega

/-- What a new row owes the counters. -/
theorem QueueExact.insertRow {db : Db} (h : QueueExact db) {s : JobStmt} {row : JobRow}
    (hs : s.exec db.jobs = db.jobs.insertRow row) :
    QueueOff row.share (exec (Stmt.job s) db) := by
  refine ((queueExact_iff.mp h).job s).congr fun c _ => ?_
  rw [hs, total_insertRow]
  omega

theorem QueueExact.scheduler {db : Db} (h : QueueExact db) {s : SchedulerStmt}
    (hs : (s.exec db.scheduler).counter = db.scheduler.counter) :
    QueueExact (exec (Stmt.scheduler s) db) where
  pending := (congrFun hs _).trans h.pending
  active type field hf := (congrFun hs _).trans (h.active type field hf)

theorem keepsQueue_query {α : Type} (read : Db → α) : KeepsQueue (StoreMonad.query read) :=
  triple_query (fun _ h => h) fun _ _ _ => trivial

theorem triple_clock {P : Db → Prop} {E : Err → Db → Prop} :
    Triple P (StoreMonad.clock : StoreM Nat) (fun _ => P) E :=
  triple_mem (fun m : Mem => (m.clock.headD 0, { m with clock := m.clock.tail })) fun _ _ h => h

theorem keepsQueue_clock : KeepsQueue StoreMonad.clock := triple_clock

/-- The time of a job is given or read from the clock. -/
theorem triple_runAt {P : Db → Prop} {E : Err → Db → Prop} (runAfter : Option Nat) :
    Triple P (runAfter.elim StoreMonad.clock pure : StoreM Nat) (fun _ => P) E := by
  cases runAfter with
  | none => exact triple_clock
  | some t => exact triple_pure t fun _ h => h

/-! ### Enqueueing -/

theorem keepsQueue_expandAddressFull (env : Env) (job : Job) :
    KeepsQueue (expandAddressFull env job) := by
  cases job with
  | expandDownstream p => exact (keepsQueue_query _).bind fun n => triple_pure _ fun _ h => h
  | _ => exact triple_pure _ fun _ h => h

theorem keepsQueue_shouldAllowEnqueue (env : Env) (job : Job) (bypassQueueCap : Bool) :
    KeepsQueue (shouldAllowEnqueue env job bypassQueueCap) := by
  have hPure : ∀ b : Bool, KeepsQueue (pure b : StoreM Bool) := fun b => triple_pure b fun _ h => h
  have hLatch : KeepsQueue (StoreMonad.run (.scheduler (.setQueueSchedulingPaused true))) :=
    triple_run (fun _ h => h.scheduler rfl) fun _ _ _ => trivial
  unfold shouldAllowEnqueue
  split
  · exact hPure true
  refine (keepsQueue_query _).bind fun state => ?_
  dsimp only
  split
  · exact hPure _
  split
  · exact hPure _
  refine (keepsQueue_expandAddressFull env job).bind fun full => ?_
  repeat' split
  · exact hPure _
  · exact hPure _
  · exact hPure _
  · exact hLatch.bind fun _ => hPure _
  · exact hPure _

/-- The counters after a new pending job, settled by `afterJobInserted`. -/
theorem triple_afterJobInserted {row : JobRow} (hRow : row.status = .pending) :
    Triple (QueueOff row.share) (afterJobInserted row.job.type : StoreM Unit) (fun _ => QueueExact)
      fun _ _ => True := by
  have hPending : row.share .pendingJob = 1 := by rw [share_pendingJob, if_pos hRow]
  have hActive : row.active = true := by simp [JobRow.active, hRow]
  refine (triple_adjustPendingJobCount hPending fun _ _ => trivial).bind fun _ => ?_
  refine (triple_adjustActiveJobCount (fun field hf => ?_) fun _ _ => trivial).post
    fun _ db h => h.exact fun c => ?_
  · rw [Function.update_of_ne (field_isQueue hf).2, share_of_ne row (field_isQueue hf).2,
      if_pos ⟨hActive, hf⟩]
  · unfold settleActive
    split
    · rfl
    · next hField =>
      by_cases hc : c = .pendingJob
      · rw [hc, Function.update_self]
      · rw [Function.update_of_ne hc, share_of_ne row hc, if_neg fun h => hField h.2]

theorem keepsQueue_enqueueJob (env : Env) (job : Job) (priority : Int) (runAfter : Option Nat)
    (bypassQueueCap : Bool) : KeepsQueue (enqueueJob env job priority runAfter bypassQueueCap) := by
  refine (keepsQueue_shouldAllowEnqueue env job bypassQueueCap).bind fun allowed => ?_
  split
  · refine (triple_runAt runAfter).bind fun runAt => keepsQueue_clock.bind fun createdAt => ?_
    let row : JobRow := { job, priority, runAfter := runAt, createdAt }
    refine Triple.bind (Q := fun _ => QueueOff row.share) (triple_step (fun db h => h.insertRow rfl)
      fun _ _ _ => trivial) fun id => ?_
    have hInserted : row.status = .pending := rfl
    exact (triple_afterJobInserted hInserted).bind fun _ => triple_pure _ fun _ h => h
  · exact triple_pure _ fun _ h => h

theorem keepsQueue_enqueueJobIfAbsent (env : Env) (job : Job) (priority : Int)
    (runAfter : Option Nat) (opts : EnqueueIfAbsentOptions) :
    KeepsQueue (enqueueJobIfAbsent env job priority runAfter opts) := by
  refine (keepsQueue_shouldAllowEnqueue env job opts.bypassQueueCap).bind fun allowed => ?_
  split
  · refine (triple_runAt runAfter).bind fun runAt => keepsQueue_clock.bind fun createdAt => ?_
    let row : JobRow := { job, priority, runAfter := runAt, createdAt }
    refine Triple.bind (Q := fun inserted => QueueOff fun c => if inserted = none then 0 else row.share c)
      (triple_step (fun db h => ?_) fun _ _ _ => trivial) fun inserted => ?_
    · by_cases hHas : db.jobs.hasActive (opts.dedupeTypes.getD [job.type])
        (opts.address.or job.address) = true
      · refine ((queueExact_iff.mp h).job _).congr fun c _ => ?_
        show 0 + (JobTable.total c (if _ then _ else _) - _) = _
        simp [hHas]
      · have hExec : (JobStmt.insertIfAbsent job priority runAt createdAt
            (opts.dedupeTypes.getD [job.type]) (opts.address.or job.address)).exec db.jobs =
            db.jobs.insertRow row := if_neg hHas
        refine (h.insertRow hExec).congr fun c _ => ?_
        simp [hHas]
    · rw [forEach_eq]
      cases inserted with
      | none => exact triple_pure _ fun db h => h.exact fun c => if_pos rfl
      | some id =>
        have hInserted : row.status = .pending := rfl
        have hAfter := (triple_afterJobInserted hInserted).pre fun db (h : QueueOff (fun c =>
          if some id = none then 0 else row.share c) db) => h
        exact Triple.bind (Triple.bind hAfter fun _ => triple_pure () fun _ h => h) fun _ =>
          triple_pure _ fun _ h => h
  · exact triple_pure _ fun _ h => h

/-! ### Claims -/

theorem keepsQueue_markJobRunning (id ts : Nat) : KeepsQueue (markJobRunning id ts) := by
  refine Triple.bind (Q := fun claimed => QueueOff fun c =>
    if claimed = true ∧ c = .pendingJob then -1 else 0)
    (triple_step (fun db h => (h.update (s := .claim id ts) rfl).congr fun c _ => ?_)
      fun _ _ _ => trivial) fun claimed => ?_
  · cases db.jobs.lookup id with
    | none => rfl
    | some row =>
      show JobRow.share (if row.status = .pending then _ else row) c - row.share c = _
      by_cases hRow : row.status = .pending
      · rw [if_pos hRow]
        by_cases hc : c = .pendingJob
        · subst hc
          simp [share_pendingJob, hRow]
        · rw [share_of_ne _ hc, share_of_ne _ hc]
          simp [JobRow.active, hRow, hc]
      · rw [if_neg hRow]
        simp [hRow]
  · cases claimed with
    | false => exact triple_pure _ fun db h => h.exact fun c => if_neg (by simp)
    | true =>
      have hOwed : (fun c : Counter => if true = true ∧ c = .pendingJob then (-1 : Int) else 0)
          .pendingJob = -1 := rfl
      refine Triple.bind ((triple_adjustPendingJobCount hOwed fun _ _ => trivial).post
        fun _ db h => h.exact fun c => ?_) fun _ => (keepsQueue_query _).bind fun job =>
          triple_pure _ fun _ h => h
      by_cases hc : c = .pendingJob
      · rw [hc, Function.update_self]
      · rw [Function.update_of_ne hc]
        exact if_neg fun h => hc h.2

theorem keepsQueue_claimSelected (select : Db → Nat → Option Nat) :
    KeepsQueue (claimSelected select) := by
  refine keepsQueue_clock.bind fun ts => (keepsQueue_query _).bind fun head => ?_
  cases head with
  | none => exact triple_pure _ fun _ h => h
  | some id => exact (keepsQueue_markJobRunning id ts).bind fun job => triple_pure _ fun _ h => h

/-! ### Ends of a run -/

theorem share_of_done {row : JobRow} (h : row.status = .done) (c : Counter) : row.share c = 0 := by
  unfold JobRow.share JobRow.counts JobRow.active
  simp [h]

theorem keepsQueue_maybeUpdateLastCompletedJobCache (completedAt : Nat) :
    KeepsQueue (maybeUpdateLastCompletedJobCache completedAt) :=
  (keepsQueue_query _).bind fun _ => triple_when
    (fun _ => triple_run (fun _ h => h.scheduler rfl) fun _ _ _ => trivial) fun _ _ h => h

theorem keepsQueue_completeJob (id : Nat) : KeepsQueue (completeJob id) := by
  refine Triple.bind (Q := fun job db => job = db.jobs.lookup id ∧ QueueExact db)
    (triple_query (fun _ h => ⟨rfl, h⟩) fun _ _ _ => trivial) fun job =>
      triple_clock.bind fun completedAt => ?_
  refine Triple.bind (Q := fun _ => QueueOff fun c => -optionShare job c)
    (triple_run (fun db h => ?_) fun _ _ _ => trivial) fun _ => ?_
  · obtain ⟨rfl, hExact⟩ := h
    refine (hExact.update (s := .complete id completedAt) rfl).congr fun c _ => ?_
    cases db.jobs.lookup id with
    | none => rfl
    | some row =>
      show JobRow.share { row with status := .done, .. } c - row.share c = -row.share c
      rw [share_of_done rfl]
      omega
  refine Triple.bind (Q := fun _ => QueueOff fun c => if c = .pendingJob then 0 else -optionShare job c)
    (triple_when (fun hc => ?_) fun hc db h => h.congr fun c _ => ?_) fun _ => ?_
  · obtain ⟨row, rfl, hRow⟩ := (Option.any_eq_true _ _).mp hc
    have hPending : -row.share .pendingJob = -1 := by
      rw [share_pendingJob, if_pos (of_decide_eq_true hRow)]
    refine (triple_adjustPendingJobCount (o := fun c => -row.share c) hPending
      fun _ _ => trivial).post fun _ db h => h.congr fun c _ => ?_
    by_cases h : c = .pendingJob
    · rw [h, Function.update_self, if_pos rfl]
    · rw [Function.update_of_ne h, if_neg h]
      rfl
  · split
    · next h =>
      subst h
      cases job with
      | none => rfl
      | some row =>
        have hRow : ¬ row.status = .pending := fun h => hc (by simp [h])
        show -row.share .pendingJob = 0
        rw [share_pendingJob, if_neg hRow]
        rfl
    · rfl
  refine Triple.bind (Q := fun _ => QueueExact) ?_ fun _ => Triple.bind (Q := fun _ => QueueExact)
    (triple_when (fun _ => keepsQueue_maybeUpdateLastCompletedJobCache completedAt) fun _ _ h => h)
    fun _ => triple_run (fun _ h => h.scheduler rfl) fun _ _ _ => trivial
  rw [forEach_eq]
  cases job with
  | none => exact triple_pure () fun db h => h.exact fun c => by split <;> rfl
  | some row =>
    refine Triple.bind (Q := fun _ => QueueExact) (triple_when (fun hActive => ?_) fun hActive db h =>
      h.exact fun c => ?_) fun _ => triple_pure () fun _ h => h
    · refine (triple_adjustActiveJobCount (fun field hf => ?_) fun _ _ => trivial).post
        fun _ db h => h.exact fun c => ?_
      · show (if field = .pendingJob then 0 else -row.share field) = -1
        rw [if_neg (field_isQueue hf).2, share_of_ne row (field_isQueue hf).2, if_pos ⟨hActive, hf⟩]
      · unfold settleActive
        split
        · rfl
        · next hField =>
          by_cases hc : c = .pendingJob
          · exact if_pos hc
          · show (if c = .pendingJob then 0 else -row.share c) = 0
            rw [if_neg hc, share_of_ne row hc, if_neg fun h => hField h.2]
            rfl
    · show (if c = .pendingJob then 0 else -row.share c) = 0
      split
      · rfl
      · next hc =>
        rw [share_of_ne row hc, if_neg fun h => hActive h.1]
        rfl

/-- What the counters miss after a done job has become pending. -/
def revived (job : Option JobRow) (c : Counter) : Int :=
  job.elim 0 fun row => if row.status = .done then { row with status := .pending }.share c else 0

/-- The end of `failJob` and `deferJob`: the job becomes pending, and is counted where it was
running. -/
theorem triple_requeue (id attempts runAt : Nat) (job : Option JobRow) :
    Triple (fun db => job = db.jobs.lookup id ∧ QueueExact db)
      (do
        StoreMonad.run (.job (.requeue id attempts runAt))
        StoreMonad.when (job.any (·.status = .running)) (adjustPendingJobCount 1) : StoreM Unit)
      (fun _ => QueueOff (revived job)) fun _ _ => True := by
  refine Triple.bind (Q := fun _ => QueueOff fun c =>
    optionShare (job.map fun r => { r with status := .pending }) c - optionShare job c)
    (triple_run (fun db h => ?_) fun _ _ _ => trivial) fun _ => ?_
  · obtain ⟨rfl, hExact⟩ := h
    refine (hExact.update (s := .requeue id attempts runAt) rfl).congr fun c _ => ?_
    cases db.jobs.lookup id <;> rfl
  cases job with
  | none => exact triple_when (fun h => by cases h) fun _ db h => h.congr fun c _ => rfl
  | some row =>
    have hOwed : ∀ c, ({ row with status := .pending } : JobRow).share c - row.share c =
        if row.status = .running then if c = .pendingJob then 1 else 0 else revived (some row) c := by
      intro c
      unfold revived
      by_cases hc : c = .pendingJob
      · subst hc
        rw [share_pendingJob, share_pendingJob]
        cases hs : row.status <;> simp [share_pendingJob, hs]
      · rw [share_of_ne _ hc, share_of_ne _ hc]
        cases hs : row.status <;> simp [share_of_ne _ hc, JobRow.active, hs, hc]
    refine triple_when (fun hRunning => ?_) fun hRunning db h => h.congr fun c _ => ?_
    · have hRow : row.status = .running := of_decide_eq_true hRunning
      have hOne : ({ row with status := .pending } : JobRow).share .pendingJob -
          row.share .pendingJob = 1 := by rw [hOwed, if_pos hRow, if_pos rfl]
      refine (triple_adjustPendingJobCount (o := fun c => ({ row with status := .pending } :
        JobRow).share c - row.share c) hOne fun _ _ => trivial).post fun _ db h => h.congr fun c _ => ?_
      have hRevived : revived (some row) c = 0 := by
        show (if row.status = .done then _ else (0 : Int)) = 0
        rw [hRow]
        rfl
      rw [hRevived]
      by_cases hc : c = .pendingJob
      · rw [hc, Function.update_self]
      · rw [Function.update_of_ne hc, hOwed, if_pos hRow, if_neg hc]
    · have hRow : ¬ row.status = .running := fun h => hRunning (by simp [h])
      exact (hOwed c).trans (if_neg hRow)

theorem triple_failJob (id : Nat) (runAfter : Option Nat) (job : Option JobRow) :
    Triple (fun db => job = db.jobs.lookup id ∧ QueueExact db) (failJob id runAfter : StoreM Unit)
      (fun _ => QueueOff (revived job)) fun _ _ => True := by
  refine Triple.bind (Q := fun read db => read = job ∧ job = db.jobs.lookup id ∧ QueueExact db)
    (triple_query (fun db h => ⟨h.1.symm, h⟩) fun _ _ _ => trivial) fun read => ?_
  refine triple_of_state fun db h => ?_
  obtain ⟨rfl, hRead⟩ := h
  refine Triple.pre ((triple_runAt runAfter).bind fun runAt => triple_requeue id _ runAt read) ?_
  rintro s rfl
  exact hRead

theorem triple_deferJob (id runAfter : Nat) (job : Option JobRow) :
    Triple (fun db => job = db.jobs.lookup id ∧ QueueExact db) (deferJob id runAfter : StoreM Unit)
      (fun _ => QueueOff (revived job)) fun _ _ => True := by
  refine Triple.bind (Q := fun read db => read = job ∧ job = db.jobs.lookup id ∧ QueueExact db)
    (triple_query (fun db h => ⟨h.1.symm, h⟩) fun _ _ _ => trivial) fun read => ?_
  refine triple_of_state fun db h => ?_
  obtain ⟨rfl, hRead⟩ := h
  refine Triple.pre (triple_requeue id _ runAfter read) ?_
  rintro s rfl
  exact hRead

/-- A job that is not done is not missed, and a done one is. -/
theorem queueExact_of_revived {db : Db} {job : Option JobRow} (h : QueueOff (revived job) db) :
    QueueExact db ↔ ∀ row, job = some row → row.status ≠ .done := by
  constructor
  · intro hExact row hRow hDone
    have hOff : db.scheduler.counter .pendingJob + revived job .pendingJob =
        db.jobs.total .pendingJob := h .pendingJob rfl
    have hNone : db.scheduler.counter .pendingJob + 0 = db.jobs.total .pendingJob :=
      queueExact_iff.mp hExact .pendingJob rfl
    have hOne : revived job .pendingJob = 1 := by
      rw [hRow]
      show (if row.status = .done then _ else _) = _
      rw [if_pos hDone, share_pendingJob, if_pos rfl]
    omega
  · intro hRow
    refine h.exact fun c => ?_
    cases job with
    | none => rfl
    | some row => exact if_neg (hRow row rfl)

/-! ### Reclaims -/

/-- The jobs that a reset has still to reclaim are running, and each is listed once. -/
def Reclaimable (jobs : List (Nat × JobRow)) (db : Db) : Prop :=
  (jobs.map (·.1)).Nodup ∧ ∀ e ∈ jobs, ∃ row, db.jobs.lookup e.1 = some row ∧ row.status = .running

/-- A statement that writes no other job than the given one. -/
def OnlyJob (id : Nat) (i : Stmt) : Prop :=
  ∀ db id', id' ≠ id → (exec i db).jobs.lookup id' = db.jobs.lookup id'

theorem onlyJob_of_update {id : Nat} {s : JobStmt} {f : JobRow → JobRow}
    (hs : ∀ t : JobTable, s.exec t = t.update id f) : OnlyJob id (.job s) := by
  intro db id' hNe
  show (s.exec db.jobs).lookup id' = _
  rw [hs, lookup_update, if_neg hNe]

theorem onlyJob_of_reclaims {id : Nat} (s : JobStmt) (hs : s.reclaims id) : OnlyJob id (.job s) := by
  cases s with
  | requeue | reclaim | clearReclaim =>
    cases hs
    exact onlyJob_of_update fun _ => rfl
  | _ => cases hs

theorem onlyJob_of_isQueueCounter (id : Nat) (i : Stmt) (hi : i.isQueueCounter) : OnlyJob id i := by
  intro db id' _
  cases i with
  | job => cases hi
  | _ => rfl

theorem keepsQueue_clearReclaim (id : Nat) :
    KeepsQueue (StoreMonad.run (.job (.clearReclaim id))) := by
  refine triple_run (fun db h => ?_) fun _ _ _ => trivial
  refine (h.update (s := .clearReclaim id) rfl).exact fun c => ?_
  cases db.jobs.lookup id with
  | none => rfl
  | some row => exact sub_self (row.share c)

theorem triple_reclaimJob (opts : ReclaimOptions) (id : Nat) (row : JobRow) :
    Triple (fun db => (∃ row, db.jobs.lookup id = some row ∧ row.status = .running) ∧ QueueExact db)
      (reclaimJob opts id row : StoreM Unit) (fun _ => QueueExact) fun _ _ => True := by
  refine triple_of_state fun db h => ?_
  obtain ⟨⟨stored, hStored, hRunning⟩, hExact⟩ := h
  have hNotDone : ∀ row, some stored = some row → row.status ≠ .done := by
    rintro row ⟨⟩
    rw [hRunning]
    decide
  unfold reclaimJob
  dsimp only
  split
  · refine triple_clock.bind fun nowMs => ?_
    refine Triple.bind (Triple.conseq (triple_deferJob id _ (some stored)) ?_
      (fun _ db h => (queueExact_of_revived h).mpr hNotDone) fun _ _ h => h) fun _ =>
        keepsQueue_clearReclaim id
    rintro s rfl
    exact ⟨hStored.symm, hExact⟩
  · have hOwed : ∀ c, ({ stored with status := .pending } : JobRow).share c - stored.share c =
        if c = .pendingJob then 1 else 0 := by
      intro c
      by_cases hc : c = .pendingJob
      · subst hc
        simp [share_pendingJob, hRunning]
      · rw [share_of_ne _ hc, share_of_ne _ hc]
        simp [JobRow.active, hRunning, hc]
    refine Triple.bind (Q := fun _ => QueueOff fun c => if c = .pendingJob then 1 else 0)
      (triple_run ?_ fun _ _ _ => trivial) fun _ => ?_
    · rintro s rfl
      refine (hExact.update (s := .reclaim id _ _) rfl).congr fun c _ => ?_
      rw [hStored]
      exact hOwed c
    · refine (triple_adjustPendingJobCount (o := fun c => if c = .pendingJob then 1 else 0)
        (if_pos rfl) fun _ _ => trivial).post fun _ db h => h.exact fun c => ?_
      by_cases hc : c = .pendingJob
      · rw [hc, Function.update_self]
      · rw [Function.update_of_ne hc, if_neg hc]

theorem reclaimable_stale (staleMs nowMs : Nat) (db : Db) :
    Reclaimable (db.jobs.stale staleMs nowMs) db := by
  constructor
  · have hKeys : ((db.jobs.stale staleMs nowMs).map (·.1)).Sublist (db.jobs.rows.entries.map (·.1)) := by
      unfold JobTable.stale
      rw [List.map_map]
      exact List.filter_sublist.map _
    exact hKeys.nodup db.jobs.rows.nodupKeys
  · intro e he
    obtain ⟨entry, hEntry, rfl⟩ := List.mem_map.mp he
    obtain ⟨hMem, hCond⟩ := List.mem_filter.mp hEntry
    rw [Bool.and_eq_true, decide_eq_true_eq] at hCond
    exact ⟨entry.2, Table.lookup_eq_some_iff.mpr hMem, hCond.1⟩

theorem keepsQueue_resetRunningJobs (opts : ReclaimOptions) : KeepsQueue (resetRunningJobs opts) := by
  refine keepsQueue_clock.bind fun nowMs => ?_
  refine Triple.bind (Q := fun stale db => Reclaimable stale db ∧ QueueExact db)
    (triple_query (fun db h => ⟨reclaimable_stale _ _ db, h⟩) fun _ _ _ => trivial) fun stale => ?_
  rw [forEach_eq]
  refine (triple_forEach_rest (I := fun rest db => Reclaimable rest db ∧ QueueExact db)
    fun e rest _ => ?_).post fun _ _ h => h.2
  -- the other jobs of the list stay as they are
  have hOthers : Triple (Reclaimable (e :: rest)) (reclaimJob opts e.1 e.2 : StoreM Unit)
      (fun _ => Reclaimable rest) fun _ => Reclaimable rest := by
    refine Triple.pre (P := fun db => e.1 ∉ rest.map (·.1) ∧ Reclaimable rest db) ?_ fun db h => ?_
    · refine (triple_of_emits (emits_reclaimJob (onlyJob_of_isQueueCounter e.1)
      onlyJob_of_reclaims opts e.2) fun i hi db h => ⟨h.1, h.2.1, fun e' he' =>
        ?_⟩).conseq (fun _ h => h) (fun _ _ h => h.2) fun _ _ h => h.2
      obtain ⟨row, hRow, hRunning⟩ := h.2.2 e' he'
      have hNe : e'.1 ≠ e.1 := fun hEq => h.1 (hEq ▸ List.mem_map_of_mem he')
      exact ⟨row, (hi db e'.1 hNe).trans hRow, hRunning⟩
    · have hNodup := h.1
      rw [List.map_cons, List.nodup_cons] at hNodup
      exact ⟨hNodup.1, hNodup.2, fun e' he' => h.2 e' (List.mem_cons_of_mem _ he')⟩
  refine (hOthers.and (triple_reclaimJob opts e.1 e.2)).conseq (fun db h => ?_) (fun _ _ h => h)
    fun _ _ _ => trivial
  exact ⟨h.1, h.1.2 e List.mem_cons_self, h.2⟩

/-! ### Deletions -/

/-- The type whose active jobs a counter counts. -/
def Counter.jobType : Counter → Option JobType
  | .activeExpand => some .expandDownstream
  | .activeBackfill => some .backfillHackerAddress
  | .activeAudit => some .auditHackerBackfill
  | .activeProcessTx => some .processTx
  | _ => none

theorem field_eq_iff {type : JobType} {c : Counter} :
    cachedActiveJobCountField type = some c ↔ c.jobType = some type := by
  cases type <;> cases c <;> decide

/-- The counters of the active jobs that still miss the deltas of the listed types. -/
def owedTypes (deltas : List (JobType × Int)) (c : Counter) : Int :=
  c.jobType.elim 0 fun type => Tally.total type deltas

theorem sum_share_active {rows : List JobRow} (hActive : ∀ r ∈ rows, r.active = true) {c : Counter}
    (hc : c ≠ .pendingJob) :
    -(rows.map (·.share c)).sum = owedTypes (rows.map fun r => (r.job.type, -1)) c := by
  unfold owedTypes
  induction rows with
  | nil => cases c.jobType <;> rfl
  | cons r rows ih =>
    have hRest := ih fun r' hr' => hActive r' (List.mem_cons_of_mem _ hr')
    rw [List.map_cons, List.sum_cons, List.map_cons, share_of_ne r hc]
    cases hType : c.jobType with
    | none =>
      rw [hType] at hRest
      have hNot : ¬ (r.active ∧ cachedActiveJobCountField r.job.type = some c) := fun h => by
        rw [field_eq_iff, hType] at h
        cases h.2
      rw [if_neg hNot, zero_add]
      exact hRest
    | some type =>
      rw [hType] at hRest
      simp only [Option.elim_some] at hRest ⊢
      rw [Tally.total_cons, ← hRest]
      by_cases hEq : r.job.type = type
      · rw [if_pos ⟨hActive r List.mem_cons_self, field_eq_iff.mpr (hEq ▸ hType)⟩, if_pos hEq]
        omega
      · have hNot : ¬ (r.active ∧ cachedActiveJobCountField r.job.type = some c) := fun h => by
          rw [field_eq_iff, hType] at h
          exact hEq (Option.some.inj h.2).symm
        rw [if_neg hNot, if_neg hEq]
        omega

theorem sum_share_pendingJob (rows : List JobRow) :
    (rows.map (·.share .pendingJob)).sum = rows.countP (·.status = .pending) := by
  induction rows with
  | nil => rfl
  | cons r rows ih =>
    rw [List.map_cons, List.sum_cons, ih, share_pendingJob, List.countP_cons]
    by_cases h : r.status = .pending
    · simp [h, add_comm]
    · simp [h]

/-- A deletion owes the counters what the deleted rows contributed. -/
theorem total_keep_not (t : JobTable) (p : JobRow → Bool) (c : Counter) :
    (t.keep fun _ r => !p r).total c =
      t.total c - (((t.rows.entries.filter fun e => p e.2).map (·.2)).map (·.share c)).sum := by
  rw [total_keep]
  unfold JobTable.total Table.sum
  induction t.rows.entries with
  | nil => rfl
  | cons e es ih =>
    rw [List.map_cons, List.sum_cons, ih, List.map_cons, List.sum_cons, List.filter_cons]
    cases hp : p e.2
    · simp only [hp, Bool.not_false, if_true, Bool.false_eq_true, if_false]
      omega
    · simp only [hp, Bool.not_true, Bool.false_eq_true, if_false, if_true, List.map_cons, List.sum_cons]
      omega

theorem keepsQueue_deleteActiveJobsForAddress (address : Address) :
    KeepsQueue (deleteActiveJobsForAddress address) := by
  refine Triple.bind (Q := fun rows db => (rows = (db.jobs.rows.entries.filter fun e =>
      e.2.active && e.2.job.address = some address).map (·.2)) ∧ QueueExact db)
    (triple_query (fun _ h => ⟨rfl, h⟩) fun _ _ _ => trivial) fun rows => ?_
  refine triple_of_state fun db h => ?_
  obtain ⟨rfl, hExact⟩ := h
  generalize hRows : ((db.jobs.rows.entries.filter fun e =>
    e.2.active && e.2.job.address = some address).map (·.2)) = rows
  have hActive : ∀ r ∈ rows, r.active = true := by
    intro r hr
    rw [← hRows] at hr
    obtain ⟨e, he, rfl⟩ := List.mem_map.mp hr
    have hCond := (List.mem_filter.mp he).2
    rw [Bool.and_eq_true] at hCond
    exact hCond.1
  let deltas := rows.map fun r => (r.job.type, (-1 : Int))
  refine Triple.bind (Q := fun _ => QueueOff fun c => -(rows.map (·.share c)).sum)
    (triple_run ?_ fun _ _ _ => trivial) fun _ => ?_
  · rintro s rfl
    refine ((queueExact_iff.mp hExact).job (.deleteActiveForAddress address)).congr fun c _ => ?_
    have hTotal := total_keep_not s.jobs (fun r => r.active && r.job.address = some address) c
    rw [hRows] at hTotal
    show 0 + ((JobTable.keep _ s.jobs).total c - s.jobs.total c) = _
    rw [hTotal]
    omega
  have hPending : -(rows.map (·.share .pendingJob)).sum =
      (-(rows.countP (·.status = .pending) : Int)) := by rw [sum_share_pendingJob]
  refine Triple.bind ((triple_adjustPendingJobCount (o := fun c => -(rows.map (·.share c)).sum)
    hPending fun _ _ => trivial).post fun _ db h => h.congr (o := owedTypes (Tally.tally deltas))
      fun c _ => ?_) fun _ => ?_
  · by_cases hc : c = .pendingJob
    · rw [hc, Function.update_self]
      rfl
    · rw [Function.update_of_ne hc, sum_share_active hActive hc]
      unfold owedTypes
      cases c.jobType with
      | none => rfl
      | some type => exact (Tally.total_tally type deltas).symm
  rw [forEach_eq]
  refine (triple_forEach_rest (I := fun rest => QueueOff (owedTypes rest)) fun e rest hRest => ?_).post
    fun _ db h => h.exact fun c => by unfold owedTypes; cases c.jobType <;> rfl
  -- no type comes twice, so the delta of the head is all that its counter misses
  obtain ⟨front, hFront⟩ := hRest
  have hNodup := Tally.nodup_tally deltas
  rw [hFront, List.map_append, List.map_cons] at hNodup
  have hNotMem := (List.nodup_cons.mp (List.nodup_append.mp hNodup).2.1).1
  have hHead : ∀ c, owedTypes (e :: rest) c =
      (if c.jobType = some e.1 then e.2 else 0) + owedTypes rest c := by
    intro c
    unfold owedTypes
    cases hType : c.jobType with
    | none => rfl
    | some type =>
      simp only [Option.elim_some, Tally.total_cons, Option.some.injEq]
      by_cases hEq : e.1 = type
      · rw [if_pos hEq, if_pos hEq.symm]
      · rw [if_neg hEq, if_neg (Ne.symm hEq)]
  refine (triple_adjustActiveJobCount (fun field hf => ?_) fun _ _ => trivial).post
    fun _ db h => h.congr fun c _ => ?_
  · have hType := field_eq_iff.mp hf
    have hZero : owedTypes rest field = 0 := by
      unfold owedTypes
      rw [hType]
      exact Tally.total_eq_zero hNotMem
    rw [hHead, if_pos hType, hZero, add_zero]
  · unfold settleActive
    by_cases hf : cachedActiveJobCountField e.1 = some c
    · rw [if_pos hf]
      unfold owedTypes
      rw [field_eq_iff.mp hf]
      exact (Tally.total_eq_zero hNotMem).symm
    · rw [if_neg hf, hHead, if_neg fun h => hf (field_eq_iff.mpr h), zero_add]

theorem share_of_not_active {row : JobRow} (h : row.active = false) (c : Counter) :
    row.share c = 0 := by
  unfold JobRow.active at h
  have hDone : row.status = .done := by
    cases hs : row.status with
    | done => rfl
    | _ =>
      rw [hs] at h
      cases h
  exact share_of_done hDone c

theorem keepsQueue_deleteActiveJobs : KeepsQueue deleteActiveJobs := by
  refine (keepsQueue_query _).bind fun _ => (keepsQueue_query _).bind fun _ => ?_
  refine Triple.bind (Q := fun _ db => ∀ c, db.jobs.total c = 0) (triple_run (fun db _ c => ?_)
    fun _ _ _ => trivial) fun _ => triple_run (fun db h => ?_) fun _ _ _ => trivial
  · show (db.jobs.keep fun _ r => !r.active).total c = 0
    rw [total_keep]
    refine List.sum_eq_zero fun d hd => ?_
    obtain ⟨e, _, rfl⟩ := List.mem_map.mp hd
    dsimp only
    cases hActive : e.2.active
    · exact share_of_not_active hActive c
    · rfl
  · refine queueExact_iff.mpr fun c hc => ?_
    show (if c.isQueue then 0 else db.scheduler.counter c) + 0 = db.jobs.total c
    rw [if_pos hc, h c, add_zero]

theorem keepsQueue_pruneDoneJobsBatch (batchSize cutoff : Nat) :
    KeepsQueue (pruneDoneJobsBatch batchSize cutoff) := by
  refine triple_run (fun db h => ?_) fun _ _ _ => trivial
  refine ((queueExact_iff.mp h).job (.pruneDone cutoff (max 1 batchSize))).exact fun c => ?_
  have hTotal : ((JobStmt.pruneDone cutoff (max 1 batchSize)).exec db.jobs).total c = db.jobs.total c := by
    refine (total_keep db.jobs c _).trans ?_
    refine congrArg List.sum (List.map_congr_left fun e he => ?_)
    dsimp only
    split
    · rfl
    · next hPruned =>
      -- the row under a pruned id is the done one that the query has read
      rw [decide_eq_true_eq, not_not] at hPruned
      obtain ⟨e', he', hId⟩ := List.mem_map.mp hPruned
      obtain ⟨hMem, hCond⟩ := List.mem_filter.mp
        ((List.mem_insertionSort _).mp (List.mem_of_mem_take he'))
      rw [Bool.and_eq_true, decide_eq_true_eq] at hCond
      have hSame : some e'.2 = some e.2 := by
        rw [← Table.lookup_eq_some_iff.mpr hMem, ← Table.lookup_eq_some_iff.mpr he, hId]
      rw [← Option.some.inj hSame, share_of_done hCond.1]
  rw [hTotal]
  omega

/-! ## Runs -/

inductive QueueOp where
  | enqueueJob (job : Job) (priority : Int) (runAfter : Option Nat) (bypassQueueCap : Bool)
  | enqueueJobIfAbsent (job : Job) (priority : Int) (runAfter : Option Nat)
      (opts : EnqueueIfAbsentOptions)
  | claim (select : Db → Nat → Option Nat)
  | completeJob (id : Nat)
  | failJob (id : Nat) (runAfter : Option Nat)
  | deferJob (id runAfter : Nat)
  | resetRunningJobs (opts : ReclaimOptions)
  | deleteActiveJobsForAddress (address : Address)
  | deleteActiveJobs
  | pruneDoneJobsBatch (batchSize cutoff : Nat)

def QueueOp.run (env : Env) : QueueOp → StoreM Unit
  | .enqueueJob job priority runAfter bypass => do
    let _ ← Store.enqueueJob env job priority runAfter bypass
    pure ()
  | .enqueueJobIfAbsent job priority runAfter opts => do
    let _ ← Store.enqueueJobIfAbsent env job priority runAfter opts
    pure ()
  | .claim select => do
    let _ ← claimSelected select
    pure ()
  | .completeJob id => Store.completeJob id
  | .failJob id runAfter => Store.failJob id runAfter
  | .deferJob id runAfter => Store.deferJob id runAfter
  | .resetRunningJobs opts => Store.resetRunningJobs opts
  | .deleteActiveJobsForAddress address => Store.deleteActiveJobsForAddress address
  | .deleteActiveJobs => Store.deleteActiveJobs
  | .pruneDoneJobsBatch batchSize cutoff => Store.pruneDoneJobsBatch batchSize cutoff

/-- The job is not done. -/
def NotDone (id : Nat) (db : Db) : Prop := ∀ row, db.jobs.lookup id = some row → row.status ≠ .done

/-- Neither `failJob` nor `deferJob` is applied to a done job. -/
def QueueOp.Safe : QueueOp → Db → Prop
  | .failJob id _, db => NotDone id db
  | .deferJob id _, db => NotDone id db
  | _, _ => True

/-- The operation keeps the counters exact exactly where it makes no done job pending again. -/
theorem queueExact_step_iff {env : Env} (op : QueueOp) {db : Db} {c : Ctl Mem Err}
    (hOk : (op.run env db c).res = .ok ()) (hExact : QueueExact db) :
    QueueExact ((op.run env).final db c) ↔ op.Safe db := by
  have hKeeps : ∀ {α : Type} {p : StoreM α}, KeepsQueue p →
      KeepsQueue (p >>= fun _ => (pure () : StoreM Unit)) :=
    fun h => h.bind fun _ => triple_pure () fun _ h => h
  cases op with
  | enqueueJob job priority runAfter bypass =>
    exact iff_of_true ((hKeeps (keepsQueue_enqueueJob env job priority runAfter bypass)).ok hExact hOk)
      trivial
  | enqueueJobIfAbsent job priority runAfter opts =>
    exact iff_of_true ((hKeeps (keepsQueue_enqueueJobIfAbsent env job priority runAfter opts)).ok
      hExact hOk) trivial
  | claim select => exact iff_of_true ((hKeeps (keepsQueue_claimSelected select)).ok hExact hOk) trivial
  | completeJob id => exact iff_of_true ((keepsQueue_completeJob id).ok hExact hOk) trivial
  | failJob id runAfter =>
    exact queueExact_of_revived ((triple_failJob id runAfter _).ok ⟨rfl, hExact⟩ hOk)
  | deferJob id runAfter =>
    exact queueExact_of_revived ((triple_deferJob id runAfter _).ok ⟨rfl, hExact⟩ hOk)
  | resetRunningJobs opts => exact iff_of_true ((keepsQueue_resetRunningJobs opts).ok hExact hOk) trivial
  | deleteActiveJobsForAddress a =>
    exact iff_of_true ((keepsQueue_deleteActiveJobsForAddress a).ok hExact hOk) trivial
  | deleteActiveJobs => exact iff_of_true (keepsQueue_deleteActiveJobs.ok hExact hOk) trivial
  | pruneDoneJobsBatch batchSize cutoff =>
    exact iff_of_true ((keepsQueue_pruneDoneJobsBatch batchSize cutoff).ok hExact hOk) trivial

/-- A run of operations that are all safe. -/
abbrev SafeRun (env : Env) : Db → Db → Prop := OpRun (QueueOp.run env) fun op db _ => op.Safe db

/-- In every run of safe operations that return the counters stay exact, and the first operation that
returns and is not safe leaves them wrong. -/
theorem queueExact_of_run {env : Env} {db : Db} (hExact : QueueExact db) :
    (∀ db', SafeRun env db db' → QueueExact db') ∧
    ∀ db' (op : QueueOp) (c : Ctl Mem Err), SafeRun env db db' → (op.run env db' c).res = .ok () →
      ¬ op.Safe db' → ¬ QueueExact ((op.run env).final db' c) := by
  have hStep : ∀ (op : QueueOp) (s : Db) (c : Ctl Mem Err), op.Safe s → (op.run env s c).res = .ok () →
      QueueExact s → QueueExact ((op.run env).final s c) :=
    fun op _ _ hSafe hOk hI => (queueExact_step_iff op hOk hI).mpr hSafe
  have hRun : ∀ db', SafeRun env db db' → QueueExact db' := fun db' h =>
    opRun_invariant hStep h hExact
  refine ⟨hRun, fun db' op c h hOk hUnsafe hStill => hUnsafe ?_⟩
  exact (queueExact_step_iff op hOk (hRun db' h)).mp hStill

/-! ### A job that fails after its completion -/

def queueEnv : Env := { provider := .ofTxs [] }

/-- The store after an operation without faults. -/
def applied (op : QueueOp) (db : Db) : Db := (op.run queueEnv).final db ⟨{}, []⟩

/-- A job is enqueued and claimed. -/
def claimedJob : Db :=
  applied (.claim fun _ _ => some 1) (applied (.enqueueJob (.processTx (name "t")) 1 none true) .initial)

def completedJob : Db := applied (.completeJob 1) claimedJob

theorem queueExact_initial : QueueExact .initial where
  pending := rfl
  active _ _ _ := rfl

theorem opStep_applied {guard : QueueOp → Db → Ctl Mem Err → Prop} {op : QueueOp} (db : Db)
    (hGuard : guard op db ⟨{}, []⟩)
    (hOk : (op.run queueEnv db ⟨{}, []⟩).res.toOption = some ()) :
    OpStep (QueueOp.run queueEnv) guard db (applied op db) := by
  refine ⟨op, ⟨{}, []⟩, hGuard, ?_, rfl⟩
  cases hRes : (op.run queueEnv db ⟨{}, []⟩).res with
  | ok => rfl
  | error e =>
    rw [hRes] at hOk
    cases hOk

theorem opRun_completedJob {guard : QueueOp → Db → Ctl Mem Err → Prop}
    (hGuard : ∀ op db c, op.Safe db → guard op db c) :
    OpRun (QueueOp.run queueEnv) guard .initial completedJob := by
  have hEnqueue := opStep_applied .initial (hGuard (.enqueueJob (.processTx (name "t")) 1 none
    true) _ _ trivial) (by decide +kernel)
  have hClaim := opStep_applied _ (hGuard (.claim fun _ _ => some 1) (applied (.enqueueJob
    (.processTx (name "t")) 1 none true) .initial) _ trivial) (by decide +kernel)
  have hComplete := opStep_applied _ (hGuard (.completeJob 1) claimedJob _ trivial) (by decide +kernel)
  exact ((Relation.ReflTransGen.single hEnqueue).tail hClaim).tail hComplete

/-- The done job becomes pending and no counter counts it. -/
theorem queue_failedAfterDone : QueueExact .initial ∧
    OpRun (QueueOp.run queueEnv) (fun _ _ _ => True) .initial (applied (.failJob 1 none) completedJob) ∧
    ¬ QueueExact (applied (.failJob 1 none) completedJob) := by
  have hFail : OpStep (QueueOp.run queueEnv) (fun _ _ _ => True) completedJob
      (applied (.failJob 1 none) completedJob) := opStep_applied _ trivial (by decide +kernel)
  refine ⟨queueExact_initial, (opRun_completedJob fun _ _ _ _ => trivial).tail hFail, fun h => ?_⟩
  have hCounter : (applied (.failJob 1 none) completedJob).scheduler.counter .pendingJob = 0 := by
    decide +kernel
  have hJobs : (applied (.failJob 1 none) completedJob).jobs.count (·.status = .pending) = 1 := by
    decide +kernel
  have hPending := h.pending
  rw [hCounter, hJobs] at hPending
  cases hPending

/-- Enqueued, claimed and completed, a job leaves the counters exact. -/
theorem queue_completed_exact : QueueExact completedJob :=
  (queueExact_of_run queueExact_initial).1 _ (opRun_completedJob fun _ _ _ h => h)

end Bloodhound.Store
