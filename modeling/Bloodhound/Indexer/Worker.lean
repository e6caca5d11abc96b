import Bloodhound.Lib.Process
import Bloodhound.Store.QueueCounters
import Bloodhound.Indexer.JobFailure

/-!
# The worker

The worker loop of `processor.ts` as a process: it claims a job, runs its handler, completes it,
and hands every exception to the failure handler. Between two of its statements the reclaims of
running jobs and other operations of the store execute theirs.

A job that is done stays done (`done_stays_done`) in every interleaving in which no statement
fails between the completion of a job and the end of its `try` block, and in which a reclaim
updates no job that has been completed since it read its list.
-/

namespace Bloodhound.Indexer

open Journal Process Store
open StoreMonad (query run when)

/-- Processes of the worker; the groups of a `try` block are labelled with its job. -/
abbrev WorkerM : Type → Type := Process (Option Nat) Stmt Db Err

instance : StoreMonad WorkerM where
  step := Process.execute
  clock := Process.input

/-! ## The loop -/

/-- A statement that neither completes a job nor makes it pending again. -/
def ordinaryStmt : Stmt → Bool
  | .job (.complete _ _) | .job (.requeue _ _ _) | .job (.reclaim _ _ _) => false
  | _ => true

def Ordinary (group : List Stmt) : Prop := ∀ i ∈ group, ordinaryStmt i = true

/-- What `processJob` and the synchronizations do for a claimed job. -/
structure JobHandler where
  run : JobRow → WorkerM Unit
  ordinary : ∀ row, (run row).Emits Ordinary

/-- What an exception carries is read as inputs. -/
def errorInputs : ErrorDetails WorkerM where
  retryAt := input
  quotaKind := do
    let kind ← input
    pure (if kind = 0 then .read else .write)

/-- The `try` block of the loop: whether the tick stops because its budget is spent. -/
def runJob (env : Env) (handler : JobHandler) (id : Nat) (row : JobRow) : WorkerM Bool := do
  handler.run row
  completeJob id
  maybeClearQueueSchedulingPause env
  query fun _ => ()
  let budgetSpent ← input
  if budgetSpent ≠ 0 then pure true
  else do
    query fun _ => ()
    pure false

/-- The runnable jobs. -/
def runnable (db : Db) (ts : Nat) : List Nat :=
  (db.jobs.rows.entries.filter fun e => e.2.status = .pending && e.2.runAfter ≤ ts).map (·.1)

/-- `claimJobForSlot`: which of the runnable jobs the slot picks, or none, is an input. -/
def claimJobForSlot : WorkerM (Option (Nat × JobRow)) := do
  query fun _ => ()
  let pick ← input
  claimSelected fun db ts => (runnable db ts)[pick]?

/-- The loop of `processJobs` over the slots that are left. -/
def jobLoop (env : Env) (handler : JobHandler) : Nat → WorkerM Unit
  | 0 => pure ()
  | slots + 1 => do
    let stop ← input
    if stop ≠ 0 then pure ()
    else do
      query fun _ => ()
      let claimed ← claimJobForSlot
      claimed.elim (pure ()) fun job => do
        when (jobNeedsHackersSet job.2.job.type) (query fun _ => ())
        let stopTick ← ((runJob env handler job.1 job.2).within (some job.1)).tryCatch
          (onJobError env.config errorInputs job.1 job.2)
        if stopTick then pure () else jobLoop env handler slots

def processJobs (env : Env) (handler : JobHandler) (jobsPerTick : Nat) : WorkerM Unit := do
  query fun _ => ()
  jobLoop env handler jobsPerTick

/-- Ticks one after another; an exception ends its tick. -/
def ticks (env : Env) (handler : JobHandler) (jobsPerTick : Nat) : Nat → WorkerM Unit
  | 0 => pure ()
  | n + 1 => do
    (processJobs env handler jobsPerTick).tryCatch fun _ => pure ()
    ticks env handler jobsPerTick n

/-! ## The system -/

/-- The parties: one worker, the reclaims of running jobs, and other operations of the store. -/
inductive Party where
  | worker
  | reset (n : Nat)
  | other (n : Nat)
  deriving DecidableEq

abbrev WorkerEvent : Type := Event Party (Option Nat) Stmt Err
abbrev WorkerView : Type := View Party (Option Nat) Stmt Db Err
abbrev WorkerConfig : Type := Config Party (Option Nat) Stmt Db Err

/-- What the parties run: any number of reclaims and of other operations, which complete no job and
make none pending again. -/
structure WorkerSystem where
  env : Env
  handler : JobHandler
  jobsPerTick : Nat
  tickCount : Nat
  reset : Nat → ReclaimOptions
  other : Nat → WorkerM Unit
  ordinary : ∀ n, (other n).Emits Ordinary

def WorkerSystem.process (sys : WorkerSystem) : Party → WorkerM Unit
  | .worker => ticks sys.env sys.handler sys.jobsPerTick sys.tickCount
  | .reset n => resetRunningJobs (sys.reset n)
  | .other n => sys.other n

def WorkerSystem.start (sys : WorkerSystem) (db : Db) : WorkerConfig := ⟨⟨db, []⟩, sys.process⟩

/-! ## Events -/

/-- The job that the statement completes. -/
def completedBy : Stmt → Option Nat
  | .job (.complete id _) => some id
  | _ => none

/-- The job that the statement makes pending again. -/
def requeuedBy : Stmt → Option Nat
  | .job (.requeue id _ _) | .job (.reclaim id _ _) => some id
  | _ => none

def completes (id : Nat) (ev : WorkerEvent) : Bool :=
  match ev.outcome with
  | .ok group => group.any fun i => completedBy i = some id
  | .error _ => false

def completed (id : Nat) (history : List WorkerEvent) : Bool := history.any (completes id)

/-- The job has been completed after some event of the party. -/
def completedSince (p : Party) (id : Nat) : List WorkerEvent → Bool
  | [] => false
  | ev :: older => (completes id ev && older.any (·.process = p)) || completedSince p id older

/-- No statement of the `try` block of a job fails after the completion of the job, and a reclaim
updates no job that has been completed since it read its list. -/
def Undisturbed (v : WorkerView) (ev : WorkerEvent) : Prop :=
  match ev.outcome with
  | .error _ => ∀ id, ev.label = some id → completed id v.history = false
  | .ok group => ∀ n, ev.process = .reset n → ∀ i ∈ group, ∀ id, requeuedBy i = some id →
    completedSince ev.process id v.history = false

/-! ## Jobs after a statement -/

/-- The job is done, or was deleted; its id is used up. -/
def Finished (id : Nat) (db : Db) : Prop :=
  id < db.jobs.nextId ∧ ∀ row, db.jobs.lookup id = some row → row.status = .done

theorem finished_insertRow {id : Nat} {db : Db} (h : Finished id db) (row : JobRow) :
    Finished id { db with jobs := db.jobs.insertRow row } := by
  refine ⟨h.1.trans (Nat.lt_succ_self _), fun r hr => h.2 r ?_⟩
  rwa [lookup_insertRow, if_neg h.1.ne] at hr

theorem finished_update {id id' : Nat} {f : JobRow → JobRow} {db : Db} (h : Finished id db)
    (hf : ∀ r, db.jobs.lookup id = some r → id = id' → r.status = .done → (f r).status = .done) :
    Finished id { db with jobs := db.jobs.update id' f } := by
  refine ⟨h.1, fun r hr => ?_⟩
  rw [lookup_update] at hr
  split at hr
  · next hId =>
    obtain ⟨old, hOld, rfl⟩ := Option.map_eq_some_iff.mp hr
    exact hf old hOld hId (h.2 old hOld)
  · exact h.2 r hr

theorem finished_keep {id : Nat} {db : Db} (h : Finished id db) (p : Nat → JobRow → Bool) :
    Finished id { db with jobs := db.jobs.keep p } := by
  refine ⟨h.1, fun r hr => h.2 r ?_⟩
  rw [lookup_keep] at hr
  exact Option.eq_some_of_filter_eq_some hr

/-- A statement that makes no done job pending leaves the finished jobs finished. -/
theorem finished_exec {id : Nat} {i : Stmt} {db : Db} (h : Finished id db)
    (hi : ∀ id', requeuedBy i = some id' → NotDone id' db) : Finished id (exec i db) := by
  -- a requeued job that is finished has no row any more
  have hRequeue : ∀ {id' : Nat} {f : JobRow → JobRow}, NotDone id' db →
      Finished id { db with jobs := db.jobs.update id' f } := fun hNot =>
    finished_update h fun r hr hId hDone => absurd hDone (hNot r (hId ▸ hr))
  cases i with
  | job s =>
    cases s with
    | insert => exact finished_insertRow h _
    | insertIfAbsent job priority runAfter createdAt types address =>
      show Finished id { db with jobs := if _ then _ else _ }
      split
      · exact h
      · exact finished_insertRow h _
    | claim =>
      refine finished_update h fun r _ _ hDone => ?_
      rw [if_neg (by rw [hDone]; decide)]
      exact hDone
    | complete => exact finished_update h fun _ _ _ _ => rfl
    | requeue id' => exact hRequeue (hi id' rfl)
    | reclaim id' => exact hRequeue (hi id' rfl)
    | clearReclaim => exact finished_update h fun _ _ _ hDone => hDone
    | deleteActiveForAddress => exact finished_keep h _
    | deleteActive => exact finished_keep h _
    | pruneDone => exact finished_keep h _
  | _ => exact h

theorem notDone_update {id id' : Nat} {f : JobRow → JobRow} {db : Db} (h : NotDone id db)
    (hf : ∀ r, id = id' → r.status ≠ .done → (f r).status ≠ .done) :
    NotDone id { db with jobs := db.jobs.update id' f } := by
  intro r hr
  rw [lookup_update] at hr
  split at hr
  · next hId =>
    obtain ⟨old, hOld, rfl⟩ := Option.map_eq_some_iff.mp hr
    exact hf old hId (h old hOld)
  · exact h r hr

theorem notDone_insertRow {id : Nat} {db : Db} (h : NotDone id db) {row : JobRow}
    (hRow : row.status = .pending) : NotDone id { db with jobs := db.jobs.insertRow row } := by
  intro r hr
  rw [lookup_insertRow] at hr
  split at hr
  · cases hr
    rw [hRow]
    decide
  · exact h r hr

theorem notDone_keep {id : Nat} {db : Db} (h : NotDone id db) (p : Nat → JobRow → Bool) :
    NotDone id { db with jobs := db.jobs.keep p } := by
  intro r hr
  rw [lookup_keep] at hr
  exact h r (Option.eq_some_of_filter_eq_some hr)

/-- Only its completion makes a job done. -/
theorem notDone_exec {id : Nat} {i : Stmt} {db : Db} (h : NotDone id db)
    (hi : completedBy i ≠ some id) : NotDone id (exec i db) := by
  cases i with
  | job s =>
    cases s with
    | insert => exact notDone_insertRow h rfl
    | insertIfAbsent job priority runAfter createdAt types address =>
      show NotDone id { db with jobs := if _ then _ else _ }
      split
      · exact h
      · exact notDone_insertRow h rfl
    | claim =>
      refine notDone_update h fun r _ hr => ?_
      split
      · exact fun hRunning => nomatch hRunning
      · exact hr
    | complete id' => exact notDone_update h fun r hId _ => absurd (congrArg some hId.symm) hi
    | requeue => exact notDone_update h fun _ _ _ hDone => nomatch hDone
    | reclaim => exact notDone_update h fun _ _ _ hDone => nomatch hDone
    | clearReclaim => exact notDone_update h fun _ _ hr => hr
    | deleteActiveForAddress => exact notDone_keep h _
    | deleteActive => exact notDone_keep h _
    | pruneDone => exact notDone_keep h _
  | _ => exact h

/-! ## What the parties guarantee -/

/-- Finished jobs stay finished, and only the worker makes a job done, by completing it. -/
def Guarantee (p : Party) (v v' : WorkerView) : Prop :=
  (∀ id, Finished id v.state → Finished id v'.state) ∧
  ∀ id, NotDone id v.state → NotDone id v'.state ∨
    p = .worker ∧ v'.history.head?.any (completes id) = true

theorem notDone_after {ev : WorkerEvent} {v : WorkerView} {id : Nat} (h : NotDone id v.state)
    (hEv : completes id ev = false) : NotDone id (v.after ev).state := by
  obtain ⟨p, l, outcome⟩ := ev
  cases outcome with
  | error e => exact h
  | ok group =>
    refine replay_inv (P := NotDone id) (fun i hi db hdb => notDone_exec hdb fun hId => ?_) h
    have hAny := List.any_eq_false.mp hEv i hi
    simp [hId] at hAny

/-- The worker may also complete jobs. -/
theorem guarantee_worker {ev : WorkerEvent} {v : WorkerView} (hEv : ev.process = .worker)
    (h : ∀ id, Finished id v.state → Finished id (v.after ev).state) :
    Guarantee ev.process v (v.after ev) := by
  refine ⟨h, fun id hNot => ?_⟩
  cases hc : completes id ev with
  | false => exact Or.inl (notDone_after hNot hc)
  | true => exact Or.inr ⟨hEv, hc⟩

theorem finished_replay {group : List Stmt} (h : ∀ i ∈ group, requeuedBy i = none) {db : Db} {id : Nat}
    (hFinished : Finished id db) : Finished id (replay group db) :=
  replay_inv (P := Finished id) (fun i hi _ hdb => finished_exec hdb fun id' hId => by
    rw [h i hi] at hId
    cases hId) hFinished

theorem requeuedBy_of_ordinary {i : Stmt} (h : ordinaryStmt i = true) : requeuedBy i = none := by
  cases i with
  | job s => cases s <;> first | rfl | cases h
  | _ => rfl

theorem completedBy_of_ordinary {i : Stmt} (h : ordinaryStmt i = true) : completedBy i = none := by
  cases i with
  | job s => cases s <;> first | rfl | cases h
  | _ => rfl

/-! ## Conditions of a party -/

/-- The event completes no job. -/
def Quiet (ev : WorkerEvent) : Prop := ∀ id, completes id ev = false

theorem quiet_error (p : Party) (l : Option Nat) (e : Err) : Quiet ⟨p, l, .error e⟩ := fun _ => rfl

theorem quiet_of_completedBy {group : List Stmt} (h : ∀ i ∈ group, completedBy i = none) (p : Party)
    (l : Option Nat) : Quiet ⟨p, l, .ok group⟩ := by
  intro id
  refine List.any_eq_false.mpr fun i hi => ?_
  rw [h i hi]
  simp

theorem quiet_ordinary {group : List Stmt} (h : Ordinary group) (p : Party) (l : Option Nat) :
    Quiet ⟨p, l, .ok group⟩ :=
  quiet_of_completedBy (fun i hi => completedBy_of_ordinary (h i hi)) p l

theorem guarantee_quiet {ev : WorkerEvent} {v : WorkerView} (hEv : Quiet ev)
    (h : ∀ id, Finished id v.state → Finished id (v.after ev).state) :
    Guarantee ev.process v (v.after ev) :=
  ⟨h, fun id hNot => Or.inl (notDone_after hNot (hEv id))⟩

/-- A condition that the other parties keep, and the party itself as long as it completes no job. -/
structure Invariant (p : Party) (P : WorkerView → Prop) : Prop where
  stable : Stable Undisturbed Guarantee p P
  kept : ∀ v ev, ev.process = p → Quiet ev → P v → P (v.after ev)

/-- What a party does, by rely and guarantee. -/
abbrev Follows {α : Type} (p : Party) (q : WorkerM α) (Q : Except Err α → WorkerView → Prop)
    (v : WorkerView) : Prop := Holds Undisturbed Guarantee p q Q v

variable {p : Party} {P : WorkerView → Prop} {α : Type}

theorem Invariant.follows (h : Invariant p P) {q : WorkerM α} (hq : q.Emits Ordinary) {v : WorkerView}
    (hv : P v) : Follows p q (fun _ => P) v := by
  refine holds_of_emits h.stable hq (fun v l g hg hv _ => ?_) (fun v l e hv _ => ?_) hv
  · have hQuiet := quiet_ordinary hg p l
    refine ⟨guarantee_quiet hQuiet fun id hId => ?_, h.kept v _ rfl hQuiet hv⟩
    exact finished_replay (fun i hi => requeuedBy_of_ordinary (hg i hi)) hId
  · have hQuiet := quiet_error p l e
    exact ⟨guarantee_quiet hQuiet fun id hId => hId, h.kept v _ rfl hQuiet hv⟩

/-- A job that is not done becomes pending. -/
theorem Invariant.follows_requeue (h : Invariant p P) {i : Stmt} {id : Nat}
    (hi : requeuedBy i = some id)
    (hNot : ∀ v, P v → Undisturbed v ⟨p, none, .ok [i]⟩ → NotDone id v.state) {v : WorkerView}
    (hv : P v) : Follows p (run i) (fun _ => P) v := by
  have hQuiet : Quiet ⟨p, none, .ok [i]⟩ := by
    refine quiet_of_completedBy (fun j hj => ?_) p none
    rw [List.mem_singleton.mp hj]
    cases i with
    | job s => cases s <;> first | rfl | cases hi
    | _ => rfl
  refine holds_step h.stable hv (fun v hv hGuard => ?_) fun v e hv _ => ?_
  · refine ⟨guarantee_quiet hQuiet fun id' hId => ?_, h.kept v _ rfl hQuiet hv⟩
    refine finished_exec hId fun id'' hSome => ?_
    rw [hi] at hSome
    cases hSome
    exact hNot v hv hGuard
  · exact ⟨guarantee_quiet (quiet_error p none e) fun _ hId => hId,
      h.kept v _ rfl (quiet_error p none e) hv⟩

theorem other_quiet {ev : WorkerEvent} {v v' : WorkerView} (hp : ev.process ≠ .worker)
    (hG : Guarantee ev.process v v') {id : Nat} (h : NotDone id v.state) : NotDone id v'.state :=
  (hG.2 id h).resolve_right fun hWorker => hp hWorker.1

theorem invariant_true : Invariant p fun _ => True :=
  ⟨fun _ _ _ _ => trivial, fun _ _ _ _ _ => trivial⟩

/-- The job that the worker has claimed is not done. -/
theorem invariant_notDone (id : Nat) : Invariant .worker fun v => NotDone id v.state := by
  refine ⟨fun v v' h hStep => ?_, fun v ev _ hQuiet h => notDone_after h (hQuiet id)⟩
  obtain ⟨ev, hp, _, rfl, hG⟩ := hStep
  exact other_quiet hp hG h

theorem invariant_completed (id : Nat) :
    Invariant .worker fun v => completed id v.history = true := by
  have hAfter : ∀ (v : WorkerView) (ev : WorkerEvent), completed id v.history = true →
      completed id (v.after ev).history = true := fun v ev h => by
    show (completes id ev || completed id v.history) = true
    rw [h, Bool.or_true]
  refine ⟨fun v v' h hStep => ?_, fun v ev _ _ h => hAfter v ev h⟩
  obtain ⟨ev, _, _, rfl, _⟩ := hStep
  exact hAfter v ev h

/-- What a reclaim knows of the jobs on its list: each is still not done, or has been completed
since the list was read. -/
def Listed (n : Nat) (jobs : List (Nat × JobRow)) (v : WorkerView) : Prop :=
  v.history.any (·.process = .reset n) = true ∧
    ∀ e ∈ jobs, NotDone e.1 v.state ∨ completedSince (.reset n) e.1 v.history = true

theorem invariant_listed (n : Nat) (jobs : List (Nat × JobRow)) :
    Invariant (.reset n) (Listed n jobs) := by
  have hOlder : ∀ (v : WorkerView) (ev : WorkerEvent),
      v.history.any (·.process = .reset n) = true →
      (v.after ev).history.any (·.process = .reset n) = true := fun v ev h => by
    show (decide (ev.process = .reset n) || v.history.any _) = true
    rw [h, Bool.or_true]
  have hSince : ∀ (v : WorkerView) (ev : WorkerEvent) (id : Nat),
      completedSince (.reset n) id v.history = true →
      completedSince (.reset n) id (v.after ev).history = true := fun v ev id h => by
    show (_ || completedSince (.reset n) id v.history) = true
    rw [h, Bool.or_true]
  refine ⟨fun v v' h hStep => ?_, fun v ev _ hQuiet h => ⟨hOlder v ev h.1, fun e he => ?_⟩⟩
  · obtain ⟨ev, hp, _, rfl, hG⟩ := hStep
    refine ⟨hOlder v ev h.1, fun e he => ?_⟩
    rcases h.2 e he with hNot | hDone
    · refine (hG.2 e.1 hNot).imp id fun hWorker => ?_
      have hCompletes : completes e.1 ev = true := hWorker.2
      show ((completes e.1 ev && v.history.any (·.process = .reset n)) || _) = true
      rw [hCompletes, h.1]
      rfl
    · exact Or.inr (hSince v ev e.1 hDone)
  · rcases h.2 e he with hNot | hDone
    · exact Or.inl (notDone_after hNot (hQuiet e.1))
    · exact Or.inr (hSince v ev e.1 hDone)

/-! ## The operations -/

theorem ordinary_nil : Ordinary [] := fun _ h => nomatch h

/-- Ordinary groups, and no error but where one of them fails. -/
structure Plain (q : WorkerM α) : Prop where
  emits : q.Emits Ordinary
  steady : q.Steady

theorem Plain.bind {β : Type} {q : WorkerM α} {f : α → WorkerM β} (h : Plain q)
    (hf : ∀ a, Plain (f a)) : Plain (q >>= f) :=
  ⟨h.emits.bind fun a => (hf a).emits, h.steady.bind fun a => (hf a).steady⟩

theorem plain_step {group : List Stmt} (h : Ordinary group) (read : Db → α) :
    Plain (StoreMonad.step group read : WorkerM α) := ⟨⟨h, fun _ => trivial⟩, fun _ => rfl⟩

theorem plain_query (read : Db → α) : Plain (query read : WorkerM α) :=
  plain_step ordinary_nil read

theorem plain_run {i : Stmt} (h : ordinaryStmt i = true) : Plain (run i : WorkerM Unit) :=
  plain_step (fun _ hj => List.mem_singleton.mp hj ▸ h) _

theorem plain_pure (a : α) : Plain (pure a : WorkerM α) := ⟨trivial, rfl⟩

theorem plain_input : Plain (input : WorkerM Nat) := ⟨fun _ => trivial, fun _ => rfl⟩

theorem plain_clock : Plain (StoreMonad.clock : WorkerM Nat) := plain_input

theorem plain_when {cond : Prop} [Decidable cond] {q : WorkerM Unit} (h : Plain q) :
    Plain (when cond q) := by
  unfold StoreMonad.when
  split
  · exact h
  · exact plain_pure ()

theorem plain_forEach {β : Type} {as : List β} {body : β → WorkerM Unit}
    (h : ∀ a, Plain (body a)) : Plain (StoreMonad.forEach as body) := by
  induction as with
  | nil => exact plain_pure ()
  | cons a as ih => exact (h a).bind fun _ => ih

theorem plain_adjustPendingJobCount (d : Int) : Plain (adjustPendingJobCount d : WorkerM Unit) :=
  plain_when (plain_run rfl)

theorem plain_adjustActiveJobCount (type : JobType) (d : Int) :
    Plain (adjustActiveJobCount type d : WorkerM Unit) :=
  plain_when (plain_forEach fun _ => plain_run rfl)

section Requeue

variable (hInv : Invariant p P) {id : Nat}
  (hNot : ∀ v (i : Stmt), requeuedBy i = some id → P v → Undisturbed v ⟨p, none, .ok [i]⟩ →
    NotDone id v.state)
include hInv hNot

theorem follows_requeued (attempts runAt : Nat) (running : Bool) {v : WorkerView} (hv : P v) :
    Follows p (do
      run (.job (.requeue id attempts runAt))
      when (running = true) (adjustPendingJobCount 1)) (fun _ => P) v :=
  (hInv.follows_requeue (i := .job (.requeue id attempts runAt)) rfl (fun v => hNot v _ rfl) hv).bind
    (fun _ _ hv => hInv.follows (plain_when (plain_adjustPendingJobCount 1)).emits hv) fun _ _ hv => hv

theorem follows_failJob (runAfter : Option Nat) {v : WorkerView} (hv : P v) :
    Follows p (failJob id runAfter) (fun _ => P) v := by
  have hClock : Plain (runAfter.elim StoreMonad.clock pure : WorkerM Nat) := by
    cases runAfter with
    | none => exact plain_clock
    | some t => exact plain_pure t
  refine (hInv.follows (plain_query _).emits hv).bind (fun job _ hv => ?_) fun _ _ hv => hv
  exact (hInv.follows hClock.emits hv).bind (fun runAt _ hv => follows_requeued hInv hNot _ _ _ hv)
    fun _ _ hv => hv

theorem follows_deferJob (runAfter : Nat) {v : WorkerView} (hv : P v) :
    Follows p (deferJob id runAfter) (fun _ => P) v :=
  (hInv.follows (plain_query _).emits hv).bind (fun _ _ hv => follows_requeued hInv hNot _ _ _ hv)
    fun _ _ hv => hv

theorem follows_reclaimJob (opts : ReclaimOptions) (row : JobRow) {v : WorkerView} (hv : P v) :
    Follows p (reclaimJob opts id row) (fun _ => P) v := by
  unfold reclaimJob
  dsimp only
  split
  · refine (hInv.follows plain_clock.emits hv).bind (fun nowMs _ hv => ?_) fun _ _ hv => hv
    exact (follows_deferJob hInv hNot _ hv).bind
      (fun _ _ hv => hInv.follows (plain_run (i := .job (.clearReclaim id)) rfl).emits hv) fun _ _ hv => hv
  · exact (hInv.follows_requeue (i := .job (.reclaim id _ _)) rfl (fun v => hNot v _ rfl) hv).bind
      (fun _ _ hv => hInv.follows (plain_adjustPendingJobCount 1).emits hv) fun _ _ hv => hv

end Requeue

/-- A reclaim follows its guarantee. -/
theorem follows_resetRunningJobs (n : Nat) (opts : ReclaimOptions) (v : WorkerView) :
    Follows (.reset n) (resetRunningJobs opts) (fun _ _ => True) v := by
  refine (invariant_true.follows plain_clock.emits trivial).bind (Q := fun _ _ => True)
    (fun nowMs v _ => ?_) fun _ _ _ => trivial
  refine Holds.bind (Q := fun r v => ∀ jobs, r = .ok jobs → Listed n jobs v) ?_ (fun jobs v hJobs => ?_)
    fun _ _ _ => trivial
  · refine holds_step invariant_true.stable trivial (fun v _ _ => ⟨?_, ?_⟩) fun v e _ _ => ⟨?_, ?_⟩
    · exact guarantee_quiet (quiet_ordinary ordinary_nil _ _) fun _ hId => hId
    · rintro jobs ⟨⟩
      refine ⟨?_, fun e he => Or.inl ?_⟩
      · show (decide (Party.reset n = .reset n) || v.history.any _) = true
        rw [decide_eq_true rfl, Bool.true_or]
      · obtain ⟨row, hRow, hRunning⟩ := (reclaimable_stale opts.staleMs nowMs v.state).2 e he
        intro row' hRow'
        have hSame : row = row' := Option.some.inj (hRow.symm.trans hRow')
        rw [← hSame, hRunning]
        decide
    · exact guarantee_quiet (quiet_error _ _ e) fun _ hId => hId
    · intro jobs hJobs
      cases hJobs
  · have hListed := hJobs jobs rfl
    clear hJobs
    induction jobs generalizing v with
    | nil => trivial
    | cons e rest ih =>
      have hNot : ∀ v (i : Stmt), requeuedBy i = some e.1 → Listed n (e :: rest) v →
          Undisturbed v ⟨.reset n, none, .ok [i]⟩ → NotDone e.1 v.state := by
        intro v i hi hv hGuard
        refine (hv.2 e List.mem_cons_self).resolve_right fun hSince => ?_
        have hNone := hGuard n rfl i List.mem_cons_self e.1 hi
        rw [hSince] at hNone
        cases hNone
      refine (follows_reclaimJob (invariant_listed n (e :: rest)) hNot opts e.2 hListed).bind
        (fun _ v hv => ih v ⟨hv.1, fun e' he' => hv.2 e' (List.mem_cons_of_mem _ he')⟩)
        fun _ _ _ => trivial

/-! ## The worker -/

/-- How a part of the `try` block of a job ends that completes it: with the job completed, or
failed before. -/
def AfterTry (id : Nat) (r : Except Err α) (v : WorkerView) : Prop :=
  match r with
  | .ok _ => completed id v.history = true
  | .error _ => NotDone id v.state

/-- After the completion no statement of the block fails. -/
theorem follows_after_completion {id : Nat} {q : WorkerM α} (hq : Plain q) {v : WorkerView}
    (hv : completed id v.history = true) :
    Follows .worker (q.within (some id)) (AfterTry id) v := by
  have hInv := invariant_completed id
  refine (holds_of_steady (some id) hInv.stable hq.emits hq.steady (fun v g hg hv _ => ?_)
    (fun v e hv hGuard => ?_) hv).post fun r v hr => ?_
  · have hQuiet := quiet_ordinary hg .worker (some id)
    refine ⟨guarantee_quiet hQuiet fun id' hId => ?_, hInv.kept v _ rfl hQuiet hv⟩
    exact finished_replay (fun i hi => requeuedBy_of_ordinary (hg i hi)) hId
  · have hNot : completed id v.history = false := hGuard id rfl
    rw [hv] at hNot
    cases hNot
  · cases r with
    | ok a => exact hr.2
    | error e => cases hr.1

theorem follows_complete (id ts : Nat) {v : WorkerView} (hv : NotDone id v.state) :
    Follows .worker ((run (.job (.complete id ts)) : WorkerM Unit).within (some id)) (AfterTry id) v := by
  refine holds_step (invariant_notDone id).stable hv (fun v _ _ => ⟨?_, ?_⟩) fun v e hv _ => ⟨?_, hv⟩
  · refine guarantee_worker rfl fun id' hId => ?_
    exact finished_exec hId fun _ hNone => nomatch hNone
  · show completed id (_ :: v.history) = true
    simp [completed, completes, completedBy]
  · exact guarantee_quiet (quiet_error .worker (some id) e) fun _ hId => hId

/-- The rest of the completion. -/
theorem plain_completeTail (job : Option JobRow) (completedAt : Nat) :
    Plain (do
      when (job.any (·.status = .pending)) (adjustPendingJobCount (-1))
      StoreMonad.forEach job.toList fun row => when row.active (adjustActiveJobCount row.job.type (-1))
      when job.isSome (maybeUpdateLastCompletedJobCache completedAt)
      run (.scheduler .markJobDirty) : WorkerM Unit) := by
  have hCache : Plain (maybeUpdateLastCompletedJobCache completedAt : WorkerM Unit) :=
    (plain_query _).bind fun _ => plain_when (plain_run rfl)
  exact (plain_when (plain_adjustPendingJobCount _)).bind fun _ =>
    (plain_forEach fun _ => plain_when (plain_adjustActiveJobCount _ _)).bind fun _ =>
      (plain_when hCache).bind fun _ => plain_run rfl

theorem follows_completeJob (id : Nat) {v : WorkerView} (hv : NotDone id v.state) :
    Follows .worker ((completeJob id : WorkerM Unit).within (some id)) (AfterTry id) v := by
  have hInv := invariant_notDone id
  refine (hInv.follows ((plain_query _).emits.within (some id)) hv).within_bind (fun job v hv => ?_)
    fun _ _ hv => hv
  refine (hInv.follows (plain_clock.emits.within (some id)) hv).within_bind (fun completedAt v hv => ?_)
    fun _ _ hv => hv
  exact (follows_complete id completedAt hv).within_bind
    (fun _ _ hDone => follows_after_completion (plain_completeTail job completedAt) hDone)
    fun _ _ hv => hv

theorem plain_afterCompletion (env : Env) :
    Plain (do
      maybeClearQueueSchedulingPause env
      query fun _ => ()
      let budgetSpent ← input
      if budgetSpent ≠ 0 then pure true
      else do
        query fun _ => ()
        pure false : WorkerM Bool) := by
  have hLatch : Plain (maybeClearQueueSchedulingPause env : WorkerM Unit) :=
    (plain_query _).bind fun _ => plain_when (plain_run rfl)
  refine hLatch.bind fun _ => (plain_query _).bind fun _ => plain_input.bind fun budgetSpent => ?_
  split
  · exact plain_pure true
  · exact (plain_query _).bind fun _ => plain_pure false

/-- The `try` block of a job that is not done. -/
theorem follows_runJob (env : Env) (handler : JobHandler) (id : Nat) (row : JobRow) {v : WorkerView}
    (hv : NotDone id v.state) :
    Follows .worker ((runJob env handler id row).within (some id)) (AfterTry id) v := by
  have hRun := (handler.ordinary row).within (some id)
  refine ((invariant_notDone id).follows hRun hv).within_bind (fun _ v hv => ?_) fun _ _ hv => hv
  exact (follows_completeJob id hv).within_bind
    (fun _ _ hDone => follows_after_completion (plain_afterCompletion env) hDone) fun _ _ hv => hv

theorem plain_quotaKind : Plain errorInputs.quotaKind := plain_input.bind fun _ => plain_pure _

/-- The failure handler, for a job that is not done. -/
theorem follows_onJobError (config : AppConfig) (id : Nat) (row : JobRow) (e : Err) {v : WorkerView}
    (hv : NotDone id v.state) :
    Follows .worker (onJobError config errorInputs id row e) (fun _ v => NotDone id v.state) v := by
  have hInv := invariant_notDone id
  have hNot : ∀ v (i : Stmt), requeuedBy i = some id → NotDone id v.state →
      Undisturbed v ⟨.worker, none, .ok [i]⟩ → NotDone id v.state := fun _ _ _ hv _ => hv
  have hFail : ∀ (runAfter : Option Nat) (stop : Bool) (v : WorkerView), NotDone id v.state →
      Follows .worker (do failJob id runAfter; pure stop : WorkerM Bool)
        (fun _ v => NotDone id v.state) v := fun runAfter _ _ hv =>
    (follows_failJob hInv hNot runAfter hv).bind (fun _ _ hv => hv) fun _ _ hv => hv
  have hDefer : ∀ (runAfter : Nat) (stop : Bool) (v : WorkerView), NotDone id v.state →
      Follows .worker (do deferJob id runAfter; pure stop : WorkerM Bool)
        (fun _ v => NotDone id v.state) v := fun runAfter _ _ hv =>
    (follows_deferJob hInv hNot runAfter hv).bind (fun _ _ hv => hv) fun _ _ hv => hv
  have hPlain : ∀ {β : Type} {q : WorkerM β} {f : β → WorkerM Bool} {v : WorkerView}, Plain q →
      NotDone id v.state →
      (∀ b v, NotDone id v.state → Follows .worker (f b) (fun _ v => NotDone id v.state) v) →
      Follows .worker (q >>= f) (fun _ v => NotDone id v.state) v := fun hq hv hf =>
    (hInv.follows hq.emits hv).bind hf fun _ _ hv => hv
  cases e with
  | enqueueBlocked => exact hPlain plain_clock hv fun _ v hv => hDefer _ _ v hv
  | rateLimitNotReady =>
    show Follows .worker (handleJobFailure config errorInputs id row .rateLimitNotReady) _ v
    unfold handleJobFailure
    dsimp only
    split
    · exact hPlain plain_clock hv fun _ v hv => hDefer _ _ v hv
    · exact hPlain plain_input hv fun _ v hv => hFail _ _ v hv
  | d1QuotaExceeded =>
    refine hPlain plain_input hv fun retryAt v hv => hPlain plain_quotaKind hv fun kind v hv => ?_
    exact hPlain (plain_run rfl) hv fun _ v hv => hFail _ _ v hv
  | rateLimit =>
    have hRetry : Plain (rateLimitRetry config : WorkerM (Nat × Bool)) := by
      refine (plain_query _).bind fun state => plain_clock.bind fun nowMs => ?_
      dsimp only
      split
      · exact plain_pure _
      · exact (plain_query _).bind fun _ => plain_pure _
    exact hPlain hRetry hv fun _ v hv => hFail _ _ v hv
  | provider => exact hPlain plain_clock hv fun _ v hv => hFail _ _ v hv

theorem follows_markJobRunning (id ts : Nat) (v : WorkerView) :
    Follows .worker (markJobRunning id ts)
      (fun r v => ∀ row, r = .ok (some row) → NotDone id v.state) v := by
  refine holds_step invariant_true.stable trivial (fun v _ _ => ⟨?_, ?_⟩) fun v e _ _ =>
    ⟨guarantee_quiet (quiet_error _ _ e) fun _ hId => hId, fun row hRow => nomatch hRow⟩
  · have hOrdinary : Ordinary [.job (.claim id ts)] := by simp [Ordinary, ordinaryStmt]
    have hQuiet := quiet_ordinary hOrdinary .worker none
    refine guarantee_quiet hQuiet fun id' hId => ?_
    exact finished_exec hId fun _ hNone => nomatch hNone
  · -- the row was pending, and runs now
    show Follows .worker (if (v.state.jobs.lookup id).any (·.status = .pending) = true then _ else _) _ _
    split
    · next hClaimed =>
      have hNot : NotDone id (v.after ⟨.worker, none, .ok [.job (.claim id ts)]⟩).state := by
        intro row hRow
        have hExec : (v.state.jobs.update id _).lookup id = some row := hRow
        rw [lookup_update, if_pos rfl] at hExec
        obtain ⟨old, hOld, rfl⟩ := Option.map_eq_some_iff.mp hExec
        rw [hOld] at hClaimed
        have hPending : old.status = .pending := by simpa using hClaimed
        simp [hPending]
      have hInv := invariant_notDone id
      refine (hInv.follows (plain_adjustPendingJobCount (-1)).emits hNot).bind (fun _ v hv => ?_)
        fun _ _ _ row hRow => nomatch hRow
      exact (hInv.follows (plain_query _).emits hv).bind (fun _ _ hv _ _ => hv)
        fun _ _ _ row hRow => nomatch hRow
    · exact fun row hRow => nomatch hRow

theorem follows_claimJobForSlot (v : WorkerView) :
    Follows .worker claimJobForSlot
      (fun r v => ∀ job, r = .ok (some job) → NotDone job.1 v.state) v := by
  refine (invariant_true.follows (plain_query _).emits trivial).bind (fun _ v _ => ?_)
    fun _ _ _ _ h => nomatch h
  refine (invariant_true.follows plain_input.emits trivial).bind (fun pick v _ => ?_)
    fun _ _ _ _ h => nomatch h
  refine (invariant_true.follows plain_clock.emits trivial).bind (fun ts v _ => ?_)
    fun _ _ _ _ h => nomatch h
  refine (invariant_true.follows (plain_query _).emits trivial).bind (fun head v _ => ?_)
    fun _ _ _ _ h => nomatch h
  cases head with
  | none => exact fun _ h => nomatch h
  | some id =>
    refine (follows_markJobRunning id ts v).bind (fun row v hRow => ?_) fun _ _ _ _ h => nomatch h
    intro job hJob
    obtain ⟨r, hSome, hPair⟩ := Option.map_eq_some_iff.mp (Except.ok.inj hJob)
    rw [← hPair]
    exact hRow r (congrArg Except.ok hSome)

theorem follows_jobLoop (env : Env) (handler : JobHandler) (slots : Nat) (v : WorkerView) :
    Follows .worker (jobLoop env handler slots) (fun _ _ => True) v := by
  induction slots generalizing v with
  | zero => trivial
  | succ slots ih =>
    refine (invariant_true.follows plain_input.emits trivial).bind (fun stop v _ => ?_)
      fun _ _ _ => trivial
    split
    · trivial
    refine (invariant_true.follows (plain_query _).emits trivial).bind (fun _ v _ => ?_)
      fun _ _ _ => trivial
    refine (follows_claimJobForSlot v).bind (fun claimed v hClaimed => ?_) fun _ _ _ => trivial
    cases claimed with
    | none => trivial
    | some job =>
      have hInv := invariant_notDone job.1
      refine (hInv.follows (plain_when (plain_query _)).emits (hClaimed job rfl)).bind
        (fun _ v hv => ?_) fun _ _ _ => trivial
      refine Holds.bind (Q := fun _ _ => True) ?_ (fun stopTick v _ => ?_) fun _ _ _ => trivial
      · exact (follows_runJob env handler job.1 job.2 hv).tryCatch (fun _ _ _ => trivial)
          fun e _ hv => (follows_onJobError env.config job.1 job.2 e hv).post fun _ _ _ => trivial
      · split
        · trivial
        · exact ih v

theorem follows_ticks (env : Env) (handler : JobHandler) (jobsPerTick n : Nat) (v : WorkerView) :
    Follows .worker (ticks env handler jobsPerTick n) (fun _ _ => True) v := by
  induction n generalizing v with
  | zero => trivial
  | succ n ih =>
    refine Holds.bind (Q := fun _ _ => True) ?_ (fun _ v _ => ih v) fun _ _ _ => trivial
    refine Holds.tryCatch (Q := fun _ _ => True) ?_ (fun _ _ _ => trivial) fun _ _ _ => trivial
    exact (invariant_true.follows (plain_query _).emits trivial).bind
      (fun _ v _ => follows_jobLoop env handler jobsPerTick v) fun _ _ _ => trivial

/-! ## Done jobs -/

theorem follows_process (sys : WorkerSystem) (party : Party) (v : WorkerView) :
    Follows party (sys.process party) (fun _ _ => True) v := by
  cases party with
  | worker => exact follows_ticks sys.env sys.handler sys.jobsPerTick sys.tickCount v
  | reset n => exact follows_resetRunningJobs n (sys.reset n) v
  | other n => exact invariant_true.follows (sys.ordinary n) trivial

/-- In every interleaving that meets the guard a job that is done stays done as long as it has a
row, and its id is given to no other job. -/
theorem done_stays_done (sys : WorkerSystem) {db : Db} {c c' : WorkerConfig}
    (h : Config.Run Undisturbed (sys.start db) c) (h' : Config.Run Undisturbed c c') {id : Nat}
    {row : JobRow} (hRow : c.view.state.jobs.lookup id = some row) (hDone : row.status = .done) :
    id < c'.view.state.jobs.nextId ∧
      ∀ row', c'.view.state.jobs.lookup id = some row' → row'.status = .done := by
  have hStart := (h.guarantee fun party => follows_process sys party _).2
  obtain ⟨hViews, _⟩ := h'.guarantee hStart
  have hFinished : Finished id c.view.state := by
    have hMem : id ∈ c.view.state.jobs.rows := AList.lookup_isSome.mp (Option.isSome_of_eq_some hRow)
    refine ⟨c.view.state.jobs.fresh id hMem, fun r hr => ?_⟩
    rw [Option.some.inj (hr.symm.trans hRow)]
    exact hDone
  have hKept : ∀ v', Relation.ReflTransGen (fun v v' => ∃ j, Guarantee j v v') c.view v' →
      Finished id v'.state := by
    intro v' hv'
    induction hv' with
    | refl => exact hFinished
    | tail _ hStep ih =>
      obtain ⟨_, hG⟩ := hStep
      exact hG.1 id ih
  exact hKept _ hViews

/-! ### A statement that fails after the completion -/

def idleHandler : JobHandler where
  run _ := pure ()
  ordinary _ := trivial

/-- One tick with one slot, and a store with one runnable job. -/
def oneJob : WorkerConfig :=
  WorkerSystem.start
    { env := queueEnv, handler := idleHandler, jobsPerTick := 1, tickCount := 1, reset := fun _ => {},
      other := fun _ => pure (), ordinary := fun _ => trivial }
    (applied (.enqueueJob (.processTx (name "t")) 1 none true) .initial)

/-- The worker claims the job and completes it. -/
def untilCompleted : List (Party × Choice Err) :=
  [.execute, .observe 0, .execute, .execute, .observe 0, .observe 0, .execute, .execute, .execute,
    .execute, .execute, .execute, .observe 0, .execute].map fun choice => (.worker, choice)

/-- The next statement fails, and the job is handed to the failure handler. -/
def thenFails : List (Party × Choice Err) :=
  [.fail .d1QuotaExceeded, .observe 0, .observe 1, .execute, .execute, .execute].map fun choice => (.worker, choice)

/-- The worker ends its tick. -/
def thenEnds : List (Party × Choice Err) :=
  [.execute, .execute, .execute, .execute, .execute, .execute, .execute, .observe 1].map fun choice =>
    (.worker, choice)

def doneJob : JobRow :=
  { job := .processTx (name "t"), status := .done, priority := 1, runAfter := 0, createdAt := 0,
    startedAt := some 0, completedAt := some 0 }

/-- A quota exception after the status write makes the done job pending again. -/
theorem done_failed : ¬ ∀ (sys : WorkerSystem) (db : Db) (c c' : WorkerConfig),
    Config.Run (fun _ _ => True) (sys.start db) c → Config.Run (fun _ _ => True) c c' →
    ∀ id row, c.view.state.jobs.lookup id = some row → row.status = .done →
      ∀ row', c'.view.state.jobs.lookup id = some row' → row'.status = .done := by
  intro h
  have hDone := h _ _ _ _ (Config.run_follow untilCompleted oneJob fun _ _ _ _ _ _ => trivial)
    (Config.run_follow thenFails _ fun _ _ _ _ _ _ => trivial) 1 doneJob (by decide +kernel) rfl
  have hPending : ((oneJob.follow untilCompleted).follow thenFails |>.view.state.jobs.lookup 1).map
      (·.status) = some .pending := by decide +kernel
  obtain ⟨row', hRow, hStatus⟩ := Option.map_eq_some_iff.mp hPending
  rw [hDone row' hRow] at hStatus
  cases hStatus

/-- Without a fault the job stays done. -/
theorem done_at_end : 1 < ((oneJob.follow untilCompleted).follow thenEnds).view.state.jobs.nextId ∧
    ∀ row', ((oneJob.follow untilCompleted).follow thenEnds).view.state.jobs.lookup 1 = some row' →
      row'.status = .done := by
  have hGuard : ∀ (e : Party × Choice Err) (v : WorkerView) (ev : WorkerEvent),
      e ∈ untilCompleted ++ thenEnds → ev.process = e.1 → e.2.Gives ev.outcome → Undisturbed v ev := by
    intro e v ⟨party, l, outcome⟩ he hParty hGives
    have hWorker : (untilCompleted ++ thenEnds).all (fun e => e.1 = .worker) = true := by decide
    have hExecutes : (untilCompleted ++ thenEnds).all
        (fun e => match e.2 with | .fail _ => false | _ => true) = true := by decide
    have hFirst : e.1 = .worker := by simpa using List.all_eq_true.mp hWorker e he
    have hSecond := List.all_eq_true.mp hExecutes e he
    obtain ⟨k, choice⟩ := e
    cases outcome with
    | ok group =>
      intro n hReset
      rw [show party = .worker from hParty.trans hFirst] at hReset
      cases hReset
    | error err =>
      cases choice with
      | fail => cases hSecond
      | execute => cases hGives
      | observe => cases hGives
  exact done_stays_done _
    (Config.run_follow untilCompleted oneJob fun e he v ev => hGuard e v ev (List.mem_append_left _ he))
    (Config.run_follow thenEnds _ fun e he v ev => hGuard e v ev (List.mem_append_right _ he))
    (by decide +kernel : _ = some doneJob) rfl

end Bloodhound.Indexer
