import Mathlib.Data.Finset.Card
import Mathlib.Data.Finset.Dedup
import Mathlib.Data.Finset.Filter
import Bloodhound.Indexer.Slots

/-!
# Waiting for a maintenance slice

The maintenance slices against a queue that other parties change: between two slices any statements may
be executed. A job waits (`Waits`) as long as it keeps its row; its rivals (`rivals`) are the pending jobs
that a slice may take before it.

* `card_rivals_slice`: a slice that leaves the job takes a rival.
* `card_rivals_exec`: a statement adds at most one rival, and none unless it inserts a job as old as the
  waiting one or makes a job pending again.
* `passedOver_le`: a job that has waited long enough is passed over at most once for each rival.
-/

namespace Bloodhound.Indexer.Slots

open Store
open Journal (exec)
open Store.QueueOrder (jobWaitSec)

/-! ## Rivals -/

/-- A pending job that a slice may take, and not created after the given row. -/
def isRival (row r : JobRow) : Bool :=
  decide (r.status = .pending) && maintCosmeticJobTypes.contains r.job.type &&
    decide (r.createdAt ≤ row.createdAt)

/-- The other jobs that a slice may take before the job. -/
def rivals (j : JobEntry) (db : Db) : Finset Nat :=
  (db.jobs.rows.keys.toFinset.erase j.1).filter fun id => (db.jobs.lookup id).any (isRival j.2)

section Rivals

variable {j : JobEntry} {db : Db}

theorem mem_rivals {id : Nat} :
    id ∈ rivals j db ↔ id ≠ j.1 ∧ ∃ r, db.jobs.lookup id = some r ∧ isRival j.2 r = true := by
  unfold rivals
  rw [Finset.mem_filter, Finset.mem_erase, List.mem_toFinset, Option.any_eq_true]
  constructor
  · rintro ⟨⟨hOther, -⟩, hRow⟩
    exact ⟨hOther, hRow⟩
  · rintro ⟨hOther, r, hRow, hRival⟩
    refine ⟨⟨hOther, AList.mem_keys.mp (AList.lookup_isSome.mp ?_)⟩, r, hRow, hRival⟩
    rw [show db.jobs.rows.lookup id = some r from hRow]
    rfl

theorem rivals_insertRow_subset (row : JobRow) :
    rivals j { db with jobs := db.jobs.insertRow row } ⊆ insert db.jobs.nextId (rivals j db) := by
  intro id hId
  obtain ⟨hOther, r, hRow, hRival⟩ := mem_rivals.mp hId
  rw [Finset.mem_insert]
  by_cases hNew : id = db.jobs.nextId
  · exact .inl hNew
  · rw [lookup_insertRow, if_neg hNew] at hRow
    exact .inr (mem_rivals.mpr ⟨hOther, r, hRow, hRival⟩)

theorem rivals_insertRow_of_not {row : JobRow} (h : isRival j.2 row = false) :
    rivals j { db with jobs := db.jobs.insertRow row } ⊆ rivals j db := by
  intro id hId
  obtain ⟨hOther, r, hRow, hRival⟩ := mem_rivals.mp hId
  rw [lookup_insertRow] at hRow
  split at hRow
  · cases hRow
    rw [h] at hRival
    cases hRival
  · exact mem_rivals.mpr ⟨hOther, r, hRow, hRival⟩

theorem rivals_update_subset (id : Nat) (f : JobRow → JobRow) :
    rivals j { db with jobs := db.jobs.update id f } ⊆ insert id (rivals j db) := by
  intro id' hId
  obtain ⟨hOther, r, hRow, hRival⟩ := mem_rivals.mp hId
  rw [Finset.mem_insert]
  by_cases hSame : id' = id
  · exact .inl hSame
  · rw [lookup_update, if_neg hSame] at hRow
    exact .inr (mem_rivals.mpr ⟨hOther, r, hRow, hRival⟩)

theorem rivals_update_of_imp (id : Nat) {f : JobRow → JobRow}
    (h : ∀ r, isRival j.2 (f r) = true → isRival j.2 r = true) :
    rivals j { db with jobs := db.jobs.update id f } ⊆ rivals j db := by
  intro id' hId
  obtain ⟨hOther, r, hRow, hRival⟩ := mem_rivals.mp hId
  rw [lookup_update] at hRow
  split at hRow
  · next hSame =>
    obtain ⟨old, hOld, rfl⟩ := Option.map_eq_some_iff.mp hRow
    exact mem_rivals.mpr ⟨hOther, old, hSame ▸ hOld, h old hRival⟩
  · exact mem_rivals.mpr ⟨hOther, r, hRow, hRival⟩

theorem rivals_keep_subset (p : Nat → JobRow → Bool) :
    rivals j { db with jobs := db.jobs.keep p } ⊆ rivals j db := by
  intro id hId
  obtain ⟨hOther, r, hRow, hRival⟩ := mem_rivals.mp hId
  rw [lookup_keep] at hRow
  exact mem_rivals.mpr ⟨hOther, r, (Option.filter_eq_some_iff.mp hRow).1, hRival⟩

end Rivals

/-! ## Steps -/

/-- What happens to the queue: the first slot of a tick, and a statement of any party. -/
inductive SliceEvent where
  | slice (ctx : SlotContext) (m : Mem)
  | stmt (i : Stmt)

def SliceEvent.isSlice : SliceEvent → Bool
  | .slice _ _ => true
  | .stmt _ => false

/-- The event may add a rival of the job. -/
def SliceEvent.addsRival (j : JobEntry) : SliceEvent → Bool
  | .stmt (.job (.insert job priority runAfter createdAt)) => isRival j.2 { job, priority, runAfter, createdAt }
  | .stmt (.job (.insertIfAbsent job priority runAfter createdAt _ _)) =>
    isRival j.2 { job, priority, runAfter, createdAt }
  | .stmt (.job (.requeue _ _ _)) | .stmt (.job (.reclaim _ _ _)) => true
  | _ => false

def SliceEvent.after (config : TickConfig) (db : Db) : SliceEvent → Db
  | .slice ctx m => (claimFirstSlot config ctx).final db ⟨m, []⟩
  | .stmt i => exec i db

/-- A slice is due, and the job has waited long enough for it at the time that it reads. -/
structure SliceReady (config : TickConfig) (j : JobEntry) (db : Db) (ctx : SlotContext) (m : Mem) : Prop where
  due : maintSliceDue config db.scheduler = true
  notClaimed : ctx.claimedIds.contains j.1 = false
  waited : ∃ ts, m.clock.head? = some ts ∧ j.2.runAfter ≤ ts ∧
    (config.maintSliceMinWaitSec : Int) ≤ jobWaitSec ts (queued j)

/-- The job keeps its row through the events, and has waited long enough at every slice of them. -/
inductive Waits (config : TickConfig) (j : JobEntry) : Db → List SliceEvent → Db → Prop where
  | nil {db : Db} (hRow : db.jobs.lookup j.1 = some j.2) : Waits config j db [] db
  | cons {db s : Db} {e : SliceEvent} {es : List SliceEvent} (hRow : db.jobs.lookup j.1 = some j.2)
    (hReady : ∀ ctx m, e = .slice ctx m → SliceReady config j db ctx m)
    (hRest : Waits config j (e.after config db) es s) : Waits config j db (e :: es) s

/-- A job that a slice may take. -/
structure SliceJob (j : JobEntry) : Prop where
  pending : j.2.status = .pending
  type : maintCosmeticJobTypes.contains j.2.job.type = true

section Steps

variable {config : TickConfig} {j : JobEntry} {db : Db}

/-- A statement adds at most the rival that it inserts or makes pending again. -/
theorem card_rivals_exec (i : Stmt) : (rivals j (exec i db)).card ≤
    (rivals j db).card + if (SliceEvent.stmt i).addsRival j then 1 else 0 := by
  have hAdds : ∀ {a : Nat} {s : Finset Nat}, s ⊆ insert a (rivals j db) → s.card ≤ (rivals j db).card + 1 :=
    fun hSub => (Finset.card_le_card hSub).trans (Finset.card_insert_le _ _)
  have hKeeps : ∀ {s : Finset Nat} {n : Nat}, s ⊆ rivals j db → s.card ≤ (rivals j db).card + n :=
    fun hSub => (Finset.card_le_card hSub).trans (Nat.le_add_right _ _)
  have hInsert : ∀ row : JobRow, (rivals j { db with jobs := db.jobs.insertRow row }).card ≤
      (rivals j db).card + if isRival j.2 row then 1 else 0 := fun row => by
    split
    · exact hAdds (rivals_insertRow_subset row)
    · next hNot => exact hKeeps (rivals_insertRow_of_not (Bool.eq_false_iff.mpr hNot))
  cases i with
  | job stmt =>
    cases stmt with
    | insert job priority runAfter createdAt => exact hInsert _
    | insertIfAbsent job priority runAfter createdAt types address =>
      change (rivals j { db with jobs := if db.jobs.hasActive types address then db.jobs else _ }).card ≤ _
      split
      · exact hKeeps (Finset.Subset.refl _)
      · exact hInsert _
    | claim id ts =>
      refine hKeeps (rivals_update_of_imp id fun r hRival => ?_)
      split at hRival
      · cases hRival
      · exact hRival
    | complete id ts => exact hKeeps (rivals_update_of_imp id fun r hRival => by cases hRival)
    | requeue id attempts runAfter => exact hAdds (rivals_update_subset id _)
    | reclaim id count progress => exact hAdds (rivals_update_subset id _)
    | clearReclaim id => exact hKeeps (rivals_update_of_imp id fun _ hRival => hRival)
    | deleteActiveForAddress a => exact hKeeps (rivals_keep_subset _)
    | deleteActive => exact hKeeps (rivals_keep_subset _)
    | pruneDone cutoff size => exact hKeeps (rivals_keep_subset _)
  | _ => exact Nat.le_add_right _ _

theorem pending_of_isRival {row r : JobRow} (h : isRival row r = true) : r.status = .pending := by
  unfold isRival at h
  simp only [Bool.and_eq_true, decide_eq_true_eq] at h
  exact h.1.1

/-- The claim of a rival. -/
theorem card_rivals_claimed {h : JobEntry} {ts : Nat} (hMem : h.1 ∈ rivals j db) :
    (rivals j (claimed h.1 ts db)).card < (rivals j db).card := by
  refine Finset.card_lt_card (Finset.ssubset_of_subset_of_ssubset (fun id hId => ?_) (Finset.erase_ssubset hMem))
  obtain ⟨hOther, r, hRow, hRival⟩ := mem_rivals.mp hId
  rw [Finset.mem_erase]
  change (db.jobs.update h.1 _).lookup id = some r at hRow
  rw [lookup_update] at hRow
  split at hRow
  · next hSame =>
    -- the claimed row is not pending any more
    subst hSame
    obtain ⟨old, hOld, rfl⟩ := Option.map_eq_some_iff.mp hRow
    obtain ⟨-, r, hFound, hWas⟩ := mem_rivals.mp hMem
    rw [hFound, Option.some_inj] at hOld
    subst hOld
    rw [if_pos (pending_of_isRival hWas)] at hRival
    cases hRival
  · next hDifferent => exact ⟨hDifferent, mem_rivals.mpr ⟨hOther, r, hRow, hRival⟩⟩

theorem mem_agedEntries {minWaitSec ts : Nat} {excludeIds : List Nat} {h : JobEntry} :
    h ∈ agedEntries minWaitSec excludeIds db ts ↔ Due db ts h ∧
      maintCosmeticJobTypes.contains h.2.job.type = true ∧ (minWaitSec : Int) ≤ jobWaitSec ts (queued h) ∧
        excludeIds.contains h.1 = false := by
  unfold agedEntries
  rw [List.mem_filter, mem_runnableEntries]
  simp only [Bool.and_eq_true, decide_eq_true_eq, Bool.not_eq_true', and_assoc]

theorem runs_claimFirstSlot {ctx : SlotContext} {m : Mem} (hDue : maintSliceDue config db.scheduler = true)
    {ts : Nat} (hClock : m.clock.head? = some ts) {h : JobEntry}
    (hOldest : oldestAged config.maintSliceMinWaitSec ctx.claimedIds db ts = some h) (hHead : Due db ts h) :
    (claimFirstSlot config ctx).Runs db m (.job (h.1, started ts h.2), ctx.candidateCache)
      [.job (.claim h.1 ts), .scheduler (.adjust .pendingJob (-1))] { m with clock := m.clock.tail } := by
  have hWait : config.maintSliceMinWaitSec ≠ 0 := by
    unfold maintSliceDue at hDue
    simp only [Bool.and_eq_true, decide_eq_true_eq] at hDue
    omega
  have hAged : (claimAged config ctx db.scheduler).Runs db m (some (h.1, started ts h.2))
      [.job (.claim h.1 ts), .scheduler (.adjust .pendingJob (-1))] { m with clock := m.clock.tail } := by
    unfold claimAged claimOldestMaintCosmeticJob
    rw [if_pos hDue, if_neg hWait]
    have hRead : (StoreMonad.clock : StoreM Nat).Runs db m ts [] { m with clock := m.clock.tail } := by
      obtain ⟨rest, hRest⟩ := List.head?_eq_some_iff.mp hClock
      have hTs : m.clock.headD 0 = ts := by rw [hRest]; rfl
      exact hTs ▸ rfl
    refine Journal.Op.Runs.bind hRead (Journal.Op.Runs.bind (Journal.Op.runs_query _ _ _) ?_)
    simp only [Journal.replay_nil, hOldest, Option.map_some, Option.elim_some]
    exact Journal.Op.Runs.bind (runs_markJobRunning hHead _) (Journal.Op.runs_pure _ _ _)
  exact Journal.Op.Runs.bind (Journal.Op.runs_query _ _ m) (Journal.Op.Runs.bind hAged (Journal.Op.runs_pure _ _ _))

/-- A slice for which the job has waited long enough takes the job or a rival. -/
theorem slice_takes (hJob : SliceJob j) (hRow : db.jobs.lookup j.1 = some j.2) {ctx : SlotContext} {m : Mem}
    (hReady : SliceReady config j db ctx m) :
    ∃ ts h, (h = j ∨ h.1 ∈ rivals j db) ∧ Due db ts h ∧
      (SliceEvent.slice ctx m).after config db = claimed h.1 ts db := by
  obtain ⟨ts, hClock, hDue, hWaited⟩ := hReady.waited
  have hMem : j ∈ agedEntries config.maintSliceMinWaitSec ctx.claimedIds db ts :=
    mem_agedEntries.mpr ⟨⟨hRow, hJob.pending, hDue⟩, hJob.type, hWaited, hReady.notClaimed⟩
  have hSome : oldestAged config.maintSliceMinWaitSec ctx.claimedIds db ts ≠ none := fun hNone =>
    List.ne_nil_of_mem hMem (List.argmin_eq_none.mp hNone)
  obtain ⟨h, hOldest⟩ := Option.ne_none_iff_exists'.mp hSome
  obtain ⟨hHead, hType, -, -⟩ := mem_agedEntries.mp (List.argmin_mem hOldest)
  have hOlder : h.2.createdAt ≤ j.2.createdAt := 
    @List.le_of_mem_argmin _ _ _ (fun e : JobEntry => e.2.createdAt) _ _ _ hMem hOldest
  refine ⟨ts, h, ?_, hHead, ?_⟩
  · by_cases hSame : h.1 = j.1
    · left
      have hRows := hHead.row
      rw [hSame, hRow, Option.some_inj] at hRows
      exact Prod.ext hSame hRows.symm
    · right
      refine mem_rivals.mpr ⟨hSame, h.2, hHead.row, ?_⟩
      unfold isRival
      simp only [Bool.and_eq_true, decide_eq_true_eq]
      exact ⟨⟨hHead.pending, hType⟩, hOlder⟩
  · have hRuns := runs_claimFirstSlot hReady.due hClock hOldest hHead
    exact congrArg (fun o : Journal.Out Stmt Mem Err _ => Journal.replay o.log db) hRuns

/-- A slice that leaves the job takes a rival. -/
theorem card_rivals_slice (hJob : SliceJob j) (hRow : db.jobs.lookup j.1 = some j.2) {ctx : SlotContext}
    {m : Mem} (hReady : SliceReady config j db ctx m)
    (hLeft : ((SliceEvent.slice ctx m).after config db).jobs.lookup j.1 = some j.2) :
    (rivals j ((SliceEvent.slice ctx m).after config db)).card < (rivals j db).card := by
  obtain ⟨ts, h, hTaken, hDue, hAfter⟩ := slice_takes hJob hRow hReady
  rw [hAfter] at hLeft ⊢
  obtain rfl | hRival := hTaken
  · rw [lookup_claimed hRow hJob.pending, Option.some_inj] at hLeft
    have hStatus := congrArg JobRow.status hLeft
    rw [hJob.pending] at hStatus
    cases hStatus
  · exact card_rivals_claimed hRival

end Steps

theorem Waits.row {config : TickConfig} {j : JobEntry} {db s : Db} {es : List SliceEvent}
    (h : Waits config j db es s) : db.jobs.lookup j.1 = some j.2 := by
  cases h <;> assumption

/-- Slices pass over a job that has waited long enough at most once for each rival that it had, and for
each that was added. -/
theorem passedOver_le {config : TickConfig} {j : JobEntry} (hJob : SliceJob j) {db s : Db}
    {es : List SliceEvent} (h : Waits config j db es s) : es.countP SliceEvent.isSlice + (rivals j s).card ≤
      (rivals j db).card + es.countP (SliceEvent.addsRival j) := by
  induction h with
  | nil => simp
  | @cons db s e es hRow hReady hRest ih =>
    rw [List.countP_cons, List.countP_cons]
    cases e with
    | slice ctx m =>
      have hTakes := card_rivals_slice hJob hRow (hReady ctx m rfl) hRest.row
      have hSlice : (SliceEvent.slice ctx m).isSlice = true := rfl
      have hNone : (SliceEvent.slice ctx m).addsRival j = false := rfl
      rw [hSlice, hNone, if_pos rfl, if_neg Bool.false_ne_true]
      omega
    | stmt i =>
      have hAdds := @card_rivals_exec j db i
      have hNot : (SliceEvent.stmt i).isSlice = false := rfl
      have hAfter : (SliceEvent.stmt i).after config db = exec i db := rfl
      rw [hAfter] at ih
      rw [hNot, if_neg Bool.false_ne_true]
      omega

/-! The price job is older than the job for the texts of transactions. -/

def textsJob : JobEntry := (2, { job := .backfillOpReturn, priority := 0, runAfter := 0, createdAt := 1000 })

def textsDb : Db := exec (Stmt.job (.insert .backfillOpReturn 0 0 1000)) priceDb

def textsSlice : SliceEvent := .slice ⟨false, false, [], none, none⟩ { clock := [3601000] }

theorem passedOver_le_texts :
    [textsSlice].countP SliceEvent.isSlice + (rivals textsJob (textsSlice.after {} textsDb)).card ≤
      (rivals textsJob textsDb).card + [textsSlice].countP (SliceEvent.addsRival textsJob) := by
  have hReady : SliceReady {} textsJob textsDb ⟨false, false, [], none, none⟩ { clock := [3601000] } :=
    ⟨rfl, rfl, 3601000, rfl, by decide, by decide⟩
  refine @passedOver_le {} textsJob ⟨rfl, rfl⟩ textsDb _ [textsSlice] (.cons rfl (fun ctx m h => ?_) (.nil ?_))
  · cases h
    exact hReady
  · decide +kernel

end Bloodhound.Indexer.Slots
