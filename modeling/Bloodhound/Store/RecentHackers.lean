import Mathlib.Data.Rat.Floor
import Bloodhound.Lib.KeptLatest
import Bloodhound.Lib.OrderedMap
import Bloodhound.Chain.Types

/-!
# The recent hackers

`recentHackers.ts` and the buffer of the store: a job collects the activity of hackers, and after it the
buffer is merged into a list of the scheduler row that keeps the latest few hackers. The array of the row is
a value here, and a time stands for its ISO text.

* `parse_serialize`: what is written is read back.
* `recent_exact`: after any run the list has the latest hackers of all the activity that was written, each with
  the time of its latest activity, although a hacker that falls out of the list is forgotten. The counts are
  those of the log as long as no hacker has fallen out.
-/

namespace Bloodhound.Store.RecentHackers

open KeptLatest (laterOf Newest NewestOf Keeps)

structure RecentHackerEntry where
  address : Address
  «at» : Int
  victims : Nat
  downstream : Nat
  deriving DecidableEq

structure RecentHackerActivityDelta where
  victims : Option Nat := none
  downstream : Option Nat := none
  «at» : Option Int := none

/-! ## The array of the row -/

/-- An item of the array: its texts, where they are there and not empty, and its counts, where they are finite
numbers. -/
structure RawEntry where
  address : Option Address
  «at» : Option Int
  victims : Option Rat
  downstream : Option Rat

/-- `Number.isFinite(n) && n > 0 ? Math.floor(n) : 0`. -/
def countOf (n : Option Rat) : Nat := n.elim 0 fun q => if 0 < q then ⌊q⌋.toNat else 0

def RawEntry.parsed (raw : RawEntry) : Option RecentHackerEntry :=
  match raw.address, raw.at with
  | some address, some time => some ⟨address, time, countOf raw.victims, countOf raw.downstream⟩
  | _, _ => none

/-- There is no array where the text is missing, is malformed or is something else. -/
def parseRecentHackersJson (raw : Option (List RawEntry)) : List RecentHackerEntry :=
  (raw.getD []).filterMap RawEntry.parsed

def serializeRecentHackers (entries : List RecentHackerEntry) : List RawEntry :=
  entries.map fun e => ⟨some e.address, some e.at, some e.victims, some e.downstream⟩

theorem countOf_natCast (n : Nat) : countOf (some (n : Rat)) = n := by
  unfold countOf
  rw [Option.elim_some]
  split
  · rw [Int.floor_natCast, Int.toNat_natCast]
  · next h =>
    have hZero : n = 0 := by
      by_contra hNe
      exact h (Nat.cast_pos.mpr (Nat.pos_of_ne_zero hNe))
    exact hZero.symm

theorem parse_serialize (entries : List RecentHackerEntry) :
    parseRecentHackersJson (some (serializeRecentHackers entries)) = entries := by
  unfold parseRecentHackersJson serializeRecentHackers
  rw [Option.getD_some, List.filterMap_map]
  have hItem : ∀ e : RecentHackerEntry, (RawEntry.parsed ∘ fun e : RecentHackerEntry =>
      (⟨some e.address, some e.at, some e.victims, some e.downstream⟩ : RawEntry)) e = some e := by
    intro e
    show some (RecentHackerEntry.mk e.address e.at (countOf (some (e.victims : Rat)))
      (countOf (some (e.downstream : Rat)))) = some e
    rw [countOf_natCast, countOf_natCast]
  rw [List.filterMap_congr fun e _ => hItem e, List.filterMap_some]

/-! ## The merge -/

/-- The value that a buffered change makes of an entry; `now` is read where neither has a time. -/
def mergeDelta (now : Int) (prev : Option RecentHackerEntry) (u : Address × RecentHackerActivityDelta) :
    RecentHackerEntry where
  address := u.1
  «at» := (laterOf (prev.map (·.at)) u.2.at).getD now
  victims := prev.elim 0 (·.victims) + u.2.victims.getD 0
  downstream := prev.elim 0 (·.downstream) + u.2.downstream.getD 0

abbrev Updates : Type := OrderedMap Address RecentHackerActivityDelta

/-- `byAddress` after both loops. -/
def mergedByAddress (existing : List RecentHackerEntry) (updates : Updates) (now : Int) :
    OrderedMap Address RecentHackerEntry :=
  OrderedMap.upsertAll Prod.fst (mergeDelta now) updates.entries
    (OrderedMap.ofList RecentHackerEntry.address existing)

def mergeRecentHackerActivity (existing : List RecentHackerEntry) (updates : Updates) (limit : Nat) (now : Int) :
    List RecentHackerEntry :=
  Ranking.top RecentHackerEntry.at (max 1 limit) (mergedByAddress existing updates now).values

def recentHackersEqual (a b : List RecentHackerEntry) : Bool :=
  a.length = b.length && (a.zip b).all fun (left, right) =>
    left.address = right.address && left.at = right.at && left.victims = right.victims &&
      left.downstream = right.downstream

theorem eq_of_recentHackersEqual {a b : List RecentHackerEntry} (h : recentHackersEqual a b = true) : a = b := by
  unfold recentHackersEqual at h
  induction a generalizing b with
  | nil => cases b <;> simp at h ⊢
  | cons left rest ih =>
    cases b with
    | nil => simp at h
    | cons right rest' =>
      simp only [List.length_cons, List.zip_cons_cons, List.all_cons, Bool.and_eq_true, decide_eq_true_eq,
        Nat.add_right_cancel_iff] at h ih
      obtain ⟨hLength, ⟨⟨⟨hAddress, hAt⟩, hVictims⟩, hDownstream⟩, hAll⟩ := h
      rw [ih ⟨hLength, hAll⟩]
      cases left
      cases right
      simp_all

/-! ## The buffer of the store -/

/-- The column of the scheduler row and the buffer of the store that writes it. The copy of the row in the store
shows the same column. -/
structure RecentStore where
  recentHackersJson : Option (List RawEntry) := none
  buffer : Option Updates := none

def recordDelta (prev : Option RecentHackerActivityDelta) (delta : RecentHackerActivityDelta) :
    RecentHackerActivityDelta where
  victims := some ((prev.bind (·.victims)).getD 0 + delta.victims.getD 0)
  downstream := some ((prev.bind (·.downstream)).getD 0 + delta.downstream.getD 0)
  «at» := laterOf (prev.bind (·.at)) delta.at

def bufferOf (s : RecentStore) : Updates := s.buffer.getD .empty

def recordRecentHackerActivity (address : Address) (delta : RecentHackerActivityDelta) (s : RecentStore) :
    RecentStore :=
  { s with buffer := some ((bufferOf s).set address (recordDelta ((bufferOf s).get? address) delta)) }

def clearRecentHackerActivityBuffer (s : RecentStore) : RecentStore := { s with buffer := none }

def getRecentHackersActivity (s : RecentStore) : List RecentHackerEntry :=
  parseRecentHackersJson s.recentHackersJson

/-- What the database does in a flush. -/
inductive Outcome where
  | done
  | readFails
  | writeFails
  deriving DecidableEq

/-- The part of a flush behind the merge; the buffer is cleared before the write. -/
def writeMerged (outcome : Outcome) (merged : List RecentHackerEntry) (s : RecentStore) :
    Option Bool × RecentStore :=
  if recentHackersEqual (getRecentHackersActivity s) merged then (some false, clearRecentHackerActivityBuffer s)
  else if outcome = .writeFails then (none, clearRecentHackerActivityBuffer s)
  else (some true, { recentHackersJson := some (serializeRecentHackers merged) })

/-- There is no result where it throws. -/
def flushRecentHackerActivity (limit : Nat) (now : Int) (outcome : Outcome) (s : RecentStore) :
    Option Bool × RecentStore :=
  if (bufferOf s).entries = [] then (some false, clearRecentHackerActivityBuffer s)
  else if outcome = .readFails then (none, s)
  else writeMerged outcome (mergeRecentHackerActivity (getRecentHackersActivity s) (bufferOf s) limit now) s

/-! ## Runs -/

inductive Step where
  | record (address : Address) (delta : RecentHackerActivityDelta)
  | flush (now : Int) (outcome : Outcome)
  | restart

/-- A store with what its buffer has collected and what was written. -/
structure Traced where
  store : RecentStore := {}
  collected : List (Address × RecentHackerActivityDelta) := []
  written : List (Address × RecentHackerActivityDelta) := []

/-- A flush that returns has written what was collected; one that throws keeps the buffer or loses it. -/
def Traced.flushed (t : Traced) (r : Option Bool × RecentStore) : Traced where
  store := r.2
  collected := if r.2.buffer.isSome then t.collected else []
  written := if r.1.isSome then t.written ++ t.collected else t.written

def Step.apply (limit : Nat) (t : Traced) : Step → Traced
  | .record address delta =>
    { t with store := recordRecentHackerActivity address delta t.store
             collected := t.collected ++ [(address, delta)] }
  | .flush now outcome => t.flushed (flushRecentHackerActivity limit now outcome t.store)
  | .restart => { t with store := clearRecentHackerActivityBuffer t.store, collected := [] }

def run (limit : Nat) (steps : List Step) : Traced := steps.foldl (Step.apply limit) {}

/-! ## What the list has to show -/

section Reports

variable (reports : List (Address × RecentHackerActivityDelta))

/-- The times of the reports. -/
def stamps : List (Address × Int) := reports.filterMap fun r => r.2.at.map fun time => (r.1, time)

/-- The two counts of an entry. -/
inductive Count where
  | victims
  | downstream

def Count.delta : Count → RecentHackerActivityDelta → Nat
  | .victims, d => d.victims.getD 0
  | .downstream, d => d.downstream.getD 0

def Count.entry : Count → RecentHackerEntry → Nat
  | .victims, e => e.victims
  | .downstream, e => e.downstream

def total (c : Count) (address : Address) : Nat :=
  ((reports.filter fun r => r.1 = address).map fun r => c.delta r.2).sum

end Reports

def RecentHackerEntry.stamp (e : RecentHackerEntry) : Address × Int := (e.address, e.at)

/-- The entries are the latest hackers of a log of reports: as many as fit, each with its newest time and
counts that the log accounts for. -/
structure Lists (cap : Nat) (reports : List (Address × RecentHackerActivityDelta))
    (entries : List RecentHackerEntry) : Prop where
  keeps : Keeps cap (stamps reports) (entries.map RecentHackerEntry.stamp)
  sorted : entries.Pairwise fun e e' => e'.at ≤ e.at
  counts : ∀ e ∈ entries, ∀ c : Count, c.entry e ≤ total reports c e.address
  exact : ((stamps reports).map Prod.fst).toFinset.card ≤ cap →
    ∀ e ∈ entries, ∀ c : Count, c.entry e = total reports c e.address

/-- Every report has a time, as those of the graph builder do. -/
def Timed (reports : List (Address × RecentHackerActivityDelta)) : Prop := ∀ r ∈ reports, r.2.at.isSome = true

section Log

variable {reports reports' : List (Address × RecentHackerActivityDelta)} {address : Address} {c : Count}

theorem stamps_append : stamps (reports ++ reports') = stamps reports ++ stamps reports' :=
  List.filterMap_append

theorem total_append :
    total (reports ++ reports') c address = total reports c address + total reports' c address := by
  unfold total
  rw [List.filter_append, List.map_append, List.sum_append]

/-- A hacker without a report has no activity. -/
theorem total_of_notMem (hTimed : Timed reports) (h : address ∉ (stamps reports).map Prod.fst) :
    total reports c address = 0 := by
  have hNone : (reports.filter fun r => r.1 = address) = [] := by
    refine List.filter_eq_nil_iff.mpr fun r hr hSame => h ?_
    obtain ⟨time, hTime⟩ := Option.isSome_iff_exists.mp (hTimed r hr)
    refine List.mem_map.mpr ⟨(r.1, time), List.mem_filterMap.mpr ⟨r, hr, ?_⟩, of_decide_eq_true hSame⟩
    rw [hTime]
    rfl
  unfold total
  rw [hNone]
  rfl

end Log

/-! ## The buffer -/

/-- The buffer has for each address the newest time and the counts of what was collected. -/
structure Buffers (collected : List (Address × RecentHackerActivityDelta)) (m : Updates) : Prop where
  newest : ∀ address, NewestOf (stamps collected) address ((m.get? address).bind (·.at))
  counts : ∀ address, ∀ c : Count, (m.get? address).elim 0 c.delta = total collected c address
  timed : ∀ address d, m.get? address = some d → d.at.isSome = true

theorem buffers_empty : Buffers [] .empty where
  newest _ := List.not_mem_nil
  counts _ _ := rfl
  timed _ _ h := by cases h

theorem isSome_laterOf {a b : Option Int} (h : b.isSome = true) : (laterOf a b).isSome = true := by
  cases a with
  | none => exact h
  | some a =>
    cases b with
    | none => rfl
    | some b => rfl

theorem stamps_singleton {address : Address} {delta : RecentHackerActivityDelta} {time : Int}
    (h : delta.at = some time) : stamps [(address, delta)] = [(address, time)] := by
  unfold stamps
  rw [List.filterMap_cons, h]
  rfl

theorem Buffers.record {collected : List (Address × RecentHackerActivityDelta)} {m : Updates}
    (h : Buffers collected m) (address : Address) {delta : RecentHackerActivityDelta}
    (hTime : delta.at.isSome = true) :
    Buffers (collected ++ [(address, delta)]) (m.set address (recordDelta (m.get? address) delta)) := by
  obtain ⟨time, hAt⟩ := Option.isSome_iff_exists.mp hTime
  have hStamps : stamps (collected ++ [(address, delta)]) = stamps collected ++ [(address, time)] := by
    rw [stamps_append, stamps_singleton hAt]
  refine ⟨fun a => ?_, fun a c => ?_, fun a d hGet => ?_⟩
  · rw [hStamps]
    by_cases hSame : a = address
    · subst hSame
      rw [OrderedMap.get?_set_self]
      have hNew : NewestOf [(a, time)] a delta.at := by
        rw [hAt]
        refine ⟨List.mem_singleton_self _, fun t' ht' => ?_⟩
        exact (congrArg Prod.snd (List.mem_singleton.mp ht')).le
      exact (h.newest a).append hNew
    · rw [OrderedMap.get?_set_of_ne m hSame]
      have hNew : NewestOf [(address, time)] a none := by
        intro hMem
        exact hSame (List.mem_singleton.mp hMem)
      have hBoth := (h.newest a).append hNew
      have hLater : ∀ o : Option Int, laterOf o none = o := fun o => by cases o <;> rfl
      rwa [hLater] at hBoth
  · rw [total_append, ← h.counts a c]
    by_cases hSame : a = address
    · subst hSame
      rw [OrderedMap.get?_set_self]
      unfold total recordDelta
      cases m.get? a <;> cases c <;> simp [Count.delta]
    · rw [OrderedMap.get?_set_of_ne m hSame]
      unfold total
      simp [Ne.symm hSame]
  · by_cases hSame : a = address
    · subst hSame
      rw [OrderedMap.get?_set_self] at hGet
      cases hGet
      exact isSome_laterOf hTime
    · rw [OrderedMap.get?_set_of_ne m hSame] at hGet
      exact h.timed a d hGet

/-! ## One merge -/

section Merge

variable {cap limit : Nat} {now : Int} {existing : List RecentHackerEntry} {m : Updates}
  {reports collected : List (Address × RecentHackerActivityDelta)} {address : Address} {e : RecentHackerEntry}

theorem newest_existing (hNodup : ((existing.map RecentHackerEntry.stamp).map Prod.fst).Nodup)
    (address : Address) : NewestOf (existing.map RecentHackerEntry.stamp) address
      (((OrderedMap.ofList RecentHackerEntry.address existing).get? address).map (·.at)) := by
  cases hGet : (OrderedMap.ofList RecentHackerEntry.address existing).get? address with
  | none =>
    have hOut := OrderedMap.get?_eq_none_iff.mp hGet
    rw [OrderedMap.mem_keys_ofList] at hOut
    intro hMem
    rw [List.map_map] at hMem
    exact hOut hMem
  | some e =>
    obtain ⟨hMem, rfl⟩ := OrderedMap.of_get?_ofList hGet
    have hStamp : e.stamp ∈ existing.map RecentHackerEntry.stamp := List.mem_map_of_mem hMem
    refine ⟨hStamp, fun t' ht' => ?_⟩
    have hSame := List.inj_on_of_nodup_map hNodup ht' hStamp rfl
    exact (congrArg Prod.snd hSame).le

/-- The entry that a merge makes for an address. -/
theorem get?_mergedByAddress (existing : List RecentHackerEntry) (m : Updates) (now : Int) (address : Address) :
    (mergedByAddress existing m now).get? address =
      (m.get? address).elim ((OrderedMap.ofList RecentHackerEntry.address existing).get? address) fun d =>
        some (mergeDelta now ((OrderedMap.ofList RecentHackerEntry.address existing).get? address) (address, d)) :=
  OrderedMap.get?_upsertAll_entries m _ address

theorem newest_merged (hNodup : ((existing.map RecentHackerEntry.stamp).map Prod.fst).Nodup)
    (hBuffer : Buffers collected m) (h : (mergedByAddress existing m now).get? address = some e) :
    e.address = address ∧
      Newest (existing.map RecentHackerEntry.stamp ++ stamps collected) address e.at := by
  have hBoth := (newest_existing hNodup address).append (hBuffer.newest address)
  rw [get?_mergedByAddress] at h
  cases hDelta : m.get? address with
  | none =>
    rw [hDelta] at h hBoth
    change (OrderedMap.ofList RecentHackerEntry.address existing).get? address = some e at h
    rw [h] at hBoth
    exact ⟨(OrderedMap.of_get?_ofList h).2, hBoth⟩
  | some d =>
    rw [hDelta] at h hBoth
    cases h
    refine ⟨rfl, ?_⟩
    obtain ⟨time, hTime⟩ := Option.isSome_iff_exists.mp (hBuffer.timed address d hDelta)
    unfold mergeDelta
    rw [Option.bind_some, hTime] at hBoth
    dsimp only
    rw [hTime]
    cases hLater : laterOf (((OrderedMap.ofList RecentHackerEntry.address existing).get? address).map (·.at))
        (some time) with
    | none =>
      have hSome := @isSome_laterOf
        (((OrderedMap.ofList RecentHackerEntry.address existing).get? address).map (·.at)) (some time) rfl
      rw [hLater] at hSome
      cases hSome
    | some t =>
      rw [hLater] at hBoth
      exact hBoth

theorem addresses_merged (hNodup : ((existing.map RecentHackerEntry.stamp).map Prod.fst).Nodup)
    (hBuffer : Buffers collected m) :
    ((mergedByAddress existing m now).values.map RecentHackerEntry.stamp).map Prod.fst =
      (mergedByAddress existing m now).keys := by
  rw [List.map_map]
  exact OrderedMap.map_values fun entry hEntry =>
    (newest_merged hNodup hBuffer (OrderedMap.get?_eq_some_iff.mpr hEntry)).1

/-- The entries of a merge are those that were there and those of the buffer, each with its newest time. -/
theorem merges_existing (hNodup : ((existing.map RecentHackerEntry.stamp).map Prod.fst).Nodup)
    (hBuffer : Buffers collected m) :
    KeptLatest.Merges (existing.map RecentHackerEntry.stamp) (stamps collected)
      ((mergedByAddress existing m now).values.map RecentHackerEntry.stamp) := by
  refine KeptLatest.merges_of_values ?_ (fun s hs => ?_) fun s hs => ?_
  · rw [addresses_merged hNodup hBuffer]
    exact OrderedMap.nodup_keys _
  · obtain ⟨e, hMem, rfl⟩ := List.mem_map.mp hs
    obtain ⟨address, hGet⟩ := OrderedMap.mem_values.mp hMem
    obtain ⟨rfl, hNewest⟩ := newest_merged hNodup hBuffer hGet
    exact hNewest
  · rw [addresses_merged hNodup hBuffer]
    unfold mergedByAddress
    rw [OrderedMap.mem_keys_upsertAll, OrderedMap.mem_keys_ofList]
    rcases List.mem_append.mp hs with hOld | hNew
    · obtain ⟨e, hMem, rfl⟩ := List.mem_map.mp hOld
      exact .inl (List.mem_map_of_mem hMem)
    · refine .inr ?_
      show s.1 ∈ m.keys
      by_contra hOut
      have hNone := hBuffer.newest s.1
      rw [OrderedMap.get?_eq_none_iff.mpr hOut] at hNone
      exact hNone (List.mem_map_of_mem hNew)

/-- The count of a merged entry. -/
theorem count_mergedByAddress (c : Count) (h : (mergedByAddress existing m now).get? address = some e) :
    c.entry e = ((OrderedMap.ofList RecentHackerEntry.address existing).get? address).elim 0 c.entry +
      (m.get? address).elim 0 c.delta := by
  rw [get?_mergedByAddress] at h
  cases hDelta : m.get? address with
  | none =>
    rw [hDelta] at h
    change (OrderedMap.ofList RecentHackerEntry.address existing).get? address = some e at h
    rw [h]
    rfl
  | some d =>
    rw [hDelta] at h
    cases h
    cases (OrderedMap.ofList RecentHackerEntry.address existing).get? address <;> cases c <;> rfl

/-- A merge adds what was collected to what the list shows. -/
theorem Lists.merge (h : Lists (max 1 limit) reports existing) (hBuffer : Buffers collected m)
    (hTimed : Timed reports) :
    Lists (max 1 limit) (reports ++ collected) (mergeRecentHackerActivity existing m limit now) := by
  have hNodup := h.keeps.nodup
  have hMap : (mergeRecentHackerActivity existing m limit now).map RecentHackerEntry.stamp =
      Ranking.top Prod.snd (max 1 limit)
        ((mergedByAddress existing m now).values.map RecentHackerEntry.stamp) :=
    KeptLatest.map_top (fun _ => rfl) _ _
  have hValue : ∀ e ∈ mergeRecentHackerActivity existing m limit now,
      (mergedByAddress existing m now).get? e.address = some e := by
    intro e he
    obtain ⟨address, hGet⟩ := OrderedMap.mem_values.mp (Ranking.mem_of_mem_top he)
    rw [(newest_merged hNodup hBuffer hGet).1]
    exact hGet
  refine ⟨?_, ?_, fun e he c => ?_, fun hFits e he c => ?_⟩
  · rw [hMap, stamps_append]
    exact h.keeps.step (merges_existing hNodup hBuffer)
  · exact (Ranking.pairwise_ranked _).sublist (List.take_sublist _ _)
  · rw [count_mergedByAddress c (hValue e he), total_append, hBuffer.counts e.address c]
    refine Nat.add_le_add_right ?_ _
    cases hOld : (OrderedMap.ofList RecentHackerEntry.address existing).get? e.address with
    | none => exact Nat.zero_le _
    | some old =>
      obtain ⟨hMem, hAddress⟩ := OrderedMap.of_get?_ofList hOld
      rw [← hAddress]
      exact h.counts old hMem c
  · rw [stamps_append, List.map_append, List.toFinset_append] at hFits
    have hOldFits := (Finset.card_le_card Finset.subset_union_left).trans hFits
    rw [count_mergedByAddress c (hValue e he), total_append, hBuffer.counts e.address c]
    refine congrArg (· + _) ?_
    cases hOld : (OrderedMap.ofList RecentHackerEntry.address existing).get? e.address with
    | none =>
      -- an address that is new to the list is new to the log
      have hOut := OrderedMap.get?_eq_none_iff.mp hOld
      rw [OrderedMap.mem_keys_ofList] at hOut
      refine (total_of_notMem hTimed fun hMem => hOut ?_).symm
      have hKept := h.keeps.mem_of_fits hOldFits hMem
      rwa [List.map_map] at hKept
    | some old =>
      obtain ⟨hMem, hAddress⟩ := OrderedMap.of_get?_ofList hOld
      rw [← hAddress]
      exact h.exact hOldFits old hMem c

end Merge

/-! ## A run -/

structure Traced.Sound (limit : Nat) (t : Traced) : Prop where
  buffer : Buffers t.collected (bufferOf t.store)
  list : Lists (max 1 limit) t.written (getRecentHackersActivity t.store)
  collected : Timed t.collected
  written : Timed t.written

section Run

variable {limit : Nat} {t : Traced}

theorem sound_start (limit : Nat) : Traced.Sound limit {} where
  buffer := buffers_empty
  list := ⟨KeptLatest.keeps_nil _, List.Pairwise.nil, fun _ h => absurd h List.not_mem_nil,
    fun _ _ h => absurd h List.not_mem_nil⟩
  collected _ h := absurd h List.not_mem_nil
  written _ h := absurd h List.not_mem_nil

theorem Timed.append {reports reports' : List (Address × RecentHackerActivityDelta)} (h : Timed reports)
    (h' : Timed reports') : Timed (reports ++ reports') := fun r hr =>
  (List.mem_append.mp hr).elim (h r) (h' r)

theorem timed_nil : Timed [] := fun _ h => absurd h List.not_mem_nil

/-- An empty buffer has collected nothing. -/
theorem Traced.Sound.collected_eq_nil (h : t.Sound limit) (hEmpty : (bufferOf t.store).entries = []) :
    t.collected = [] := by
  by_contra hSome
  obtain ⟨r, hr⟩ := List.exists_mem_of_ne_nil _ hSome
  obtain ⟨time, hTime⟩ := Option.isSome_iff_exists.mp (h.collected r hr)
  have hOut : r.1 ∉ (bufferOf t.store).keys := by
    unfold OrderedMap.keys
    rw [hEmpty]
    exact List.not_mem_nil
  have hNone := h.buffer.newest r.1
  rw [OrderedMap.get?_eq_none_iff.mpr hOut] at hNone
  refine hNone (List.mem_map.mpr ⟨(r.1, time), List.mem_filterMap.mpr ⟨r, hr, ?_⟩, rfl⟩)
  rw [hTime]
  rfl

/-- A flush that ends with the buffer cleared, and the list of what it has written. -/
theorem sound_cleared {written : List (Address × RecentHackerActivityDelta)}
    {json : Option (List RawEntry)} (hWritten : Timed written)
    (hList : Lists (max 1 limit) written (parseRecentHackersJson json)) :
    Traced.Sound limit ⟨⟨json, none⟩, [], written⟩ where
  buffer := buffers_empty
  list := hList
  collected := timed_nil
  written := hWritten

theorem Traced.Sound.flush (h : t.Sound limit) (now : Int) (outcome : Outcome) :
    (t.flushed (flushRecentHackerActivity limit now outcome t.store)).Sound limit := by
  have hBoth : Timed (t.written ++ t.collected) := h.written.append h.collected
  unfold flushRecentHackerActivity
  split
  · next hEmpty =>
    refine sound_cleared hBoth ?_
    rw [h.collected_eq_nil hEmpty, List.append_nil]
    exact h.list
  · next hFull =>
    split
    · -- the read fails: the buffer stays for the next job
      have hSome : t.store.buffer.isSome = true := by
        by_contra hNone
        rw [Option.not_isSome_iff_eq_none] at hNone
        apply hFull
        unfold bufferOf
        rw [hNone]
        rfl
      unfold Traced.flushed
      dsimp only
      rw [if_pos hSome]
      exact h
    · have hMerged := @Lists.merge limit now _ _ _ _ h.list h.buffer h.written
      unfold writeMerged
      split
      · next hEqual =>
        rw [← eq_of_recentHackersEqual hEqual] at hMerged
        exact sound_cleared hBoth hMerged
      · split
        · exact sound_cleared h.written h.list
        · refine sound_cleared hBoth ?_
          rw [parse_serialize]
          exact hMerged

theorem Traced.Sound.step (h : t.Sound limit) (step : Step)
    (hTimed : ∀ address delta, step = .record address delta → delta.at.isSome = true) :
    (step.apply limit t).Sound limit := by
  cases step with
  | record address delta =>
    have hTime := hTimed address delta rfl
    refine ⟨h.buffer.record address hTime, h.list, h.collected.append fun r hr => ?_, h.written⟩
    rw [List.mem_singleton.mp hr]
    exact hTime
  | flush now outcome => exact h.flush now outcome
  | restart => exact sound_cleared h.written h.list

end Run

/-- After any run the list of the row shows the latest hackers of all reports that were written: no hacker
twice, as many as fit, the latest first, each with its newest time; a hacker that is not listed has no later
report than any that is. The counts never exceed those of the log, and agree with them as long as not more
hackers were reported than fit. -/
theorem recent_exact (limit : Nat) (steps : List Step)
    (hTimed : ∀ address delta, .record address delta ∈ steps → delta.at.isSome = true) :
    Lists (max 1 limit) (run limit steps).written (getRecentHackersActivity (run limit steps).store) := by
  have hRun : ∀ (steps : List Step) (t : Traced), t.Sound limit →
      (∀ address delta, .record address delta ∈ steps → delta.at.isSome = true) →
      (steps.foldl (Step.apply limit) t).Sound limit := by
    intro steps
    induction steps with
    | nil => exact fun t h _ => h
    | cons step rest ih =>
      intro t h hTimed
      refine ih _ (h.step step fun address delta hStep => hTimed address delta ?_) fun address delta hMem =>
        hTimed address delta (List.mem_cons_of_mem step hMem)
      rw [hStep]
      exact List.mem_cons_self
  exact (hRun steps {} (sound_start limit) hTimed).list

/-- With room for one hacker, `a` is forgotten for `b` and then comes back. -/
def returning : List Step :=
  [.record (name "a") { victims := some 1, «at» := some 1 }, .flush 0 .done,
    .record (name "b") { downstream := some 1, «at» := some 2 }, .flush 0 .done,
    .record (name "a") { victims := some 1, «at» := some 3 }, .flush 0 .done]

theorem recent_exact_returning :
    Lists 1 (run 1 returning).written (getRecentHackersActivity (run 1 returning).store) ∧
      getRecentHackersActivity (run 1 returning).store = [⟨name "a", 3, 1, 0⟩] := by
  refine ⟨recent_exact 1 returning fun address delta hMem => ?_, by decide +kernel⟩
  unfold returning at hMem
  simp only [List.mem_cons, Step.record.injEq, reduceCtorEq, List.not_mem_nil, or_false, false_or] at hMem
  rcases hMem with ⟨-, rfl⟩ | ⟨-, rfl⟩ | ⟨-, rfl⟩ <;> rfl

end Bloodhound.Store.RecentHackers
