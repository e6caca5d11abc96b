import Mathlib.Data.List.Nodup
import Mathlib.Data.List.Dedup
import Mathlib.Algebra.Order.Ring.Int

/-!
# Groups of a sorted list

The groups of keyed amounts are their keys, each with its largest amount. In a list sorted
by amount, largest first, the group of a key is its first row; so the first rows of the
keys are the groups, sorted by their largest amounts (`firstRows_groups`), and a prefix of
the list shows the first of them (`firstRows_take`).
-/

namespace Groups

variable {κ : Type} [DecidableEq κ]

/-- The groups of a list of rows, in some order: each key with the largest of its amounts. -/
def groupMax (rows : List (κ × Int)) : List (κ × Int) :=
  (rows.map Prod.fst).dedup.map fun k =>
    (k, ((rows.filter (·.1 = k)).map Prod.snd).max?.getD 0)

/-- A list is sorted by amount, largest first. -/
def Descending (rows : List (κ × Int)) : Prop := rows.Pairwise fun r r' => r'.2 ≤ r.2

/-- A list of keys gives the first `limit` groups, under some order of the groups with the same
largest amount. -/
def IsTop (rows : List (κ × Int)) (limit : Nat) (keys : List κ) : Prop :=
  ∃ groups, groups.Perm (groupMax rows) ∧ Descending groups ∧
    keys = (groups.take limit).map Prod.fst

/-- The first row of every key that has not been seen. -/
def firstRows : List κ → List (κ × Int) → List (κ × Int)
  | _, [] => []
  | seen, r :: rows =>
    if r.1 ∈ seen then firstRows seen rows else r :: firstRows (seen ++ [r.1]) rows

/-! ## First rows -/

theorem firstRows_append (seen : List κ) (rows rows' : List (κ × Int)) :
    firstRows seen (rows ++ rows') =
      firstRows seen rows ++ firstRows (seen ++ (firstRows seen rows).map Prod.fst) rows' := by
  induction rows generalizing seen with
  | nil => simp [firstRows]
  | cons r rows ih =>
    rw [List.cons_append, firstRows, firstRows]
    split
    · exact ih seen
    · rw [ih, List.cons_append, List.map_cons, List.append_assoc, List.singleton_append]

/-- The first rows of a prefix are first among the first rows. -/
theorem firstRows_take (rows : List (κ × Int)) (n : Nat) :
    firstRows [] (rows.take n) <+: firstRows [] rows := by
  conv_rhs => rw [← List.take_append_drop n rows, firstRows_append]
  exact List.prefix_append _ _

theorem firstRows_sublist (seen : List κ) (rows : List (κ × Int)) :
    (firstRows seen rows).Sublist rows := by
  induction rows generalizing seen with
  | nil => exact List.Sublist.slnil
  | cons r rows ih =>
    rw [firstRows]
    split
    · exact (ih seen).cons r
    · exact (ih _).cons_cons r

theorem notMem_seen {seen : List κ} {rows : List (κ × Int)} {r : κ × Int}
    (h : r ∈ firstRows seen rows) : r.1 ∉ seen := by
  induction rows generalizing seen with
  | nil => cases h
  | cons r' rows ih =>
    rw [firstRows] at h
    split at h
    · exact ih h
    · next hNew =>
      rcases List.mem_cons.mp h with rfl | h
      · exact hNew
      · exact fun hSeen => ih h (List.mem_append_left _ hSeen)

theorem nodup_keys_firstRows (seen : List κ) (rows : List (κ × Int)) :
    ((firstRows seen rows).map Prod.fst).Nodup := by
  induction rows generalizing seen with
  | nil => exact List.nodup_nil
  | cons r rows ih =>
    rw [firstRows]
    split
    · exact ih seen
    · rw [List.map_cons, List.nodup_cons]
      refine ⟨fun hMem => ?_, ih _⟩
      obtain ⟨r', hr', hEq⟩ := List.mem_map.mp hMem
      exact notMem_seen hr' (hEq ▸ List.mem_append_right _ (List.mem_singleton.mpr rfl))

/-- Every key that has not been seen has a first row. -/
theorem exists_firstRow {seen : List κ} {rows : List (κ × Int)} {k : κ} (hk : k ∈ rows.map Prod.fst)
    (hNew : k ∉ seen) : ∃ r ∈ firstRows seen rows, r.1 = k := by
  induction rows generalizing seen with
  | nil => cases hk
  | cons r rows ih =>
    rw [firstRows]
    by_cases hr : r.1 = k
    · subst hr
      rw [if_neg hNew]
      exact ⟨r, List.mem_cons_self, rfl⟩
    · have hTail : k ∈ rows.map Prod.fst :=
        (List.mem_cons.mp hk).resolve_left (Ne.symm hr)
      split
      · exact ih hTail hNew
      · have hStill : k ∉ seen ++ [r.1] := by
          rw [List.mem_append, List.mem_singleton, not_or]
          exact ⟨hNew, Ne.symm hr⟩
        obtain ⟨r', hMem, hEq⟩ := ih hTail hStill
        exact ⟨r', List.mem_cons_of_mem _ hMem, hEq⟩

/-- In a sorted list no row of a key exceeds its first row. -/
theorem le_firstRow {seen : List κ} {rows : List (κ × Int)} (hSorted : Descending rows) {r r' : κ × Int}
    (hFirst : r ∈ firstRows seen rows) (hRow : r' ∈ rows) (hKey : r'.1 = r.1) : r'.2 ≤ r.2 := by
  induction rows generalizing seen with
  | nil => cases hRow
  | cons q rows ih =>
    obtain ⟨hHead, hTail⟩ := List.pairwise_cons.mp hSorted
    rw [firstRows] at hFirst
    split at hFirst
    · next hSeen =>
      rcases List.mem_cons.mp hRow with rfl | hRow
      · exact absurd (hKey ▸ hSeen) (notMem_seen hFirst)
      · exact ih hTail hFirst hRow
    · rcases List.mem_cons.mp hFirst with rfl | hFirst
      · rcases List.mem_cons.mp hRow with rfl | hRow
        · exact le_rfl
        · exact hHead r' hRow
      · rcases List.mem_cons.mp hRow with rfl | hRow
        · exact absurd (hKey ▸ List.mem_append_right seen (List.mem_singleton.mpr rfl))
            (notMem_seen hFirst)
        · exact ih hTail hFirst hRow

/-! ## Groups -/

theorem mem_groupMax {rows : List (κ × Int)} {r : κ × Int} :
    r ∈ groupMax rows ↔ r ∈ rows ∧ ∀ r' ∈ rows, r'.1 = r.1 → r'.2 ≤ r.2 := by
  have hMax : ∀ m : Int, ((rows.filter (·.1 = r.1)).map Prod.snd).max? = some m ↔
      (r.1, m) ∈ rows ∧ ∀ r' ∈ rows, r'.1 = r.1 → r'.2 ≤ m := fun m => by
    rw [List.max?_eq_some_iff]
    constructor
    · rintro ⟨hMem, hLe⟩
      obtain ⟨q, hq, rfl⟩ := List.mem_map.mp hMem
      obtain ⟨hRow, hKey⟩ := List.mem_filter.mp hq
      refine ⟨?_, fun r' hr' hEq => hLe _ ?_⟩
      · rwa [← of_decide_eq_true hKey]
      · exact List.mem_map.mpr ⟨r', List.mem_filter.mpr ⟨hr', decide_eq_true hEq⟩, rfl⟩
    · rintro ⟨hMem, hLe⟩
      refine ⟨List.mem_map.mpr ⟨_, List.mem_filter.mpr ⟨hMem, decide_eq_true rfl⟩, rfl⟩, ?_⟩
      intro b hb
      obtain ⟨q, hq, rfl⟩ := List.mem_map.mp hb
      obtain ⟨hRow, hKey⟩ := List.mem_filter.mp hq
      exact hLe q hRow (of_decide_eq_true hKey)
  unfold groupMax
  rw [List.mem_map]
  constructor
  · rintro ⟨k, hk, rfl⟩
    obtain ⟨q, hq, rfl⟩ := List.mem_map.mp (List.mem_dedup.mp hk)
    have hne : (rows.filter (·.1 = q.1)).map Prod.snd ≠ [] :=
      List.ne_nil_of_mem (List.mem_map.mpr
        ⟨q, List.mem_filter.mpr ⟨hq, decide_eq_true rfl⟩, rfl⟩)
    obtain ⟨m, hm⟩ := Option.ne_none_iff_exists'.mp (mt List.max?_eq_none_iff.mp hne)
    obtain ⟨hMem, hLe⟩ := (hMax m).mp hm
    dsimp only
    rw [hm, Option.getD_some]
    exact ⟨hMem, hLe⟩
  · intro h
    refine ⟨r.1, List.mem_dedup.mpr (List.mem_map.mpr ⟨r, h.1, rfl⟩), ?_⟩
    rw [(hMax r.2).mpr h, Option.getD_some]

theorem nodup_groupMax (rows : List (κ × Int)) : (groupMax rows).Nodup :=
  (List.nodup_dedup _).map fun _ _ h => (Prod.mk.inj h).1

/-- The first rows of a sorted list are its groups. -/
theorem firstRows_groups {rows : List (κ × Int)} (hSorted : Descending rows) :
    (firstRows [] rows).Perm (groupMax rows) ∧ Descending (firstRows [] rows) := by
  refine ⟨?_, hSorted.sublist (firstRows_sublist _ _)⟩
  have hNodup : (firstRows [] rows).Nodup := List.Nodup.of_map _ (nodup_keys_firstRows [] rows)
  rw [List.perm_ext_iff_of_nodup hNodup (nodup_groupMax rows)]
  intro r
  rw [mem_groupMax]
  constructor
  · exact fun h => ⟨(firstRows_sublist _ _).subset h, fun r' hr' hKey => le_firstRow hSorted h hr' hKey⟩
  · rintro ⟨hMem, hLe⟩
    obtain ⟨q, hq, hKey⟩ := exists_firstRow (List.mem_map.mpr ⟨r, hMem, rfl⟩) List.not_mem_nil
    have hUp := le_firstRow hSorted hq hMem hKey.symm
    have hDown := hLe q ((firstRows_sublist _ _).subset hq) hKey
    rwa [← Prod.ext hKey (le_antisymm hDown hUp)]

theorem groupMax_perm {rows rows' : List (κ × Int)} (h : rows.Perm rows') :
    (groupMax rows).Perm (groupMax rows') := by
  rw [List.perm_ext_iff_of_nodup (nodup_groupMax _) (nodup_groupMax _)]
  intro r
  rw [mem_groupMax, mem_groupMax, h.mem_iff]
  simp only [h.mem_iff]

end Groups
