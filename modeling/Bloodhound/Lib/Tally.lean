import Mathlib.Data.List.Nodup
import Mathlib.Algebra.BigOperators.Group.List.Basic
import Mathlib.Algebra.Order.BigOperators.Group.List
import Mathlib.Algebra.Order.Ring.Int
import Mathlib.Algebra.Ring.Int.Defs

/-!
# Tallies

A tally adds amounts up by key: an insertion-ordered map from keys to sums, as a program
builds it with one pass over a list of keyed amounts. The keys of a tally are distinct, in
order of first occurrence, and the entry of a key is the total of its amounts.
-/

namespace Tally

variable {κ : Type} [DecidableEq κ]

/-- Add `d` to the entry of `k`, at the end if there is none. -/
def add (k : κ) (d : Int) : List (κ × Int) → List (κ × Int)
  | [] => [(k, d)]
  | (k', v) :: m => if k' = k then (k', v + d) :: m else (k', v) :: add k d m

/-- The tally of a list of keyed amounts. -/
def tally (l : List (κ × Int)) : List (κ × Int) :=
  l.foldl (fun m e => add e.1 e.2 m) []

/-- The entry of `k`, or zero. -/
def get (k : κ) : List (κ × Int) → Int
  | [] => 0
  | (k', v) :: m => if k' = k then v else get k m

/-- The sum of the amounts listed under `k`. -/
def total (k : κ) (l : List (κ × Int)) : Int :=
  ((l.filter fun e => e.1 = k).map Prod.snd).sum

@[simp] theorem total_nil (k : κ) : total k [] = 0 := rfl

theorem total_cons (k : κ) (e : κ × Int) (l : List (κ × Int)) :
    total k (e :: l) = (if e.1 = k then e.2 else 0) + total k l := by
  unfold total
  rw [List.filter_cons]
  by_cases h : e.1 = k <;> simp [h]

theorem total_append (k : κ) (l l' : List (κ × Int)) :
    total k (l ++ l') = total k l + total k l' := by
  simp [total]

theorem total_eq_zero {k : κ} {l : List (κ × Int)} (h : k ∉ l.map Prod.fst) : total k l = 0 := by
  have : l.filter (fun e => decide (e.1 = k)) = [] := by
    rw [List.filter_eq_nil_iff]
    intro e he hek
    exact h (List.mem_map.mpr ⟨e, he, of_decide_eq_true hek⟩)
  unfold total
  rw [this]
  rfl

theorem total_nonneg {k : κ} {l : List (κ × Int)} (h : ∀ e ∈ l, 0 ≤ e.2) : 0 ≤ total k l := by
  refine List.sum_nonneg fun d hd => ?_
  obtain ⟨e, he, rfl⟩ := List.mem_map.mp hd
  exact h e (List.mem_of_mem_filter he)

theorem total_pos {k : κ} {d : Int} {l : List (κ × Int)} (h : ∀ e ∈ l, 0 < e.2)
    (hm : (k, d) ∈ l) : 0 < total k l := by
  induction l with
  | nil => cases hm
  | cons e l ih =>
    have hTail : 0 ≤ total k l :=
      total_nonneg fun e' he' => (h e' (List.mem_cons_of_mem _ he')).le
    have hHead := h e List.mem_cons_self
    rw [total_cons]
    rcases List.mem_cons.mp hm with rfl | hm
    · simpa using add_pos_of_pos_of_nonneg hHead hTail
    · have := ih (fun e' he' => h e' (List.mem_cons_of_mem _ he')) hm
      split <;> omega

/-! ## Keys -/

theorem keys_add (k : κ) (d : Int) (m : List (κ × Int)) :
    (add k d m).map Prod.fst =
      if k ∈ m.map Prod.fst then m.map Prod.fst else m.map Prod.fst ++ [k] := by
  induction m with
  | nil => simp [add]
  | cons e m ih =>
    obtain ⟨k', v⟩ := e
    unfold add
    by_cases h : k' = k
    · subst h
      simp
    · have h' : ¬ k = k' := fun hk => h hk.symm
      simp only [h, if_false, List.map_cons, ih, List.mem_cons, h', false_or]
      split <;> simp

theorem mem_keys_add {k k' : κ} {d : Int} {m : List (κ × Int)} :
    k' ∈ (add k d m).map Prod.fst ↔ k' = k ∨ k' ∈ m.map Prod.fst := by
  rw [keys_add]
  split
  · next h =>
    constructor
    · exact Or.inr
    · rintro (rfl | h')
      · exact h
      · exact h'
  · rw [List.mem_append, List.mem_singleton, or_comm]

theorem nodup_add {k : κ} {d : Int} {m : List (κ × Int)} (h : (m.map Prod.fst).Nodup) :
    ((add k d m).map Prod.fst).Nodup := by
  rw [keys_add]
  split
  · exact h
  · next hk => exact List.nodup_append.mpr ⟨h, List.nodup_singleton k, by
      intro a ha b hb hab
      rw [List.mem_singleton] at hb
      exact hk (hb ▸ hab ▸ ha)⟩

private theorem nodup_foldl (l : List (κ × Int)) {m : List (κ × Int)}
    (h : (m.map Prod.fst).Nodup) :
    ((l.foldl (fun m e => add e.1 e.2 m) m).map Prod.fst).Nodup := by
  induction l generalizing m with
  | nil => exact h
  | cons e l ih => exact ih (nodup_add h)

theorem nodup_tally (l : List (κ × Int)) : ((tally l).map Prod.fst).Nodup :=
  nodup_foldl l List.nodup_nil

private theorem mem_keys_foldl {k : κ} (l : List (κ × Int)) (m : List (κ × Int)) :
    k ∈ (l.foldl (fun m e => add e.1 e.2 m) m).map Prod.fst ↔
      k ∈ m.map Prod.fst ∨ k ∈ l.map Prod.fst := by
  induction l generalizing m with
  | nil => simp
  | cons e l ih =>
    rw [List.foldl_cons, ih, mem_keys_add, List.map_cons, List.mem_cons]
    tauto

theorem mem_keys_tally {k : κ} {l : List (κ × Int)} :
    k ∈ (tally l).map Prod.fst ↔ k ∈ l.map Prod.fst := by
  unfold tally
  rw [mem_keys_foldl]
  simp

/-- The first occurrences of a list are distinct. -/
theorem nodup_eraseDups {α : Type} [BEq α] [LawfulBEq α] : ∀ l : List α, l.eraseDups.Nodup
  | [] => List.nodup_nil
  | a :: l => by
    rw [List.eraseDups_cons, List.nodup_cons]
    refine ⟨fun h => ?_, nodup_eraseDups _⟩
    have := (List.mem_filter.mp (List.mem_eraseDups.mp h)).2
    simp at this
termination_by l => l.length
decreasing_by
  exact Nat.lt_succ_of_le (List.length_filter_le _ _)

/-! ## Entries -/

theorem get_add (k k' : κ) (d : Int) (m : List (κ × Int)) :
    get k' (add k d m) = get k' m + if k = k' then d else 0 := by
  induction m with
  | nil => simp [add, get]
  | cons e m ih =>
    obtain ⟨k₁, v⟩ := e
    unfold add
    by_cases h : k₁ = k
    · subst h
      by_cases h' : k₁ = k' <;> simp [get, h']
    · by_cases h' : k₁ = k'
      · subst h'
        have : ¬ k = k₁ := fun hk => h hk.symm
        simp [get, h, this]
      · simp [get, h, h', ih]

private theorem get_foldl (k : κ) (l : List (κ × Int)) (m : List (κ × Int)) :
    get k (l.foldl (fun m e => add e.1 e.2 m) m) = get k m + total k l := by
  induction l generalizing m with
  | nil => simp
  | cons e l ih => rw [List.foldl_cons, ih, get_add, total_cons, add_assoc]

theorem get_tally (k : κ) (l : List (κ × Int)) : get k (tally l) = total k l := by
  unfold tally
  rw [get_foldl]
  simp [get]

theorem get_of_mem {m : List (κ × Int)} (h : (m.map Prod.fst).Nodup) {k : κ} {v : Int}
    (hm : (k, v) ∈ m) : get k m = v := by
  induction m with
  | nil => cases hm
  | cons e m ih =>
    obtain ⟨k', v'⟩ := e
    rw [List.map_cons, List.nodup_cons] at h
    rcases List.mem_cons.mp hm with heq | hm
    · cases heq
      simp [get]
    · have hne : k' ≠ k := by
        rintro rfl
        exact h.1 (List.mem_map.mpr ⟨_, hm, rfl⟩)
      simp [get, hne, ih h.2 hm]

/-- The entry of a key in a tally is the total of its amounts. -/
theorem eq_total_of_mem {l : List (κ × Int)} {k : κ} {v : Int} (h : (k, v) ∈ tally l) :
    v = total k l := by
  rw [← get_tally, get_of_mem (nodup_tally l) h]

/-- A tally of positive amounts has positive entries. -/
theorem pos_of_mem_tally {l : List (κ × Int)} (h : ∀ e ∈ l, 0 < e.2) {e : κ × Int}
    (he : e ∈ tally l) : 0 < e.2 := by
  obtain ⟨k, v⟩ := e
  obtain ⟨⟨k', d⟩, hd, hk⟩ := List.mem_map.mp
    (mem_keys_tally.mp (List.mem_map.mpr ⟨(k, v), he, rfl⟩))
  rw [eq_total_of_mem he]
  subst hk
  exact total_pos h hd

/-- Totals of a tally are the totals of what was tallied. -/
theorem total_tally (k : κ) (l : List (κ × Int)) : total k (tally l) = total k l := by
  have hn := nodup_tally l
  rw [← get_tally k l]
  generalize tally l = m at hn
  induction m with
  | nil => rfl
  | cons e m ih =>
    obtain ⟨k', v⟩ := e
    rw [List.map_cons, List.nodup_cons] at hn
    rw [total_cons, ih hn.2]
    by_cases h : k' = k
    · subst h
      have hzero : get k' m = 0 := by
        rw [← ih hn.2]
        exact total_eq_zero hn.1
      simp [get, hzero]
    · simp [get, h]

/-! ## Two lists without duplicates -/

/-- What two lists have in common counts once in each. -/
theorem length_add_length_filter {α : Type} [BEq α] [LawfulBEq α] {xs ys : List α} (hx : xs.Nodup)
    (hy : ys.Nodup) : xs.length + (ys.filter (· ∉ xs)).length = ys.length + (xs.filter (· ∉ ys)).length := by
  have hCommon : (xs.filter (· ∈ ys)).length = (ys.filter (· ∈ xs)).length := by
    refine ((List.perm_ext_iff_of_nodup (hx.filter _) (hy.filter _)).mpr fun x => ?_).length_eq
    simp [and_comm]
  have hxs := List.length_eq_length_filter_add (l := xs) (· ∈ ys)
  have hys := List.length_eq_length_filter_add (l := ys) (· ∈ xs)
  simp only [← decide_not] at hxs hys
  omega

end Tally
