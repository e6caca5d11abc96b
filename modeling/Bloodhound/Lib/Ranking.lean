import Mathlib.Data.List.Sort
import Mathlib.Algebra.Order.Ring.Int

/-!
# The first entries of a ranking

A list ranked by a weight, largest first, with ties in the order of the list, and the first
entries of the ranking. Ranking commutes with filtering, so a filter that keeps the first
entries keeps them first.
-/

namespace Ranking

variable {α : Type} {weight : α → Int} {p : α → Bool} {k : Nat} {l : List α}

/-- The list by decreasing weight; the sort is stable. -/
def ranked (weight : α → Int) (l : List α) : List α :=
  l.insertionSort fun a b => weight b ≤ weight a

/-- The first `k` entries of the ranking. -/
def top (weight : α → Int) (k : Nat) (l : List α) : List α := (ranked weight l).take k

theorem mem_ranked {a : α} : a ∈ ranked weight l ↔ a ∈ l := List.mem_insertionSort _

theorem mem_of_mem_top {a : α} (h : a ∈ top weight k l) : a ∈ l :=
  mem_ranked.mp (List.mem_of_mem_take h)

theorem pairwise_ranked (l : List α) : (ranked weight l).Pairwise fun a b => weight b ≤ weight a :=
  haveI : Std.Total fun a b : α => weight b ≤ weight a := ⟨fun _ _ => le_total _ _⟩
  haveI : IsTrans α fun a b => weight b ≤ weight a := ⟨fun _ _ _ h h' => h'.trans h⟩
  List.pairwise_insertionSort _ l

theorem orderedInsert_of_le {a : α} {l : List α} (h : ∀ b ∈ l, weight b ≤ weight a) :
    l.orderedInsert (fun a b => weight b ≤ weight a) a = a :: l := by
  cases l with
  | nil => rfl
  | cons b l => exact List.orderedInsert_cons_of_le _ l (h b List.mem_cons_self)

theorem filter_orderedInsert (a : α) {l : List α} (h : l.Pairwise fun a b => weight b ≤ weight a) :
    (l.orderedInsert (fun a b => weight b ≤ weight a) a).filter p =
      if p a then (l.filter p).orderedInsert (fun a b => weight b ≤ weight a) a else l.filter p := by
  induction l with
  | nil => exact List.filter_cons
  | cons b l ih =>
    obtain ⟨hHead, hTail⟩ := List.pairwise_cons.mp h
    by_cases hba : weight b ≤ weight a
    · have hAll : ∀ c ∈ (b :: l).filter p, weight c ≤ weight a := fun c hc => by
        rcases List.mem_cons.mp (List.mem_of_mem_filter hc) with rfl | hc
        · exact hba
        · exact (hHead c hc).trans hba
      rw [List.orderedInsert_cons, if_pos hba, List.filter_cons, orderedInsert_of_le hAll]
    · rw [List.orderedInsert_cons, if_neg hba, List.filter_cons, List.filter_cons, ih hTail]
      cases p a <;> cases p b <;> simp [hba]

theorem ranked_filter (l : List α) : ranked weight (l.filter p) = (ranked weight l).filter p := by
  induction l with
  | nil => rfl
  | cons a l ih =>
    have hInsert := filter_orderedInsert (p := p) a (@pairwise_ranked α weight l)
    rw [List.filter_cons]
    by_cases hp : p a = true
    · rw [if_pos hp] at hInsert ⊢
      rw [← ih] at hInsert
      exact hInsert.symm
    · rw [if_neg hp] at hInsert ⊢
      exact ih.trans hInsert.symm

/-- A filter that keeps the first entries leaves them first. -/
theorem top_filter (h : ∀ a ∈ top weight k l, p a = true) :
    top weight k (l.filter p) = top weight k l := by
  unfold top at h ⊢
  rw [ranked_filter]
  generalize ranked weight l = ranking at h
  have hSplit : ranking.filter p = ranking.take k ++ (ranking.drop k).filter p := by
    conv_lhs => rw [← List.take_append_drop k ranking]
    rw [List.filter_append, List.filter_eq_self.mpr h]
  rw [hSplit]
  rcases Nat.le_total k ranking.length with hk | hk
  · rw [List.take_append_of_le_length (by rw [List.length_take]; omega), List.take_take, Nat.min_self]
  · rw [List.drop_eq_nil_of_le hk, List.filter_nil, List.append_nil, List.take_take, Nat.min_self]

end Ranking
