import Mathlib.Data.List.Nodup
import Mathlib.Order.Lattice
import Mathlib.Data.List.Perm.Basic

/-!
# Repeated selection

Taking a least element by a key again and again, with ties open, yields the orders of a
list that are sorted by the key (`selects_iff`). Two keys admit the same orders if and only
if they compare every two elements alike (`sameOrders_iff`).
-/

namespace Selection

variable {α β γ : Type} [LinearOrder β] [LinearOrder γ] {key : α → β}

/-- An order of the elements of a list that is sorted by a key. -/
def IsSorted (key : α → β) (l order : List α) : Prop :=
  order.Perm l ∧ order.Pairwise fun a b => key a ≤ key b

/-- The orders in which the elements of a list are taken, each time one with the least key. -/
inductive Selects [DecidableEq α] (key : α → β) : List α → List α → Prop where
  | done : Selects key [] []
  | take {l order : List α} {a : α} (hMem : a ∈ l) (hLeast : ∀ b ∈ l, key a ≤ key b)
      (hRest : Selects key (l.erase a) order) : Selects key l (a :: order)

theorem selects_iff [DecidableEq α] {l order : List α} :
    Selects key l order ↔ IsSorted key l order := by
  constructor
  · intro h
    induction h with
    | done => exact ⟨List.Perm.refl _, List.Pairwise.nil⟩
    | @take l order a hMem hLeast _ ih =>
      refine ⟨(ih.1.cons a).trans (List.perm_cons_erase hMem).symm, ?_⟩
      exact List.pairwise_cons.mpr
        ⟨fun b hb => hLeast b (List.mem_of_mem_erase (ih.1.subset hb)), ih.2⟩
  · rintro ⟨hPerm, hSorted⟩
    induction order generalizing l with
    | nil => rw [← hPerm.nil_eq]; exact .done
    | cons a order ih =>
      obtain ⟨hHead, hTail⟩ := List.pairwise_cons.mp hSorted
      have hMem : a ∈ l := hPerm.subset List.mem_cons_self
      refine .take hMem (fun b hb => ?_) (ih ?_ hTail)
      · rcases List.mem_cons.mp (hPerm.symm.subset hb) with rfl | hb
        · exact le_rfl
        · exact hHead b hb
      · simpa using hPerm.erase a

/-- Where one key does not put `a` before `b`, some order that it sorts has `b` first. -/
theorem exists_sorted_pair (key : α → β) {l : List α} {a b : α} (hPair : ∃ rest, l.Perm (b :: a :: rest))
    (h : ¬ key a < key b) : ∃ order, IsSorted key l order ∧ [b, a].Sublist order := by
  obtain ⟨rest, hPerm⟩ := hPair
  have hTrans : ∀ x y z : α, decide (key x ≤ key y) = true → decide (key y ≤ key z) = true →
      decide (key x ≤ key z) = true := fun x y z hxy hyz =>
    decide_eq_true ((of_decide_eq_true hxy).trans (of_decide_eq_true hyz))
  have hTotal : ∀ x y : α, (decide (key x ≤ key y) || decide (key y ≤ key x)) = true := fun x y => by
    rw [Bool.or_eq_true, decide_eq_true_iff, decide_eq_true_iff]
    exact le_total _ _
  refine ⟨(b :: a :: rest).mergeSort fun x y => decide (key x ≤ key y), ⟨?_, ?_⟩, ?_⟩
  · exact (List.mergeSort_perm _ _).trans hPerm.symm
  · exact (List.pairwise_mergeSort hTrans hTotal _).imp of_decide_eq_true
  · refine List.pair_sublist_mergeSort hTrans hTotal (decide_eq_true (not_lt.mp h)) ?_
    exact ((List.nil_sublist rest).cons_cons a).cons_cons b

theorem exists_perm_pair {l : List α} (hNodup : l.Nodup) {a b : α} (ha : a ∈ l) (hb : b ∈ l)
    (hne : a ≠ b) : ∃ rest, l.Perm (b :: a :: rest) := by
  classical
  refine ⟨(l.erase b).erase a, (List.perm_cons_erase hb).trans (List.Perm.cons b ?_)⟩
  exact List.perm_cons_erase ((hNodup.mem_erase_iff).mpr ⟨hne, ha⟩)

/-- Keys that admit the same orders compare alike. -/
theorem lt_of_sameOrders {f : α → β} {g : α → γ} {l : List α} (hNodup : l.Nodup)
    (hSame : ∀ order, IsSorted f l order ↔ IsSorted g l order) {a b : α} (ha : a ∈ l) (hb : b ∈ l)
    (hLt : f a < f b) : g a < g b := by
  by_contra hNot
  have hne : a ≠ b := fun hEq => lt_irrefl _ (hEq ▸ hLt)
  obtain ⟨order, hSorted, hPair⟩ := exists_sorted_pair g (exists_perm_pair hNodup ha hb hne) hNot
  have hBefore := ((hSame order).mpr hSorted).2.sublist hPair
  exact not_le.mpr hLt (List.rel_of_pairwise_cons hBefore (List.mem_singleton.mpr rfl))

theorem sameOrders_iff {f : α → β} {g : α → γ} {l : List α} (hNodup : l.Nodup) :
    (∀ order, IsSorted f l order ↔ IsSorted g l order) ↔
      ∀ a ∈ l, ∀ b ∈ l, (f a < f b ↔ g a < g b) := by
  constructor
  · intro hSame a ha b hb
    exact ⟨lt_of_sameOrders hNodup hSame ha hb,
      lt_of_sameOrders hNodup (fun order => (hSame order).symm) ha hb⟩
  · intro hLt order
    refine and_congr_right fun hPerm => ?_
    have hLe : ∀ a ∈ order, ∀ b ∈ order, (f a ≤ f b ↔ g a ≤ g b) := fun a ha b hb => by
      rw [← not_lt, ← not_lt, hLt b (hPerm.subset hb) a (hPerm.subset ha)]
    exact ⟨fun h => h.imp_of_mem fun ha hb => (hLe _ ha _ hb).mp,
      fun h => h.imp_of_mem fun ha hb => (hLe _ ha _ hb).mpr⟩

end Selection
