import Mathlib.Data.List.Count
import Mathlib.Data.List.Nodup
import Mathlib.Algebra.Order.Ring.Nat
import Mathlib.Algebra.BigOperators.Group.List.Basic

/-!
# Counting edges by their ends

Where every node of a list counts the edges that touch it, an edge between two nodes of the list counts twice
(`sum_degree`).
-/

namespace Incidence

variable {α ε : Type} [DecidableEq α] (source target : ε → α)

def touches (e : ε) (a : α) : Bool := source e = a || target e = a

def degree (edges : List ε) (a : α) : Nat := edges.countP fun e => touches source target e a

/-- An end of the edge is a node of the list. -/
def meets (nodes : List α) (e : ε) : Bool := source e ∈ nodes || target e ∈ nodes

/-- The edge leads from a node of the list to another one. -/
def inside (nodes : List α) (e : ε) : Bool :=
  source e ∈ nodes && target e ∈ nodes && source e ≠ target e

theorem countP_touches {nodes : List α} (h : nodes.Nodup) (e : ε) :
    nodes.countP (touches source target e) =
      (if meets source target nodes e then 1 else 0) + if inside source target nodes e then 1 else 0 := by
  induction nodes with
  | nil => rfl
  | cons a rest ih =>
    obtain ⟨hNot, hRest⟩ := List.nodup_cons.mp h
    rw [List.countP_cons, ih hRest]
    unfold touches meets inside
    simp only [List.mem_cons, Bool.or_eq_true, Bool.and_eq_true, decide_eq_true_eq]
    by_cases hSource : source e = a
    · by_cases hTarget : target e = a
      · simp [hSource, hTarget, hNot]
      · simp only [hSource, hTarget, hNot, false_or, true_or, true_and, false_and, if_true, if_false]
        by_cases hIn : target e ∈ rest
        · simp [hIn, Ne.symm hTarget]
        · simp [hIn]
    · by_cases hTarget : target e = a
      · simp only [hSource, hTarget, hNot, false_or, or_true, or_false, and_true, if_true]
        by_cases hIn : source e ∈ rest
        · simp [hIn, hSource]
        · simp [hIn]
      · simp [hSource, hTarget]

/-- The edges between two nodes of the list count twice. -/
theorem sum_degree {nodes : List α} (h : nodes.Nodup) (edges : List ε) :
    (nodes.map (degree source target edges)).sum =
      edges.countP (meets source target nodes) + edges.countP (inside source target nodes) := by
  induction edges with
  | nil =>
    unfold degree
    simp
  | cons e rest ih =>
    have hAdd : (nodes.map (degree source target (e :: rest))).sum =
        (nodes.map (degree source target rest)).sum + nodes.countP (touches source target e) := by
      clear ih h
      induction nodes with
      | nil => rfl
      | cons a nodes ih =>
        rw [List.map_cons, List.sum_cons, ih, List.map_cons, List.sum_cons, List.countP_cons]
        unfold degree
        rw [List.countP_cons]
        omega
    rw [hAdd, ih, countP_touches source target h, List.countP_cons, List.countP_cons]
    omega

end Incidence
