import Mathlib.Data.List.Nodup
import Mathlib.Algebra.BigOperators.Group.List.Basic
import Mathlib.Algebra.Order.BigOperators.Group.List
import Mathlib.Algebra.Order.Ring.Int
import Mathlib.Algebra.Ring.Int.Defs
import Mathlib.Tactic.Ring
import Mathlib.Tactic.Linarith

/-!
# Apportionment by quotas

A total is divided among weights: every weight first gets the integer part of its exact
share, and the units that are left over go one by one to indices of a list. Fewer units are
left over than there are weights, so a list of distinct indices gives no index more than
one of them.
-/

namespace Apportion

/-- The integer parts of the shares of `total` with the denominator `d`. -/
def floors (total d : Int) (weights : List Int) : List Int := weights.map fun w => total * w / d

/-- One unit more at every index of the list. -/
def bump (indices : List Nat) (amounts : List Int) : List Int :=
  indices.foldl (fun amounts i => amounts.modify i (· + 1)) amounts

variable {weights amounts : List Int} {indices : List Nat}

/-! ## Integer parts -/

/-- Division with remainder, summed over the weights. -/
theorem sum_floors (total d : Int) (weights : List Int) :
    d * (floors total d weights).sum + (weights.map fun w => total * w % d).sum =
      total * weights.sum := by
  induction weights with
  | nil => simp [floors]
  | cons w weights ih =>
    have hDiv := Int.mul_ediv_add_emod (total * w) d
    simp only [floors, List.map_cons, List.sum_cons] at ih ⊢
    linarith

theorem sum_remainders_nonneg (total : Int) (hSum : 0 < weights.sum) :
    0 ≤ (weights.map fun w => total * w % weights.sum).sum := by
  refine List.sum_nonneg fun r hr => ?_
  obtain ⟨w, _, rfl⟩ := List.mem_map.mp hr
  exact Int.emod_nonneg _ hSum.ne'

theorem sum_remainders_lt (total : Int) (hSum : 0 < weights.sum) :
    (weights.map fun w => total * w % weights.sum).sum < weights.sum * weights.length := by
  have hne : weights ≠ [] := by
    rintro rfl
    simp at hSum
  have hEach : ∀ w ∈ weights, total * w % weights.sum < weights.sum :=
    fun w _ => Int.emod_lt_of_pos _ hSum
  calc (weights.map fun w => total * w % weights.sum).sum
      < (weights.map fun _ => weights.sum).sum := List.sum_lt_sum_of_ne_nil hne _ _ hEach
    _ = weights.sum * weights.length := by
        rw [List.map_const', List.sum_replicate, nsmul_eq_mul, mul_comm]

/-- The integer parts do not exceed the total. -/
theorem sum_floors_le (total : Int) (hSum : 0 < weights.sum) :
    (floors total weights.sum weights).sum ≤ total := by
  have hDiv := sum_floors total weights.sum weights
  have hRest := sum_remainders_nonneg total hSum
  have hLe : weights.sum * (floors total weights.sum weights).sum ≤ weights.sum * total := by
    linarith [mul_comm total weights.sum]
  exact le_of_mul_le_mul_left hLe hSum

/-- Fewer units are left over than there are weights. -/
theorem leftover_lt (total : Int) (hSum : 0 < weights.sum) :
    total - (floors total weights.sum weights).sum < weights.length := by
  have hDiv := sum_floors total weights.sum weights
  have hRest := sum_remainders_lt total hSum
  have hLt : weights.sum * (total - (floors total weights.sum weights).sum) <
      weights.sum * weights.length := by
    rw [mul_sub]
    linarith [mul_comm total weights.sum]
  exact lt_of_mul_lt_mul_left hLt hSum.le

/-! ## The units left over -/

@[simp] theorem bump_nil (amounts : List Int) : bump [] amounts = amounts := rfl

@[simp] theorem bump_cons (i : Nat) (indices : List Nat) (amounts : List Int) :
    bump (i :: indices) amounts = bump indices (amounts.modify i (· + 1)) := rfl

@[simp] theorem length_bump (indices : List Nat) (amounts : List Int) :
    (bump indices amounts).length = amounts.length := by
  induction indices generalizing amounts with
  | nil => rfl
  | cons i indices ih => rw [bump_cons, ih, List.length_modify]

/-- An amount grows by the number of times its index is listed. -/
theorem getElem?_bump (indices : List Nat) (amounts : List Int) (i : Nat) :
    (bump indices amounts)[i]? = amounts[i]?.map (· + (indices.count i : Int)) := by
  induction indices generalizing amounts with
  | nil => simp
  | cons j indices ih =>
    rw [bump_cons, ih, List.getElem?_modify, List.count_cons]
    by_cases h : j = i
    · subst h
      simp only [if_true, beq_self_eq_true, Option.map_eq_map, Option.map_map]
      congr 1
      funext a
      simp only [Function.comp_apply]
      push_cast
      ring
    · simp [h]

theorem sum_modify_succ {i : Nat} (h : i < amounts.length) :
    (amounts.modify i (· + 1)).sum = amounts.sum + 1 := by
  induction amounts generalizing i with
  | nil => cases h
  | cons a amounts ih =>
    cases i with
    | zero =>
      rw [List.modify_zero_cons, List.sum_cons, List.sum_cons]
      ring
    | succ i =>
      rw [List.modify_succ_cons, List.sum_cons, List.sum_cons, ih (by simpa using h)]
      ring

/-- Every listed index adds one unit to the sum. -/
theorem sum_bump (h : ∀ i ∈ indices, i < amounts.length) :
    (bump indices amounts).sum = amounts.sum + indices.length := by
  induction indices generalizing amounts with
  | nil => simp
  | cons i indices ih =>
    have hTail : ∀ j ∈ indices, j < (amounts.modify i (· + 1)).length := fun j hj => by
      rw [List.length_modify]
      exact h j (List.mem_cons_of_mem _ hj)
    rw [bump_cons, ih hTail, sum_modify_succ (h i List.mem_cons_self), List.length_cons]
    push_cast
    ring

/-- Distinct indices raise an amount by one unit at most. -/
theorem bump_eq_or (h : indices.Nodup) {i : Nat} {a : Int} (ha : amounts[i]? = some a) :
    (bump indices amounts)[i]? = some a ∨ (bump indices amounts)[i]? = some (a + 1) := by
  have hCount : indices.count i ≤ 1 := List.nodup_iff_count_le_one.mp h i
  rw [getElem?_bump, ha, Option.map_some]
  rcases Nat.le_one_iff_eq_zero_or_eq_one.mp hCount with hZero | hOne
  · exact Or.inl (by simp [hZero])
  · exact Or.inr (by simp [hOne])

end Apportion
