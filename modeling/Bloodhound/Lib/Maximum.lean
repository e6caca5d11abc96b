import Mathlib.Order.Bounds.Basic
import Mathlib.Logic.Function.Basic

/-!
# Maxima of keyed values

The largest of the values stored under a family of keys, as an optional value: there is none
exactly where no key of the family holds a value. The lemmas say what a change of one value
makes of it. A value that grows is a new candidate; a value that shrinks matters only where
it was the largest, and then the maximum has to be computed again.
-/

namespace Maximum

variable {κ α : Type} [DecidableEq κ] [LinearOrder α]

/-- The values under the keys of a family. -/
def values (p : κ → Prop) (f : κ → Option α) : Set α := {a | ∃ k, p k ∧ f k = some a}

/-- `o` is the largest of the values under the keys of the family. -/
def IsMax (p : κ → Prop) (f : κ → Option α) (o : Option α) : Prop :=
  (∀ a, o = some a → IsGreatest (values p f) a) ∧ (o = none → values p f = ∅)

variable {p : κ → Prop} {f g : κ → Option α} {o : Option α} {k : κ} {a b : α}

omit [DecidableEq κ] in
theorem IsMax.le (h : IsMax p f (some a)) (hk : p k) (hf : f k = some b) : b ≤ a :=
  (h.1 a rfl).2 ⟨k, hk, hf⟩

omit [DecidableEq κ] in
theorem IsMax.exists_of_mem (h : IsMax p f o) (hk : p k) (hf : f k = some b) : ∃ m, o = some m := by
  cases o with
  | some m => exact ⟨m, rfl⟩
  | none =>
    have hMem : b ∈ values p f := ⟨k, hk, hf⟩
    rw [h.2 rfl] at hMem
    exact hMem.elim

omit [DecidableEq κ] in
theorem IsMax.congr (h : IsMax p f o) (hfg : ∀ k, p k → f k = g k) : IsMax p g o := by
  have hValues : values p f = values p g := by
    ext b
    constructor
    · rintro ⟨k, hk, hb⟩
      exact ⟨k, hk, (hfg k hk).symm.trans hb⟩
    · rintro ⟨k, hk, hb⟩
      exact ⟨k, hk, (hfg k hk).trans hb⟩
  unfold IsMax at *
  rwa [← hValues]

/-- A value outside the family does not matter. -/
theorem IsMax.update_of_not (h : IsMax p f o) (hk : ¬ p k) (v : Option α) :
    IsMax p (Function.update f k v) o := by
  refine h.congr fun j hj => ?_
  have hNe : j ≠ k := fun hEq => hk (hEq ▸ hj)
  rw [Function.update_of_ne hNe]

/-- A value that does not shrink is a new candidate. -/
theorem IsMax.raise (h : IsMax p f o) (hk : p k) (hOld : ∀ b, f k = some b → b ≤ a) :
    IsMax p (Function.update f k (some a)) (some (o.elim a (max · a))) := by
  refine ⟨fun m hm => ?_, fun hNone => by cases hNone⟩
  rw [← Option.some.inj hm]
  have hNew : a ∈ values p (Function.update f k (some a)) := ⟨k, hk, Function.update_self ..⟩
  have hUpper : ∀ c ∈ values p (Function.update f k (some a)), c ≤ o.elim a (max · a) := by
    rintro c ⟨j, hj, hc⟩
    by_cases hEq : j = k
    · subst hEq
      rw [Function.update_self] at hc
      cases hc
      cases o with
      | none => exact le_rfl
      | some m => exact le_max_right _ _
    · rw [Function.update_of_ne hEq] at hc
      obtain ⟨m, rfl⟩ := h.exists_of_mem hj hc
      exact (h.le hj hc).trans (le_max_left _ _)
  refine ⟨?_, hUpper⟩
  cases o with
  | none => exact hNew
  | some m =>
    rcases le_total a m with hle | hle
    · show max m a ∈ _
      rw [max_eq_left hle]
      obtain ⟨j, hj, hm⟩ := (h.1 m rfl).1
      by_cases hEq : j = k
      · subst hEq
        rw [le_antisymm (hOld m hm) hle]
        exact hNew
      · exact ⟨j, hj, by rwa [Function.update_of_ne hEq]⟩
    · show max m a ∈ _
      rw [max_eq_right hle]
      exact hNew

/-- A value that was not the largest may shrink. -/
theorem IsMax.lower (h : IsMax p f (some b)) (hOld : ∀ c, f k = some c → c < b) (ha : a ≤ b) :
    IsMax p (Function.update f k (some a)) (some b) := by
  refine ⟨fun m hm => ?_, fun hNone => by cases hNone⟩
  rw [← Option.some.inj hm]
  constructor
  · obtain ⟨j, hj, hb⟩ := (h.1 b rfl).1
    have hNe : j ≠ k := fun hEq => (hOld b (hEq ▸ hb)).false
    exact ⟨j, hj, by rwa [Function.update_of_ne hNe]⟩
  · rintro c ⟨j, hj, hc⟩
    by_cases hEq : j = k
    · subst hEq
      rw [Function.update_self] at hc
      cases hc
      exact ha
    · rw [Function.update_of_ne hEq] at hc
      exact h.le hj hc

omit [DecidableEq κ] in
theorem IsMax.unique {o' : Option α} (h : IsMax p f o) (h' : IsMax p f o') : o = o' := by
  cases o with
  | none =>
    cases o' with
    | none => rfl
    | some m =>
      have hMem := (h'.1 m rfl).1
      rw [h.2 rfl] at hMem
      exact hMem.elim
  | some m =>
    cases o' with
    | none =>
      have hMem := (h.1 m rfl).1
      rw [h'.2 rfl] at hMem
      exact hMem.elim
    | some m' => rw [(h.1 m rfl).unique (h'.1 m' rfl)]

end Maximum
