import Mathlib.Data.List.Range

/-!
# Loops over a wrapping counter

`upTo` is the loop `for (i = first; i <= last; i++)` whose counter is taken modulo `m`; the body may fail to end.
It goes through the values from the first to the last one, unless the last one is the largest value of the
counter: then the loop does not end (`upTo_eq`, `upTo_endless`).
-/

namespace CountedLoop

variable {σ : Type}

/-- Nothing where the steps do not suffice. -/
def upTo (m : Nat) (body : Nat → σ → Option σ) (last : Nat) : Nat → Nat → σ → Option σ
  | 0, _, _ => none
  | steps + 1, i, s => if i ≤ last then (body i s).bind (upTo m body last steps ((i + 1) % m)) else some s

/-- The values from the first to the last one. -/
def values (first last : Nat) : List Nat := List.range' first (last + 1 - first)

theorem mem_values {first last i : Nat} : i ∈ values first last ↔ first ≤ i ∧ i ≤ last := by
  unfold values
  rw [List.mem_range'_1]
  omega

theorem nodup_values (first last : Nat) : (values first last).Nodup := List.nodup_range'

theorem values_eq_nil {first last : Nat} (h : last < first) : values first last = [] := by
  unfold values
  rw [Nat.sub_eq_zero_of_le h, List.range'_zero]

variable {m last : Nat} {body : Nat → σ → Option σ}

/-- A loop that ends before the counter wraps around goes through its values. -/
theorem upTo_eq (hLast : last + 1 < m) {steps first : Nat} (hFirst : first < m) (hSteps : last + 1 - first < steps)
    (s : σ) : upTo m body last steps first s = (values first last).foldlM (fun s i => body i s) s := by
  induction steps generalizing first s with
  | zero => omega
  | succ steps ih =>
    rw [upTo]
    split
    · next hLe =>
      have hValues : values first last = first :: values (first + 1) last := by
        unfold values
        rw [show last + 1 - first = last + 1 - (first + 1) + 1 by omega, List.range'_succ]
      rw [hValues, List.foldlM_cons, Nat.mod_eq_of_lt (show first + 1 < m by omega)]
      exact congrArg (body first s).bind (funext fun t => ih (by omega) (by omega) t)
    · next hMore =>
      rw [values_eq_nil (Nat.lt_of_not_le hMore)]
      rfl

/-- No value of the counter is behind the largest one. -/
theorem upTo_endless (hLast : m ≤ last + 1) (hm : 0 < m) {steps first : Nat} (hFirst : first < m) (s : σ) :
    upTo m body last steps first s = none := by
  induction steps generalizing first s with
  | zero => rfl
  | succ steps ih =>
    rw [upTo, if_pos (by omega)]
    cases body first s with
    | none => rfl
    | some t => exact ih (Nat.mod_lt _ hm) t

/-- A loop in which the first round does not end does not end. -/
theorem upTo_none {steps first : Nat} {s : σ} (hFirst : first ≤ last) (h : body first s = none) :
    upTo m body last steps first s = none := by
  cases steps with
  | zero => rfl
  | succ steps => rw [upTo, if_pos hFirst, h, Option.bind_none]

/-- A body that adds to a list adds for each value of the loop. -/
theorem foldlM_append {α β : Type} {body : β → List α → Option (List α)} {f : β → List α} {l : List β}
    (h : ∀ i ∈ l, ∀ s, body i s = some (s ++ f i)) (s : List α) :
    l.foldlM (fun s i => body i s) s = some (s ++ l.flatMap f) := by
  induction l generalizing s with
  | nil => simp
  | cons i l ih =>
    rw [List.foldlM_cons, h i List.mem_cons_self, List.flatMap_cons, ← List.append_assoc]
    exact ih (fun j hj => h j (List.mem_cons_of_mem _ hj)) _

end CountedLoop
