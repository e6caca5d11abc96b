import Mathlib.Logic.Relation

/-!
# Machines with guarded events

A machine performs events, some of which it cannot perform in some states; a run performs events that a
guard admits. What every admitted event preserves holds after a run.
-/

namespace Machine

variable {ε σ : Type} {perform : ε → σ → Option σ} {guard : ε → σ → Prop}

/-- An admitted event that is performed. -/
def Step (perform : ε → σ → Option σ) (guard : ε → σ → Prop) (s s' : σ) : Prop :=
  ∃ e, guard e s ∧ perform e s = some s'

abbrev Run (perform : ε → σ → Option σ) (guard : ε → σ → Prop) : σ → σ → Prop :=
  Relation.ReflTransGen (Step perform guard)

theorem Run.invariant {I : σ → Prop} {s s' : σ} (h : Run perform guard s s')
    (hStep : ∀ e t t', guard e t → perform e t = some t' → I t → I t') (hI : I s) : I s' := by
  induction h with
  | refl => exact hI
  | tail _ step ih =>
    obtain ⟨e, hGuard, hPerform⟩ := step
    exact hStep e _ _ hGuard hPerform ih

/-- Perform events in order, where a check admits each. -/
def replay (perform : ε → σ → Option σ) (check : ε → σ → Bool) : List ε → σ → Option σ
  | [], s => some s
  | e :: events, s => if check e s then perform e s >>= replay perform check events else none

theorem run_of_replay {check : ε → σ → Bool} (hCheck : ∀ e s, check e s = true → guard e s)
    {events : List ε} {s s' : σ} (h : replay perform check events s = some s') :
    Run perform guard s s' := by
  induction events generalizing s with
  | nil =>
    cases h
    exact .refl
  | cons e events ih =>
    unfold replay at h
    split at h
    · next hOk =>
      obtain ⟨t, hPerform, hRest⟩ := Option.bind_eq_some_iff.mp h
      exact .head ⟨e, hCheck e s hOk, hPerform⟩ (ih hRest)
    · cases h

end Machine
