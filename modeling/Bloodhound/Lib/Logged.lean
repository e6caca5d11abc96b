import Bloodhound.Lib.Journal

/-!
# Conditions of logs

A condition of a log and of the state in which the log starts composes where it holds of the empty log, and of two
logs one after the other when it holds of both. Whether all runs of an operation keep such a condition follows from
its parts.
-/

namespace Journal

variable {ι σ μ ε α β : Type} [Statement ι σ]

structure Composes (φ : σ → List ι → Prop) : Prop where
  nil : ∀ s, φ s []
  append : ∀ s l l', φ s l → φ (replay l s) l' → φ s (l ++ l')

theorem Composes.forall_mem {φ : σ → List ι → Prop} (hφ : Composes φ) {l : List ι}
    (h : ∀ i ∈ l, ∀ s, φ s [i]) (s : σ) : φ s l := by
  induction l generalizing s with
  | nil => exact hφ.nil s
  | cons i l ih =>
    exact hφ.append s [i] l (h i List.mem_cons_self s) (ih (fun j hj => h j (List.mem_cons_of_mem _ hj)) _)

/-- The log of every run satisfies the condition. -/
def Op.Logs (φ : σ → List ι → Prop) (p : Op ι σ μ ε α) : Prop := ∀ s c, φ s (p s c).log

section Rules

open Op

variable {φ : σ → List ι → Prop} (hφ : Composes φ)

include hφ

theorem Composes.logs_of_emits {P : ι → Prop} {p : Op ι σ μ ε α} (h : p.Emits P)
    (hP : ∀ i, P i → ∀ s, φ s [i]) : p.Logs φ :=
  fun s c => hφ.forall_mem (fun i hi => hP i (h s c i hi)) s

theorem Composes.logs_pure (a : α) : (Pure.pure a : Op ι σ μ ε α).Logs φ := fun s _ => hφ.nil s

theorem Composes.logs_throw (e : ε) : (Op.throw e : Op ι σ μ ε α).Logs φ := fun s _ => hφ.nil s

/-- The second operation is known to follow a run of the first one. -/
theorem Composes.logs_bind_of {p : Op ι σ μ ε α} {f : α → Op ι σ μ ε β} (hp : p.Logs φ)
    (hf : ∀ s c a, (p s c).res = .ok a → φ (p.final s c) (f a (p.final s c) (p s c).ctl).log) :
    (p >>= f).Logs φ := by
  intro s c
  cases hRes : (p s c).res with
  | error e =>
    rw [bind_of_error hRes]
    exact hp s c
  | ok a =>
    rw [bind_of_ok hRes]
    exact hφ.append s _ _ (hp s c) (hf s c a hRes)

theorem Composes.logs_bind {p : Op ι σ μ ε α} {f : α → Op ι σ μ ε β} (hp : p.Logs φ)
    (hf : ∀ a, (f a).Logs φ) : (p >>= f).Logs φ :=
  hφ.logs_bind_of hp fun _ _ a _ => hf a _ _

theorem Composes.logs_tryCatch {p : Op ι σ μ ε α} {handler : ε → Op ι σ μ ε α} (hp : p.Logs φ)
    (hh : ∀ e, (handler e).Logs φ) : (p.tryCatch handler).Logs φ := by
  intro s c
  unfold Op.tryCatch
  split
  · exact hp s c
  · exact hφ.append s _ _ (hp s c) (hh _ _ _)

theorem Composes.logs_when {cond : Prop} [Decidable cond] {p : Op ι σ μ ε Unit} (h : cond → p.Logs φ) :
    (when cond p).Logs φ := by
  unfold when
  split
  · next hCond => exact h hCond
  · exact hφ.logs_pure ()

theorem Composes.logs_forEach {as : List α} {body : α → Op ι σ μ ε Unit} (h : ∀ a ∈ as, (body a).Logs φ) :
    (forEach as body).Logs φ := by
  induction as with
  | nil => exact hφ.logs_pure ()
  | cons a as ih =>
    exact hφ.logs_bind (h a List.mem_cons_self) fun _ => ih fun b hb => h b (List.mem_cons_of_mem _ hb)

end Rules

end Journal
