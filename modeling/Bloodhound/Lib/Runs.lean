import Mathlib.Logic.Relation
import Bloodhound.Lib.Journal

/-!
# Runs of operations

A step applies one of a family of operations in some memory and with some faults, where a
guard admits it, and the operation returns; a run is any number of steps. What every
admitted step preserves holds after a run. An attempt may also throw, and ends with what it has
executed by then. A cut run has a condition on every single statement, and may end in the middle of an
operation.
-/

namespace Journal

variable {ι σ μ ε α β : Type} [Statement ι σ]

/-- An admitted operation that returns. -/
def OpStep (op : α → Op ι σ μ ε Unit) (guard : α → σ → Ctl μ ε → Prop) (s s' : σ) : Prop :=
  ∃ (a : α) (c : Ctl μ ε), guard a s c ∧ (op a s c).res = .ok () ∧ s' = (op a).final s c

abbrev OpRun (op : α → Op ι σ μ ε Unit) (guard : α → σ → Ctl μ ε → Prop) : σ → σ → Prop :=
  Relation.ReflTransGen (OpStep op guard)

/-- What every admitted operation preserves holds after a run. -/
theorem opRun_invariant {op : α → Op ι σ μ ε Unit} {guard : α → σ → Ctl μ ε → Prop} {I : σ → Prop}
    (hStep : ∀ a s c, guard a s c → (op a s c).res = .ok () → I s → I ((op a).final s c)) {s s' : σ}
    (h : OpRun op guard s s') (hI : I s) : I s' := by
  induction h with
  | refl => exact hI
  | tail _ step ih =>
    obtain ⟨a, c, hGuard, hOk, rfl⟩ := step
    exact hStep a _ c hGuard hOk ih

/-- An admitted operation that returns or throws. -/
def Attempt (op : α → Op ι σ μ ε Unit) (guard : α → σ → Prop) (s s' : σ) : Prop :=
  ∃ (a : α) (c : Ctl μ ε), guard a s ∧ s' = (op a).final s c

abbrev Attempts (op : α → Op ι σ μ ε Unit) (guard : α → σ → Prop) : σ → σ → Prop :=
  Relation.ReflTransGen (Attempt op guard)

/-- What every admitted operation preserves, wherever it stops, holds after any number of attempts. -/
theorem attempts_invariant {op : α → Op ι σ μ ε Unit} {guard : α → σ → Prop} {I : σ → Prop}
    (hStep : ∀ a s c, guard a s → I s → I ((op a).final s c)) {s s' : σ}
    (h : Attempts op guard s s') (hI : I s) : I s' := by
  induction h with
  | refl => exact hI
  | tail _ step ih =>
    obtain ⟨a, c, hGuard, rfl⟩ := step
    exact hStep a _ c hGuard ih

/-! ## Lists of statements that may be cut off -/

section Throughout
variable {κ τ : Type} [Statement κ τ] {I : τ → Prop} {l l' : List κ} {t : τ}

/-- The property holds after every initial part of the list. -/
def Throughout (I : τ → Prop) (l : List κ) (t : τ) : Prop := ∀ q, q <+: l → I (replay q t)

theorem Throughout.append (h : Throughout I l t) (h' : Throughout I l' (replay l t)) :
    Throughout I (l ++ l') t := by
  intro q hq
  rcases List.prefix_or_prefix_of_prefix hq (List.prefix_append l l') with hFirst | ⟨rest, rfl⟩
  · exact h q hFirst
  · rw [replay_append]
    exact h' rest ((List.prefix_append_right_inj l).mp hq)

theorem throughout_of_inv (hStep : ∀ i ∈ l, ∀ t, I t → I (exec i t)) (hI : I t) : Throughout I l t :=
  fun _ hq => replay_inv (fun i hi => hStep i (hq.subset hi)) hI

theorem Throughout.last (h : Throughout I l t) : I (replay l t) := h l List.prefix_rfl

/-- What holds throughout the list holds where a run ends, whether it returns or throws. -/
theorem final_of_throughout {π : ι → Option κ} {p : Op ι σ μ ε α} {s : σ} (h : p.WritesAt π s l) {f : σ → τ}
    (hTracks : Tracks π (exec : κ → τ → τ) f) (hI : Throughout I l (f s)) (c : Ctl μ ε) :
    I (f (p.final s c)) := by
  unfold Op.final
  rw [hTracks.replay]
  exact hI _ (h c).1

end Throughout

/-! ## Runs that may be cut off -/

/-- A run starts with the statements of its first operation. -/
theorem prefix_log_bind (p : Op ι σ μ ε α) (f : α → Op ι σ μ ε β) (s : σ) (c : Ctl μ ε) :
    (p s c).log <+: ((p >>= f) s c).log := by
  cases h : (p s c).res with
  | ok a =>
    rw [Op.bind_of_ok h]
    exact List.prefix_append _ _
  | error e =>
    rw [Op.bind_of_error h]

/-- Every statement of the log meets the condition in the state in which it is executed. -/
def Meets (C : σ → ι → Prop) : List ι → σ → Prop
  | [], _ => True
  | i :: log, s => C s i ∧ Meets C log (exec i s)

instance Meets.decidable {C : σ → ι → Prop} [∀ s i, Decidable (C s i)] :
    (log : List ι) → (s : σ) → Decidable (Meets C log s)
  | [], _ => inferInstanceAs (Decidable True)
  | i :: log, s => @instDecidableAnd _ _ inferInstance (Meets.decidable log (exec i s))

theorem Meets.invariant {C : σ → ι → Prop} {S : ι → Prop} {I : σ → Prop}
    (hStep : ∀ i s, S i → C s i → I s → I (exec i s)) {log : List ι} (hLog : ∀ i ∈ log, S i) {s : σ}
    (h : Meets C log s) (hI : I s) : I (replay log s) := by
  induction log generalizing s with
  | nil => exact hI
  | cons i log ih =>
    exact ih (fun j hj => hLog j (List.mem_cons_of_mem _ hj)) h.2
      (hStep i s (hLog i List.mem_cons_self) h.1 hI)

/-- The first statements of a run of an operation, up to any of them. -/
def CutStep (op : α → Op ι σ μ ε Unit) (C : σ → ι → Prop) (s s' : σ) : Prop :=
  ∃ (a : α) (c : Ctl μ ε) (log : List ι), log <+: (op a s c).log ∧ Meets C log s ∧ s' = replay log s

abbrev CutRun (op : α → Op ι σ μ ε Unit) (C : σ → ι → Prop) : σ → σ → Prop :=
  Relation.ReflTransGen (CutStep op C)

/-- What every statement that meets the condition preserves holds in every state of a run, also in the
course of an operation and where operations are cut off. -/
theorem cutRun_invariant {op : α → Op ι σ μ ε Unit} {C : σ → ι → Prop} {S : ι → Prop} {I : σ → Prop}
    (hEmits : ∀ a, (op a).Emits S) (hStep : ∀ i s, S i → C s i → I s → I (exec i s)) {s s' : σ}
    (h : CutRun op C s s') (hI : I s) : I s' := by
  induction h with
  | refl => exact hI
  | tail _ step ih =>
    obtain ⟨a, c, log, hPrefix, hMeets, rfl⟩ := step
    exact hMeets.invariant hStep (fun i hi => hEmits a _ c i (hPrefix.subset hi)) ih

/-- A whole run of an operation. -/
theorem cutStep_final {op : α → Op ι σ μ ε Unit} {C : σ → ι → Prop} (a : α) {s : σ} {c : Ctl μ ε}
    (h : Meets C (op a s c).log s) : CutStep op C s ((op a).final s c) :=
  ⟨a, c, _, List.prefix_rfl, h, rfl⟩

end Journal
