import Bloodhound.Lib.Journal

/-!
# Observing part of a state

An observation is a reading of the state together with the statements that can change it:
the visible ones. Two operations are alike under an observation when, run without faults
from states that look the same, they return the same result and execute the same visible
statements; the states they leave then look the same. What an operation reads and writes
outside the observation plays no role.
-/

namespace Journal

variable {ι σ μ ε α β γ δ : Type} [Statement ι σ]

/-- The reading `f` changes with visible statements only, and they change it by what it shows. -/
structure Observes (vis : ι → Bool) (f : σ → δ) : Prop where
  congr : ∀ (i : ι) (s s' : σ), f s = f s' → f (exec i s) = f (exec i s')
  hidden : ∀ (i : ι) (s : σ), vis i = false → f (exec i s) = f s

section Observes

variable {vis : ι → Bool} {f : σ → δ}

theorem Observes.replay_filter (h : Observes vis f) (l : List ι) (s : σ) :
    f (replay (l.filter vis) s) = f (replay l s) := by
  have hCongr : ∀ (l : List ι) (s s' : σ), f s = f s' → f (replay l s) = f (replay l s') := by
    intro l
    induction l with
    | nil => exact fun s s' hs => hs
    | cons i l ih => exact fun s s' hs => ih _ _ (h.congr i s s' hs)
  induction l generalizing s with
  | nil => rfl
  | cons i l ih =>
    rw [List.filter_cons]
    split
    · exact ih _
    · next hi =>
      have hSame : f (exec i s) = f s := h.hidden i s (by simpa using hi)
      rw [replay_cons, ih, hCongr l _ _ hSame]

/-- Logs with the same visible statements keep states alike. -/
theorem Observes.replay (h : Observes vis f) {s s' : σ} (hs : f s = f s') {l l' : List ι}
    (hl : l.filter vis = l'.filter vis) : f (Journal.replay l s) = f (Journal.replay l' s') := by
  rw [← h.replay_filter l, ← h.replay_filter l', hl]
  induction l'.filter vis generalizing s s' with
  | nil => exact hs
  | cons i l ih => exact ih (h.congr i s s' hs)

end Observes

namespace Op

/-- From states that look the same, runs without faults return the same result and execute the
same visible statements. -/
def Alike (vis : ι → Bool) (f : σ → δ) (p q : Op ι σ μ ε α) : Prop :=
  ∀ s s' m m', f s = f s' → ∃ a l l' n n',
    p.Runs s m a l n ∧ q.Runs s' m' a l' n' ∧ l.filter vis = l'.filter vis

variable {vis : ι → Bool} {f : σ → δ}

theorem alike_pure (a : α) : Alike vis f (Pure.pure a : Op ι σ μ ε α) (Pure.pure a) :=
  fun s s' m m' _ => ⟨a, [], [], m, m', runs_pure a s m, runs_pure a s' m', rfl⟩

omit [Statement ι σ] in
theorem alike_step (group : List ι) {read read' : σ → α}
    (h : ∀ s s', f s = f s' → read s = read' s') :
    Alike vis f (step group read : Op ι σ μ ε α) (step group read') := by
  intro s s' m m' hs
  have hRead := h s s' hs
  refine ⟨_, group, group, m, m', runs_step group read s m, ?_, rfl⟩
  rw [hRead]
  exact runs_step group read' s' m'

omit [Statement ι σ] in
theorem alike_query {read read' : σ → α} (h : ∀ s s', f s = f s' → read s = read' s') :
    Alike vis f (query read : Op ι σ μ ε α) (query read') :=
  alike_step [] h

omit [Statement ι σ] in
theorem alike_run (i : ι) : Alike vis f (run i : Op ι σ μ ε Unit) (run i) :=
  alike_step [i] fun _ _ _ => rfl

omit [Statement ι σ] in
/-- Operations without visible statements and without a result. -/
theorem alike_hidden {p q : Op ι σ μ ε Unit} (hp : p.Completes) (hq : q.Completes)
    (ep : p.Emits fun i => vis i = false) (eq : q.Emits fun i => vis i = false) :
    Alike vis f p q := by
  have hNone : ∀ {r : Op ι σ μ ε Unit}, (r.Emits fun i => vis i = false) → ∀ {s m a l n},
      r.Runs s m a l n → l.filter vis = [] := by
    intro r er s m a l n hr
    refine List.filter_eq_nil_iff.mpr fun i hi => ?_
    have hEmits := er s ⟨m, []⟩ i
    rw [hr] at hEmits
    simp [hEmits hi]
  intro s s' m m' _
  obtain ⟨_, l, n, hl⟩ := hp s m
  obtain ⟨_, l', n', hl'⟩ := hq s' m'
  exact ⟨(), l, l', n, n', hl, hl', (hNone ep hl).trans (hNone eq hl').symm⟩

theorem Alike.bind (h : Observes vis f) {p q : Op ι σ μ ε α} {g g' : α → Op ι σ μ ε β}
    (hp : Alike vis f p q) (hg : ∀ a, Alike vis f (g a) (g' a)) :
    Alike vis f (p >>= g) (q >>= g') := by
  intro s s' m m' hs
  obtain ⟨a, l, l', n, n', hl, hl', hEq⟩ := hp s s' m m' hs
  obtain ⟨b, k, k', o, o', hk, hk', hEq'⟩ :=
    hg a (replay l s) (replay l' s') n n' (h.replay hs hEq)
  refine ⟨b, l ++ k, l' ++ k', o, o', hl.bind hk, hl'.bind hk', ?_⟩
  rw [List.filter_append, List.filter_append, hEq, hEq']

theorem alike_when {cond : Prop} [Decidable cond] {p q : Op ι σ μ ε Unit}
    (hp : cond → Alike vis f p q) : Alike vis f (when cond p) (when cond q) := by
  unfold when
  split
  · next hc => exact hp hc
  · exact alike_pure ()

theorem alike_forEach (h : Observes vis f) {as : List α} {body body' : α → Op ι σ μ ε Unit}
    (hb : ∀ a ∈ as, Alike vis f (body a) (body' a)) :
    Alike vis f (forEach as body) (forEach as body') := by
  induction as with
  | nil => exact alike_pure ()
  | cons a as ih =>
    exact (hb a List.mem_cons_self).bind h fun _ =>
      ih fun b hb' => hb b (List.mem_cons_of_mem _ hb')

theorem Alike.tryCatch {p q : Op ι σ μ ε α} (hp : Alike vis f p q)
    (handler handler' : ε → Op ι σ μ ε α) :
    Alike vis f (p.tryCatch handler) (q.tryCatch handler') := by
  intro s s' m m' hs
  obtain ⟨a, l, l', n, n', hl, hl', hEq⟩ := hp s s' m m' hs
  exact ⟨a, l, l', n, n', hl.tryCatch, hl'.tryCatch, hEq⟩

omit [Statement ι σ] in
/-- An operation that is like itself always runs to its end. -/
theorem Alike.completes {p : Op ι σ μ ε α} (h : Alike vis f p p) : p.Completes := by
  intro s m
  obtain ⟨a, l, _, n, _, hl, _, _⟩ := h s s m m rfl
  exact ⟨a, l, n, hl⟩

/-- Alike operations leave states that look the same. -/
theorem Alike.final (h : Observes vis f) {p q : Op ι σ μ ε α} (hp : Alike vis f p q) {s s' : σ}
    (hs : f s = f s') (m m' : μ) : f (p.final s ⟨m, []⟩) = f (q.final s' ⟨m', []⟩) := by
  obtain ⟨a, l, l', n, n', hl, hl', hEq⟩ := hp s s' m m' hs
  rw [hl.final, hl'.final]
  exact h.replay hs hEq

/-- A read may be replaced by another that the rest of the operation cannot tell from it. -/
theorem query_bind_congr {read : σ → α} {read' : σ → β} {k : α → Op ι σ μ ε γ}
    {k' : β → Op ι σ μ ε γ} (h : ∀ s, k (read s) = k' (read' s)) :
    (query read >>= k) = (query read' >>= k') := by
  funext s c
  show Op.bind (query read) k s c = Op.bind (query read') k' s c
  unfold Op.bind query step
  obtain ⟨fault, c'⟩ := tick c
  cases fault with
  | none => simp only [h]
  | some e => rfl

end Op

end Journal
