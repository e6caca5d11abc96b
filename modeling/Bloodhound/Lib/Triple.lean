import Bloodhound.Lib.Journal

/-!
# Triples

A triple gives the state before a run of an operation, and what is known of its result and
of the state after it: one condition for a run that returns, one for a run that throws. The
rules follow the syntax of operations. Nothing is said about the memory or the faults, so a
triple holds for every clock, budget and sequence of faults. `Total` is the same for runs
without faults, which it says to return.
-/

namespace Journal

variable {ι σ μ ε α β : Type} [Statement ι σ]

namespace Op

/-- The run from the state, in this memory and with these faults, ends so: with `Q a` where it returns
`a`, with `E e` where it throws `e`. -/
def Ends (p : Op ι σ μ ε α) (s : σ) (c : Ctl μ ε) (Q : α → σ → Prop) (E : ε → σ → Prop) : Prop :=
  (∀ a, (p s c).res = .ok a → Q a (p.final s c)) ∧ ∀ e, (p s c).res = .error e → E e (p.final s c)

/-- From a state with `P`, a run that returns `a` ends in a state with `Q a`, and a run that throws
`e` in one with `E e`. -/
def Triple (P : σ → Prop) (p : Op ι σ μ ε α) (Q : α → σ → Prop) (E : ε → σ → Prop) : Prop :=
  ∀ s c, P s → (∀ a, (p s c).res = .ok a → Q a (p.final s c)) ∧
    ∀ e, (p s c).res = .error e → E e (p.final s c)

variable {P P' : σ → Prop} {Q Q' : α → σ → Prop} {R : β → σ → Prop} {E E' : ε → σ → Prop}
  {p : Op ι σ μ ε α}

theorem Triple.ok (h : Triple P p Q E) {s : σ} {c : Ctl μ ε} (hs : P s) {a : α}
    (ha : (p s c).res = .ok a) : Q a (p.final s c) := (h s c hs).1 a ha

theorem Triple.error (h : Triple P p Q E) {s : σ} {c : Ctl μ ε} (hs : P s) {e : ε}
    (he : (p s c).res = .error e) : E e (p.final s c) := (h s c hs).2 e he

theorem Triple.ends (h : Triple P p Q E) {s : σ} {c : Ctl μ ε} (hs : P s) : p.Ends s c Q E := h s c hs

theorem Triple.conseq (h : Triple P p Q E) (hP : ∀ s, P' s → P s) (hQ : ∀ a s, Q a s → Q' a s)
    (hE : ∀ e s, E e s → E' e s) : Triple P' p Q' E' := fun s _ hs =>
  ⟨fun a ha => hQ a _ (h.ok (hP s hs) ha), fun e he => hE e _ (h.error (hP s hs) he)⟩

theorem Triple.pre (h : Triple P p Q E) (hP : ∀ s, P' s → P s) : Triple P' p Q E :=
  h.conseq hP (fun _ _ hq => hq) fun _ _ he => he

theorem Triple.post (h : Triple P p Q E) (hQ : ∀ a s, Q a s → Q' a s) : Triple P p Q' E :=
  h.conseq (fun _ hp => hp) hQ fun _ _ he => he

theorem Triple.and (h : Triple P p Q E) (h' : Triple P' p Q' E') :
    Triple (fun s => P s ∧ P' s) p (fun a s => Q a s ∧ Q' a s) fun e s => E e s ∧ E' e s :=
  fun _ _ hs => ⟨fun _ ha => ⟨h.ok hs.1 ha, h'.ok hs.2 ha⟩,
    fun _ he => ⟨h.error hs.1 he, h'.error hs.2 he⟩⟩

/-- A triple for each state on its own. -/
theorem triple_of_state (h : ∀ s, P s → Triple (fun s' => s' = s) p Q E) : Triple P p Q E :=
  fun s c hs => h s hs s c rfl

theorem triple_bounded {f : σ → Op ι σ μ ε α} (h : ∀ s, P s → Triple (fun s' => s' = s) (f s) Q E) :
    Triple P (bounded f) Q E := fun s c hs => h s hs s c rfl

/-- A fact that does not speak of the state. -/
theorem triple_of_fact {φ : Prop} (h : φ → Triple P p Q E) : Triple (fun s => P s ∧ φ) p Q E :=
  fun s c hs => h hs.2 s c hs.1

theorem triple_pure (a : α) (h : ∀ s, P s → Q a s) :
    Triple P (Pure.pure a : Op ι σ μ ε α) Q E := by
  intro s c hs
  constructor
  · intro b hb
    cases hb
    exact h s hs
  · intro e he
    cases he

theorem triple_throw (e : ε) (h : ∀ s, P s → E e s) :
    Triple P (Op.throw e : Op ι σ μ ε α) Q E := by
  intro s c hs
  constructor
  · intro a ha
    cases ha
  · intro e' he
    cases he
    exact h s hs

/-- The state after a run, however it ends. -/
theorem Ends.final {s : σ} {c : Ctl μ ε} (h : p.Ends s c (fun _ => P) fun _ => P) : P (p.final s c) := by
  cases hRes : (p s c).res with
  | ok a => exact h.1 a hRes
  | error e => exact h.2 e hRes

/-- The second operation is known to follow this run of the first one. -/
theorem Ends.bind {f : α → Op ι σ μ ε β} {s : σ} {c : Ctl μ ε} (hp : p.Ends s c Q E)
    (hf : ∀ a, (p s c).res = .ok a → Q a (p.final s c) → (f a).Ends (p.final s c) (p s c).ctl R E) :
    (p >>= f).Ends s c R E := by
  cases hRes : (p s c).res with
  | error e =>
    have hErr := hp.2 e hRes
    unfold Ends
    unfold Op.final at hErr ⊢
    rw [bind_of_error hRes]
    constructor
    · intro b hb
      cases hb
    · intro e' he
      cases he
      exact hErr
  | ok a =>
    have hRest := hf a hRes (hp.1 a hRes)
    unfold Ends Op.final at hRest
    unfold Ends Op.final
    rw [bind_of_ok hRes]
    dsimp only at hRest ⊢
    rw [replay_append]
    exact hRest

theorem Triple.bind {f : α → Op ι σ μ ε β} (hp : Triple P p Q E) (hf : ∀ a, Triple (Q a) (f a) R E) :
    Triple P (p >>= f) R E := fun _ _ hs =>
  (hp.ends hs).bind fun a _ ha => hf a _ _ ha

/-- A fact about the result alone, which the last part of an operation decides. -/
theorem triple_result {f : α → Op ι σ μ ε β} {φ : β → Prop}
    (h : ∀ a, Triple (fun _ => True) (f a) (fun b _ => φ b) fun _ _ => True) :
    Triple (fun _ => True) (p >>= f) (fun b _ => φ b) fun _ _ => True :=
  Triple.bind (Q := fun _ _ => True) (fun _ _ _ => ⟨fun _ _ => trivial, fun _ _ => trivial⟩) h

/-- A step leaves the state where it fails. -/
theorem triple_step {group : List ι} {read : σ → α} (hQ : ∀ s, P s → Q (read s) (replay group s))
    (hE : ∀ s, P s → ∀ e, E e s) : Triple P (step group read : Op ι σ μ ε α) Q E := by
  intro s c hs
  unfold Op.final step
  cases hTick : tick c with
  | mk fault c' =>
    cases fault with
    | none =>
      constructor
      · intro a ha
        cases ha
        exact hQ s hs
      · intro e he
        cases he
    | some e =>
      constructor
      · intro a ha
        cases ha
      · intro e' he
        cases he
        exact hE s hs e

theorem triple_query {read : σ → α} (hQ : ∀ s, P s → Q (read s) s) (hE : ∀ s, P s → ∀ e, E e s) :
    Triple P (query read : Op ι σ μ ε α) Q E := triple_step hQ hE

theorem triple_run {i : ι} {Q : Unit → σ → Prop} (hQ : ∀ s, P s → Q () (exec i s))
    (hE : ∀ s, P s → ∀ e, E e s) : Triple P (run i : Op ι σ μ ε Unit) Q E := triple_step hQ hE

/-- The memory is not part of the state. -/
theorem triple_mem (f : μ → α × μ) (h : ∀ a s, P s → Q a s) :
    Triple P (mem f : Op ι σ μ ε α) Q E := by
  intro s c hs
  constructor
  · intro a _
    exact h a s hs
  · intro e he
    cases he

theorem Ends.tryCatch {handler : ε → Op ι σ μ ε α} {s : σ} {c : Ctl μ ε} (hp : p.Ends s c Q E)
    (hh : ∀ e, Triple (E e) (handler e) Q E') : (p.tryCatch handler).Ends s c Q E' := by
  unfold Ends Op.final Op.tryCatch
  cases hRes : (p s c).res with
  | ok a =>
    have hOk := hp.1 a hRes
    constructor
    · intro b hb
      cases hb
      exact hOk
    · intro e he
      cases he
  | error e =>
    have hRest := hh e (p.final s c) (p s c).ctl (hp.2 e hRes)
    unfold Ends Op.final at hRest
    dsimp only
    rw [replay_append]
    exact hRest

theorem Triple.tryCatch {handler : ε → Op ι σ μ ε α} (hp : Triple P p Q E)
    (hh : ∀ e, Triple (E e) (handler e) Q E') : Triple P (p.tryCatch handler) Q E' := fun _ _ hs =>
  (hp.ends hs).tryCatch hh

theorem triple_when {cond : Prop} [Decidable cond] {q : Op ι σ μ ε Unit} {Q : Unit → σ → Prop}
    (h : cond → Triple P q Q E) (hNot : ¬ cond → ∀ s, P s → Q () s) :
    Triple P (when cond q) Q E := by
  unfold when
  split
  · next hc => exact h hc
  · next hc => exact triple_pure () (hNot hc)

/-- A loop, by an invariant that knows the elements still to come. -/
theorem triple_forEach_rest {as : List α} {body : α → Op ι σ μ ε Unit} {I : List α → σ → Prop}
    (h : ∀ a rest, (∃ front, as = front ++ a :: rest) →
      Triple (I (a :: rest)) (body a) (fun _ => I rest) E) :
    Triple (I as) (forEach as body) (fun _ => I []) E := by
  induction as with
  | nil => exact triple_pure () fun _ hs => hs
  | cons a as ih =>
    refine Triple.bind (h a as ⟨[], rfl⟩) fun _ => ih fun b rest hb => ?_
    obtain ⟨front, rfl⟩ := hb
    exact h b rest ⟨a :: front, rfl⟩

/-- A loop whose body keeps the condition. -/
theorem triple_forEach {as : List α} {body : α → Op ι σ μ ε Unit}
    (h : ∀ a ∈ as, Triple P (body a) (fun _ => P) E) :
    Triple P (forEach as body) (fun _ => P) E := by
  refine triple_forEach_rest (I := fun _ => P) fun a rest ha => ?_
  obtain ⟨front, rfl⟩ := ha
  exact h a (List.mem_append_right front List.mem_cons_self)

/-- An operation whose statements all preserve a condition keeps it, whether it returns or throws. -/
theorem triple_of_emits {S : ι → Prop} (h : p.Emits S) (hS : ∀ i, S i → ∀ s, P s → P (exec i s)) :
    Triple P p (fun _ => P) fun _ => P := by
  intro s c hs
  have hFinal : P (p.final s c) :=
    replay_inv (P := P) (fun i hi s' hs' => hS i (h s c i hi) s' hs') hs
  exact ⟨fun _ _ => hFinal, fun _ _ => hFinal⟩

/-! ## Runs without faults -/

/-- Without faults, a run from a state with `P` returns, and `Q` holds of its result and of the
state after it. -/
def Total (P : σ → Prop) (p : Op ι σ μ ε α) (Q : α → σ → Prop) : Prop :=
  ∀ s m, P s → ∃ (a : α) (log : List ι) (m' : μ), p.Runs s m a log m' ∧ Q a (replay log s)

theorem total_pure (a : α) (h : ∀ s, P s → Q a s) : Total P (Pure.pure a : Op ι σ μ ε α) Q :=
  fun s m hs => ⟨a, [], m, runs_pure a s m, h s hs⟩

theorem Total.bind {f : α → Op ι σ μ ε β} (hp : Total P p Q) (hf : ∀ a, Total (Q a) (f a) R) :
    Total P (p >>= f) R := by
  intro s m hs
  obtain ⟨a, log, m', hRun, hQ⟩ := hp s m hs
  obtain ⟨b, log', m'', hRun', hR⟩ := hf a (replay log s) m' hQ
  refine ⟨b, log ++ log', m'', hRun.bind hRun', ?_⟩
  rwa [replay_append]

theorem total_query {read : σ → α} (h : ∀ s, P s → Q (read s) s) :
    Total P (query read : Op ι σ μ ε α) Q :=
  fun s m hs => ⟨read s, [], m, runs_query read s m, h s hs⟩

theorem total_run {i : ι} {Q : Unit → σ → Prop} (h : ∀ s, P s → Q () (exec i s)) :
    Total P (run i : Op ι σ μ ε Unit) Q :=
  fun s m hs => ⟨(), [i], m, runs_run i s m, h s hs⟩

theorem total_when {cond : Prop} [Decidable cond] {q : Op ι σ μ ε Unit} {Q : Unit → σ → Prop}
    (h : cond → Total P q Q) (hNot : ¬ cond → ∀ s, P s → Q () s) : Total P (when cond q) Q := by
  unfold when
  split
  · next hc => exact h hc
  · next hc => exact total_pure () (hNot hc)

theorem Total.tryCatch {handler : ε → Op ι σ μ ε α} (hp : Total P p Q) :
    Total P (p.tryCatch handler) Q := by
  intro s m hs
  obtain ⟨a, log, m', hRun, hQ⟩ := hp s m hs
  exact ⟨a, log, m', hRun.tryCatch, hQ⟩

theorem Total.pre (h : Total P p Q) (hP : ∀ s, P' s → P s) : Total P' p Q :=
  fun s m hs => h s m (hP s hs)

theorem Total.post (h : Total P p Q) (hQ : ∀ a s, Q a s → Q' a s) : Total P p Q' := by
  intro s m hs
  obtain ⟨a, log, m', hRun, hq⟩ := h s m hs
  exact ⟨a, log, m', hRun, hQ a _ hq⟩

/-- A loop, by an invariant that knows the elements still to come. -/
theorem total_forEach_rest {as : List α} {body : α → Op ι σ μ ε Unit} {I : List α → σ → Prop}
    (h : ∀ a rest, (∃ front, as = front ++ a :: rest) →
      Total (I (a :: rest)) (body a) (fun _ => I rest)) :
    Total (I as) (forEach as body) (fun _ => I []) := by
  induction as with
  | nil => exact total_pure () fun _ hs => hs
  | cons a as ih =>
    refine Total.bind (h a as ⟨[], rfl⟩) fun _ => ih fun b rest hb => ?_
    obtain ⟨front, rfl⟩ := hb
    exact h b rest ⟨a :: front, rfl⟩

/-- An operation that completes and whose statements preserve a condition keeps it. -/
theorem Completes.total {S : ι → Prop} (hp : p.Completes) (h : p.Emits S)
    (hS : ∀ i, S i → ∀ s, P s → P (exec i s)) : Total P p fun _ => P := by
  intro s m hs
  obtain ⟨a, log, m', hRun⟩ := hp s m
  have hLog := h s ⟨m, []⟩
  rw [hRun] at hLog
  exact ⟨a, log, m', hRun, replay_inv (fun i hi s hs => hS i (hLog i hi) s hs) hs⟩

theorem Total.final (h : Total P p Q) {s : σ} {m : μ} (hs : P s) :
    ∃ a, (p s ⟨m, []⟩).res = .ok a ∧ Q a (p.final s ⟨m, []⟩) := by
  obtain ⟨a, log, m', hRun, hQ⟩ := h s m hs
  refine ⟨a, by rw [hRun], ?_⟩
  rwa [hRun.final]

end Op

end Journal
