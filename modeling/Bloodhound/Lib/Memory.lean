import Mathlib.Logic.Relation
import Bloodhound.Lib.Journal

/-!
# State and memory

Triples over the state and the memory together, for an operation whose memory mirrors what its
statements write: between a statement and the change of the memory that goes with it the two
disagree, and nothing can fail there. A process makes calls one after the other; each starts with the
memory that the call before it left.
-/

namespace Journal

variable {ι σ μ ε α β γ : Type} [Statement ι σ]

namespace Op

/-- From a state and a memory with `P`, a run that returns `a` ends in ones with `Q a`, and a run that
throws in ones with `E`. -/
def MemTriple (P : σ → μ → Prop) (p : Op ι σ μ ε α) (Q : α → σ → μ → Prop) (E : σ → μ → Prop) : Prop :=
  ∀ s c, P s c.mem → (∀ a, (p s c).res = .ok a → Q a (p.final s c) (p s c).ctl.mem) ∧
    ∀ e, (p s c).res = .error e → E (p.final s c) (p s c).ctl.mem

/-- Every run keeps the relation between the state and the memory, however it ends. -/
abbrev KeepsMem (I : σ → μ → Prop) (p : Op ι σ μ ε α) : Prop := MemTriple I p (fun _ => I) I

variable {P I : σ → μ → Prop} {Q : α → σ → μ → Prop} {R : β → σ → μ → Prop} {E E' : σ → μ → Prop}
  {p : Op ι σ μ ε α}

theorem MemTriple.post {Q' : α → σ → μ → Prop} (h : MemTriple P p Q E)
    (hQ : ∀ a s m, Q a s m → Q' a s m) : MemTriple P p Q' E := fun s c hs =>
  ⟨fun a ha => hQ a _ _ ((h s c hs).1 a ha), (h s c hs).2⟩

theorem MemTriple.pre {P' : σ → μ → Prop} (h : MemTriple P p Q E) (hP : ∀ s m, P' s m → P s m) :
    MemTriple P' p Q E := fun s c hs => h s c (hP s c.mem hs)

/-- A fact that the precondition carries is at hand for the whole run. -/
theorem memTriple_of_fact {φ : Prop} (h : φ → MemTriple P p Q E) :
    MemTriple (fun s m => φ ∧ P s m) p Q E := fun s c hs => h hs.1 s c hs.2

theorem memTriple_true (p : Op ι σ μ ε α) : MemTriple P p (fun _ _ _ => True) fun _ _ => True :=
  fun _ _ _ => ⟨fun _ _ => trivial, fun _ _ => trivial⟩

theorem KeepsMem.final (h : KeepsMem I p) {s : σ} {c : Ctl μ ε} (hs : I s c.mem) :
    I (p.final s c) (p s c).ctl.mem := by
  cases hRes : (p s c).res with
  | ok a => exact (h s c hs).1 a hRes
  | error e => exact (h s c hs).2 e hRes

theorem memTriple_pure (a : α) (h : ∀ s m, P s m → Q a s m) :
    MemTriple P (Pure.pure a : Op ι σ μ ε α) Q E := by
  intro s c hs
  constructor
  · intro b hb
    cases hb
    exact h s c.mem hs
  · intro e he
    cases he

theorem memTriple_throw (e : ε) (h : ∀ s m, P s m → E s m) :
    MemTriple P (Op.throw e : Op ι σ μ ε α) Q E := by
  intro s c hs
  constructor
  · intro a ha
    cases ha
  · intro _ _
    exact h s c.mem hs

theorem MemTriple.bind {f : α → Op ι σ μ ε β} (hp : MemTriple P p Q E)
    (hf : ∀ a, MemTriple (Q a) (f a) R E) : MemTriple P (p >>= f) R E := by
  intro s c hs
  cases hRes : (p s c).res with
  | error e =>
    have hErr := (hp s c hs).2 e hRes
    unfold Op.final at hErr ⊢
    rw [bind_of_error hRes]
    constructor
    · intro b hb
      cases hb
    · intro _ _
      exact hErr
  | ok a =>
    have hRest := hf a (p.final s c) (p s c).ctl ((hp s c hs).1 a hRes)
    unfold Op.final at hRest ⊢
    rw [bind_of_ok hRes]
    dsimp only at hRest ⊢
    rw [replay_append]
    exact hRest

theorem KeepsMem.discard (h : KeepsMem I p) : KeepsMem I (discard p) :=
  MemTriple.bind h fun _ => memTriple_pure () fun _ _ hs => hs

theorem MemTriple.tryCatch {handler : ε → Op ι σ μ ε α} (hp : MemTriple P p Q E)
    (hh : ∀ e, MemTriple E (handler e) Q E') : MemTriple P (p.tryCatch handler) Q E' := by
  intro s c hs
  unfold Op.final Op.tryCatch
  cases hRes : (p s c).res with
  | ok a =>
    constructor
    · intro b hb
      cases hb
      exact (hp s c hs).1 a hRes
    · intro e he
      cases he
  | error e =>
    have hRest := hh e (p.final s c) (p s c).ctl ((hp s c hs).2 e hRes)
    unfold Op.final at hRest
    dsimp only
    rw [replay_append]
    exact hRest

/-- A step that fails leaves the state and the memory. -/
theorem memTriple_step {group : List ι} {read : σ → α}
    (hQ : ∀ s m, P s m → Q (read s) (replay group s) m) (hE : ∀ s m, P s m → E s m) :
    MemTriple P (step group read : Op ι σ μ ε α) Q E := by
  intro s c hs
  have hMem : (tick c).2.mem = c.mem := by
    unfold tick
    split <;> rfl
  unfold Op.final step
  cases hTick : tick c with
  | mk fault c' =>
    rw [hTick] at hMem
    dsimp only at hMem ⊢
    cases fault with
    | none =>
      constructor
      · intro a ha
        cases ha
        exact hMem ▸ hQ s c.mem hs
      · intro e he
        cases he
    | some e =>
      constructor
      · intro a ha
        cases ha
      · intro _ _
        exact hMem ▸ hE s c.mem hs

theorem memTriple_run {i : ι} {Q : Unit → σ → μ → Prop} (hQ : ∀ s m, P s m → Q () (exec i s) m)
    (hE : ∀ s m, P s m → E s m) : MemTriple P (run i : Op ι σ μ ε Unit) Q E := memTriple_step hQ hE

theorem keepsMem_query (read : σ → α) : KeepsMem I (query read : Op ι σ μ ε α) :=
  memTriple_step (fun _ _ h => h) fun _ _ h => h

theorem memTriple_mem (f : μ → α × μ) (h : ∀ s m, P s m → Q (f m).1 s (f m).2) :
    MemTriple P (mem f : Op ι σ μ ε α) Q E := by
  intro s c hs
  constructor
  · intro a ha
    cases ha
    exact h s c.mem hs
  · intro e he
    cases he

theorem memTriple_when {cond : Prop} [Decidable cond] {q : Op ι σ μ ε Unit} {Q : Unit → σ → μ → Prop}
    (h : cond → MemTriple P q Q E) (hNot : ¬ cond → ∀ s m, P s m → Q () s m) :
    MemTriple P (when cond q) Q E := by
  unfold when
  split
  · next hc => exact h hc
  · next hc => exact memTriple_pure () (hNot hc)

theorem keepsMem_when {cond : Prop} [Decidable cond] {q : Op ι σ μ ε Unit} (h : cond → KeepsMem I q) :
    KeepsMem I (when cond q) := memTriple_when h fun _ _ _ hs => hs

theorem memTriple_exists {κ : Type} {P : κ → σ → μ → Prop} {Q : α → σ → μ → Prop}
    (h : ∀ k, MemTriple (P k) p Q E) : MemTriple (fun s m => ∃ k, P k s m) p Q E := by
  intro s c hs
  obtain ⟨k, hk⟩ := hs
  exact h k s c hk

theorem memTriple_bounded {f : σ → Op ι σ μ ε α} {Q : α → σ → μ → Prop}
    (h : ∀ s, MemTriple (fun s' m => s' = s ∧ P s' m) (f s) Q E) : MemTriple P (bounded f) Q E :=
  fun s c hs => h s s c ⟨rfl, hs⟩

/-- A loop, by an invariant that knows the elements still to come. -/
theorem memTriple_forEach_rest {as : List α} {body : α → Op ι σ μ ε Unit} {I : List α → σ → μ → Prop}
    (h : ∀ a rest, (∃ front, as = front ++ a :: rest) →
      MemTriple (I (a :: rest)) (body a) (fun _ => I rest) E) :
    MemTriple (I as) (forEach as body) (fun _ => I []) E := by
  induction as with
  | nil => exact memTriple_pure () fun _ _ hs => hs
  | cons a as ih =>
    refine MemTriple.bind (h a as ⟨[], rfl⟩) fun _ => ih fun b rest hb => ?_
    obtain ⟨front, rfl⟩ := hb
    exact h b rest ⟨a :: front, rfl⟩

/-- A loop whose body keeps the relation. -/
theorem memTriple_forEach {as : List α} {body : α → Op ι σ μ ε Unit}
    (h : ∀ a ∈ as, MemTriple P (body a) (fun _ => P) E) : MemTriple P (forEach as body) (fun _ => P) E := by
  refine memTriple_forEach_rest (I := fun _ => P) fun a rest ha => ?_
  obtain ⟨front, rfl⟩ := ha
  exact h a (List.mem_append_right front List.mem_cons_self)

/-! ### Operations that leave the memory -/

/-- Every run leaves the memory. -/
def Silent (p : Op ι σ μ ε α) : Prop := ∀ s c, (p s c).ctl.mem = c.mem

/-- Every statement of every run satisfies the predicate, and the run leaves the memory. -/
def Still (S : ι → Prop) (p : Op ι σ μ ε α) : Prop := p.Emits S ∧ p.Silent

variable {S : ι → Prop}

theorem still_pure (a : α) : (Pure.pure a : Op ι σ μ ε α).Still S := ⟨emits_pure a, fun _ _ => rfl⟩

omit [Statement ι σ] in
theorem still_step {group : List ι} (read : σ → α) (h : ∀ i ∈ group, S i) :
    (step group read : Op ι σ μ ε α).Still S := by
  refine ⟨emits_step read h, fun s c => ?_⟩
  have hMem : (tick c).2.mem = c.mem := by
    unfold tick
    split <;> rfl
  unfold step
  split
  · next hTick => rw [← hMem, hTick]
  · next hTick => rw [← hMem, hTick]

omit [Statement ι σ] in
theorem still_query (read : σ → α) : (query read : Op ι σ μ ε α).Still S :=
  still_step read fun _ h => absurd h List.not_mem_nil

omit [Statement ι σ] in
theorem still_run {i : ι} (h : S i) : (run i : Op ι σ μ ε Unit).Still S :=
  still_step _ fun _ hi => List.mem_singleton.mp hi ▸ h

theorem Still.bind {f : α → Op ι σ μ ε β} (hp : p.Still S) (hf : ∀ a, (f a).Still S) :
    (p >>= f).Still S := by
  refine ⟨hp.1.bind fun a => (hf a).1, fun s c => ?_⟩
  cases hRes : (p s c).res with
  | ok a =>
    rw [bind_of_ok hRes]
    exact ((hf a).2 _ _).trans (hp.2 s c)
  | error e =>
    rw [bind_of_error hRes]
    exact hp.2 s c

theorem still_when {cond : Prop} [Decidable cond] {q : Op ι σ μ ε Unit} (h : cond → q.Still S) :
    (when cond q).Still S := by
  unfold when
  split
  · next hc => exact h hc
  · exact still_pure ()

theorem still_forEach {as : List α} {body : α → Op ι σ μ ε Unit} (h : ∀ a ∈ as, (body a).Still S) :
    (forEach as body).Still S := by
  induction as with
  | nil => exact still_pure ()
  | cons a as ih =>
    exact (h a List.mem_cons_self).bind fun _ => ih fun b hb => h b (List.mem_cons_of_mem a hb)

theorem Still.tryCatch {handler : ε → Op ι σ μ ε α} (hp : p.Still S) (hh : ∀ e, (handler e).Still S) :
    (p.tryCatch handler).Still S := by
  refine ⟨hp.1.tryCatch fun e => (hh e).1, fun s c => ?_⟩
  unfold Op.tryCatch
  split
  · exact hp.2 s c
  · next e _ => exact ((hh e).2 _ _).trans (hp.2 s c)

/-- What the statements keep for every memory is kept. -/
theorem Still.keepsMem (h : p.Still S) (hS : ∀ i, S i → ∀ s m, I s m → I (exec i s) m) :
    KeepsMem I p := by
  intro s c hs
  have hFinal : I (p.final s c) (p s c).ctl.mem := by
    rw [h.2 s c]
    exact replay_inv (P := fun s => I s c.mem) (fun i hi s' hs' => hS i (h.1 s c i hi) s' c.mem hs') hs
  exact ⟨fun _ _ => hFinal, fun _ _ => hFinal⟩

end Op

/-! ## Calls -/

/-- A call of the process, whatever fails in it. -/
def Call (op : α → Op ι σ μ ε β) (before after : σ × μ) : Prop :=
  ∃ (a : α) (faults : List (Option ε)),
    after = ((op a).final before.1 ⟨before.2, faults⟩, (op a before.1 ⟨before.2, faults⟩).ctl.mem)

abbrev Calls (op : α → Op ι σ μ ε β) : σ × μ → σ × μ → Prop := Relation.ReflTransGen (Call op)

/-- What every call keeps holds after any number of calls. -/
theorem calls_invariant {op : α → Op ι σ μ ε β} {I : σ → μ → Prop} (h : ∀ a, (op a).KeepsMem I)
    {before after : σ × μ} (hCalls : Calls op before after) (hBefore : I before.1 before.2) :
    I after.1 after.2 := by
  induction hCalls with
  | refl => exact hBefore
  | tail _ call ih =>
    obtain ⟨a, faults, rfl⟩ := call
    exact (h a).final ih

end Journal
