import Bloodhound.Lib.Triple

/-!
# Operations on a part of the state

An operation on a part of a larger state, with its statements embedded among those of the larger
state. Where the embedded statements act on that part as before, a triple carries over; what else
they do is told by a relation that each of them keeps.
-/

namespace Journal.Op

variable {ι σ ι' σ' μ ε α : Type}

/-- The operation on the part that `view` reads. -/
def lift (embed : ι → ι') (view : σ' → σ) (p : Op ι σ μ ε α) : Op ι' σ' μ ε α := fun s c =>
  ⟨(p (view s) c).res, (p (view s) c).log.map embed, (p (view s) c).ctl⟩

theorem Emits.lift {embed : ι → ι'} {view : σ' → σ} {p : Op ι σ μ ε α} {S : ι → Prop}
    {S' : ι' → Prop} (h : p.Emits S) (hS : ∀ i, S i → S' (embed i)) : (p.lift embed view).Emits S' := by
  intro s c i' hi'
  obtain ⟨i, hi, rfl⟩ := List.mem_map.mp hi'
  exact hS i (h (view s) c i hi)

variable [Statement ι σ] [Statement ι' σ']

/-- The embedded statements act on the part as the statements do. -/
def Embeds (embed : ι → ι') (view : σ' → σ) : Prop :=
  ∀ i s, view (exec (embed i) s) = exec i (view s)

section Lift

variable {embed : ι → ι'} {view : σ' → σ} {p : Op ι σ μ ε α}

theorem Embeds.replay (h : Embeds embed view) (log : List ι) (s : σ') :
    view (Journal.replay (log.map embed) s) = Journal.replay log (view s) := by
  induction log generalizing s with
  | nil => rfl
  | cons i log ih => rw [List.map_cons, replay_cons, replay_cons, ih, h]

theorem Embeds.final (h : Embeds embed view) (s : σ') (c : Ctl μ ε) :
    view ((p.lift embed view).final s c) = p.final (view s) c :=
  h.replay (p (view s) c).log s

theorem Triple.lift {P : σ → Prop} {Q : α → σ → Prop} {E : ε → σ → Prop} (hEmbeds : Embeds embed view)
    (h : Triple P p Q E) : Triple (fun s => P (view s)) (p.lift embed view) (fun a s => Q a (view s))
      fun e s => E e (view s) := by
  intro s c hs
  have hFinal := hEmbeds.final (p := p) s c
  constructor
  · intro a ha
    show Q a (view _)
    rw [hFinal]
    exact h.ok hs ha
  · intro e he
    show E e (view _)
    rw [hFinal]
    exact h.error hs he

end Lift

/-- What every statement of a run keeps relates the states before and after it. -/
theorem triple_related {p : Op ι σ μ ε α} {S : ι → Prop} {R : σ → σ → Prop} (hRefl : ∀ s, R s s)
    (hTrans : ∀ {s s' s''}, R s s' → R s' s'' → R s s'') (h : p.Emits S)
    (hS : ∀ i, S i → ∀ s, R s (exec i s)) (s₀ : σ) :
    Triple (fun s => s = s₀) p (fun _ => R s₀) fun _ => R s₀ :=
  (triple_of_emits (P := R s₀) h fun i hi s hs => hTrans hs (hS i hi s)).pre fun s hs => hs ▸ hRefl s

end Journal.Op
