import Bloodhound.Lib.Triple

/-!
# What an operation comes down to

An operation leads to another one if each of its runs executes some statements of a kind, and then
either fails or goes on as the other. Reads, and steps that execute only such statements, are
passed over (`leads_bind`, `leads_query_bind`).
-/

namespace Journal

namespace Op

variable {ι σ μ ε α β : Type} [Statement ι σ] {P : ι → Prop} {K K' : Op ι σ μ ε α → Prop}
  {s : σ} {p : Op ι σ μ ε α}

/-- Every run from a state executes statements of a kind, and fails or continues as an operation of
`K`. -/
def Leads (P : ι → Prop) (K : Op ι σ μ ε α → Prop) (s : σ) (p : Op ι σ μ ε α) : Prop :=
  ∀ c, (∃ e, (p s c).res = .error e ∧ ∀ i ∈ (p s c).log, P i) ∨
    ∃ q log c', K q ∧ (∀ i ∈ log, P i) ∧
      p s c = ⟨(q (replay log s) c').res, log ++ (q (replay log s) c').log, (q (replay log s) c').ctl⟩

theorem leads_refl (h : K p) : p.Leads P K s :=
  fun c => Or.inr ⟨p, [], c, h, by simp, rfl⟩

theorem Leads.mono (h : p.Leads P K s) (hK : ∀ q, K q → K' q) : p.Leads P K' s := by
  intro c
  rcases h c with hError | ⟨q, log, c', hq, hLog, hRun⟩
  · exact Or.inl hError
  · exact Or.inr ⟨q, log, c', hK q hq, hLog, hRun⟩

/-- Steps that execute only such statements are passed over. -/
theorem leads_bind {p : Op ι σ μ ε β} {f : β → Op ι σ μ ε α} (hp : p.Emits P)
    (hf : ∀ c a, (p s c).res = .ok a → (f a).Leads P K (p.final s c)) : (p >>= f).Leads P K s := by
  intro c
  cases hRes : (p s c).res with
  | error e =>
    rw [bind_of_error hRes]
    exact Or.inl ⟨e, rfl, hp s c⟩
  | ok a =>
    rw [bind_of_ok hRes]
    rcases hf c a hRes (p s c).ctl with ⟨e, hError, hLog⟩ | ⟨q, log, c', hq, hLog, hRun⟩
    · refine Or.inl ⟨e, hError, fun i hi => ?_⟩
      rcases List.mem_append.mp hi with hFirst | hRest
      · exact hp s c i hFirst
      · exact hLog i hRest
    · refine Or.inr ⟨q, (p s c).log ++ log, c', hq, fun i hi => ?_, ?_⟩
      · rcases List.mem_append.mp hi with hFirst | hRest
        · exact hp s c i hFirst
        · exact hLog i hRest
      · unfold Op.final at hRun
        rw [hRun, replay_append, List.append_assoc]

/-- A read passes what it reads on. -/
theorem leads_query_bind {read : σ → β} {f : β → Op ι σ μ ε α} (h : (f (read s)).Leads P K s) :
    (query read >>= f).Leads P K s := by
  refine leads_bind (emits_query read) fun c a ha => ?_
  rw [returnsAt_query read s c a ha, final_query]
  exact h

end Op

end Journal
