import Bloodhound.Lib.Triple

/-!
# Bounded growth

Bounds on how much an operation adds to the size of the state, whatever size means. The bound holds of
every run, one that throws included, so it composes: the bounds of the parts of an operation add up, a
part that only reads adds nothing, and a loop adds its bound for each element.
-/

namespace Journal.Op

variable {ι σ μ ε α β : Type} [Statement ι σ]

/-- From the state the operation adds at most `n` to the size, whether it returns or throws. -/
def GrowsFrom (size : σ → Nat) (s : σ) (n : Nat) (p : Op ι σ μ ε α) : Prop :=
  Triple (fun s' => s' = s) p (fun _ s' => size s' ≤ size s + n) fun _ s' => size s' ≤ size s + n

/-- The same from every state. -/
def Grows (size : σ → Nat) (n : Nat) (p : Op ι σ μ ε α) : Prop := ∀ s, GrowsFrom size s n p

variable {size : σ → Nat} {s : σ} {m n : Nat} {p : Op ι σ μ ε α} {f : α → Op ι σ μ ε β}

theorem GrowsFrom.final_le (h : GrowsFrom size s n p) (c : Ctl μ ε) :
    size (p.final s c) ≤ size s + n :=
  Ends.final (P := fun s' => size s' ≤ size s + n) (h s c rfl)

theorem GrowsFrom.mono (h : GrowsFrom size s m p) (hLe : m ≤ n) : GrowsFrom size s n p :=
  h.conseq (fun _ hs => hs) (fun _ _ hs => hs.trans (by omega)) fun _ _ hs => hs.trans (by omega)

theorem Grows.mono (h : Grows size m p) (hLe : m ≤ n) : Grows size n p := fun s => (h s).mono hLe

theorem grows_pure (a : α) : Grows size 0 (Pure.pure a : Op ι σ μ ε α) := fun s =>
  triple_pure a fun s' hs => by rw [hs, Nat.add_zero]

/-- Statements that leave the size as it is. -/
theorem grows_of_emits {S : ι → Prop} (h : p.Emits S)
    (hS : ∀ i, S i → ∀ s : σ, size (exec i s) = size s) : Grows size 0 p := fun s =>
  (triple_of_emits (P := fun s' => size s' ≤ size s + 0) h fun i hi s' hs => by rwa [hS i hi]).pre
    fun s' hs => by rw [hs, Nat.add_zero]

theorem grows_step {group : List ι} {read : σ → α} (h : ∀ s, size (replay group s) ≤ size s + n) :
    Grows size n (step group read : Op ι σ μ ε α) := fun s =>
  triple_step (fun s' hs => hs ▸ h s') fun s' hs _ => by rw [hs]; omega

/-- The second part starts from a state to which the first has added its part, with a result of
which `Q` is known. -/
theorem GrowsFrom.bind_of {Q : α → σ → Prop} (hp : GrowsFrom size s m p)
    (hQ : Triple (fun s' => s' = s) p Q fun _ _ => True)
    (hf : ∀ a s', Q a s' → GrowsFrom size s' n (f a)) : GrowsFrom size s (m + n) (p >>= f) := by
  refine Triple.bind ((hp.and hQ).conseq (fun s' hs => ⟨hs, hs⟩) (fun _ _ hs => hs)
    fun _ s' hs => hs.1.trans (by omega)) fun a => triple_of_state fun s' hs => ?_
  refine (hf a s' hs.2).conseq (fun _ h => h) (fun _ _ h => ?_) fun _ _ h => ?_
  · omega
  · omega

theorem GrowsFrom.bind (hp : GrowsFrom size s m p) (hf : ∀ a, Grows size n (f a)) :
    GrowsFrom size s (m + n) (p >>= f) :=
  hp.bind_of (Q := fun _ _ => True) (fun _ _ _ => ⟨fun _ _ => trivial, fun _ _ => trivial⟩)
    fun a s' _ => hf a s'

theorem Grows.bind (hp : Grows size m p) (hf : ∀ a, Grows size n (f a)) :
    Grows size (m + n) (p >>= f) := fun s => (hp s).bind hf

/-- A first part that adds nothing. -/
theorem GrowsFrom.zero_bind_of {Q : α → σ → Prop} (hp : GrowsFrom size s 0 p)
    (hQ : Triple (fun s' => s' = s) p Q fun _ _ => True)
    (hf : ∀ a s', Q a s' → GrowsFrom size s' n (f a)) : GrowsFrom size s n (p >>= f) :=
  (hp.bind_of hQ hf).mono (Nat.le_of_eq (Nat.zero_add n))

theorem Grows.zero_bind (hp : Grows size 0 p) (hf : ∀ a, Grows size n (f a)) :
    Grows size n (p >>= f) := (hp.bind hf).mono (Nat.le_of_eq (Nat.zero_add n))

/-- A query adds nothing, and what follows knows the state. -/
theorem GrowsFrom.of_query {read : σ → α} (h : GrowsFrom size s n (f (read s))) :
    GrowsFrom size s n (query read >>= f) := by
  refine Triple.bind (Q := fun a s' => s' = s ∧ a = read s)
    (triple_query (fun s' hs => ⟨hs, hs ▸ rfl⟩) fun s' hs _ => by rw [hs]; omega) fun a =>
      triple_of_fact fun hEq => ?_
  rw [hEq]
  exact h

/-- Nor does what reads the memory. -/
theorem GrowsFrom.of_mem {g : μ → α × μ} (h : ∀ a, GrowsFrom size s n (f a)) :
    GrowsFrom size s n (mem g >>= f) :=
  Triple.bind (triple_mem g fun _ _ hs => hs) h

theorem grows_when {cond : Prop} [Decidable cond] {q : Op ι σ μ ε Unit} (h : cond → Grows size n q) :
    Grows size n (when cond q) := fun s =>
  triple_when (fun hc => h hc s) fun _ s' hs => by rw [hs]; omega

theorem grows_forEach {as : List α} {body : α → Op ι σ μ ε Unit} (h : ∀ a ∈ as, Grows size n (body a)) :
    Grows size (as.length * n) (forEach as body) := by
  induction as with
  | nil => exact (grows_pure ()).mono (Nat.zero_le _)
  | cons a as ih =>
    refine ((h a List.mem_cons_self).bind fun _ => ih fun b hb => h b (List.mem_cons_of_mem a hb)).mono ?_
    rw [List.length_cons, Nat.succ_mul, Nat.add_comm]

theorem grows_tryCatch {handler : ε → Op ι σ μ ε α} (hp : Grows size m p)
    (hh : ∀ e, Grows size n (handler e)) : Grows size (m + n) (p.tryCatch handler) := fun s =>
  Triple.tryCatch ((hp s).post fun _ s' hs => hs.trans (by omega)) fun e =>
    triple_of_state fun s' hs => (hh e s').conseq (fun _ h => h) (fun _ _ h => by omega)
      fun _ _ h => by omega

end Journal.Op
