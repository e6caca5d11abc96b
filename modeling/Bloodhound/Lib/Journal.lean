import Mathlib.Data.List.Basic
import Mathlib.Data.List.Infix

/-!
# Journaled operations with faults

A database client changes its store only by executing statements, and any statement may
fail instead of taking effect. An operation is modelled here as a function of the state
and of a control record; it returns a result, the list of statements that took effect
(its log), and the control record it leaves. The state after an operation is the replay of
its log on the state before, so an operation that throws keeps exactly the prefix of its
statements that had been executed.

* `Op` is the monad of operations; `step` executes a group of statements as one unit and
  reads the state, and is the only source of faults besides `throw`.
* `Emits` says that every statement of every run satisfies a predicate; its rules follow
  the syntax of operations, and `replay_frame` turns it into a frame property.
* `Writes` follows one kind of statement: what a run emits of it is a prefix of a fixed
  list, and the whole list when the run succeeds.
* `Runs` describes the run without faults, with one rule for each construct.
-/

namespace Journal

/-- Statements of type `ι` act on states of type `σ`. -/
class Statement (ι : Type) (σ : outParam Type) where
  exec : ι → σ → σ

export Statement (exec)

/-- The state after executing a log from left to right. -/
def replay {ι σ : Type} [Statement ι σ] (log : List ι) (s : σ) : σ :=
  log.foldl (fun s i => exec i s) s

/-- What an operation carries besides the state: the memory of the process, and for each
coming step whether it fails. -/
structure Ctl (μ ε : Type) where
  mem : μ
  faults : List (Option ε)

/-- The outcome of a run. -/
structure Out (ι μ ε α : Type) where
  res : Except ε α
  log : List ι
  ctl : Ctl μ ε

/-- Operations with statements `ι` on states `σ`, memory `μ` and errors `ε`. -/
def Op (ι σ μ ε α : Type) : Type := σ → Ctl μ ε → Out ι μ ε α

variable {ι σ μ ε α β γ κ : Type}

/-! ## Replay -/

section Replay

variable [Statement ι σ]

@[simp] theorem replay_nil (s : σ) : replay ([] : List ι) s = s := rfl

@[simp] theorem replay_cons (i : ι) (log : List ι) (s : σ) :
    replay (i :: log) s = replay log (exec i s) := rfl

@[simp] theorem replay_append (l l' : List ι) (s : σ) :
    replay (l ++ l') s = replay l' (replay l s) := by
  simp [replay, List.foldl_append]

/-- A reading of the state that no statement of the log changes is the same after it. -/
theorem replay_frame {f : σ → β} {log : List ι}
    (h : ∀ i ∈ log, ∀ s, f (exec i s) = f s) (s : σ) : f (replay log s) = f s := by
  induction log generalizing s with
  | nil => rfl
  | cons i log ih =>
    rw [replay_cons, ih (fun j hj => h j (List.mem_cons_of_mem _ hj)), h i List.mem_cons_self]

/-- A property that every statement of the log preserves holds after it. -/
theorem replay_inv {P : σ → Prop} {log : List ι}
    (h : ∀ i ∈ log, ∀ s, P s → P (exec i s)) {s : σ} (hs : P s) : P (replay log s) := by
  induction log generalizing s with
  | nil => exact hs
  | cons i log ih =>
    exact ih (fun j hj => h j (List.mem_cons_of_mem _ hj)) (h i List.mem_cons_self s hs)

/-- The reading `f` moves with the statements that `π` keeps and with no other. -/
structure Tracks (π : ι → Option κ) (act : κ → β → β) (f : σ → β) : Prop where
  kept : ∀ i k s, π i = some k → f (exec i s) = act k (f s)
  dropped : ∀ i s, π i = none → f (exec i s) = f s

theorem Tracks.replay {π : ι → Option κ} {act : κ → β → β} {f : σ → β}
    (h : Tracks π act f) (log : List ι) (s : σ) :
    f (replay log s) = (log.filterMap π).foldl (fun b k => act k b) (f s) := by
  induction log generalizing s with
  | nil => rfl
  | cons i log ih =>
    rw [replay_cons, ih]
    cases hi : π i with
    | none => rw [List.filterMap_cons_none hi, h.dropped i s hi]
    | some k => rw [List.filterMap_cons_some hi, List.foldl_cons, h.kept i k s hi]

end Replay

/-! ## The monad of operations -/

namespace Op

/-- The next fault, and the control record without it. -/
def tick (c : Ctl μ ε) : Option ε × Ctl μ ε :=
  match c.faults with
  | [] => (none, c)
  | f :: rest => (f, { c with faults := rest })

protected def pure (a : α) : Op ι σ μ ε α := fun _ c => ⟨.ok a, [], c⟩

protected def bind [Statement ι σ] (p : Op ι σ μ ε α) (f : α → Op ι σ μ ε β) : Op ι σ μ ε β := fun s c =>
  match (p s c).res with
  | .ok a =>
    let o := f a (replay (p s c).log s) (p s c).ctl
    ⟨o.res, (p s c).log ++ o.log, o.ctl⟩
  | .error e => ⟨.error e, (p s c).log, (p s c).ctl⟩

instance [Statement ι σ] : Monad (Op ι σ μ ε) where
  pure := Op.pure
  bind := Op.bind

/-- Execute a group of statements as one unit and read the state before it. A fault of the
unit leaves no statement executed. -/
def step (group : List ι) (read : σ → α) : Op ι σ μ ε α := fun s c =>
  match tick c with
  | (some e, c') => ⟨.error e, [], c'⟩
  | (none, c') => ⟨.ok (read s), group, c'⟩

/-- Read the state. -/
def query (read : σ → α) : Op ι σ μ ε α := step [] read

/-- Execute one statement. -/
def run (i : ι) : Op ι σ μ ε Unit := step [i] fun _ => ()

/-- Read and change the memory; this never fails. -/
def mem (f : μ → α × μ) : Op ι σ μ ε α := fun _ c =>
  ⟨.ok (f c.mem).1, [], { c with mem := (f c.mem).2 }⟩

/-- An operation that depends on the state without reading it by a statement: for a bound on the
number of its rounds. -/
def bounded (f : σ → Op ι σ μ ε α) : Op ι σ μ ε α := fun s c => f s s c

protected def throw (e : ε) : Op ι σ μ ε α := fun _ c => ⟨.error e, [], c⟩

/-- Run `p`; on an error continue with the handler from where `p` stopped. -/
protected def tryCatch [Statement ι σ] (p : Op ι σ μ ε α) (handler : ε → Op ι σ μ ε α) : Op ι σ μ ε α :=
  fun s c =>
    match (p s c).res with
    | .ok a => ⟨.ok a, (p s c).log, (p s c).ctl⟩
    | .error e =>
      let o := handler e (replay (p s c).log s) (p s c).ctl
      ⟨o.res, (p s c).log ++ o.log, o.ctl⟩

/-- Run the body on each element in turn. -/
def forEach [Statement ι σ] : List α → (α → Op ι σ μ ε Unit) → Op ι σ μ ε Unit
  | [], _ => Pure.pure ()
  | a :: as, body => do
    body a
    forEach as body

/-- Run `p` where the condition holds. -/
def when [Statement ι σ] (cond : Prop) [Decidable cond] (p : Op ι σ μ ε Unit) : Op ι σ μ ε Unit :=
  if cond then p else Pure.pure ()

/-- The state after a run. -/
def final [Statement ι σ] (p : Op ι σ μ ε α) (s : σ) (c : Ctl μ ε) : σ := replay (p s c).log s

section Laws

variable [Statement ι σ]

theorem pure_def (a : α) : (Pure.pure a : Op ι σ μ ε α) = Op.pure a := rfl

theorem bind_def (p : Op ι σ μ ε α) (f : α → Op ι σ μ ε β) : (p >>= f) = Op.bind p f := rfl

theorem bind_of_ok {p : Op ι σ μ ε α} {f : α → Op ι σ μ ε β} {s : σ} {c : Ctl μ ε} {a : α}
    (h : (p s c).res = .ok a) :
    (p >>= f) s c =
      ⟨(f a (replay (p s c).log s) (p s c).ctl).res,
        (p s c).log ++ (f a (replay (p s c).log s) (p s c).ctl).log,
        (f a (replay (p s c).log s) (p s c).ctl).ctl⟩ := by
  simp only [bind_def, Op.bind, h]

theorem bind_of_error {p : Op ι σ μ ε α} {f : α → Op ι σ μ ε β} {s : σ} {c : Ctl μ ε} {e : ε}
    (h : (p s c).res = .error e) : (p >>= f) s c = ⟨.error e, (p s c).log, (p s c).ctl⟩ := by
  simp only [bind_def, Op.bind, h]

theorem mem_bind (g : μ → α × μ) (f : α → Op ι σ μ ε β) (s : σ) (c : Ctl μ ε) :
    (mem g >>= f) s c = f (g c.mem).1 s { c with mem := (g c.mem).2 } := rfl

theorem pure_bind (a : α) (f : α → Op ι σ μ ε β) : (Pure.pure a >>= f) = f a := by
  funext s c
  rfl

theorem bind_pure (p : Op ι σ μ ε α) : (p >>= Pure.pure) = p := by
  funext s c
  cases h : (p s c).res with
  | ok a =>
    rw [bind_of_ok h, pure_def]
    simp only [Op.pure, List.append_nil, ← h]
  | error e => rw [bind_of_error h, ← h]

theorem bind_assoc (p : Op ι σ μ ε α) (f : α → Op ι σ μ ε β) (g : β → Op ι σ μ ε γ) :
    (p >>= f >>= g) = (p >>= fun a => f a >>= g) := by
  funext s c
  cases h : (p s c).res with
  | error e =>
    have hpf : ((p >>= f) s c).res = .error e := by rw [bind_of_error h]
    simp only [bind_of_error hpf, bind_of_error h]
  | ok a =>
    cases h' : (f a (replay (p s c).log s) (p s c).ctl).res with
    | error e =>
      have hpf : ((p >>= f) s c).res = .error e := by rw [bind_of_ok h, h']
      simp only [bind_of_error hpf, bind_of_ok h, bind_of_error h']
    | ok b =>
      have hpf : ((p >>= f) s c).res = .ok b := by rw [bind_of_ok h, h']
      simp only [bind_of_ok hpf, bind_of_ok h, bind_of_ok h', replay_append, List.append_assoc]

instance : LawfulMonad (Op ι σ μ ε) :=
  LawfulMonad.mk' _ (fun p => bind_pure p) pure_bind bind_assoc

end Laws

/-- A run with a result, from what is known of the result. -/
theorem exists_ok {o : Out ι μ ε α} {f : α → β} {b : β} (h : o.res.toOption.map f = some b) :
    ∃ a, o.res = .ok a ∧ f a = b := by
  obtain ⟨a, ha, hb⟩ := Option.map_eq_some_iff.mp h
  cases hr : o.res with
  | ok a' =>
    rw [hr] at ha
    cases ha
    exact ⟨a, rfl, hb⟩
  | error e =>
    rw [hr] at ha
    cases ha

/-- A statement that fails has not been executed. -/
theorem log_of_step_error {group : List ι} {read : σ → α} {s : σ} {c : Ctl μ ε} {e : ε}
    (h : (step group read s c).res = .error e) : (step group read s c).log = [] := by
  unfold step at h ⊢
  split at h
  · rfl
  · cases h

/-- An operation that starts with a read fails there or goes on with what it reads. -/
theorem query_bind_cases [Statement ι σ] (read : σ → α) (f : α → Op ι σ μ ε β) (s : σ)
    (c : Ctl μ ε) : (∃ e c', (query read >>= f) s c = ⟨.error e, [], c'⟩) ∨
      ∃ c', (query read >>= f) s c = f (read s) s c' := by
  show (∃ e c', Op.bind (query read) f s c = _) ∨ ∃ c', Op.bind (query read) f s c = _
  unfold Op.bind query step
  obtain ⟨fault, c'⟩ := tick c
  cases fault with
  | some e => exact Or.inl ⟨e, c', rfl⟩
  | none => exact Or.inr ⟨c', rfl⟩

/-! ## Which statements a run can emit -/

/-- Every statement of every run of the operation satisfies `P`. -/
def Emits (P : ι → Prop) (p : Op ι σ μ ε α) : Prop := ∀ s c, ∀ i ∈ (p s c).log, P i

section Emits

variable {P : ι → Prop}

theorem Emits.mono {Q : ι → Prop} {p : Op ι σ μ ε α} (h : p.Emits P) (hPQ : ∀ i, P i → Q i) :
    p.Emits Q :=
  fun s c i hi => hPQ i (h s c i hi)

theorem emits_step {group : List ι} (read : σ → α) (h : ∀ i ∈ group, P i) :
    (step group read : Op ι σ μ ε α).Emits P := by
  intro s c i hi
  unfold step at hi
  split at hi
  · cases hi
  · exact h i hi

theorem emits_query (read : σ → α) : (query read : Op ι σ μ ε α).Emits P :=
  emits_step read (by simp)

theorem emits_run {i : ι} (h : P i) : (run i : Op ι σ μ ε Unit).Emits P :=
  emits_step _ (by simpa using h)

theorem emits_mem (f : μ → α × μ) : (mem f : Op ι σ μ ε α).Emits P := by
  intro s c i hi
  cases hi

theorem emits_throw (e : ε) : (Op.throw e : Op ι σ μ ε α).Emits P := by
  intro s c i hi
  cases hi

variable [Statement ι σ]

theorem emits_pure (a : α) : (Pure.pure a : Op ι σ μ ε α).Emits P := by
  intro s c i hi
  cases hi

theorem Emits.bind {p : Op ι σ μ ε α} {f : α → Op ι σ μ ε β} (hp : p.Emits P)
    (hf : ∀ a, (f a).Emits P) : (p >>= f).Emits P := by
  intro s c i hi
  cases h : (p s c).res with
  | ok a =>
    rw [bind_of_ok h] at hi
    rcases List.mem_append.mp hi with hi | hi
    · exact hp s c i hi
    · exact hf a _ _ i hi
  | error e =>
    rw [bind_of_error h] at hi
    exact hp s c i hi

/-- A read passes on what it reads of some state. -/
theorem emits_query_bind {read : σ → α} {f : α → Op ι σ μ ε β} (h : ∀ s, (f (read s)).Emits P) :
    (query read >>= f).Emits P := by
  intro s c i hi
  rcases query_bind_cases read f s c with ⟨e, c', hStop⟩ | ⟨c', hNext⟩
  · rw [hStop] at hi
    cases hi
  · rw [hNext] at hi
    exact h s s c' i hi

theorem Emits.tryCatch {p : Op ι σ μ ε α} {handler : ε → Op ι σ μ ε α} (hp : p.Emits P)
    (hh : ∀ e, (handler e).Emits P) : (p.tryCatch handler).Emits P := by
  intro s c i hi
  unfold Op.tryCatch at hi
  split at hi
  · exact hp s c i hi
  · rcases List.mem_append.mp hi with hi | hi
    · exact hp s c i hi
    · exact hh _ _ _ i hi

omit [Statement ι σ] in
theorem emits_bounded {f : σ → Op ι σ μ ε α} (h : ∀ s, (f s).Emits P) : (bounded f).Emits P :=
  fun s c => h s s c

theorem emits_when {cond : Prop} [Decidable cond] {p : Op ι σ μ ε Unit} (h : cond → p.Emits P) :
    (when cond p).Emits P := by
  unfold when
  split
  · next hc => exact h hc
  · exact emits_pure ()

theorem emits_forEach {as : List α} {body : α → Op ι σ μ ε Unit}
    (h : ∀ a ∈ as, (body a).Emits P) : (forEach as body).Emits P := by
  induction as with
  | nil => exact emits_pure ()
  | cons a as ih =>
    exact (h a List.mem_cons_self).bind fun _ => ih fun b hb => h b (List.mem_cons_of_mem _ hb)

/-- A reading that no emitted statement changes is the same after the run. -/
theorem Emits.frame {p : Op ι σ μ ε α} {f : σ → β} (h : p.Emits P)
    (hf : ∀ i, P i → ∀ s, f (exec i s) = f s) (s : σ) (c : Ctl μ ε) : f (p.final s c) = f s :=
  replay_frame (fun i hi => hf i (h s c i hi)) s

end Emits

/-! ## Following one kind of statement -/

/-- Of the statements that `π` keeps, a run from `s` emits a prefix of `kept`, and all of them
when it succeeds. -/
def WritesAt (π : ι → Option κ) (p : Op ι σ μ ε α) (s : σ) (kept : List κ) : Prop :=
  ∀ c, (p s c).log.filterMap π <+: kept ∧
    ∀ a, (p s c).res = .ok a → (p s c).log.filterMap π = kept

/-- `WritesAt` from every state. -/
def Writes (π : ι → Option κ) (p : Op ι σ μ ε α) (kept : List κ) : Prop :=
  ∀ s, WritesAt π p s kept

section Writes

variable {π : ι → Option κ}

theorem writes_nil_of_emits {p : Op ι σ μ ε α} (h : p.Emits fun i => π i = none) :
    p.Writes π [] := by
  intro s c
  have hnil : (p s c).log.filterMap π = [] := List.filterMap_eq_nil_iff.mpr (h s c)
  rw [hnil]
  exact ⟨List.nil_prefix, fun _ _ => rfl⟩

/-- What the listed statements all preserve holds where a run ends, whether it returns or throws. -/
theorem WritesAt.final_inv [Statement ι σ] [Statement κ β] {p : Op ι σ μ ε α} {s : σ} {kept : List κ}
    (h : p.WritesAt π s kept) {f : σ → β} (hTracks : Tracks π (exec : κ → β → β) f) {I : β → Prop}
    (hStep : ∀ k ∈ kept, ∀ b, I b → I (exec k b)) (hI : I (f s)) (c : Ctl μ ε) :
    I (f (p.final s c)) := by
  unfold final
  rw [hTracks.replay]
  exact replay_inv (fun k hk => hStep k ((h c).1.subset hk)) hI

theorem writes_step (group : List ι) (read : σ → α) :
    (step group read : Op ι σ μ ε α).Writes π (group.filterMap π) := by
  intro s c
  unfold step
  split
  · exact ⟨List.nil_prefix, fun _ h => by cases h⟩
  · exact ⟨List.prefix_rfl, fun _ _ => rfl⟩

theorem writes_run (i : ι) : (run i : Op ι σ μ ε Unit).Writes π ([i].filterMap π) :=
  writes_step [i] _

variable [Statement ι σ]

/-- The rule of composition: the second part is described from the states that the first one
reaches. -/
theorem WritesAt.bind {p : Op ι σ μ ε α} {f : α → Op ι σ μ ε β} {s : σ} {k k' : List κ}
    (hp : p.WritesAt π s k)
    (hf : ∀ c a, (p s c).res = .ok a → (f a).WritesAt π (p.final s c) k') :
    (p >>= f).WritesAt π s (k ++ k') := by
  intro c
  cases h : (p s c).res with
  | ok a =>
    have hk := (hp c).2 a h
    have hk' := hf c a h (p s c).ctl
    unfold final at hk'
    rw [bind_of_ok h]
    simp only [List.filterMap_append, hk]
    exact ⟨(List.prefix_append_right_inj k).mpr hk'.1, fun b hb => by rw [hk'.2 b hb]⟩
  | error e =>
    rw [bind_of_error h]
    exact ⟨(hp c).1.trans (List.prefix_append k k'), fun b hb => by cases hb⟩

/-- A read passes what it reads on. -/
theorem WritesAt.query_bind {read : σ → α} {f : α → Op ι σ μ ε β} {s : σ} {k : List κ}
    (h : (f (read s)).WritesAt π s k) : (query read >>= f).WritesAt π s k := by
  intro c
  cases hq : (query read s c : Out ι μ ε α).res with
  | error e =>
    rw [bind_of_error hq]
    exact ⟨(writes_nil_of_emits (emits_query read) s c).1.trans List.nil_prefix,
      fun b hb => by cases hb⟩
  | ok a =>
    have hread : a = read s ∧ (query read s c : Out ι μ ε α).log = [] := by
      unfold query step at hq ⊢
      split at hq
      · cases hq
      · cases hq
        exact ⟨rfl, rfl⟩
    rw [bind_of_ok hq, hread.1, hread.2]
    exact h _

theorem Writes.bind {p : Op ι σ μ ε α} {f : α → Op ι σ μ ε β} {k k' : List κ}
    (hp : p.Writes π k) (hf : ∀ a, (f a).Writes π k') : (p >>= f).Writes π (k ++ k') :=
  fun s => (hp s).bind fun _ a _ => hf a _

theorem Writes.bind_left {p : Op ι σ μ ε α} {f : α → Op ι σ μ ε β} {k : List κ}
    (hp : p.Writes π k) (hf : ∀ a, (f a).Writes π []) : (p >>= f).Writes π k := by
  simpa using hp.bind hf

theorem Writes.bind_right {p : Op ι σ μ ε α} {f : α → Op ι σ μ ε β} {k : List κ}
    (hp : p.Writes π []) (hf : ∀ a, (f a).Writes π k) : (p >>= f).Writes π k := by
  simpa using hp.bind hf

theorem writes_forEach {as : List α} {body : α → Op ι σ μ ε Unit} {k : α → List κ}
    (h : ∀ a ∈ as, (body a).Writes π (k a)) : (forEach as body).Writes π (as.flatMap k) := by
  induction as with
  | nil => exact writes_nil_of_emits (emits_pure ())
  | cons a as ih =>
    rw [List.flatMap_cons]
    exact (h a List.mem_cons_self).bind fun _ => ih fun b hb => h b (List.mem_cons_of_mem _ hb)

/-- A body that runs at most once. -/
theorem writesAt_forEach_option {a : Option α} {body : α → Op ι σ μ ε Unit} {s : σ}
    {k : α → List κ} (h : ∀ b, a = some b → (body b).WritesAt π s (k b)) :
    (forEach a.toList body).WritesAt π s (a.toList.flatMap k) := by
  cases a with
  | none => exact writes_nil_of_emits (emits_pure ()) s
  | some b =>
    have hNil : ∀ s', (Pure.pure () : Op ι σ μ ε Unit).WritesAt π s' [] :=
      writes_nil_of_emits (emits_pure ())
    have hBody := (h b rfl).bind fun _ _ _ => hNil _
    rwa [List.append_nil, ← List.flatMap_singleton k b] at hBody

theorem writes_forEach_run (group : List ι) :
    (forEach group run : Op ι σ μ ε Unit).Writes π (group.filterMap π) := by
  induction group with
  | nil => exact writes_nil_of_emits (emits_pure ())
  | cons i is ih =>
    have h := (writes_run (π := π) i : (run i : Op ι σ μ ε Unit).Writes π _).bind fun _ => ih
    rwa [← List.filterMap_append, List.singleton_append] at h

end Writes

/-! ## Results -/

/-- Every successful run from `s` returns `r`. -/
def ReturnsAt (p : Op ι σ μ ε α) (s : σ) (r : α) : Prop := ∀ c a, (p s c).res = .ok a → a = r

section Returns

variable [Statement ι σ]

theorem returnsAt_pure (a : α) (s : σ) : (Pure.pure a : Op ι σ μ ε α).ReturnsAt s a := by
  intro c b h
  cases h
  rfl

theorem ReturnsAt.bind {p : Op ι σ μ ε α} {f : α → Op ι σ μ ε β} {s : σ} {r : β}
    (hf : ∀ c a, (p s c).res = .ok a → (f a).ReturnsAt (p.final s c) r) :
    (p >>= f).ReturnsAt s r := by
  intro c b hb
  cases h : (p s c).res with
  | ok a =>
    rw [bind_of_ok h] at hb
    exact hf c a h _ _ hb
  | error e =>
    rw [bind_of_error h] at hb
    cases hb

omit [Statement ι σ] in
theorem returnsAt_query (read : σ → α) (s : σ) : (query read : Op ι σ μ ε α).ReturnsAt s (read s) := by
  intro c a h
  unfold query step at h
  split at h
  · cases h
  · cases h
    rfl

theorem final_query (read : σ → α) (s : σ) (c : Ctl μ ε) :
    (query read : Op ι σ μ ε α).final s c = s := by
  unfold final query step
  split <;> rfl

theorem ReturnsAt.query_bind {read : σ → α} {f : α → Op ι σ μ ε β} {s : σ} {r : β}
    (h : (f (read s)).ReturnsAt s r) : (query read >>= f).ReturnsAt s r := by
  refine ReturnsAt.bind fun c a ha => ?_
  rw [returnsAt_query read s c a ha, final_query]
  exact h

end Returns

/-! ## Operations that swallow their faults -/

section Succeeds

/-- The operation never fails. -/
def Succeeds (p : Op ι σ μ ε α) : Prop := ∀ s c, ∃ a, (p s c).res = .ok a

variable [Statement ι σ]

theorem succeeds_pure (a : α) : (Pure.pure a : Op ι σ μ ε α).Succeeds := fun _ _ => ⟨a, rfl⟩

theorem Succeeds.bind {p : Op ι σ μ ε α} {f : α → Op ι σ μ ε β} (hp : p.Succeeds)
    (hf : ∀ a, (f a).Succeeds) : (p >>= f).Succeeds := by
  intro s c
  obtain ⟨a, ha⟩ := hp s c
  obtain ⟨b, hb⟩ := hf a (replay (p s c).log s) (p s c).ctl
  exact ⟨b, by rw [bind_of_ok ha, hb]⟩

theorem succeeds_forEach {as : List α} {body : α → Op ι σ μ ε Unit}
    (h : ∀ a, (body a).Succeeds) : (forEach as body).Succeeds := by
  induction as with
  | nil => exact succeeds_pure ()
  | cons a as ih => exact (h a).bind fun _ => ih

theorem succeeds_tryCatch (p : Op ι σ μ ε α) {handler : ε → Op ι σ μ ε α}
    (h : ∀ e, (handler e).Succeeds) : (p.tryCatch handler).Succeeds := by
  intro s c
  unfold Op.tryCatch
  split
  · next a _ => exact ⟨a, rfl⟩
  · exact h _ _ _

/-- What fails before an operation that never fails has failed by itself. -/
theorem error_of_bind {p : Op ι σ μ ε α} {f : α → Op ι σ μ ε β} (hf : ∀ a, (f a).Succeeds) {s : σ}
    {c : Ctl μ ε} {e : ε} (h : ((p >>= f) s c).res = .error e) :
    (p s c).res = .error e ∧ ((p >>= f) s c).log = (p s c).log := by
  cases hp : (p s c).res with
  | ok a =>
    obtain ⟨b, hb⟩ := hf a (replay (p s c).log s) (p s c).ctl
    rw [bind_of_ok hp] at h
    exact absurd (h.symm.trans hb) (by simp)
  | error e' =>
    rw [bind_of_error hp] at h ⊢
    have he : e' = e := by simpa using h
    rw [he]
    exact ⟨rfl, rfl⟩

end Succeeds

/-! ## Runs without faults -/

/-- Without faults, the run from `s` with memory `m` returns `a`, executes `log` and leaves
memory `m'`. -/
def Runs (p : Op ι σ μ ε α) (s : σ) (m : μ) (a : α) (log : List ι) (m' : μ) : Prop :=
  p s ⟨m, []⟩ = ⟨.ok a, log, ⟨m', []⟩⟩

section Runs

theorem runs_step (group : List ι) (read : σ → α) (s : σ) (m : μ) :
    (step group read : Op ι σ μ ε α).Runs s m (read s) group m := rfl

theorem runs_query (read : σ → α) (s : σ) (m : μ) :
    (query read : Op ι σ μ ε α).Runs s m (read s) [] m := rfl

theorem runs_run (i : ι) (s : σ) (m : μ) : (run i : Op ι σ μ ε Unit).Runs s m () [i] m := rfl

theorem runs_mem (f : μ → α × μ) (s : σ) (m : μ) :
    (mem f : Op ι σ μ ε α).Runs s m (f m).1 [] (f m).2 := rfl

/-- What a run without faults keeps is the whole list. -/
theorem Runs.filterMap_eq {p : Op ι σ μ ε α} {s : σ} {m m' : μ} {a : α} {log : List ι}
    {π : ι → Option κ} {k : List κ} (h : p.Runs s m a log m') (hw : p.WritesAt π s k) :
    log.filterMap π = k := by
  have := (hw ⟨m, []⟩).2 a
  rw [h] at this
  exact this rfl

/-- Without faults the operation always succeeds. -/
def Completes (p : Op ι σ μ ε α) : Prop := ∀ s m, ∃ a log m', p.Runs s m a log m'

theorem completes_step (group : List ι) (read : σ → α) :
    (step group read : Op ι σ μ ε α).Completes :=
  fun s m => ⟨_, _, _, runs_step group read s m⟩

theorem completes_query (read : σ → α) : (query read : Op ι σ μ ε α).Completes :=
  completes_step [] read

theorem completes_run (i : ι) : (run i : Op ι σ μ ε Unit).Completes := completes_step [i] _

theorem completes_mem (f : μ → α × μ) : (mem f : Op ι σ μ ε α).Completes :=
  fun s m => ⟨_, _, _, runs_mem f s m⟩

variable [Statement ι σ]

theorem runs_pure (a : α) (s : σ) (m : μ) :
    (Pure.pure a : Op ι σ μ ε α).Runs s m a [] m := rfl

theorem Runs.bind {p : Op ι σ μ ε α} {f : α → Op ι σ μ ε β} {s : σ} {m m' m'' : μ} {a : α}
    {b : β} {log log' : List ι} (hp : p.Runs s m a log m')
    (hf : (f a).Runs (replay log s) m' b log' m'') : (p >>= f).Runs s m b (log ++ log') m'' := by
  unfold Runs at *
  have hres : (p s ⟨m, []⟩).res = .ok a := by rw [hp]
  rw [bind_of_ok hres, hp]
  simp only [hf]

theorem Runs.when {cond : Prop} [Decidable cond] {p : Op ι σ μ ε Unit} {s : σ} {m m' : μ}
    {log : List ι} (hc : cond) (hp : p.Runs s m () log m') : (Op.when cond p).Runs s m () log m' := by
  unfold Op.when
  rwa [if_pos hc]

theorem runs_when_not {cond : Prop} [Decidable cond] {p : Op ι σ μ ε Unit} (hc : ¬ cond) (s : σ)
    (m : μ) : (Op.when cond p).Runs s m () [] m := by
  unfold Op.when
  rw [if_neg hc]
  rfl

theorem Runs.tryCatch {p : Op ι σ μ ε α} {handler : ε → Op ι σ μ ε α} {s : σ} {m m' : μ} {a : α}
    {log : List ι} (hp : p.Runs s m a log m') : (p.tryCatch handler).Runs s m a log m' := by
  unfold Runs at *
  unfold Op.tryCatch
  rw [hp]

theorem Runs.final {p : Op ι σ μ ε α} {s : σ} {m m' : μ} {a : α} {log : List ι}
    (h : p.Runs s m a log m') : p.final s ⟨m, []⟩ = replay log s := by
  unfold Op.final
  rw [h]

theorem completes_pure (a : α) : (Pure.pure a : Op ι σ μ ε α).Completes :=
  fun s m => ⟨_, _, _, runs_pure a s m⟩

theorem Completes.bind {p : Op ι σ μ ε α} {f : α → Op ι σ μ ε β} (hp : p.Completes)
    (hf : ∀ a, (f a).Completes) : (p >>= f).Completes := by
  intro s m
  obtain ⟨a, log, m', h⟩ := hp s m
  obtain ⟨b, log', m'', h'⟩ := hf a (replay log s) m'
  exact ⟨b, log ++ log', m'', h.bind h'⟩

theorem completes_when {cond : Prop} [Decidable cond] {p : Op ι σ μ ε Unit}
    (h : cond → p.Completes) : (when cond p).Completes := by
  unfold when
  split
  · next hc => exact h hc
  · exact completes_pure ()

theorem completes_forEach {as : List α} {body : α → Op ι σ μ ε Unit}
    (h : ∀ a ∈ as, (body a).Completes) : (forEach as body).Completes := by
  induction as with
  | nil => exact completes_pure ()
  | cons a as ih =>
    exact (h a List.mem_cons_self).bind fun _ => ih fun b hb => h b (List.mem_cons_of_mem _ hb)

/-- Without faults a loop of statements executes them all. -/
theorem runs_forEach_run (group : List ι) (s : σ) (m : μ) :
    (forEach group run : Op ι σ μ ε Unit).Runs s m () group m := by
  induction group generalizing s with
  | nil => exact runs_pure () s m
  | cons i group ih =>
    exact Runs.bind (f := fun _ => forEach group run) (runs_run i s m) (ih _)

theorem Completes.tryCatch {p : Op ι σ μ ε α} (handler : ε → Op ι σ μ ε α) (hp : p.Completes) :
    (p.tryCatch handler).Completes := by
  intro s m
  obtain ⟨a, log, m', h⟩ := hp s m
  exact ⟨a, log, m', h.tryCatch⟩

end Runs

end Op

end Journal
