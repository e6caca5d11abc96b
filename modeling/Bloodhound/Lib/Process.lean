import Mathlib.Logic.Function.Basic
import Mathlib.Logic.Relation
import Bloodhound.Lib.Journal

/-!
# Interleaved processes

A process executes groups of statements on a shared state, one group at a time, and any
group may fail instead; between two of its groups the other processes execute theirs. A
process is a tree that is resumed with the state that a group was executed in, or with the
error it failed with. A configuration holds the shared state, one process for each party,
and the history of what was executed.

* `Process` is a monad with exceptions; `within` labels the groups of a part of a process.
* `Config.Run` is the interleaving of all parties, in which every event meets a guard.
* `Holds` is a rely-guarantee logic: what a process does, whatever the guaranteed and guarded
  steps of the other parties do in between. `Config.Run.guarantee` composes the parties.
-/

/-- Processes with statements `ι` on states `σ` and errors `ε`; `ℓ` labels the groups. -/
inductive Process (ℓ ι σ ε α : Type) : Type where
  | ret (result : Except ε α)
  | step (label : ℓ) (group : List ι) (next : Except ε σ → Process ℓ ι σ ε α)
  | observe (next : Nat → Process ℓ ι σ ε α)

namespace Process

open Journal

variable {ℓ ι σ ε κ α β : Type}

/-! ## The monad of processes -/

protected def bind : Process ℓ ι σ ε α → (α → Process ℓ ι σ ε β) → Process ℓ ι σ ε β
  | .ret (.ok a), f => f a
  | .ret (.error e), _ => .ret (.error e)
  | .step l g next, f => .step l g fun r => (next r).bind f
  | .observe next, f => .observe fun n => (next n).bind f

instance : Monad (Process ℓ ι σ ε) where
  pure a := .ret (.ok a)
  bind := Process.bind

protected def tryCatch : Process ℓ ι σ ε α → (ε → Process ℓ ι σ ε α) → Process ℓ ι σ ε α
  | .ret (.ok a), _ => .ret (.ok a)
  | .ret (.error e), handler => handler e
  | .step l g next, handler => .step l g fun r => (next r).tryCatch handler
  | .observe next, handler => .observe fun n => (next n).tryCatch handler

/-- The process with all its groups labelled anew. -/
def within (label : ℓ) : Process ℓ ι σ ε α → Process ℓ ι σ ε α
  | .ret r => .ret r
  | .step _ g next => .step label g fun r => (next r).within label
  | .observe next => .observe fun n => (next n).within label

theorem within_bind (label : ℓ) (p : Process ℓ ι σ ε α) (f : α → Process ℓ ι σ ε β) :
    (p >>= f).within label = p.within label >>= fun a => (f a).within label := by
  show (p.bind f).within label = (p.within label).bind fun a => (f a).within label
  induction p with
  | ret r => cases r <;> rfl
  | step l g next ih => exact congrArg (Process.step label g) (funext fun r => ih r)
  | observe next ih => exact congrArg Process.observe (funext fun n => ih n)

/-- Execute a group as one unit and read the state before it. -/
def execute [Inhabited ℓ] (group : List ι) (read : σ → α) : Process ℓ ι σ ε α :=
  .step default group fun r => .ret (r.map read)

/-- Something that the process sees of the outside. -/
def input : Process ℓ ι σ ε Nat := .observe fun n => .ret (.ok n)

/-! ## Configurations -/

/-- What a party has executed: a group, or a fault in its place. -/
structure Event (κ ℓ ι ε : Type) where
  process : κ
  label : ℓ
  outcome : Except ε (List ι)

/-- The shared state and the history, the newest event first. -/
structure View (κ ℓ ι σ ε : Type) where
  state : σ
  history : List (Event κ ℓ ι ε)

variable [Statement ι σ]

def Event.effect (ev : Event κ ℓ ι ε) (s : σ) : σ :=
  match ev.outcome with
  | .ok group => replay group s
  | .error _ => s

def View.after (v : View κ ℓ ι σ ε) (ev : Event κ ℓ ι ε) : View κ ℓ ι σ ε :=
  ⟨ev.effect v.state, ev :: v.history⟩

structure Config (κ ℓ ι σ ε : Type) where
  view : View κ ℓ ι σ ε
  process : κ → Process ℓ ι σ ε Unit

section Runs

variable [DecidableEq κ]

/-- One party executes its next group, fails at it, or observes something. -/
inductive Config.Step (guard : View κ ℓ ι σ ε → Event κ ℓ ι ε → Prop) :
    Config κ ℓ ι σ ε → Config κ ℓ ι σ ε → Prop where
  | execute (c : Config κ ℓ ι σ ε) (k : κ) (l : ℓ) (g : List ι)
      (next : Except ε σ → Process ℓ ι σ ε Unit) (h : c.process k = .step l g next)
      (hGuard : guard c.view ⟨k, l, .ok g⟩) :
      Config.Step guard c ⟨c.view.after ⟨k, l, .ok g⟩,
        Function.update c.process k (next (.ok c.view.state))⟩
  | fail (c : Config κ ℓ ι σ ε) (k : κ) (l : ℓ) (g : List ι)
      (next : Except ε σ → Process ℓ ι σ ε Unit) (e : ε) (h : c.process k = .step l g next)
      (hGuard : guard c.view ⟨k, l, .error e⟩) :
      Config.Step guard c ⟨c.view.after ⟨k, l, .error e⟩,
        Function.update c.process k (next (.error e))⟩
  | observe (c : Config κ ℓ ι σ ε) (k : κ) (next : Nat → Process ℓ ι σ ε Unit) (n : Nat)
      (h : c.process k = .observe next) :
      Config.Step guard c ⟨c.view, Function.update c.process k (next n)⟩

/-- The interleavings in which every event meets the guard. -/
abbrev Config.Run (guard : View κ ℓ ι σ ε → Event κ ℓ ι ε → Prop) :
    Config κ ℓ ι σ ε → Config κ ℓ ι σ ε → Prop :=
  Relation.ReflTransGen (Config.Step guard)

/-! ## Schedules -/

/-- What the next step of a party is. -/
inductive Choice (ε : Type) where
  | execute
  | fail (e : ε)
  | observe (n : Nat)

/-- One step of a party, where its process has one. -/
def Config.advance (c : Config κ ℓ ι σ ε) (k : κ) (choice : Choice ε) : Config κ ℓ ι σ ε :=
  match c.process k, choice with
  | .step l g next, .execute =>
    ⟨c.view.after ⟨k, l, .ok g⟩, Function.update c.process k (next (.ok c.view.state))⟩
  | .step l _ next, .fail e =>
    ⟨c.view.after ⟨k, l, .error e⟩, Function.update c.process k (next (.error e))⟩
  | .observe next, .observe n => ⟨c.view, Function.update c.process k (next n)⟩
  | _, _ => c

/-- The configuration after a schedule. -/
def Config.follow (schedule : List (κ × Choice ε)) (c : Config κ ℓ ι σ ε) : Config κ ℓ ι σ ε :=
  schedule.foldl (fun c e => c.advance e.1 e.2) c

/-- The event of the next step of a party, where it has one. -/
def Config.event (c : Config κ ℓ ι σ ε) (k : κ) (choice : Choice ε) : Option (Event κ ℓ ι ε) :=
  match c.process k, choice with
  | .step l g _, .execute => some ⟨k, l, .ok g⟩
  | .step l _ _, .fail e => some ⟨k, l, .error e⟩
  | _, _ => none

theorem Config.run_advance {guard : View κ ℓ ι σ ε → Event κ ℓ ι ε → Prop} (c : Config κ ℓ ι σ ε)
    (k : κ) (choice : Choice ε) (h : ∀ ev, c.event k choice = some ev → guard c.view ev) :
    Config.Run guard c (c.advance k choice) := by
  unfold Config.event at h
  unfold Config.advance
  split
  · next l g next hp =>
    rw [hp] at h
    exact .single (.execute c k l g next hp (h _ rfl))
  · next l g next err hp =>
    rw [hp] at h
    exact .single (.fail c k l g next err hp (h _ rfl))
  · next next n hp => exact .single (.observe c k next n hp)
  · exact .refl

/-- The outcomes of an event that the choice stands for. -/
def Choice.Gives : Choice ε → Except ε (List ι) → Prop
  | .execute, .ok _ => True
  | .fail e, .error e' => e' = e
  | _, _ => False

omit [Statement ι σ] [DecidableEq κ] in
theorem Config.gives_event {c : Config κ ℓ ι σ ε} {k : κ} {choice : Choice ε} {ev : Event κ ℓ ι ε}
    (h : c.event k choice = some ev) : ev.process = k ∧ choice.Gives ev.outcome := by
  unfold Config.event at h
  split at h
  · cases h
    exact ⟨rfl, trivial⟩
  · cases h
    exact ⟨rfl, rfl⟩
  · cases h

/-- A schedule whose events meet the guard is an interleaving. -/
theorem Config.run_follow {guard : View κ ℓ ι σ ε → Event κ ℓ ι ε → Prop}
    (schedule : List (κ × Choice ε)) (c : Config κ ℓ ι σ ε)
    (hGuard : ∀ e ∈ schedule, ∀ v (ev : Event κ ℓ ι ε), ev.process = e.1 → e.2.Gives ev.outcome →
      guard v ev) : Config.Run guard c (c.follow schedule) := by
  induction schedule generalizing c with
  | nil => exact .refl
  | cons e rest ih =>
    have hRest := ih (c.advance e.1 e.2) fun e' he' => hGuard e' (List.mem_cons_of_mem _ he')
    refine Relation.ReflTransGen.trans (c.run_advance e.1 e.2 fun ev hEvent => ?_) hRest
    obtain ⟨hProcess, hGives⟩ := Config.gives_event hEvent
    exact hGuard e List.mem_cons_self _ ev hProcess hGives

/-- The check admits every event of the schedule. -/
def Config.admits (check : View κ ℓ ι σ ε → Event κ ℓ ι ε → Bool) :
    List (κ × Choice ε) → Config κ ℓ ι σ ε → Bool
  | [], _ => true
  | e :: rest, c => (c.event e.1 e.2).all (check c.view) && (c.advance e.1 e.2).admits check rest

/-- A schedule that a check admits is an interleaving whose events meet what the check implies. -/
theorem Config.run_of_admits {check : View κ ℓ ι σ ε → Event κ ℓ ι ε → Bool}
    {guard : View κ ℓ ι σ ε → Event κ ℓ ι ε → Prop} (hCheck : ∀ v ev, check v ev = true → guard v ev)
    {schedule : List (κ × Choice ε)} {c : Config κ ℓ ι σ ε} (h : c.admits check schedule = true) :
    Config.Run guard c (c.follow schedule) := by
  induction schedule generalizing c with
  | nil => exact .refl
  | cons e rest ih =>
    obtain ⟨hHead, hRest⟩ := Bool.and_eq_true_iff.mp h
    refine Relation.ReflTransGen.trans (c.run_advance e.1 e.2 fun ev hEvent => ?_) (ih hRest)
    rw [hEvent] at hHead
    exact hCheck _ ev hHead

end Runs

/-! ## Rely and guarantee -/

section Logic

variable (guard : View κ ℓ ι σ ε → Event κ ℓ ι ε → Prop)
  (G : κ → View κ ℓ ι σ ε → View κ ℓ ι σ ε → Prop) (k : κ)

/-- A guarded and guaranteed step of another party. -/
def OtherStep (v v' : View κ ℓ ι σ ε) : Prop :=
  ∃ ev : Event κ ℓ ι ε, ev.process ≠ k ∧ guard v ev ∧ v' = v.after ev ∧ G ev.process v v'

/-- What the other parties do between two groups of a party. -/
abbrev Rely : View κ ℓ ι σ ε → View κ ℓ ι σ ε → Prop := Relation.ReflTransGen (OtherStep guard G k)

/-- The steps of the other parties keep the condition. -/
def Stable (P : View κ ℓ ι σ ε → Prop) : Prop := ∀ v v', P v → OtherStep guard G k v v' → P v'

/-- Every step of the process, whatever the other parties do in between, keeps the guarantee, and
it ends in `Q`. -/
def Holds : Process ℓ ι σ ε α → (Except ε α → View κ ℓ ι σ ε → Prop) → View κ ℓ ι σ ε → Prop
  | .ret r, Q, v => Q r v
  | .step l g next, Q, v => ∀ v', Rely guard G k v v' →
    (guard v' ⟨k, l, .ok g⟩ → G k v' (v'.after ⟨k, l, .ok g⟩) ∧
      Holds (next (.ok v'.state)) Q (v'.after ⟨k, l, .ok g⟩)) ∧
    ∀ e, guard v' ⟨k, l, .error e⟩ → G k v' (v'.after ⟨k, l, .error e⟩) ∧
      Holds (next (.error e)) Q (v'.after ⟨k, l, .error e⟩)
  | .observe next, Q, v => ∀ n, Holds (next n) Q v

variable {guard G k}

theorem Stable.rely {P : View κ ℓ ι σ ε → Prop} (h : Stable guard G k P) {v v' : View κ ℓ ι σ ε}
    (hv : P v) (hRely : Rely guard G k v v') : P v' := by
  induction hRely with
  | refl => exact hv
  | tail _ hStep ih => exact h _ _ ih hStep

theorem Stable.and {P P' : View κ ℓ ι σ ε → Prop} (h : Stable guard G k P)
    (h' : Stable guard G k P') : Stable guard G k fun v => P v ∧ P' v :=
  fun v v' hv hStep => ⟨h v v' hv.1 hStep, h' v v' hv.2 hStep⟩

/-- What a process does does not depend on steps of the others before it. -/
theorem Holds.rely {p : Process ℓ ι σ ε α} {Q : Except ε α → View κ ℓ ι σ ε → Prop}
    (hQ : ∀ r, Stable guard G k (Q r)) {v v' : View κ ℓ ι σ ε} (h : Holds guard G k p Q v)
    (hRely : Rely guard G k v v') : Holds guard G k p Q v' := by
  induction p with
  | ret r => exact (hQ r).rely h hRely
  | step l g next _ => exact fun v'' h' => h v'' (hRely.trans h')
  | observe next ih => exact fun n => ih n (h n)

/-- The guarded runs of parties that hold to their guarantees: every event is one that its party
guarantees, and the parties still hold to them. -/
theorem Config.Run.guarantee [DecidableEq κ] {c c' : Config κ ℓ ι σ ε} (h : Config.Run guard c c')
    (hc : ∀ j, Holds guard G j (c.process j) (fun _ _ => True) c.view) :
    Relation.ReflTransGen (fun v v' => ∃ j, G j v v') c.view c'.view ∧
      ∀ j, Holds guard G j (c'.process j) (fun _ _ => True) c'.view := by
  have hTrue : ∀ j r, Stable guard G j ((fun (_ : Except ε Unit) (_ : View κ ℓ ι σ ε) => True) r) :=
    fun _ _ _ _ _ _ => trivial
  -- the party that has moved goes on from its own step, the others see it as a step of another
  have hNext : ∀ {c₁ : Config κ ℓ ι σ ε} (ev : Event κ ℓ ι ε) {p : Process ℓ ι σ ε Unit},
      guard c₁.view ev → G ev.process c₁.view (c₁.view.after ev) →
      (∀ j, Holds guard G j (c₁.process j) (fun _ _ => True) c₁.view) →
      Holds guard G ev.process p (fun _ _ => True) (c₁.view.after ev) →
      ∀ j, Holds guard G j (Function.update c₁.process ev.process p j) (fun _ _ => True)
        (c₁.view.after ev) := by
    intro c₁ ev p hGuard hG hAll hp j
    by_cases hj : j = ev.process
    · subst hj
      rwa [Function.update_self]
    · rw [Function.update_of_ne hj]
      exact (hAll j).rely (hTrue j) (.single ⟨ev, Ne.symm hj, hGuard, rfl, hG⟩)
  induction h with
  | refl => exact ⟨.refl, hc⟩
  | tail _ hStep ih =>
    obtain ⟨hViews, hAll⟩ := ih
    cases hStep with
    | execute k l g next hp hGuard =>
      have hHolds := hAll k
      rw [hp] at hHolds
      obtain ⟨hG, hRest⟩ := (hHolds _ .refl).1 hGuard
      exact ⟨hViews.tail ⟨k, hG⟩, hNext ⟨k, l, .ok g⟩ hGuard hG hAll hRest⟩
    | fail k l g next e hp hGuard =>
      have hHolds := hAll k
      rw [hp] at hHolds
      obtain ⟨hG, hRest⟩ := (hHolds _ .refl).2 e hGuard
      exact ⟨hViews.tail ⟨k, hG⟩, hNext ⟨k, l, .error e⟩ hGuard hG hAll hRest⟩
    | observe k next n hp =>
      refine ⟨hViews, fun j => ?_⟩
      dsimp only
      by_cases hj : j = k
      · subst hj
        have hHolds := hAll j
        rw [hp] at hHolds
        rw [Function.update_self]
        exact hHolds n
      · rw [Function.update_of_ne hj]
        exact hAll j

/-! ### Rules -/

variable {P : View κ ℓ ι σ ε → Prop} {Q Q' : Except ε α → View κ ℓ ι σ ε → Prop}

theorem Holds.post {p : Process ℓ ι σ ε α} {v : View κ ℓ ι σ ε} (h : Holds guard G k p Q v)
    (hQ : ∀ r v, Q r v → Q' r v) : Holds guard G k p Q' v := by
  induction p generalizing v with
  | ret r => exact hQ r v h
  | step l g next ih =>
    intro v' hRely
    obtain ⟨hOk, hError⟩ := h v' hRely
    exact ⟨fun hGuard => ⟨(hOk hGuard).1, ih _ (hOk hGuard).2⟩,
      fun e hGuard => ⟨(hError e hGuard).1, ih _ (hError e hGuard).2⟩⟩
  | observe next ih => exact fun n => ih n (h n)

theorem Holds.bind {p : Process ℓ ι σ ε α} {f : α → Process ℓ ι σ ε β}
    {R : Except ε β → View κ ℓ ι σ ε → Prop} {v : View κ ℓ ι σ ε} (h : Holds guard G k p Q v)
    (hOk : ∀ a v, Q (.ok a) v → Holds guard G k (f a) R v)
    (hError : ∀ e v, Q (.error e) v → R (.error e) v) : Holds guard G k (p >>= f) R v := by
  show Holds guard G k (p.bind f) R v
  induction p generalizing v with
  | ret r =>
    cases r with
    | ok a => exact hOk a v h
    | error e => exact hError e v h
  | step l g next ih =>
    intro v' hRely
    obtain ⟨hNext, hFail⟩ := h v' hRely
    exact ⟨fun hGuard => ⟨(hNext hGuard).1, ih _ (hNext hGuard).2⟩,
      fun e hGuard => ⟨(hFail e hGuard).1, ih _ (hFail e hGuard).2⟩⟩
  | observe next ih => exact fun n => ih n (h n)

theorem Holds.within_bind {label : ℓ} {p : Process ℓ ι σ ε α} {f : α → Process ℓ ι σ ε β}
    {R : Except ε β → View κ ℓ ι σ ε → Prop} {v : View κ ℓ ι σ ε}
    (h : Holds guard G k (p.within label) Q v)
    (hOk : ∀ a v, Q (.ok a) v → Holds guard G k ((f a).within label) R v)
    (hError : ∀ e v, Q (.error e) v → R (.error e) v) :
    Holds guard G k ((p >>= f).within label) R v := by
  rw [Process.within_bind]
  exact h.bind hOk hError

theorem Holds.tryCatch {p : Process ℓ ι σ ε α} {handler : ε → Process ℓ ι σ ε α}
    {R : Except ε α → View κ ℓ ι σ ε → Prop} {v : View κ ℓ ι σ ε} (h : Holds guard G k p Q v)
    (hOk : ∀ a v, Q (.ok a) v → R (.ok a) v)
    (hError : ∀ e v, Q (.error e) v → Holds guard G k (handler e) R v) :
    Holds guard G k (p.tryCatch handler) R v := by
  induction p generalizing v with
  | ret r =>
    cases r with
    | ok a => exact hOk a v h
    | error e => exact hError e v h
  | step l g next ih =>
    intro v' hRely
    obtain ⟨hNext, hFail⟩ := h v' hRely
    exact ⟨fun hGuard => ⟨(hNext hGuard).1, ih _ (hNext hGuard).2⟩,
      fun e hGuard => ⟨(hFail e hGuard).1, ih _ (hFail e hGuard).2⟩⟩
  | observe next ih => exact fun n => ih n (h n)

/-- One group, by a condition that the other parties keep. -/
theorem holds_step (hStable : Stable guard G k P) {l : ℓ} {g : List ι}
    {next : Except ε σ → Process ℓ ι σ ε α} {v : View κ ℓ ι σ ε} (hv : P v)
    (hOk : ∀ v, P v → guard v ⟨k, l, .ok g⟩ → G k v (v.after ⟨k, l, .ok g⟩) ∧
      Holds guard G k (next (.ok v.state)) Q (v.after ⟨k, l, .ok g⟩))
    (hError : ∀ v e, P v → guard v ⟨k, l, .error e⟩ → G k v (v.after ⟨k, l, .error e⟩) ∧
      Holds guard G k (next (.error e)) Q (v.after ⟨k, l, .error e⟩)) :
    Holds guard G k (.step l g next) Q v := fun v' hRely =>
  have hv' := hStable.rely hv hRely
  ⟨hOk v' hv', fun e => hError v' e hv'⟩

/-- Every group of the process satisfies the predicate. -/
def Emits (S : List ι → Prop) : Process ℓ ι σ ε α → Prop
  | .ret _ => True
  | .step _ g next => S g ∧ ∀ r, (next r).Emits S
  | .observe next => ∀ n, (next n).Emits S

omit [Statement ι σ] in
theorem Emits.bind {S : List ι → Prop} {p : Process ℓ ι σ ε α} {f : α → Process ℓ ι σ ε β}
    (h : p.Emits S) (hf : ∀ a, (f a).Emits S) : (p >>= f).Emits S := by
  show (p.bind f).Emits S
  induction p with
  | ret r =>
    cases r with
    | ok a => exact hf a
    | error e => trivial
  | step l g next ih => exact ⟨h.1, fun r => ih r (h.2 r)⟩
  | observe next ih => exact fun n => ih n (h n)

omit [Statement ι σ] in
theorem Emits.within {S : List ι → Prop} {p : Process ℓ ι σ ε α} (h : p.Emits S) (label : ℓ) :
    (p.within label).Emits S := by
  induction p with
  | ret r => trivial
  | step l g next ih => exact ⟨h.1, fun r => ih r (h.2 r)⟩
  | observe next ih => exact fun n => ih n (h n)

/-- The process throws only where one of its groups fails. -/
def Steady : Process ℓ ι σ ε α → Prop
  | .ret r => r.isOk = true
  | .step _ _ next => ∀ s, (next (.ok s)).Steady
  | .observe next => ∀ n, (next n).Steady

omit [Statement ι σ] in
theorem Steady.bind {p : Process ℓ ι σ ε α} {f : α → Process ℓ ι σ ε β} (h : p.Steady)
    (hf : ∀ a, (f a).Steady) : (p >>= f).Steady := by
  show (p.bind f).Steady
  induction p with
  | ret r =>
    cases r with
    | ok a => exact hf a
    | error e => cases h
  | step l g next ih => exact fun s => ih (.ok s) (h s)
  | observe next ih => exact fun n => ih n (h n)

/-- Where no group can fail, a steady process ends without an error. -/
theorem holds_of_steady {S : List ι → Prop} (label : ℓ) (hStable : Stable guard G k P)
    {p : Process ℓ ι σ ε α} (hp : p.Emits S) (hSteady : p.Steady)
    (hOk : ∀ v g, S g → P v → guard v ⟨k, label, .ok g⟩ → G k v (v.after ⟨k, label, .ok g⟩) ∧
      P (v.after ⟨k, label, .ok g⟩))
    (hError : ∀ v e, P v → ¬ guard v ⟨k, label, .error e⟩)
    {v : View κ ℓ ι σ ε} (hv : P v) :
    Holds guard G k (p.within label) (fun r v => r.isOk = true ∧ P v) v := by
  induction p generalizing v with
  | ret r => exact ⟨hSteady, hv⟩
  | step l g next ih =>
    refine holds_step hStable hv (fun v hv hGuard => ?_) fun v e hv hGuard => ?_
    · obtain ⟨hG, hP⟩ := hOk v g hp.1 hv hGuard
      exact ⟨hG, ih (.ok v.state) (hp.2 _) (hSteady v.state) hP⟩
    · exact absurd hGuard (hError v e hv)
  | observe next ih => exact fun n => ih n (hp n) (hSteady n) hv

/-- A condition that the other parties and all groups of the process keep holds at its end. -/
theorem holds_of_emits {S : List ι → Prop} (hStable : Stable guard G k P)
    {p : Process ℓ ι σ ε α} (hp : p.Emits S)
    (hOk : ∀ v l g, S g → P v → guard v ⟨k, l, .ok g⟩ → G k v (v.after ⟨k, l, .ok g⟩) ∧
      P (v.after ⟨k, l, .ok g⟩))
    (hError : ∀ v l e, P v → guard v ⟨k, l, .error e⟩ → G k v (v.after ⟨k, l, .error e⟩) ∧
      P (v.after ⟨k, l, .error e⟩))
    {v : View κ ℓ ι σ ε} (hv : P v) : Holds guard G k p (fun _ => P) v := by
  induction p generalizing v with
  | ret r => exact hv
  | step l g next ih =>
    refine holds_step hStable hv (fun v hv hGuard => ?_) fun v e hv hGuard => ?_
    · obtain ⟨hG, hP⟩ := hOk v l g hp.1 hv hGuard
      exact ⟨hG, ih _ (hp.2 _) hP⟩
    · obtain ⟨hG, hP⟩ := hError v l e hv hGuard
      exact ⟨hG, ih _ (hp.2 _) hP⟩
  | observe next ih => exact fun n => ih n (hp n) hv

end Logic

/-! ## Invariants of the history -/

end Process
