import Mathlib.Logic.Function.Basic
import Bloodhound.Lib.Machine

/-!
# The tick lease

`tryAcquireTickLease` and `clearTickLease` of `store.ts`, and the workers that take the lease around a
tick and release it afterwards (`clearTickLeaseSafe`), also when the tick has run past the end of the
lease. Every statement and every reading of the clock is an event of its own.

The release is not tied to its owner: a worker that has overrun its lease releases the lease of the next
one. The lease is exclusive in the runs in which no worker releases it while another one holds it
(`exclusive_of_ownClears`).
-/

namespace Bloodhound.Indexer.TickLease

/-! ## The statements -/

/-- `tick_lease_until` of `scheduler_state`, in milliseconds. -/
abbrev LeaseRow : Type := Option Nat

/-- The update of `tryAcquireTickLease`, and the number of rows that it changes. -/
def tryAcquireUpdate (nowIso untilIso : Nat) (tickLeaseUntil : LeaseRow) : LeaseRow × Nat :=
  if tickLeaseUntil.all (· < nowIso) then (some untilIso, 1) else (tickLeaseUntil, 0)

/-- The update of `clearTickLease`. -/
def clearUpdate (_ : LeaseRow) : LeaseRow := none

/-! ## Workers -/

/-- Where a worker is between its statements. -/
inductive Phase where
  | idle
  | started (nowIso : Nat)
  | ready (nowIso untilIso : Nat)
  | running (untilIso : Nat)
  deriving DecidableEq, Repr

inductive Event (ω : Type) where
  | wait (ms : Nat)
  | readNow (k : ω)
  | readUntil (k : ω) (leaseMs : Nat)
  | acquire (k : ω)
  | acquireFails (k : ω)
  | clear (k : ω)
  | clearFails (k : ω)

structure World (ω : Type) where
  clock : Nat
  tickLeaseUntil : LeaseRow
  phase : ω → Phase

section Workers

variable {ω : Type} [DecidableEq ω]

def World.at (w : World ω) (k : ω) (p : Phase) : World ω :=
  { w with phase := Function.update w.phase k p }

/-- One event. A worker releases the lease when its tick has ended, or when it is shut down, whether it
holds the lease or not; an error of the release is logged only. -/
def World.perform : Event ω → World ω → Option (World ω)
  | .wait ms, w => some { w with clock := w.clock + ms }
  | .readNow k, w =>
    match w.phase k with
    | .idle => some (w.at k (.started w.clock))
    | _ => none
  | .readUntil k leaseMs, w =>
    match w.phase k with
    | .started nowIso => some (w.at k (.ready nowIso (w.clock + max 1 leaseMs)))
    | _ => none
  | .acquire k, w =>
    match w.phase k with
    | .ready nowIso untilIso =>
      let (tickLeaseUntil, changes) := tryAcquireUpdate nowIso untilIso w.tickLeaseUntil
      some ({ w with tickLeaseUntil := tickLeaseUntil }.at k
        (if 0 < changes then .running untilIso else .idle))
    | _ => none
  | .acquireFails k, w =>
    match w.phase k with
    | .ready _ _ => some (w.at k .idle)
    | _ => none
  | .clear k, w => some ({ w with tickLeaseUntil := clearUpdate w.tickLeaseUntil }.at k .idle)
  | .clearFails k, w => some (w.at k .idle)

/-- No worker has started, and no lease is stored. -/
def World.start : World ω := ⟨0, none, fun _ => .idle⟩

/-- The worker holds a lease that has not expired. -/
def World.Holds (w : World ω) (k : ω) : Prop :=
  ∃ untilIso, w.phase k = .running untilIso ∧ w.clock ≤ untilIso

/-- A worker that holds an unexpired lease is the only one, and keeps the others from acquiring theirs. -/
def World.Exclusive (w : World ω) : Prop :=
  ∀ k, w.Holds k → (∀ j, w.Holds j → j = k) ∧
    ∀ j w', World.perform (.acquire j) w = some w' → w'.phase j = .idle

/-- A worker releases the lease only while no other one holds an unexpired lease. -/
def OwnClear : Event ω → World ω → Prop
  | .clear k, w => ∀ j, w.Holds j → j = k
  | _, _ => True

/-! ## The invariant -/

/-- The clock has been read by now. -/
def Phase.ReadBy (clock : Nat) : Phase → Prop
  | .started nowIso | .ready nowIso _ => nowIso ≤ clock
  | _ => True

/-- The stored lease is that of the worker that holds one. -/
structure World.Leased (w : World ω) : Prop where
  read : ∀ k, (w.phase k).ReadBy w.clock
  stored : ∀ k untilIso, w.phase k = .running untilIso → w.clock ≤ untilIso →
    w.tickLeaseUntil = some untilIso
  unique : ∀ j k, w.Holds j → w.Holds k → j = k

theorem Phase.ReadBy.mono {p : Phase} {clock clock' : Nat} (h : p.ReadBy clock) (hLe : clock ≤ clock') :
    p.ReadBy clock' := by
  cases p with
  | idle => trivial
  | started nowIso => exact Nat.le_trans h hLe
  | ready nowIso untilIso => exact Nat.le_trans h hLe
  | running untilIso => trivial

@[simp] theorem phase_at (w : World ω) (k j : ω) (p : Phase) :
    (w.at k p).phase j = if j = k then p else w.phase j := by
  unfold World.at
  dsimp only
  rw [Function.update_apply]

@[simp] theorem clock_at (w : World ω) (k : ω) (p : Phase) : (w.at k p).clock = w.clock := rfl

@[simp] theorem tickLeaseUntil_at (w : World ω) (k : ω) (p : Phase) :
    (w.at k p).tickLeaseUntil = w.tickLeaseUntil := rfl

/-- Where the worker does not run afterwards, the holders are the others that held a lease before. -/
theorem holds_at {w : World ω} {k j : ω} {p : Phase} (hp : ∀ untilIso, p ≠ .running untilIso) :
    (w.at k p).Holds j ↔ j ≠ k ∧ w.Holds j := by
  unfold World.Holds
  simp only [phase_at, clock_at]
  split
  · next h => simp [h, hp]
  · next h => simp [h]

omit [DecidableEq ω] in
/-- While a lease is held no statement acquires another one. -/
theorem World.Leased.refuses {w : World ω} (h : w.Leased) {k j : ω} (hk : w.Holds k)
    {nowIso untilIso : Nat} (hj : w.phase j = .ready nowIso untilIso) :
    tryAcquireUpdate nowIso untilIso w.tickLeaseUntil = (w.tickLeaseUntil, 0) := by
  obtain ⟨u, hu, hClock⟩ := hk
  have hRead : nowIso ≤ w.clock := by
    have := h.read j
    rwa [hj] at this
  unfold tryAcquireUpdate
  rw [if_neg]
  rw [h.stored k u hu hClock]
  simpa using Nat.le_trans hRead hClock

theorem World.Leased.exclusive {w : World ω} (h : w.Leased) : w.Exclusive := by
  intro k hk
  refine ⟨fun j hj => h.unique j k hj hk, ?_⟩
  intro j w' hPerform
  unfold World.perform at hPerform
  dsimp only at hPerform
  split at hPerform
  · next nowIso untilIso hj =>
    rw [h.refuses hk hj] at hPerform
    cases hPerform
    simp
  · cases hPerform

/-! ## Steps -/

/-- A worker goes on without a lease, and the row stays as it is. -/
theorem World.Leased.at {w : World ω} (h : w.Leased) (k : ω) {p : Phase} (hRead : p.ReadBy w.clock)
    (hp : ∀ untilIso, p ≠ .running untilIso) : (w.at k p).Leased where
  read j := by
    rw [phase_at, clock_at]
    split
    · exact hRead
    · exact h.read j
  stored j untilIso hj hClock := by
    rw [phase_at] at hj
    split at hj
    · exact absurd hj (hp untilIso)
    · exact h.stored j untilIso hj hClock
  unique i j hi hj := h.unique i j ((holds_at hp).mp hi).2 ((holds_at hp).mp hj).2

omit [DecidableEq ω] in
theorem World.Leased.wait {w : World ω} (h : w.Leased) (ms : Nat) :
    World.Leased { w with clock := w.clock + ms } where
  read k := (h.read k).mono (Nat.le_add_right _ _)
  stored k untilIso hk hClock := h.stored k untilIso hk (Nat.le_trans (Nat.le_add_right _ _) hClock)
  unique j k := by
    rintro ⟨u, hu, hClock⟩ ⟨u', hu', hClock'⟩
    exact h.unique j k ⟨u, hu, Nat.le_trans (Nat.le_add_right _ _) hClock⟩
      ⟨u', hu', Nat.le_trans (Nat.le_add_right _ _) hClock'⟩

/-- A statement that acquires the lease finds no other one unexpired. -/
theorem World.Leased.acquired {w : World ω} (h : w.Leased) {k : ω} {nowIso untilIso : Nat}
    (hk : w.phase k = .ready nowIso untilIso) (hFree : w.tickLeaseUntil.all (· < nowIso) = true) :
    World.Leased ({ w with tickLeaseUntil := some untilIso }.at k (.running untilIso)) := by
  have hNone : ∀ j, ¬ w.Holds j := by
    intro j hj
    have hRefused := h.refuses hj hk
    unfold tryAcquireUpdate at hRefused
    rw [if_pos hFree] at hRefused
    cases congrArg Prod.snd hRefused
  have hOnly : ∀ j,
      World.Holds ({ w with tickLeaseUntil := some untilIso }.at k (.running untilIso)) j → j = k := by
    rintro j ⟨u, hu, hClock⟩
    by_contra hjk
    rw [phase_at, if_neg hjk] at hu
    exact hNone j ⟨u, hu, hClock⟩
  refine ⟨fun j => ?_, fun j u hu hClock => ?_, fun i j hi hj => (hOnly i hi).trans (hOnly j hj).symm⟩
  · rw [phase_at]
    split
    · trivial
    · exact h.read j
  · have hjk := hOnly j ⟨u, hu, hClock⟩
    subst hjk
    rw [phase_at, if_pos rfl] at hu
    cases hu
    rfl

/-- A release that takes no lease from another worker. -/
theorem World.Leased.cleared {w : World ω} (h : w.Leased) {k : ω} (hOwn : ∀ j, w.Holds j → j = k) :
    World.Leased ({ w with tickLeaseUntil := none }.at k .idle) := by
  have hNone : ∀ j, ¬ World.Holds ({ w with tickLeaseUntil := none }.at k .idle) j := by
    intro j hj
    obtain ⟨hjk, hj⟩ := (holds_at (by simp)).mp hj
    exact hjk (hOwn j hj)
  refine ⟨fun j => ?_, fun j u hu hClock => absurd ⟨u, hu, hClock⟩ (hNone j),
    fun i j hi => absurd hi (hNone i)⟩
  rw [phase_at]
  split
  · trivial
  · exact h.read j

theorem leased_perform {w w' : World ω} {e : Event ω} (hOwn : OwnClear e w)
    (hPerform : World.perform e w = some w') (h : w.Leased) : w'.Leased := by
  cases e with
  | wait ms =>
    cases hPerform
    exact h.wait ms
  | readNow k =>
    unfold World.perform at hPerform
    dsimp only at hPerform
    split at hPerform
    · cases hPerform
      exact h.at k (Nat.le_refl _) (by simp)
    · cases hPerform
  | readUntil k leaseMs =>
    unfold World.perform at hPerform
    dsimp only at hPerform
    split at hPerform
    · next nowIso hk =>
      cases hPerform
      have hRead := h.read k
      rw [hk] at hRead
      exact h.at k hRead (by simp)
    · cases hPerform
  | acquire k =>
    unfold World.perform at hPerform
    dsimp only at hPerform
    split at hPerform
    · next nowIso untilIso hk =>
      unfold tryAcquireUpdate at hPerform
      split at hPerform
      · next hFree =>
        cases hPerform
        exact h.acquired hk hFree
      · cases hPerform
        exact h.at k trivial (by simp)
    · cases hPerform
  | acquireFails k =>
    unfold World.perform at hPerform
    dsimp only at hPerform
    split at hPerform
    · cases hPerform
      exact h.at k trivial (by simp)
    · cases hPerform
  | clear k =>
    cases hPerform
    exact h.cleared hOwn
  | clearFails k =>
    cases hPerform
    exact h.at k trivial (by simp)

omit [DecidableEq ω] in
theorem leased_start : (World.start : World ω).Leased where
  read _ := trivial
  stored _ _ h := by cases h
  unique _ _ h := by
    obtain ⟨_, h, _⟩ := h
    cases h

/-! ## Runs -/

/-- In every run in which no worker releases the lease while another one holds it, the lease is
exclusive. All workers read one clock, which never goes back. -/
theorem exclusive_of_ownClears {w : World ω} (h : Machine.Run World.perform OwnClear World.start w) :
    w.Exclusive :=
  (h.invariant (fun _ _ _ hOwn hPerform hLeased => leased_perform hOwn hPerform hLeased)
    leased_start).exclusive

end Workers

/-- One worker takes the lease for a second. -/
def take (k : Nat) : List (Event Nat) := [.readNow k, .readUntil k 1000, .acquire k]

/-- The event is no release. -/
def keepsLease : Event Nat → World Nat → Bool
  | .clear _, _ => false
  | _, _ => true

/-- A worker overruns its lease and fails to release it; the next one takes it. -/
theorem exclusive_afterOverrun :
    ∃ w, Machine.replay World.perform keepsLease (take 0 ++ .wait 2000 :: .clearFails 0 :: take 1)
      World.start = some w ∧ w.Holds 1 ∧ w.Exclusive := by
  have hReplay : ∃ w, Machine.replay World.perform keepsLease
      (take 0 ++ .wait 2000 :: .clearFails 0 :: take 1) World.start = some w ∧ w.Holds 1 :=
    ⟨_, rfl, 3000, rfl, by decide⟩
  obtain ⟨w, hReplay, hOne⟩ := hReplay
  refine ⟨w, hReplay, hOne, exclusive_of_ownClears (Machine.run_of_replay ?_ hReplay)⟩
  intro e w h
  cases e with
  | clear k => cases h
  | _ => trivial

/-- A worker overruns its lease and releases that of the next one, while a third one waits. -/
def overrun : List (Event Nat) := take 0 ++ .wait 2000 :: take 1 ++ .clear 0 :: take 2

/-- The release of an overrun lease lets two workers hold a lease at once. -/
theorem not_exclusive_overrun :
    ¬ ∀ w : World Nat, Machine.Run World.perform (fun _ _ => True) World.start w → w.Exclusive := by
  intro hAll
  have hReplay : ∃ w : World Nat, Machine.replay World.perform (fun _ _ => true) overrun World.start =
      some w ∧ w.Holds 1 ∧ w.Holds 2 :=
    ⟨_, rfl, ⟨3000, rfl, by decide⟩, ⟨3000, rfl, by decide⟩⟩
  obtain ⟨w, hReplay, hOne, hTwo⟩ := hReplay
  have hRun : Machine.Run World.perform (fun _ _ => True) World.start w :=
    Machine.run_of_replay (fun _ _ _ => trivial) hReplay
  cases ((hAll w hRun) 1 hOne).1 2 hTwo

end Bloodhound.Indexer.TickLease
