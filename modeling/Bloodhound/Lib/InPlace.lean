import Mathlib.Data.List.GetD
import Mathlib.Logic.Function.Basic
import Bloodhound.Lib.Limbs

/-!
# Arithmetic in place

A loop goes through the limbs of two arrays from the least significant limb on, and stores what it computes
in a third array. The third array may be one of the first two: a limb is read before it is written over, and
it is not read again. So the loop leaves in its array what it would compute from two lists (`loop_eq`); for
additions and subtractions that is the sum or the difference of the words (`addInto_eq`, `subInto_eq`).
-/

namespace InPlace

open Limbs

variable {N γ : Type} [DecidableEq N] {b n : Nat}

/-- The arrays, by their names. -/
abbrev Memory (N : Type) (b n : Nat) := N → Word b n

/-- What a loop reads: an array that others may know, or one of its own. -/
inductive Source (N : Type) (b n : Nat) where
  | array (name : N)
  | own (x : Word b n)

def Source.read (m : Memory N b n) : Source N b n → Word b n
  | .array name => m name
  | .own x => x

/-- Store the lowest digit of a number as a limb. -/
def store (x : Word b n) (hb : 0 < b) (i v : Nat) : Word b n where
  limbs := x.limbs.set i (v % b)
  length_limbs := (List.length_set ..).trans x.length_limbs
  limb_lt d hd := by
    rcases List.mem_or_eq_of_mem_set hd with hOld | rfl
    · exact x.limb_lt d hOld
    · exact Nat.mod_lt v hb

/-- The loop over the given indices. A step takes what was handed on and a limb of each source; it gives what
is stored and what is handed on. -/
def loop (step : γ → Nat → Nat → Nat × γ) (hb : 0 < b) (r : N) (s t : Source N b n) :
    List Nat → γ → Memory N b n → Memory N b n × γ
  | [], c, m => (m, c)
  | i :: is, c, m =>
    let out := step c ((s.read m).limbs.getD i 0) ((t.read m).limbs.getD i 0)
    loop step hb r s t is out.2 (Function.update m r (store (m r) hb i out.1))

/-- The loop over two lists. -/
def overLists (b : Nat) (step : γ → Nat → Nat → Nat × γ) : γ → List Nat → List Nat → List Nat × γ
  | c, x :: xs, y :: ys =>
    let out := step c x y
    let rest := overLists b step out.2 xs ys
    (out.1 % b :: rest.1, rest.2)
  | c, _, _ => ([], c)

theorem length_overLists {step : γ → Nat → Nat → Nat × γ} {c : γ} {xs ys : List Nat} (h : xs.length = ys.length) :
    (overLists b step c xs ys).1.length = xs.length := by
  induction xs generalizing ys c with
  | nil => rfl
  | cons x xs ih =>
    cases ys with
    | nil => cases h
    | cons y ys => rw [overLists, List.length_cons, List.length_cons, ih (Nat.succ.inj h)]

/-- The memory in the middle of a loop: the first limbs of the array are stored, nothing else has changed. -/
structure Stored (m m' : Memory N b n) (r : N) (done : List Nat) : Prop where
  limbs : (m' r).limbs = done ++ (m r).limbs.drop done.length
  others : ∀ k ≠ r, m' k = m k

section Loop

variable {step : γ → Nat → Nat → Nat × γ} {hb : 0 < b} {r : N} {s t : Source N b n} {m m' : Memory N b n}
  {done : List Nat}

theorem getD_drop (l : List Nat) (i : Nat) : (l.drop i).getD 0 0 = l.getD i 0 := by
  simp [List.getD_eq_getElem?_getD]

/-- The limb that comes next is still the old one, also in the array that is written. -/
theorem Stored.read (h : Stored m m' r done) (s : Source N b n) :
    (s.read m').limbs.getD done.length 0 = (s.read m).limbs.getD done.length 0 := by
  cases s with
  | own x => rfl
  | array name =>
    by_cases hName : name = r
    · rw [Source.read, Source.read, hName, h.limbs, List.getD_append_right _ _ _ _ (Nat.le_refl _), Nat.sub_self,
        getD_drop]
    · rw [Source.read, Source.read, h.others name hName]

theorem Stored.store (h : Stored m m' r done) (hMore : done.length < n) (v : Nat) :
    Stored m (Function.update m' r (InPlace.store (m' r) hb done.length v)) r (done ++ [v % b]) := by
  constructor
  · have hIndex : done.length < (m r).limbs.length := (m r).length_limbs.symm ▸ hMore
    have hSet : (InPlace.store (m' r) hb done.length v).limbs = (m' r).limbs.set done.length (v % b) := rfl
    rw [Function.update_self, hSet, h.limbs, List.drop_eq_getElem_cons hIndex,
      List.set_append_right _ _ (Nat.le_refl _), Nat.sub_self, List.set_cons_zero, List.append_assoc,
      List.length_append, List.length_singleton]
    rfl
  · intro k hk
    rw [Function.update_of_ne hk, h.others k hk]

theorem drop_cons {x : Word b n} {i : Nat} (h : i < n) :
    x.limbs.drop i = x.limbs.getD i 0 :: x.limbs.drop (i + 1) := by
  have hIndex : i < x.limbs.length := x.length_limbs.symm ▸ h
  rw [List.drop_eq_getElem_cons hIndex, List.getD_eq_getElem _ _ hIndex]

/-- The rest of a loop. -/
theorem loop_rest {k : Nat} {c : γ} (h : Stored m m' r done) (hCount : done.length + k = n) :
    let rest := overLists b step c ((s.read m).limbs.drop done.length) ((t.read m).limbs.drop done.length)
    let out := loop step hb r s t (List.range' done.length k) c m'
    Stored m out.1 r (done ++ rest.1) ∧ out.2 = rest.2 := by
  induction k generalizing done c m' with
  | zero =>
    have hDone : ∀ x : Word b n, x.limbs.drop done.length = [] := fun x =>
      List.drop_eq_nil_of_le (by rw [x.length_limbs]; omega)
    rw [hDone, hDone]
    exact ⟨(List.append_nil done).symm ▸ h, rfl⟩
  | succ k ih =>
    have hMore : done.length < n := by omega
    have hNext := @Stored.store _ _ _ _ hb _ _ _ _ h hMore
      (step c ((s.read m).limbs.getD done.length 0) ((t.read m).limbs.getD done.length 0)).1
    have hRest := @ih _ _ (step c ((s.read m).limbs.getD done.length 0) ((t.read m).limbs.getD done.length 0)).2
      hNext (by rw [List.length_append, List.length_singleton]; omega)
    rw [List.length_append, List.length_singleton] at hRest
    dsimp only at hRest
    rw [List.append_assoc] at hRest
    rw [drop_cons hMore, drop_cons hMore, List.range'_succ, loop, h.read, h.read]
    exact hRest

/-- The loop over all limbs leaves in its array what the loop over the two lists computes. -/
theorem loop_eq (c : γ) :
    let rest := overLists b step c (s.read m).limbs (t.read m).limbs
    let out := loop step hb r s t (List.range n) c m
    (out.1 r).limbs = rest.1 ∧ (∀ k ≠ r, out.1 k = m k) ∧ out.2 = rest.2 := by
  have hStart : Stored m m r [] := ⟨rfl, fun _ _ => rfl⟩
  obtain ⟨hStored, hCarry⟩ := @loop_rest N γ _ b n step hb r s t m m [] n c hStart (Nat.zero_add n)
  rw [List.length_nil, List.drop_zero, List.drop_zero, List.nil_append, ← List.range_eq_range'] at hStored
  rw [List.length_nil, List.drop_zero, List.drop_zero, ← List.range_eq_range'] at hCarry
  refine ⟨?_, hStored.others, hCarry⟩
  have hLength := @length_overLists γ b step c _ _ ((s.read m).length_limbs.trans (t.read m).length_limbs.symm)
  have hNothing : (m r).limbs.drop (overLists b step c (s.read m).limbs (t.read m).limbs).1.length = [] :=
    List.drop_eq_nil_of_le (by rw [hLength, (m r).length_limbs, (s.read m).length_limbs])
  rw [hStored.limbs, hNothing, List.append_nil]

end Loop

/-! ## Additions and subtractions -/

def addStep (b : Nat) (carry x y : Nat) : Nat × Nat := (x + y + carry, (x + y + carry) / b)

def subStep (b : Nat) (borrow x y : Nat) : Nat × Nat :=
  if x < y + borrow then (x + b - (y + borrow), 1) else (x - (y + borrow), 0)

theorem overLists_addStep (carry : Nat) (xs ys : List Nat) :
    overLists b (addStep b) carry xs ys = addCarry b carry xs ys := by
  induction xs generalizing ys carry with
  | nil => rfl
  | cons x xs ih =>
    cases ys with
    | nil => rfl
    | cons y ys => rw [overLists, addCarry, ih, addStep]

theorem overLists_subStep (borrow : Nat) {xs ys : List Nat} (hxs : ∀ d ∈ xs, d < b) :
    overLists b (subStep b) borrow xs ys = subBorrow b borrow xs ys := by
  induction xs generalizing ys borrow with
  | nil => rfl
  | cons x xs ih =>
    cases ys with
    | nil => rfl
    | cons y ys =>
      have hx := hxs x List.mem_cons_self
      have hRest := fun w => @ih w ys fun d hd => hxs d (List.mem_cons_of_mem x hd)
      rw [overLists, subBorrow, subStep]
      split
      · next hLess => rw [hRest, Nat.mod_eq_of_lt (by omega)]
      · next hMore => rw [hRest, Nat.mod_eq_of_lt (by omega)]

/-- `r = s + t`, and the carry. -/
def addInto (hb : 0 < b) (r : N) (s t : Source N b n) (m : Memory N b n) : Memory N b n × Nat :=
  loop (addStep b) hb r s t (List.range n) 0 m

/-- `r = s - t`; the borrow is not handed out. -/
def subInto (hb : 0 < b) (r : N) (s t : Source N b n) (m : Memory N b n) : Memory N b n :=
  (loop (subStep b) hb r s t (List.range n) 0 m).1

theorem eq_update {m m' : Memory N b n} {r : N} {x : Word b n} (hLimbs : (m' r).limbs = x.limbs)
    (hOthers : ∀ k ≠ r, m' k = m k) : m' = Function.update m r x := by
  funext k
  by_cases hName : k = r
  · rw [hName, Function.update_self]
    exact Word.ext hLimbs
  · rw [Function.update_of_ne hName, hOthers k hName]

variable {hb : 0 < b} {r : N} {s t : Source N b n} {m : Memory N b n}

theorem addInto_eq : addInto hb r s t m =
    (Function.update m r ((s.read m).add (t.read m) hb).1, ((s.read m).add (t.read m) hb).2) := by
  obtain ⟨hLimbs, hOthers, hCarry⟩ := @loop_eq N Nat _ b n (addStep b) hb r s t m 0
  rw [overLists_addStep] at hLimbs hCarry
  exact Prod.ext (eq_update hLimbs hOthers) hCarry

theorem subInto_eq : subInto hb r s t m = Function.update m r ((s.read m).sub (t.read m)).1 := by
  obtain ⟨hLimbs, hOthers, -⟩ := @loop_eq N Nat _ b n (subStep b) hb r s t m 0
  rw [overLists_subStep 0 (s.read m).limb_lt] at hLimbs
  exact eq_update hLimbs hOthers

end InPlace
