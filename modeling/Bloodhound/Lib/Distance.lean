import Mathlib.Order.Bounds.Basic
import Mathlib.Order.Lattice

/-!
# Labels that are distances

Some points of a relation are sources, and some points carry a number. The numbers are the distances from the
sources where four local facts hold: sources carry zero, steps start at points with a number, along a step a
number grows by at most one, and every other number is by one larger than the one of a point before it.

* `path_of_added`: a path after one new step is an old one, or goes along the new step.
* `mem_layer`: the points at the end of a path of some length, computed layer by layer.
* `Labels.isLeast`: such a number is the length of a shortest path.
* `Labels.relabel`: points may get new numbers where each is the least that the steps into the point allow.
-/

namespace Distance

variable {α : Type} {source : α → Prop} {step : α → α → Prop} {label : α → Option Nat}

/-- A path of some length from a source to a point. -/
inductive Path (source : α → Prop) (step : α → α → Prop) : Nat → α → Prop
  | source {a : α} (h : source a) : Path source step 0 a
  | step {n : Nat} {a b : α} (h : Path source step n a) (hStep : step a b) : Path source step (n + 1) b

theorem Path.mono {step' : α → α → Prop} (hSteps : ∀ a b, step a b → step' a b) {n : Nat} {a : α}
    (h : Path source step n a) : Path source step' n a := by
  induction h with
  | source hSource => exact .source hSource
  | step _ hStep ih => exact .step ih (hSteps _ _ hStep)

/-- A path after the step from `a` to `b` has been added: an old path, or one to `a` and one on from `b`, which
are not longer together. -/
theorem path_of_added {step' : α → α → Prop} {a b : α}
    (hSteps : ∀ x y, step' x y → step x y ∨ x = a ∧ y = b) {n : Nat} {z : α} (h : Path source step' n z) :
    Path source step n z ∨
      ∃ i j, i + 1 + j ≤ n ∧ Path source step i a ∧ Path (· = b) step j z := by
  induction h with
  | source hSource => exact Or.inl (.source hSource)
  | @step n x y _ hStep ih =>
    rcases ih, hSteps x y hStep with ⟨hOld | ⟨i, j, hLe, hTo, hOn⟩, hSame | ⟨rfl, rfl⟩⟩
    · exact Or.inl (.step hOld hSame)
    · exact Or.inr ⟨n, 0, le_rfl, hOld, .source rfl⟩
    · exact Or.inr ⟨i, j + 1, by omega, hTo, .step hOn hSame⟩
    · exact Or.inr ⟨i, 0, by omega, hTo, .source rfl⟩

/-- The ends of the paths of a length. -/
def layer [DecidableEq α] (sources : List α) (pairs : List (α × α)) : Nat → List α
  | 0 => sources
  | n + 1 => (pairs.filter fun p => p.1 ∈ layer sources pairs n).map Prod.snd

theorem mem_layer [DecidableEq α] {sources : List α} {pairs : List (α × α)} {n : Nat} {a : α} :
    a ∈ layer sources pairs n ↔ Path (· ∈ sources) (fun a b => (a, b) ∈ pairs) n a := by
  induction n generalizing a with
  | zero =>
    refine ⟨fun h => .source h, fun h => ?_⟩
    cases h with
    | source hSource => exact hSource
  | succ n ih =>
    unfold layer
    rw [List.mem_map]
    constructor
    · rintro ⟨p, hp, rfl⟩
      obtain ⟨hMem, hFrom⟩ := List.mem_filter.mp hp
      exact .step (ih.mp (of_decide_eq_true hFrom)) hMem
    · intro h
      cases h with
      | @step _ x _ hPath hStep =>
        exact ⟨(x, a), List.mem_filter.mpr ⟨hStep, decide_eq_true (ih.mpr hPath)⟩, rfl⟩

structure Labels (source : α → Prop) (step : α → α → Prop) (label : α → Option Nat) : Prop where
  zero : ∀ a, source a → label a = some 0
  start : ∀ a b, step a b → (label a).isSome = true
  bound : ∀ a b m n, step a b → label a = some m → label b = some n → n ≤ m + 1
  before : ∀ b n, label b = some n → ¬ source b → ∃ a m, step a b ∧ label a = some m ∧ n = m + 1

theorem Labels.le_of_path (h : Labels source step label) {m : Nat} {a : α} (hPath : Path source step m a)
    {n : Nat} (hLabel : label a = some n) : n ≤ m := by
  induction hPath generalizing n with
  | source hSource =>
    rw [h.zero _ hSource] at hLabel
    cases hLabel
    exact le_rfl
  | @step m a b _ hStep ih =>
    obtain ⟨k, hk⟩ := Option.isSome_iff_exists.mp (h.start a b hStep)
    have hBefore : k ≤ m := ih hk
    have hBound := h.bound a b k n hStep hk hLabel
    omega

theorem Labels.path (h : Labels source step label) {n : Nat} {a : α} (hLabel : label a = some n) :
    Path source step n a := by
  induction n generalizing a with
  | zero =>
    by_cases hSource : source a
    · exact .source hSource
    · obtain ⟨_, m, _, _, hm⟩ := h.before a 0 hLabel hSource
      omega
  | succ n ih =>
    have hNot : ¬ source a := by
      intro hSource
      rw [h.zero a hSource] at hLabel
      cases hLabel
    obtain ⟨b, m, hStep, hm, hn⟩ := h.before a (n + 1) hLabel hNot
    have hSame : m = n := by omega
    subst hSame
    exact .step (ih hm) hStep

/-- A label is the length of a shortest path. -/
theorem Labels.isLeast (h : Labels source step label) {n : Nat} {a : α} (hLabel : label a = some n) :
    IsLeast {m | Path source step m a} n :=
  ⟨h.path hLabel, fun _ hPath => h.le_of_path hPath hLabel⟩

/-! ## New labels -/

/-- The steps there are, with new ones. -/
def joined (step added : α → α → Prop) (a b : α) : Prop := step a b ∨ added a b

/-- The numbers that the steps into a point allow. -/
def offers (label : α → Option Nat) (step : α → α → Prop) (b : α) : Set Nat :=
  {n | ∃ a m, step a b ∧ label a = some m ∧ n = m + 1}

/-- New numbers `new` are admitted next to new steps. -/
structure Admits (source : α → Prop) (step : α → α → Prop) (label : α → Option Nat) (added : α → α → Prop)
    (new : α → Option Nat) : Prop where
  start : ∀ a b, added a b → (label a).isSome = true
  notSource : ∀ b n, new b = some n → ¬ source b
  least : ∀ b n, new b = some n → IsLeast (offers label (joined step added) b) n
  kept : ∀ a b m n, added a b → ¬ source b → new b = none → label a = some m → label b = some n → n ≤ m + 1
  lowered : ∀ a b k m, new a = some k → label a = some m → k < m → joined step added a b → ¬ source b →
    (label b = none ∧ new b = none) ∨ ∃ n, label b = some n ∧ n ≤ k + 1

/-- The labels after a change. -/
def relabelled (new label : α → Option Nat) (a : α) : Option Nat := (new a).or (label a)

theorem relabelled_of_some {new label : α → Option Nat} {a : α} {n : Nat} (h : new a = some n) :
    relabelled new label a = some n := by
  unfold relabelled
  rw [h, Option.some_or]

theorem relabelled_of_none {new label : α → Option Nat} {a : α} (h : new a = none) :
    relabelled new label a = label a := by
  unfold relabelled
  rw [h, Option.none_or]

section Relabel

variable {added step' : α → α → Prop} {new : α → Option Nat}

theorem Labels.new_le (h : Labels source step label) (hNew : Admits source step label added new) {a : α}
    {m n : Nat} (hLabel : label a = some m) (hn : new a = some n) : n ≤ m := by
  obtain ⟨b, k, hStep, hk, rfl⟩ := h.before a m hLabel (hNew.notSource a n hn)
  exact (hNew.least a n hn).2 ⟨b, k, Or.inl hStep, hk, rfl⟩

/-- No number grows. -/
theorem Labels.relabelled_le (h : Labels source step label) (hNew : Admits source step label added new) {a : α}
    {m n : Nat} (hLabel : label a = some m) (hn : relabelled new label a = some n) : n ≤ m := by
  cases hNewA : new a with
  | none =>
    rw [relabelled_of_none hNewA, hLabel] at hn
    cases hn
    exact le_rfl
  | some k =>
    rw [relabelled_of_some hNewA] at hn
    cases hn
    exact h.new_le hNew hLabel hNewA

theorem Labels.start_joined (h : Labels source step label) (hNew : Admits source step label added new)
    {a b : α} (hStep : joined step added a b) : ∃ m, label a = some m := by
  apply Option.isSome_iff_exists.mp
  rcases hStep with hOld | hAdded
  · exact h.start a b hOld
  · exact hNew.start a b hAdded

/-- The number of a point is at most one more than the old number of a point before it. -/
theorem Labels.relabelled_le_before (h : Labels source step label)
    (hNew : Admits source step label added new) {a b : α} (hStep : joined step added a b)
    (hSource : ¬ source b) {m n : Nat} (hm : label a = some m) (hn : relabelled new label b = some n) :
    n ≤ m + 1 := by
  cases hNewB : new b with
  | some k =>
    rw [relabelled_of_some hNewB] at hn
    cases hn
    exact (hNew.least b n hNewB).2 ⟨a, m, hStep, hm, rfl⟩
  | none =>
    rw [relabelled_of_none hNewB] at hn
    rcases hStep with hOld | hAdded
    · exact h.bound a b m n hOld hm hn
    · exact hNew.kept a b m n hAdded hSource hNewB hm hn

/-- Behind a point that is lowered no number is too large. -/
theorem Labels.relabelled_le_lowered (h : Labels source step label)
    (hNew : Admits source step label added new) {a b : α} (hStep : joined step added a b)
    (hSource : ¬ source b) {k m n : Nat} (hk : new a = some k) (hm : label a = some m) (hLess : k < m)
    (hn : relabelled new label b = some n) : n ≤ k + 1 := by
  rcases hNew.lowered a b k m hk hm hLess hStep hSource with ⟨hNone, hNone'⟩ | ⟨l, hl, hBound⟩
  · rw [relabelled_of_none hNone', hNone] at hn
    cases hn
  · exact (h.relabelled_le hNew hl hn).trans hBound

theorem Labels.relabelled_bound (h : Labels source step label) (hNew : Admits source step label added new)
    {a b : α} (hStep : joined step added a b) (hSource : ¬ source b) {m n : Nat}
    (hm : relabelled new label a = some m) (hn : relabelled new label b = some n) : n ≤ m + 1 := by
  obtain ⟨m₀, hm₀⟩ := h.start_joined hNew hStep
  cases hNewA : new a with
  | none =>
    rw [relabelled_of_none hNewA] at hm
    exact h.relabelled_le_before hNew hStep hSource hm hn
  | some k =>
    rw [relabelled_of_some hNewA] at hm
    cases hm
    rcases Nat.lt_or_ge m m₀ with hLess | hGe
    · exact h.relabelled_le_lowered hNew hStep hSource hNewA hm₀ hLess hn
    · have hOld := h.relabelled_le_before hNew hStep hSource hm₀ hn
      omega

/-- A point before one with a number keeps the number that allows it. -/
theorem Labels.relabelled_before (h : Labels source step label) (hNew : Admits source step label added new)
    {a b : α} (hStep : joined step added a b) (hSource : ¬ source b) {m : Nat} (hm : label a = some m)
    (hn : relabelled new label b = some (m + 1)) : relabelled new label a = some m := by
  cases hNewA : new a with
  | none => rw [relabelled_of_none hNewA, hm]
  | some k =>
    have hLe : k ≤ m := h.new_le hNew hm hNewA
    rcases Nat.lt_or_ge k m with hLess | hGe
    · have hBelow := h.relabelled_le_lowered hNew hStep hSource hNewA hm hLess hn
      omega
    · rw [relabelled_of_some hNewA, le_antisymm hLe hGe]

/-- New numbers that are admitted are distances again. -/
theorem Labels.relabel (h : Labels source step label) (hNew : Admits source step label added new)
    (hSteps : ∀ a b, step' a b → joined step added a b)
    (hStays : ∀ a b, joined step added a b → ¬ source b → step' a b) :
    Labels source step' (relabelled new label) := by
  have hZero : ∀ a, source a → relabelled new label a = some 0 := by
    intro a hSource
    cases hn : new a with
    | none => rw [relabelled_of_none hn, h.zero a hSource]
    | some n => exact absurd hSource (hNew.notSource a n hn)
  constructor
  · exact hZero
  · intro a b hStep
    obtain ⟨m, hm⟩ := h.start_joined hNew (hSteps a b hStep)
    cases hn : new a with
    | none =>
      rw [relabelled_of_none hn, hm]
      rfl
    | some n =>
      rw [relabelled_of_some hn]
      rfl
  · intro a b m n hStep hm hn
    by_cases hSource : source b
    · rw [hZero b hSource] at hn
      cases hn
      exact Nat.zero_le _
    · exact h.relabelled_bound hNew (hSteps a b hStep) hSource hm hn
  · intro b n hn hSource
    -- the number is the old one or a new one; either way a point before `b` allows it
    have hOffer : ∃ a m, joined step added a b ∧ label a = some m ∧ n = m + 1 := by
      cases hNewB : new b with
      | none =>
        have hOld := hn
        rw [relabelled_of_none hNewB] at hOld
        obtain ⟨a, m, hStep, hm, hSucc⟩ := h.before b n hOld hSource
        exact ⟨a, m, Or.inl hStep, hm, hSucc⟩
      | some l =>
        have hSame := hn
        rw [relabelled_of_some hNewB] at hSame
        cases hSame
        exact (hNew.least b n hNewB).1
    obtain ⟨a, m, hStep, hm, rfl⟩ := hOffer
    exact ⟨a, m, hStays a b hStep hSource, h.relabelled_before hNew hStep hSource hm hn, rfl⟩

end Relabel

end Distance
