import Mathlib.Data.List.Count
import Mathlib.Data.Nat.Init
import Mathlib.Tactic.Ring

/-!
# Work in batches

A loop that handles the rows of a table in batches of one size, until a batch finds nothing
or a limit stops it. The limits admit a number of full batches; if they cover the rows, all
of them are handled, and otherwise every admitted batch is full (`batchLoop_covered`,
`batchLoop_left`).
-/

namespace Batches

/-! ## Batches of a list -/

variable {α τ : Type}

/-- Remove the first `n` elements with a property. -/
def removeFirst (p : α → Bool) : Nat → List α → List α
  | _, [] => []
  | 0, l => l
  | n + 1, a :: l => if p a then removeFirst p n l else a :: removeFirst p (n + 1) l

/-- Change the first `n` elements with a property. -/
def changeFirst (p : α → Bool) (f : α → α) : Nat → List α → List α
  | _, [] => []
  | 0, l => l
  | n + 1, a :: l => if p a then f a :: changeFirst p f n l else a :: changeFirst p f (n + 1) l

theorem removeFirst_zero (p : α → Bool) (l : List α) : removeFirst p 0 l = l := by
  cases l <;> rfl

theorem changeFirst_zero (p : α → Bool) (f : α → α) (l : List α) : changeFirst p f 0 l = l := by
  cases l <;> rfl

theorem countP_removeFirst (p : α → Bool) (n : Nat) (l : List α) :
    (removeFirst p n l).countP p = l.countP p - n := by
  induction l generalizing n with
  | nil => simp [removeFirst]
  | cons a l ih =>
    cases n with
    | zero => rw [removeFirst_zero, Nat.sub_zero]
    | succ n =>
      rw [removeFirst]
      by_cases ha : p a = true
      · rw [if_pos ha, ih, List.countP_cons_of_pos ha]
        omega
      · rw [if_neg ha, List.countP_cons_of_neg ha, List.countP_cons_of_neg ha, ih]

/-- The number of elements removed. -/
theorem length_removeFirst (p : α → Bool) (n : Nat) (l : List α) :
    (removeFirst p n l).length + min n (l.countP p) = l.length := by
  induction l generalizing n with
  | nil => simp [removeFirst]
  | cons a l ih =>
    cases n with
    | zero => rw [removeFirst_zero, Nat.zero_min, Nat.add_zero]
    | succ n =>
      rw [removeFirst]
      by_cases ha : p a = true
      · have hRest := ih n
        rw [if_pos ha, List.countP_cons_of_pos ha, List.length_cons]
        omega
      · have hRest := ih (n + 1)
        rw [if_neg ha, List.countP_cons_of_neg ha, List.length_cons, List.length_cons]
        omega

theorem countP_changeFirst {p : α → Bool} {f : α → α} (hf : ∀ a, p (f a) = false) (n : Nat)
    (l : List α) : (changeFirst p f n l).countP p = l.countP p - n := by
  induction l generalizing n with
  | nil => simp [changeFirst]
  | cons a l ih =>
    cases n with
    | zero => rw [changeFirst_zero, Nat.sub_zero]
    | succ n =>
      rw [changeFirst]
      by_cases ha : p a = true
      · have hfa : ¬ p (f a) = true := by rw [hf]; exact Bool.false_ne_true
        rw [if_pos ha, List.countP_cons_of_neg hfa, List.countP_cons_of_pos ha, ih]
        omega
      · rw [if_neg ha, List.countP_cons_of_neg ha, List.countP_cons_of_neg ha, ih]

/-- A change that keeps another property keeps its count. -/
theorem countP_changeFirst_of {p q : α → Bool} {f : α → α} (hf : ∀ a, p a = true → q (f a) = q a)
    (n : Nat) (l : List α) : (changeFirst p f n l).countP q = l.countP q := by
  induction l generalizing n with
  | nil => rfl
  | cons a l ih =>
    cases n with
    | zero => rw [changeFirst_zero]
    | succ n =>
      rw [changeFirst]
      by_cases ha : p a = true
      · rw [if_pos ha, List.countP_cons, List.countP_cons, ih, hf a ha]
      · rw [if_neg ha, List.countP_cons, List.countP_cons, ih]

theorem length_changeFirst (p : α → Bool) (f : α → α) (n : Nat) (l : List α) :
    (changeFirst p f n l).length = l.length := by
  induction l generalizing n with
  | nil => rfl
  | cons a l ih =>
    cases n with
    | zero => rw [changeFirst_zero]
    | succ n =>
      rw [changeFirst]
      split
      · rw [List.length_cons, List.length_cons, ih]
      · rw [List.length_cons, List.length_cons, ih]

/-- A removal keeps the count of a property that no removed element has. -/
theorem countP_removeFirst_of {p q : α → Bool} (h : ∀ a, p a = true → q a = false) (n : Nat)
    (l : List α) : (removeFirst p n l).countP q = l.countP q := by
  induction l generalizing n with
  | nil => rfl
  | cons a l ih =>
    cases n with
    | zero => rw [removeFirst_zero]
    | succ n =>
      rw [removeFirst]
      by_cases ha : p a = true
      · have hq : ¬ q a = true := by rw [h a ha]; exact Bool.false_ne_true
        rw [if_pos ha, ih, List.countP_cons_of_neg hq]
      · rw [if_neg ha, List.countP_cons, List.countP_cons, ih]

/-! ## The loop -/

/-- A table whose rows are handled in batches: the rows that are left, and what a batch of a size
makes of the table. -/
structure Work (τ : Type) where
  left : τ → Nat
  batch : Nat → τ → τ
  left_batch : ∀ n t, left (batch n t) = left t - n

structure Outcome (τ : Type) where
  table : τ
  affected : Nat
  batches : Nat
  complete : Bool

/-- The loop: `stop` is asked before every batch, with the batches and the rows so far. -/
def batchLoop (work : Work τ) (size : Nat) (stop : Nat → Nat → Bool) :
    Nat → Nat → Nat → τ → Outcome τ
  | 0, batches, affected, t => ⟨t, affected, batches, false⟩
  | room + 1, batches, affected, t =>
    if stop batches affected then ⟨t, affected, batches, false⟩
    else
      let n := min size (work.left t)
      let t := work.batch size t
      if n = 0 then ⟨t, affected, batches + 1, true⟩
      else batchLoop work size stop room (batches + 1) (affected + n) t

/-- The batches from a number on that the limits admit, if all of them are full. -/
def admittedFrom (size : Nat) (stop : Nat → Nat → Bool) : Nat → Nat → Nat
  | 0, _ => 0
  | room + 1, batches =>
    if stop batches (batches * size) then 0 else admittedFrom size stop room (batches + 1) + 1

/-- The full batches that the limits admit. -/
def admitted (size : Nat) (stop : Nat → Nat → Bool) (maxBatches : Nat) : Nat :=
  admittedFrom size stop maxBatches 0

/-- The batches that a number of rows takes, the last one that finds nothing included, unless a limit
stops the loop before it. -/
def batchesFor (size : Nat) (stop : Nat → Nat → Bool) (maxBatches rows : Nat) : Nat :=
  let full := (rows + (size - 1)) / size
  if full < maxBatches ∧ stop full rows = false then full + 1 else full

variable {work : Work τ} {size : Nat} {stop : Nat → Nat → Bool}

/-- Where more rows are left than the admitted batches hold, every one of them is full. -/
theorem batchLoop_left_from (hSize : 0 < size) (room batches : Nat) (t : τ)
    (h : admittedFrom size stop room batches * size < work.left t) :
    (batchLoop work size stop room batches (batches * size) t).affected =
        (batches + admittedFrom size stop room batches) * size ∧
      (batchLoop work size stop room batches (batches * size) t).batches =
        batches + admittedFrom size stop room batches ∧
      (batchLoop work size stop room batches (batches * size) t).complete = false ∧
      work.left (batchLoop work size stop room batches (batches * size) t).table =
        work.left t - admittedFrom size stop room batches * size := by
  induction room generalizing batches t with
  | zero => simp [batchLoop, admittedFrom]
  | succ room ih =>
    rw [batchLoop]
    by_cases hStop : stop batches (batches * size) = true
    · simp [hStop, admittedFrom]
    · rw [admittedFrom, if_neg hStop, Nat.add_mul, Nat.one_mul] at h
      have hFull : min size (work.left t) = size := by omega
      have hNext : batches * size + size = (batches + 1) * size := by ring
      have hRest := ih (batches + 1) (work.batch size t) (by rw [work.left_batch]; omega)
      rw [if_neg hStop, admittedFrom, if_neg hStop]
      dsimp only
      rw [hFull, if_neg hSize.ne', hNext]
      obtain ⟨hAffected, hBatches, hComplete, hLeft⟩ := hRest
      refine ⟨?_, ?_, hComplete, ?_⟩
      · rw [hAffected]
        ring
      · rw [hBatches]
        ring
      · rw [hLeft, work.left_batch, Nat.add_mul, Nat.one_mul]
        omega

/-- A batch of an empty table ends the loop, unless a limit does. -/
theorem batchLoop_empty {room batches affected : Nat} {t : τ} (h : work.left t = 0) :
    (batchLoop work size stop room batches affected t).affected = affected ∧
      work.left (batchLoop work size stop room batches affected t).table = 0 ∧
      (batchLoop work size stop room batches affected t).batches =
        if 0 < room ∧ stop batches affected = false then batches + 1 else batches := by
  cases room with
  | zero => simp [batchLoop, h]
  | succ room =>
    rw [batchLoop]
    by_cases hStop : stop batches affected = true
    · simp [hStop, h]
    · simp [hStop, h, work.left_batch]

theorem batchLoop_covered_from (hSize : 0 < size) (room batches : Nat) (t : τ)
    (h : work.left t ≤ admittedFrom size stop room batches * size) :
    (batchLoop work size stop room batches (batches * size) t).affected =
        batches * size + work.left t ∧
      work.left (batchLoop work size stop room batches (batches * size) t).table = 0 ∧
      (batchLoop work size stop room batches (batches * size) t).batches =
        if (work.left t + (size - 1)) / size < room ∧
            stop (batches + (work.left t + (size - 1)) / size) (batches * size + work.left t) = false then
          batches + (work.left t + (size - 1)) / size + 1
        else batches + (work.left t + (size - 1)) / size := by
  induction room generalizing batches t with
  | zero =>
    have hZero : work.left t = 0 := by simpa [admittedFrom] using h
    have hFull : (size - 1) / size = 0 := Nat.div_eq_of_lt (by omega)
    simp [batchLoop, hZero, hFull]
  | succ room ih =>
    rw [batchLoop]
    by_cases hStop : stop batches (batches * size) = true
    · have hZero : work.left t = 0 := by simpa [admittedFrom, hStop] using h
      have hFull : (size - 1) / size = 0 := Nat.div_eq_of_lt (by omega)
      simp [hStop, hZero, hFull]
    · rw [admittedFrom, if_neg hStop, Nat.add_mul, Nat.one_mul] at h
      rw [if_neg hStop]
      dsimp only
      rcases Nat.eq_zero_or_pos (work.left t) with hZero | hPos
      · have hFull : (size - 1) / size = 0 := Nat.div_eq_of_lt (by omega)
        simp [hZero, hFull, hStop, work.left_batch]
      · rw [if_neg (by omega)]
        by_cases hBig : size ≤ work.left t
        · have hNext : batches * size + min size (work.left t) = (batches + 1) * size := by
            rw [Nat.min_eq_left hBig]
            ring
          have hRows : work.left (work.batch size t) = work.left t - size := work.left_batch size t
          have hFull : (work.left t + (size - 1)) / size = (work.left t - size + (size - 1)) / size + 1 := by
            rw [← Nat.add_div_right _ hSize]
            congr 1
            omega
          obtain ⟨hAffected, hLeft, hBatches⟩ := ih (batches + 1) (work.batch size t)
            (by rw [hRows]; omega)
          have hSum : (batches + 1) * size + (work.left t - size) = batches * size + work.left t := by
            rw [Nat.add_mul, Nat.one_mul]
            omega
          rw [hNext]
          refine ⟨by rw [hAffected, hRows, hSum], hLeft, ?_⟩
          rw [hBatches, hRows, hSum, hFull]
          simp only [Nat.succ_lt_succ_iff, Nat.add_assoc, Nat.add_comm 1]
        · have hRows : work.left (work.batch size t) = 0 := by
            rw [work.left_batch]
            omega
          have hFull : (work.left t + (size - 1)) / size = 1 :=
            Nat.div_eq_of_lt_le (by omega) (by omega)
          obtain ⟨hAffected, hLeft, hBatches⟩ :=
            @batchLoop_empty _ work size stop room (batches + 1)
              (batches * size + min size (work.left t)) (work.batch size t) hRows
          rw [Nat.min_eq_right (by omega)] at hAffected hLeft hBatches ⊢
          refine ⟨hAffected, hLeft, ?_⟩
          rw [hBatches, hFull]
          simp only [Nat.succ_lt_succ_iff]

/-! ## The whole loop -/

section Whole
variable (work : Work τ) (size : Nat) (stop : Nat → Nat → Bool)

/-- What every batch keeps, the loop keeps. -/
theorem batchLoop_keeps {β : Type} {q : τ → β} (h : ∀ n t, q (work.batch n t) = q t)
    (room batches affected : Nat) (t : τ) :
    q (batchLoop work size stop room batches affected t).table = q t := by
  induction room generalizing batches affected t with
  | zero => rfl
  | succ room ih =>
    rw [batchLoop]
    dsimp only
    split
    · rfl
    · split
      · exact h size t
      · rw [ih, h size t]

/-- A measure that every batch lowers by the rows it handles. -/
theorem batchLoop_lowers {m : τ → Nat} (h : ∀ n t, m (work.batch n t) + min n (work.left t) = m t)
    (room batches affected : Nat) (t : τ) :
    m (batchLoop work size stop room batches affected t).table +
        (batchLoop work size stop room batches affected t).affected = m t + affected := by
  induction room generalizing batches affected t with
  | zero => rfl
  | succ room ih =>
    have hBatch := h size t
    rw [batchLoop]
    dsimp only
    split
    · rfl
    · split
      next hNone =>
        dsimp only
        omega
      next =>
        rw [ih]
        omega

/-- The admitted batches do not cover the rows: all of them are full, and rows are left. -/
theorem batchLoop_left (hSize : 0 < size) {maxBatches : Nat} {t : τ}
    (h : admitted size stop maxBatches * size < work.left t) :
    (batchLoop work size stop maxBatches 0 0 t).affected = admitted size stop maxBatches * size ∧
      (batchLoop work size stop maxBatches 0 0 t).batches = admitted size stop maxBatches ∧
      (batchLoop work size stop maxBatches 0 0 t).complete = false ∧
      work.left (batchLoop work size stop maxBatches 0 0 t).table =
        work.left t - admitted size stop maxBatches * size := by
  have hLoop := @batchLoop_left_from _ work size stop hSize maxBatches 0 t h
  simpa only [Nat.zero_mul, Nat.zero_add, admitted] using hLoop

/-- The admitted batches cover the rows: none is left. -/
theorem batchLoop_covered (hSize : 0 < size) {maxBatches : Nat} {t : τ}
    (h : work.left t ≤ admitted size stop maxBatches * size) :
    (batchLoop work size stop maxBatches 0 0 t).affected = work.left t ∧
      work.left (batchLoop work size stop maxBatches 0 0 t).table = 0 ∧
      (batchLoop work size stop maxBatches 0 0 t).batches =
        batchesFor size stop maxBatches (work.left t) := by
  have hLoop := @batchLoop_covered_from _ work size stop hSize maxBatches 0 t h
  simpa only [Nat.zero_mul, Nat.zero_add, batchesFor] using hLoop

end Whole

end Batches
