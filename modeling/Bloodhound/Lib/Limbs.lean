import Bloodhound.Lib.Radix

/-!
# Numbers in limbs

A number of fixed size is a list of limbs in some base, the least significant limb first. `addCarry` and
`subBorrow` are the loops that go through two such lists and hand a carry or a borrow from limb to limb;
`compareFrom` is the loop that goes through them from the most significant limb.

* `value_addCarry`, `value_subBorrow`: the results, with what is handed out at the end.
* `compareFrom_eq`: the comparison is that of the numbers.

`Word b n` has `n` limbs in base `b`, and is known through its value (`Word.toNat_inj`).
-/

namespace Limbs

/-- The number of some limbs. -/
def value (b : Nat) (l : List Nat) : Nat := Nat.ofDigits b l

@[simp] theorem value_nil (b : Nat) : value b [] = 0 := rfl

@[simp] theorem value_cons (b d : Nat) (l : List Nat) : value b (d :: l) = d + b * value b l := Nat.ofDigits_cons ..

theorem value_lt {b : Nat} (hb : 1 < b) {l : List Nat} (h : ∀ d ∈ l, d < b) : value b l < b ^ l.length :=
  Nat.ofDigits_lt_base_pow_length hb fun d => h d

theorem value_eq_zero_iff {b : Nat} (hb : 0 < b) {l : List Nat} : value b l = 0 ↔ ∀ d ∈ l, d = 0 := by
  induction l with
  | nil => simp
  | cons d l ih =>
    rw [value_cons, Nat.add_eq_zero_iff, Nat.mul_eq_zero, ih, List.forall_mem_cons]
    have hNot : ¬ b = 0 := Nat.ne_of_gt hb
    simp [hNot]

theorem value_inj {b : Nat} (hb : 1 < b) {l l' : List Nat} (hLength : l.length = l'.length)
    (h : ∀ d ∈ l, d < b) (h' : ∀ d ∈ l', d < b) (hValue : value b l = value b l') : l = l' :=
  Nat.ofDigits_inj_of_len_eq hb hLength (fun d => h d) (fun d => h' d) hValue

theorem value_reverse (b : Nat) (l : List Nat) : value b l.reverse = Radix.number b l := (Radix.number_eq b l).symm

/-! ## Addition and subtraction -/

/-- The sum of two numbers and a carry, limb by limb, and the carry out of the last limb. -/
def addCarry (b : Nat) : Nat → List Nat → List Nat → List Nat × Nat
  | carry, x :: xs, y :: ys =>
    let rest := addCarry b ((x + y + carry) / b) xs ys
    ((x + y + carry) % b :: rest.1, rest.2)
  | carry, _, _ => ([], carry)

/-- The difference of two numbers and a borrow, limb by limb, and the borrow out of the last limb. -/
def subBorrow (b : Nat) : Nat → List Nat → List Nat → List Nat × Nat
  | borrow, x :: xs, y :: ys =>
    if x < y + borrow then
      let rest := subBorrow b 1 xs ys
      ((x + b - (y + borrow)) :: rest.1, rest.2)
    else
      let rest := subBorrow b 0 xs ys
      ((x - (y + borrow)) :: rest.1, rest.2)
  | borrow, _, _ => ([], borrow)

section Loops

variable {b : Nat} {xs ys : List Nat}

theorem value_addCarry (carry : Nat) (hLength : xs.length = ys.length) :
    value b (addCarry b carry xs ys).1 + b ^ xs.length * (addCarry b carry xs ys).2 =
      value b xs + value b ys + carry := by
  induction xs generalizing ys carry with
  | nil =>
    cases ys with
    | nil => simp [addCarry]
    | cons y ys => cases hLength
  | cons x xs ih =>
    cases ys with
    | nil => cases hLength
    | cons y ys =>
      have hRest := ih ((x + y + carry) / b) (Nat.succ.inj hLength)
      have hLimb := Nat.mod_add_div (x + y + carry) b
      rw [addCarry, value_cons, value_cons, value_cons, List.length_cons, Nat.pow_succ]
      calc _ = (x + y + carry) % b + b * (value b (addCarry b ((x + y + carry) / b) xs ys).1 +
            b ^ xs.length * (addCarry b ((x + y + carry) / b) xs ys).2) := by ring
        _ = (x + y + carry) % b + b * ((x + y + carry) / b) + b * (value b xs + value b ys) := by
          rw [hRest]
          ring
        _ = x + b * value b xs + (y + b * value b ys) + carry := by
          rw [hLimb]
          ring

theorem length_addCarry (carry : Nat) (hLength : xs.length = ys.length) :
    (addCarry b carry xs ys).1.length = xs.length := by
  induction xs generalizing ys carry with
  | nil => rfl
  | cons x xs ih =>
    cases ys with
    | nil => cases hLength
    | cons y ys =>
      rw [addCarry, List.length_cons, List.length_cons, ih _ (Nat.succ.inj hLength)]

theorem lt_of_mem_addCarry (hb : 0 < b) (carry : Nat) {d : Nat} (h : d ∈ (addCarry b carry xs ys).1) : d < b := by
  induction xs generalizing ys carry with
  | nil => cases h
  | cons x xs ih =>
    cases ys with
    | nil => cases h
    | cons y ys =>
      rcases List.mem_cons.mp h with rfl | hRest
      · exact Nat.mod_lt _ hb
      · exact ih _ hRest

theorem value_subBorrow {borrow : Nat} (hBorrow : borrow ≤ 1) (hLength : xs.length = ys.length)
    (hys : ∀ d ∈ ys, d < b) :
    value b xs + b ^ xs.length * (subBorrow b borrow xs ys).2 =
      value b (subBorrow b borrow xs ys).1 + value b ys + borrow := by
  induction xs generalizing ys borrow with
  | nil =>
    cases ys with
    | nil => simp [subBorrow]
    | cons y ys => cases hLength
  | cons x xs ih =>
    cases ys with
    | nil => cases hLength
    | cons y ys =>
      have hy : y < b := hys y List.mem_cons_self
      have hRest := fun {w : Nat} (hw : w ≤ 1) =>
        ih hw (Nat.succ.inj hLength) fun d hd => hys d (List.mem_cons_of_mem _ hd)
      rw [subBorrow]
      split
      · next hLess =>
        have hLimb : x + b - (y + borrow) + (y + borrow) = x + b := Nat.sub_add_cancel (by omega)
        have hOne := hRest (Nat.le_refl 1)
        rw [value_cons, value_cons, value_cons, List.length_cons, Nat.pow_succ]
        calc _ = x + b * (value b xs + b ^ xs.length * (subBorrow b 1 xs ys).2) := by ring
          _ = x + b - (y + borrow) + (y + borrow) + b * (value b (subBorrow b 1 xs ys).1 + value b ys) := by
            rw [hOne, hLimb]
            ring
          _ = _ := by ring
      · next hMore =>
        have hLimb : x - (y + borrow) + (y + borrow) = x := Nat.sub_add_cancel (by omega)
        have hZero := hRest (Nat.zero_le 1)
        rw [value_cons, value_cons, value_cons, List.length_cons, Nat.pow_succ]
        calc _ = x + b * (value b xs + b ^ xs.length * (subBorrow b 0 xs ys).2) := by ring
          _ = x - (y + borrow) + (y + borrow) + b * (value b (subBorrow b 0 xs ys).1 + value b ys) := by
            rw [hZero, hLimb, Nat.add_zero]
          _ = _ := by ring

theorem length_subBorrow (borrow : Nat) (hLength : xs.length = ys.length) :
    (subBorrow b borrow xs ys).1.length = xs.length := by
  induction xs generalizing ys borrow with
  | nil => rfl
  | cons x xs ih =>
    cases ys with
    | nil => cases hLength
    | cons y ys =>
      rw [subBorrow]
      split <;> rw [List.length_cons, List.length_cons, ih _ (Nat.succ.inj hLength)]

theorem lt_of_mem_subBorrow (borrow : Nat) (hxs : ∀ d ∈ xs, d < b) {d : Nat}
    (h : d ∈ (subBorrow b borrow xs ys).1) : d < b := by
  induction xs generalizing ys borrow with
  | nil => cases h
  | cons x xs ih =>
    cases ys with
    | nil => cases h
    | cons y ys =>
      have hx := hxs x List.mem_cons_self
      have hRest := fun w : Nat => @ih ys w fun d hd => hxs d (List.mem_cons_of_mem _ hd)
      rw [subBorrow] at h
      split at h
      · rcases List.mem_cons.mp h with rfl | hTail
        · omega
        · exact hRest 1 hTail
      · rcases List.mem_cons.mp h with rfl | hTail
        · omega
        · exact hRest 0 hTail

end Loops

/-! ## Comparison -/

/-- The first limb that differs decides; the most significant limb comes first. -/
def compareFrom : List Nat → List Nat → Ordering
  | x :: xs, y :: ys => if y < x then .gt else if x < y then .lt else compareFrom xs ys
  | _, _ => .eq

theorem compareFrom_eq {b : Nat} (hb : 1 < b) {xs ys : List Nat} (hLength : xs.length = ys.length)
    (hxs : ∀ d ∈ xs, d < b) (hys : ∀ d ∈ ys, d < b) :
    compareFrom xs ys = compare (Radix.number b xs) (Radix.number b ys) := by
  induction xs generalizing ys with
  | nil =>
    cases ys with
    | nil => rfl
    | cons y ys => cases hLength
  | cons x xs ih =>
    cases ys with
    | nil => cases hLength
    | cons y ys =>
      have hSame : xs.length = ys.length := Nat.succ.inj hLength
      have hTail := fun d hd => hxs d (List.mem_cons_of_mem x hd)
      have hTail' := fun d hd => hys d (List.mem_cons_of_mem y hd)
      have hx := Radix.number_lt hb hTail
      have hy := Radix.number_lt hb hTail'
      rw [hSame] at hx
      rw [compareFrom, Radix.number_cons, Radix.number_cons, hSame]
      -- a larger limb outweighs all that follow
      have hOutweighs : ∀ {c d m n : Nat}, c < d → m < b ^ ys.length →
          c * b ^ ys.length + m < d * b ^ ys.length + n := by
        intro c d m n hLess hm
        calc c * b ^ ys.length + m < (c + 1) * b ^ ys.length := by rw [Nat.add_mul]; omega
          _ ≤ d * b ^ ys.length := Nat.mul_le_mul_right _ hLess
          _ ≤ _ := Nat.le_add_right _ _
      split
      · next hGreater => exact (Nat.compare_eq_gt.mpr (hOutweighs hGreater hy)).symm
      · split
        · next hLess => exact (Nat.compare_eq_lt.mpr (hOutweighs hLess hx)).symm
        · next hNot hNot' =>
          have hEqual : x = y := by omega
          rw [hEqual, ih hSame hTail hTail']
          simp only [compare, compareOfLessAndEq, Nat.add_lt_add_iff_left, Nat.add_left_cancel_iff]

/-! ## Words -/

/-- A number with `n` limbs in base `b`. -/
@[ext] structure Word (b n : Nat) where
  limbs : List Nat
  length_limbs : limbs.length = n
  limb_lt : ∀ d ∈ limbs, d < b
  deriving DecidableEq

namespace Word

variable {b n : Nat}

def toNat (x : Word b n) : Nat := value b x.limbs

theorem toNat_lt (hb : 1 < b) (x : Word b n) : x.toNat < b ^ n := by
  have h := value_lt hb x.limb_lt
  rwa [x.length_limbs] at h

theorem toNat_inj (hb : 1 < b) {x y : Word b n} (h : x.toNat = y.toNat) : x = y :=
  Word.ext (value_inj hb (x.length_limbs.trans y.length_limbs.symm) x.limb_lt y.limb_lt h)

/-- The sum and the carry out of it. -/
def add (x y : Word b n) (hb : 0 < b) : Word b n × Nat :=
  have hLength : x.limbs.length = y.limbs.length := x.length_limbs.trans y.length_limbs.symm
  let sum := addCarry b 0 x.limbs y.limbs
  (⟨sum.1, (length_addCarry 0 hLength).trans x.length_limbs, fun _ => lt_of_mem_addCarry hb 0⟩, sum.2)

/-- The difference and the borrow out of it. -/
def sub (x y : Word b n) : Word b n × Nat :=
  have hLength : x.limbs.length = y.limbs.length := x.length_limbs.trans y.length_limbs.symm
  let difference := subBorrow b 0 x.limbs y.limbs
  (⟨difference.1, (length_subBorrow 0 hLength).trans x.length_limbs, fun _ => lt_of_mem_subBorrow 0 x.limb_lt⟩,
    difference.2)

def compare (x y : Word b n) : Ordering := compareFrom x.limbs.reverse y.limbs.reverse

theorem toNat_add (x y : Word b n) (hb : 0 < b) :
    (x.add y hb).1.toNat + b ^ n * (x.add y hb).2 = x.toNat + y.toNat := by
  have h := value_addCarry (b := b) 0 (x.length_limbs.trans y.length_limbs.symm)
  rwa [x.length_limbs, Nat.add_zero] at h

theorem toNat_sub (x y : Word b n) : x.toNat + b ^ n * (x.sub y).2 = (x.sub y).1.toNat + y.toNat := by
  have h := value_subBorrow (b := b) (Nat.zero_le 1) (x.length_limbs.trans y.length_limbs.symm) y.limb_lt
  rwa [x.length_limbs, Nat.add_zero] at h

/-- Without a borrow, the difference is exact. -/
theorem toNat_sub_of_le (hb : 1 < b) {x y : Word b n} (h : y.toNat ≤ x.toNat) :
    (x.sub y).1.toNat = x.toNat - y.toNat := by
  have hValue := toNat_sub x y
  have hLess := (x.sub y).1.toNat_lt hb
  rcases Nat.eq_zero_or_pos (x.sub y).2 with hZero | hPos
  · rw [hZero, Nat.mul_zero, Nat.add_zero] at hValue
    omega
  · have : b ^ n ≤ b ^ n * (x.sub y).2 := Nat.le_mul_of_pos_right _ hPos
    omega

theorem toNat_add_of_lt {x y : Word b n} (hb : 0 < b) (h : x.toNat + y.toNat < b ^ n) :
    (x.add y hb).1.toNat = x.toNat + y.toNat ∧ (x.add y hb).2 = 0 := by
  have hValue := toNat_add x y hb
  rcases Nat.eq_zero_or_pos (x.add y hb).2 with hZero | hPos
  · rw [hZero, Nat.mul_zero, Nat.add_zero] at hValue
    exact ⟨hValue, hZero⟩
  · have : b ^ n ≤ b ^ n * (x.add y hb).2 := Nat.le_mul_of_pos_right _ hPos
    omega

theorem compare_eq (hb : 1 < b) (x y : Word b n) : x.compare y = Ord.compare x.toNat y.toNat := by
  have hReverse : ∀ z : Word b n, Radix.number b z.limbs.reverse = z.toNat := fun z => by
    rw [← value_reverse, List.reverse_reverse, toNat]
  rw [compare, compareFrom_eq hb, hReverse, hReverse]
  · rw [List.length_reverse, List.length_reverse, x.length_limbs, y.length_limbs]
  · exact fun d hd => x.limb_lt d (List.mem_reverse.mp hd)
  · exact fun d hd => y.limb_lt d (List.mem_reverse.mp hd)

end Word

end Limbs
