import Mathlib.Data.Nat.Digits.Lemmas
import Mathlib.Data.List.TakeWhile
import Mathlib.Tactic.Ring

/-!
# Numerals in two bases

Numerals are lists of digits, the most significant digit first. `toRadix` is the conversion loop that is used
for numerals with meaningful leading zeros: each zero in front becomes one zero, and the number behind them is
written with as few digits as possible, at least with one.

* `number_toRadix`: the conversion keeps the number.
* `toRadix_toRadix`: the conversion back gives the numeral again, unless it consists of zeros.
* `length_toRadix_le`: how long the result may get.
-/

namespace Radix

/-- The number of a numeral. -/
def number (b : Nat) (l : List Nat) : Nat := l.foldl (fun n d => n * b + d) 0

@[simp] theorem number_nil (b : Nat) : number b [] = 0 := rfl

@[simp] theorem number_concat (b : Nat) (l : List Nat) (d : Nat) :
    number b (l ++ [d]) = number b l * b + d := by
  simp [number]

theorem number_append (b : Nat) (l l' : List Nat) :
    number b (l ++ l') = number b l * b ^ l'.length + number b l' := by
  induction l' using List.reverseRecOn with
  | nil => simp
  | append_singleton l' e ih =>
    rw [← List.append_assoc, number_concat, number_concat, ih, List.length_append, List.length_singleton]
    ring

theorem number_cons (b d : Nat) (l : List Nat) : number b (d :: l) = d * b ^ l.length + number b l := by
  have hFirst : number b [d] = d := by simp [number]
  rw [← List.singleton_append, number_append, hFirst]

theorem number_eq (b : Nat) (l : List Nat) : number b l = Nat.ofDigits b l.reverse := by
  induction l using List.reverseRecOn with
  | nil => rfl
  | append_singleton l d ih =>
    rw [number_concat, ih, List.reverse_append, List.reverse_singleton, List.singleton_append,
      Nat.ofDigits_cons]
    ring

theorem number_lt {b : Nat} (hb : 1 < b) {l : List Nat} (h : ∀ d ∈ l, d < b) : number b l < b ^ l.length := by
  rw [number_eq, ← List.length_reverse]
  exact Nat.ofDigits_lt_base_pow_length hb fun d hd => h d (List.mem_reverse.mp hd)

theorem number_inj {b : Nat} (hb : 1 < b) {l l' : List Nat} (hLength : l.length = l'.length)
    (h : ∀ d ∈ l, d < b) (h' : ∀ d ∈ l', d < b) (hNumber : number b l = number b l') : l = l' := by
  rw [number_eq, number_eq] at hNumber
  apply List.reverse_injective
  exact Nat.ofDigits_inj_of_len_eq hb (by simpa using hLength) (by simpa using h) (by simpa using h') hNumber

/-- The number is zero for zeros only. -/
theorem number_eq_zero {b : Nat} (hb : 1 < b) {l : List Nat} (h : ∀ d ∈ l, d < b) (hNumber : number b l = 0) :
    l = List.replicate l.length 0 := by
  apply number_inj hb List.length_replicate.symm h
  · intro d hd
    rw [List.eq_of_mem_replicate hd]
    omega
  · rw [hNumber, number_eq, List.reverse_replicate, Nat.ofDigits_replicate_zero]

/-! ## The conversion loop -/

/-- Multiplies a number by `m` and adds a carry, on digits in base `b` with the least significant one first. -/
def mulAdd (b m : Nat) : Nat → List Nat → List Nat
  | carry, [] => Nat.digits b carry
  | carry, d :: rest => (carry + d * m) % b :: mulAdd b m ((carry + d * m) / b) rest

/-- The number of a numeral in base `m`, as digits in base `b` with the least significant one first. -/
def convert (b m : Nat) (l : List Nat) : List Nat := l.foldl (fun digits d => mulAdd b m d digits) [0]

/-- How many zeros a numeral begins with. -/
def leadingZeros (l : List Nat) : Nat := (l.takeWhile (· = 0)).length

def toRadix (b m : Nat) (l : List Nat) : List Nat :=
  List.replicate (leadingZeros l) 0 ++ (convert b m l).reverse

/-- The digits of a number, at least one. -/
def shortest (b n : Nat) : List Nat := if n = 0 then [0] else Nat.digits b n

section Conversion

variable {b m : Nat} (hb : 1 < b) (hm : 1 < m)

include hb hm

theorem mulAdd_digits (carry n : Nat) : mulAdd b m carry (Nat.digits b n) = Nat.digits b (carry + m * n) := by
  induction n using Nat.strongRecOn generalizing carry with
  | ind n ih =>
    rcases Nat.eq_zero_or_pos n with rfl | hn
    · simp [mulAdd]
    · have hLess : n / b < n := Nat.div_lt_self hn hb
      have hSplit : carry + m * n = carry + n % b * m + b * (m * (n / b)) := by
        calc carry + m * n = carry + m * (b * (n / b) + n % b) := by rw [Nat.div_add_mod]
          _ = carry + n % b * m + b * (m * (n / b)) := by ring
      have hPos : 0 < carry + m * n := by
        have := Nat.mul_pos (show 0 < m by omega) hn
        omega
      rw [Nat.digits_def' hb hn, mulAdd, ih _ hLess, Nat.digits_def' hb hPos, hSplit,
        Nat.add_mul_mod_self_left, Nat.add_mul_div_left _ _ (show 0 < b by omega)]

theorem mulAdd_shortest (carry n : Nat) : mulAdd b m carry (shortest b n) = shortest b (carry + m * n) := by
  unfold shortest
  by_cases hn : n = 0
  · subst hn
    rw [if_pos rfl, mulAdd, mulAdd, Nat.mul_zero, Nat.add_zero, Nat.zero_mul, Nat.add_zero]
    by_cases hCarry : carry = 0
    · simp [hCarry]
    · rw [if_neg hCarry, Nat.digits_def' hb (Nat.pos_of_ne_zero hCarry)]
  · have hPos : 0 < m * n := Nat.mul_pos (by omega) (Nat.pos_of_ne_zero hn)
    rw [if_neg hn, if_neg (show carry + m * n ≠ 0 by omega), mulAdd_digits hb hm]

theorem convert_eq (l : List Nat) : convert b m l = shortest b (number m l) := by
  induction l using List.reverseRecOn with
  | nil => rfl
  | append_singleton l d ih =>
    have hStep : convert b m (l ++ [d]) = mulAdd b m d (convert b m l) := by simp [convert]
    rw [hStep, ih, mulAdd_shortest hb hm, number_concat, Nat.add_comm, Nat.mul_comm]

end Conversion

/-! ## Zeros in front -/

theorem leadingZeros_replicate_append (z : Nat) {l : List Nat} (h : ∀ d, l.head? = some d → d ≠ 0) :
    leadingZeros (List.replicate z 0 ++ l) = z := by
  have hRest : l.takeWhile (· = 0) = [] := by
    cases l with
    | nil => rfl
    | cons d l => simp [h d rfl]
  unfold leadingZeros
  rw [List.takeWhile_append_of_pos (by simp), hRest, List.append_nil, List.length_replicate]

theorem number_replicate_append (b z : Nat) (l : List Nat) :
    number b (List.replicate z 0 ++ l) = number b l := by
  rw [number_eq, number_eq, List.reverse_append, List.reverse_replicate, Nat.ofDigits_append_replicate_zero]

/-- A numeral is its leading zeros and the digits of its number. -/
theorem eq_replicate_append {b : Nat} (hb : 1 < b) {l : List Nat} (h : ∀ d ∈ l, d < b) :
    l = List.replicate (leadingZeros l) 0 ++ (Nat.digits b (number b l)).reverse := by
  have hZeros : l.takeWhile (· = 0) = List.replicate (leadingZeros l) 0 :=
    List.eq_replicate_of_mem fun d hd => by simpa using List.mem_takeWhile_imp hd
  have hSplit : List.replicate (leadingZeros l) 0 ++ l.dropWhile (· = 0) = l := by
    rw [← hZeros, List.takeWhile_append_dropWhile]
  have hNumber : number b l = Nat.ofDigits b (l.dropWhile (· = 0)).reverse := by
    calc number b l = number b (List.replicate (leadingZeros l) 0 ++ l.dropWhile (· = 0)) := by rw [hSplit]
      _ = Nat.ofDigits b (l.dropWhile (· = 0)).reverse := by rw [number_replicate_append, number_eq]
  have hDigits : Nat.digits b (number b l) = (l.dropWhile (· = 0)).reverse := by
    rw [hNumber]
    apply Nat.digits_ofDigits b hb
    · intro d hd
      exact h d ((List.dropWhile_suffix _).subset (List.mem_reverse.mp hd))
    · intro hNe
      rw [List.getLast_reverse]
      have := List.head_dropWhile_not (· = 0) (fun hNil => hNe (by rw [hNil]; rfl) : l.dropWhile (· = 0) ≠ [])
      simpa using this
  rw [hDigits, List.reverse_reverse, hSplit]

theorem number_toRadix {b m : Nat} (hb : 1 < b) (hm : 1 < m) (l : List Nat) :
    number b (toRadix b m l) = number m l := by
  rw [toRadix, convert_eq hb hm, number_replicate_append, number_eq, List.reverse_reverse, shortest]
  split
  · next hZero =>
    rw [hZero]
    rfl
  · exact Nat.ofDigits_digits b _

/-- The conversion back from the numeral of a positive number. -/
theorem toRadix_toRadix_of_ne {b m : Nat} (hb : 1 < b) (hm : 1 < m) {l : List Nat} (h : ∀ d ∈ l, d < m)
    (hZero : number m l ≠ 0) : toRadix m b (toRadix b m l) = l := by
  have hHead : ∀ d, (Nat.digits b (number m l)).reverse.head? = some d → d ≠ 0 := by
    intro d hd
    rw [List.head?_reverse, List.getLast?_eq_some_getLast (Nat.digits_ne_nil_iff_ne_zero.mpr hZero)] at hd
    cases hd
    exact Nat.getLast_digit_ne_zero b hZero
  have hCode : toRadix b m l = List.replicate (leadingZeros l) 0 ++ (Nat.digits b (number m l)).reverse := by
    rw [toRadix, convert_eq hb hm, shortest, if_neg hZero]
  have hNumber : number b (toRadix b m l) = number m l := number_toRadix hb hm l
  have hLeading : leadingZeros (toRadix b m l) = leadingZeros l := by
    rw [hCode, leadingZeros_replicate_append _ hHead]
  rw [toRadix, convert_eq hm hb, hLeading, hNumber, shortest, if_neg hZero]
  exact (eq_replicate_append hm h).symm

theorem toRadix_replicate {b m : Nat} (hb : 1 < b) (hm : 1 < m) (n : Nat) :
    toRadix b m (List.replicate n 0) = List.replicate (n + 1) 0 := by
  have hLeading := leadingZeros_replicate_append n (l := []) (by simp)
  have hNumber := number_replicate_append m n []
  rw [List.append_nil] at hLeading hNumber
  rw [toRadix, convert_eq hb hm, hLeading, hNumber, number_nil, shortest, if_pos rfl, List.replicate_succ']
  rfl

/-- The conversion back; a numeral of zeros only gets one zero more each time. -/
theorem toRadix_toRadix {b m : Nat} (hb : 1 < b) (hm : 1 < m) {l : List Nat} (h : ∀ d ∈ l, d < m) :
    toRadix m b (toRadix b m l) = l ∨ (toRadix m b (toRadix b m l)).length = l.length + 2 := by
  by_cases hZero : number m l = 0
  · right
    rw [number_eq_zero hm h hZero, toRadix_replicate hb hm, toRadix_replicate hm hb, List.length_replicate,
      List.length_replicate]
  · exact .inl (toRadix_toRadix_of_ne hb hm h hZero)

theorem length_toRadix_le {b m n : Nat} (hb : 1 < b) (hm : 1 < m) {l : List Nat} (h : ∀ d ∈ l, d < m)
    (hBound : m ^ l.length ≤ b ^ n) (hn : 0 < n) : (toRadix b m l).length ≤ leadingZeros l + n := by
  have hNumber : number m l < b ^ n := (number_lt hm h).trans_le hBound
  have hDigits : (shortest b (number m l)).length ≤ n := by
    unfold shortest
    split
    · exact hn
    · exact (Nat.digits_length_le_iff hb _).mpr hNumber
  rw [toRadix, convert_eq hb hm, List.length_append, List.length_replicate, List.length_reverse]
  exact Nat.add_le_add_left hDigits _

theorem lt_of_mem_toRadix {b m : Nat} (hb : 1 < b) (hm : 1 < m) {l : List Nat} {d : Nat}
    (h : d ∈ toRadix b m l) : d < b := by
  rw [toRadix, convert_eq hb hm, List.mem_append, List.mem_reverse] at h
  rcases h with hZero | hDigit
  · rw [List.eq_of_mem_replicate hZero]
    omega
  · unfold shortest at hDigit
    split at hDigit
    · rw [List.mem_singleton.mp hDigit]
      omega
    · exact Nat.digits_lt_base hb hDigit

/-! ## Blocks of digits -/

/-- Digits in blocks of one length are the digits in a power of the base. -/
theorem number_flatMap {α : Type} {b m : Nat} {f : α → List Nat} {l : List α}
    (h : ∀ a ∈ l, (f a).length = m) :
    number b (l.flatMap f) = number (b ^ m) (l.map fun a => number b (f a)) := by
  induction l using List.reverseRecOn with
  | nil => rfl
  | append_singleton l a ih =>
    have hRest : ∀ a ∈ l, (f a).length = m := fun a ha => h a (List.mem_append_left _ ha)
    have hLast : (f a).length = m := h a (by simp)
    rw [List.flatMap_append, List.flatMap_singleton, number_append, ih hRest, hLast, List.map_append,
      List.map_singleton, number_concat]

/-- A list that is read block by block. -/
theorem flatMap_range {α : Type} (f : Nat → α) (m n : Nat) :
    (List.range n).flatMap (fun k => (List.range m).map fun j => f (m * k + j)) =
      (List.range (m * n)).map f := by
  induction n with
  | zero => rfl
  | succ n ih =>
    rw [List.range_succ, List.flatMap_append, List.flatMap_singleton, ih, Nat.mul_succ, List.range_add,
      List.map_append, List.map_map]
    rfl

/-- The digits of a number from its quotients. -/
theorem number_quotients (b n x : Nat) :
    number b ((List.range n).map fun i => x / b ^ (n - 1 - i) % b) = x % b ^ n := by
  induction n generalizing x with
  | zero => rw [pow_zero, Nat.mod_one]; rfl
  | succ n ih =>
    have hFront : (List.range n).map (fun i => x / b ^ (n + 1 - 1 - i) % b) =
        (List.range n).map fun i => x / b / b ^ (n - 1 - i) % b := by
      refine List.map_congr_left fun i hi => ?_
      have hi := List.mem_range.mp hi
      have hExp : n + 1 - 1 - i = 1 + (n - 1 - i) := by omega
      rw [hExp, Nat.pow_add, pow_one, Nat.div_div_eq_div_mul]
    rw [List.range_succ, List.map_append, List.map_singleton, number_concat, hFront, ih, Nat.pow_succ',
      Nat.mod_mul]
    simp only [Nat.add_sub_cancel, Nat.sub_self, pow_zero, Nat.div_one]
    ring

end Radix
