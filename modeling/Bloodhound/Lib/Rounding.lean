import Mathlib.Data.Int.Log
import Mathlib.Data.Rat.Floor
import Mathlib.Tactic.Linarith
import Mathlib.Tactic.Positivity
import Mathlib.Tactic.Ring

/-!
# Rounding to a number of binary digits

A floating-point operation gives the number of `p` binary digits next to its exact result, and
of two that are equally near the one whose last digit is even. The range of the exponents is
left out: the numbers are neither so large nor so small that it matters.

The rounded number differs from the exact one by at most a part of `2 ^ p`. So whole numbers up
to `2 ^ p` are kept, and the integer part of a rounded quotient of two whole numbers is the one
of the exact quotient, as long as the numerator is below `2 ^ p`.
-/

namespace Rounding

/-! ## The nearest whole number -/

/-- The nearest whole number, and of two the even one. -/
def halfEven (q : ℚ) : ℤ :=
  if q - ⌊q⌋ < 1 / 2 then ⌊q⌋
  else if 1 / 2 < q - ⌊q⌋ then ⌊q⌋ + 1
  else ⌊q⌋ + ⌊q⌋ % 2

theorem halfEven_intCast (n : ℤ) : halfEven n = n := by
  unfold halfEven
  rw [Int.floor_intCast, sub_self, if_pos (by norm_num)]

theorem abs_halfEven_sub_le (q : ℚ) : |(halfEven q : ℚ) - q| ≤ 1 / 2 := by
  have hFloor := Int.floor_le q
  have hNext := Int.lt_floor_add_one q
  unfold halfEven
  split_ifs with hLow hHigh
  · rw [abs_le]
    constructor <;> linarith
  · push_cast
    rw [abs_le]
    constructor <;> linarith
  · have hHalf : q = ⌊q⌋ + 1 / 2 := by linarith
    obtain hEven | hOdd := Int.emod_two_eq_zero_or_one ⌊q⌋
    · rw [hEven, add_zero, abs_le]
      constructor <;> linarith
    · rw [hOdd, abs_le]
      push_cast
      constructor <;> linarith

/-! ## Binary digits -/

/-- What the last of `p` binary digits of a number counts. -/
def lastDigit (p : ℕ) (q : ℚ) : ℚ := 2 ^ (Int.log 2 |q| + 1 - p)

/-- The nearest number of `p` binary digits. -/
def toDigits (p : ℕ) (q : ℚ) : ℚ := halfEven (q / lastDigit p q) * lastDigit p q

variable {p : ℕ} {q : ℚ}

theorem lastDigit_pos : 0 < lastDigit p q := by
  unfold lastDigit
  exact zpow_pos two_pos _

/-- The digits of a number fill its size. -/
theorem lastDigit_mul_le (hq : q ≠ 0) : lastDigit p q * 2 ^ p ≤ 2 * |q| := by
  have hLog : (2 : ℚ) ^ Int.log 2 |q| ≤ |q| := by
    exact_mod_cast Int.zpow_log_le_self (R := ℚ) one_lt_two (abs_pos.mpr hq)
  calc lastDigit p q * 2 ^ p = 2 ^ (Int.log 2 |q| + 1) := by
        unfold lastDigit
        rw [← zpow_natCast, ← zpow_add₀ two_ne_zero, sub_add_cancel]
    _ = 2 * 2 ^ Int.log 2 |q| := by rw [zpow_add_one₀ two_ne_zero, mul_comm]
    _ ≤ 2 * |q| := by linarith

/-- A number that is a multiple of its last digit is kept. -/
theorem toDigits_eq_self {n : ℤ} (h : q = n * lastDigit p q) : toDigits p q = q := by
  have hDiv : q / lastDigit p q = n := by
    rw [div_eq_iff lastDigit_pos.ne']
    exact h
  unfold toDigits
  rw [hDiv, halfEven_intCast]
  exact h.symm

/-- The rounded number is within half of the last digit. -/
theorem abs_toDigits_sub_le : |toDigits p q - q| ≤ lastDigit p q / 2 := by
  have hPos := @lastDigit_pos p q
  have hHalf := abs_halfEven_sub_le (q / lastDigit p q)
  have hEq : toDigits p q - q =
      (halfEven (q / lastDigit p q) - q / lastDigit p q) * lastDigit p q := by
    unfold toDigits
    rw [sub_mul, div_mul_cancel₀ _ hPos.ne']
  rw [hEq, abs_mul, abs_of_pos hPos]
  calc _ ≤ 1 / 2 * lastDigit p q := mul_le_mul_of_nonneg_right hHalf hPos.le
    _ = lastDigit p q / 2 := by ring

/-- The error is at most a part of `2 ^ p`. -/
theorem abs_toDigits_sub_mul_le : |toDigits p q - q| * 2 ^ p ≤ |q| := by
  have hPow : (0 : ℚ) ≤ 2 ^ p := by positivity
  by_cases hq : q = 0
  · have hZero : toDigits p (0 : ℚ) = 0 := toDigits_eq_self (by simp : (0 : ℚ) = (0 : ℤ) * _)
    rw [hq, hZero]
    simp
  · calc _ ≤ lastDigit p q / 2 * 2 ^ p := mul_le_mul_of_nonneg_right abs_toDigits_sub_le hPow
      _ = lastDigit p q * 2 ^ p / 2 := by ring
      _ ≤ |q| := by linarith [lastDigit_mul_le (p := p) hq]

/-! ## Whole numbers and their quotients -/

/-- Whole numbers of at most `p` digits are kept. -/
theorem toDigits_intCast {n : ℤ} (h : |n| < 2 ^ p) : toDigits p (n : ℚ) = n := by
  by_cases hn : n = 0
  · rw [hn]
    exact toDigits_eq_self (by simp : ((0 : ℤ) : ℚ) = (0 : ℤ) * _)
  · have hAbs : (0 : ℚ) < |(n : ℚ)| := abs_pos.mpr (Int.cast_ne_zero.mpr hn)
    have hLt : |(n : ℚ)| < ((2 : ℕ) : ℚ) ^ (p : ℤ) := by
      rw [zpow_natCast]
      exact_mod_cast h
    have hLog : Int.log 2 |(n : ℚ)| < p := (Int.lt_zpow_iff_log_lt one_lt_two hAbs).mp hLt
    -- the last digit is a fraction `1 / 2 ^ k`
    obtain ⟨k, hk⟩ : ∃ k : ℕ, Int.log 2 |(n : ℚ)| + 1 - p = -k :=
      ⟨(p - (Int.log 2 |(n : ℚ)| + 1)).toNat, by omega⟩
    apply toDigits_eq_self (n := n * 2 ^ k)
    unfold lastDigit
    rw [hk, zpow_neg, zpow_natCast]
    push_cast
    rw [mul_assoc, mul_inv_cancel₀ (pow_ne_zero k two_ne_zero), mul_one]

/-- A number below a whole one by at least a part of `2 ^ p` of itself stays below it. -/
theorem toDigits_lt {m : ℤ} (hq : 0 ≤ q) (h : q < (m - q) * 2 ^ p) : toDigits p q < m := by
  have hPow : (0 : ℚ) < 2 ^ p := by positivity
  have hError := @abs_toDigits_sub_mul_le p q
  rw [abs_of_nonneg hq] at hError
  have hAbs : |toDigits p q - q| < m - q := lt_of_mul_lt_mul_right (hError.trans_lt h) hPow.le
  linarith [(abs_lt.mp hAbs).2]

/-- A number above a whole one by at least a part of `2 ^ p` of itself stays above it. -/
theorem le_toDigits {m : ℤ} (hq : 0 ≤ q) (h : q ≤ (q - m) * 2 ^ p) : (m : ℚ) ≤ toDigits p q := by
  have hPow : (0 : ℚ) < 2 ^ p := by positivity
  have hError := @abs_toDigits_sub_mul_le p q
  rw [abs_of_nonneg hq] at hError
  have hAbs : |toDigits p q - q| ≤ q - m := le_of_mul_le_mul_right (hError.trans h) hPow
  linarith [(abs_le.mp hAbs).1]

/-- The integer part of a rounded quotient is that of the quotient where the numerator has at most
`p` digits. -/
theorem floor_toDigits_div {n d : ℤ} (hn : 0 ≤ n) (hp : n < 2 ^ p) (hd : 0 < d) :
    ⌊toDigits p ((n : ℚ) / d)⌋ = n / d := by
  have hd' : (0 : ℚ) < d := Int.cast_pos.mpr hd
  have hp' : (n : ℚ) < 2 ^ p := by exact_mod_cast hp
  have hq : 0 ≤ (n : ℚ) / d := div_nonneg (Int.cast_nonneg hn) hd'.le
  have hDivMod : d * (n / d) + n % d = n := Int.mul_ediv_add_emod n d
  have hMod : n % d < d := Int.emod_lt_of_pos n hd
  have hDivMod' : (d : ℚ) * (n / d : ℤ) + (n % d : ℤ) = n := by exact_mod_cast hDivMod
  -- the numerator is less than `2 ^ p`, so an error of a part of `2 ^ p` is less than `1 / d`
  have hPart : ∀ r : ℤ, 1 ≤ r → (n : ℚ) / d < r / d * 2 ^ p := by
    intro r hr
    have hr' : (1 : ℚ) ≤ r := by exact_mod_cast hr
    rw [div_mul_eq_mul_div, div_lt_div_iff_of_pos_right hd']
    calc (n : ℚ) < 1 * 2 ^ p := by linarith
      _ ≤ r * 2 ^ p := mul_le_mul_of_nonneg_right hr' (by positivity)
  rw [Int.floor_eq_iff]
  constructor
  · by_cases hZero : n % d = 0
    · have hExact : (n : ℚ) / d = (n / d : ℤ) := by
        rw [div_eq_iff hd'.ne', ← hDivMod', hZero]
        push_cast
        ring
      have hDivLe : n / d ≤ n := Int.ediv_le_self d hn
      have hDivNonneg : 0 ≤ n / d := Int.ediv_nonneg hn hd.le
      rw [hExact, toDigits_intCast (by rw [abs_of_nonneg hDivNonneg]; omega)]
    · have hPos : 1 ≤ n % d := by
        have := Int.emod_nonneg n hd.ne'
        omega
      apply le_toDigits hq
      have hOver : (n : ℚ) / d - (n / d : ℤ) = (n % d : ℤ) / d := by
        rw [eq_div_iff hd'.ne', sub_mul, div_mul_cancel₀ _ hd'.ne']
        linarith
      rw [hOver]
      exact (hPart _ hPos).le
  · have hUnder : ((n / d + 1 : ℤ) : ℚ) - n / d = (d - n % d : ℤ) / d := by
      rw [eq_div_iff hd'.ne', sub_mul, div_mul_cancel₀ _ hd'.ne']
      push_cast
      linarith
    have hLt := toDigits_lt (m := n / d + 1) (p := p) hq (by
      rw [hUnder]
      exact hPart _ (by omega))
    exact_mod_cast hLt

end Rounding
