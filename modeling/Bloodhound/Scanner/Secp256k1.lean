import Bloodhound.Lib.Pocklington
import Bloodhound.Lib.ShortCurve
import Bloodhound.Scanner.DeviceField
import Bloodhound.Scanner.PathDerivation
import Mathlib.Tactic.NormNum.Prime

/-!
# The curve of the keys

secp256k1 is y² = x³ + 7 over the field of p elements. The generator has the prime order n
(`nsmul_generator_ne_zero`), and no point has order two (`y_ne_zero`).
-/

namespace Bloodhound.Scanner

open ShortCurve BinaryMethod

/-! ## The two primes -/

theorem prime_secp256k1Prime : secp256k1Prime.Prime := by
  have hSmall : Nat.Prime 255515944373312847190720520512484175977 := by
    apply Pocklington.prime_of_certificate 2 [107590001, 7240687, 96557] (by decide +kernel)
    norm_num
  have hLarge : Nat.Prime 205115282021455665897114700593932402728804164701536103180137503955397371 := by
    apply Pocklington.prime_of_certificate 2 [255515944373312847190720520512484175977]
      (by decide +kernel)
    exact fun q hq => List.mem_singleton.mp hq ▸ hSmall
  apply Pocklington.prime_of_certificate 2
    [205115282021455665897114700593932402728804164701536103180137503955397371] (by decide +kernel)
  exact fun q hq => List.mem_singleton.mp hq ▸ hLarge

theorem prime_secp256k1Order : secp256k1Order.Prime := by
  have hFirst : Nat.Prime 174723607534414371449 := by
    apply Pocklington.prime_of_certificate 2 [44706919, 120233] (by decide +kernel)
    norm_num
  have hSecond : Nat.Prime 107361793816595537 := by
    apply Pocklington.prime_of_certificate 2 [4681609, 85831] (by decide +kernel)
    norm_num
  apply Pocklington.prime_of_certificate 2 [174723607534414371449, 107361793816595537, 631, 149] (by decide +kernel)
  intro q hq
  simp only [List.mem_cons, List.not_mem_nil, or_false] at hq
  rcases hq with rfl | rfl | rfl | rfl
  · exact hFirst
  · exact hSecond
  · norm_num
  · norm_num

instance : Fact secp256k1Prime.Prime := ⟨prime_secp256k1Prime⟩

instance : Fact secp256k1Order.Prime := ⟨prime_secp256k1Order⟩

/-! ## The generator -/

abbrev FieldP := ZMod secp256k1Prime

/-- The points of the curve. -/
abbrev CurvePoint := (curve (7 : FieldP)).Point

def generatorX : ℕ := 0x79BE667EF9DCBBAC55A06295CE870B07029BFCDB2DCE28D959F2815B16F81798

def generatorY : ℕ := 0x483ADA7726A3C4655DA4FBFC0E1108A8FD17B448A68554199C47D08FFB10D4B8

theorem two_ne_zero_fieldP : (2 : FieldP) ≠ 0 := by
  have hCast : ((2 : ℕ) : FieldP) ≠ 0 := by
    rw [Ne, ZMod.natCast_eq_zero_iff]
    decide
  exact_mod_cast hCast

theorem generator_equation : (generatorY : FieldP) ^ 2 = (generatorX : FieldP) ^ 3 + 7 := by
  have hMod : generatorY ^ 2 ≡ generatorX ^ 3 + 7 [MOD secp256k1Prime] := by decide
  exact_mod_cast (ZMod.natCast_eq_natCast_iff _ _ secp256k1Prime).mpr hMod

theorem generatorY_ne_zero : (generatorY : FieldP) ≠ 0 := by
  rw [Ne, ZMod.natCast_eq_zero_iff]
  decide

def generator : CurvePoint := ofEquation two_ne_zero_fieldP generator_equation generatorY_ne_zero

theorem coords_generator : coords generator = some ((generatorX : FieldP), (generatorY : FieldP)) :=
  coords_ofEquation ..

/-- There is no cube root of -7, so that no point has a zero as its second coordinate. -/
theorem y_ne_zero {P : CurvePoint} {x y : FieldP} (h : coords P = some (x, y)) : y ≠ 0 := by
  rintro rfl
  have hCube : x ^ 3 = -7 := by
    have hEquation := equation_of_coords h
    linear_combination -hEquation
  have hx : x ≠ 0 := by
    rintro rfl
    have hSeven : ((7 : ℕ) : FieldP) = 0 := by
      push_cast
      linear_combination hCube
    rw [ZMod.natCast_eq_zero_iff] at hSeven
    exact absurd hSeven (by decide)
  have hExponent : 3 * ((secp256k1Prime - 1) / 3) = secp256k1Prime - 1 := by decide
  have hOne : (-7 : FieldP) ^ ((secp256k1Prime - 1) / 3) = 1 := by
    rw [← hCube, ← pow_mul, hExponent]
    exact ZMod.pow_card_sub_one_eq_one hx
  have hNat : ((secp256k1Prime - 7 : ℕ) : FieldP) = -7 := by
    rw [Nat.cast_sub (by decide), ZMod.natCast_self, zero_sub]
    rfl
  have hMod : (secp256k1Prime - 7) ^ ((secp256k1Prime - 1) / 3) % secp256k1Prime = 1 % secp256k1Prime := by
    apply (ZMod.natCast_eq_natCast_iff' _ _ secp256k1Prime).mp
    rw [Nat.cast_pow, hNat, hOne, Nat.cast_one]
  rw [← Pocklington.powMod_eq] at hMod
  exact absurd hMod (by decide +kernel)

theorem pred_order_nsmul_generator : (secp256k1Order - 1) • generator = -generator := by
  have hValue : valueFrom 1 (bits 255 (secp256k1Order - 1)) = secp256k1Order - 1 := by
    rw [valueFrom_bits]
    decide
  have hRun := coords_nsmul (by decide) coords_generator (bits 255 (secp256k1Order - 1)) generatorX
    (secp256k1Prime - generatorY) (by decide +kernel) (by decide +kernel) (by decide +kernel)
  have hNeg : ((secp256k1Prime - generatorY : ℕ) : FieldP) = -(generatorY : FieldP) := by
    rw [Nat.cast_sub (by decide), ZMod.natCast_self, zero_sub]
  rw [hValue, hNeg] at hRun
  exact coords_injective (hRun.trans (coords_neg coords_generator).symm)

theorem order_nsmul_generator : secp256k1Order • generator = 0 := by
  have hSucc : secp256k1Order = secp256k1Order - 1 + 1 := by decide
  rw [hSucc, succ_nsmul, pred_order_nsmul_generator, neg_add_cancel]

theorem addOrderOf_generator : addOrderOf generator = secp256k1Order := by
  have hNe : generator ≠ 0 := by
    intro hZero
    have hCoords := coords_generator
    rw [hZero] at hCoords
    cases hCoords
  exact addOrderOf_eq_prime order_nsmul_generator hNe

/-- No key gives the zero of the group. -/
theorem nsmul_generator_ne_zero {k : ℕ} (hPos : 1 ≤ k) (hLess : k < secp256k1Order) : k • generator ≠ 0 := by
  intro hZero
  have hDvd := addOrderOf_dvd_of_nsmul_eq_zero hZero
  rw [addOrderOf_generator] at hDvd
  exact absurd (Nat.le_of_dvd hPos hDvd) (by omega)

end Bloodhound.Scanner
