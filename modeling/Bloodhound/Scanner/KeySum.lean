import Bloodhound.Lib.Limbs
import Bloodhound.Scanner.AddressCode
import Bloodhound.Scanner.SeedPipeline

/-!
# Sums of keys

The sum of two private keys modulo the order of the curve: `add_privkeys_mod_order` in `bip32_internal.cpp` on the
host, `add_mod_n` in `bip32_device.cuh` on the device. The device's sum is exact when it stays below 2²⁵⁶ + n
(`addModN_eq`).
-/

namespace Bloodhound.Scanner

open Radix

/-! ## Host -/

def secp256k1Order : Nat := 0xfffffffffffffffffffffffffffffffebaaedce6af48a03bbfd25e8cd0364141

def addPrivkeysModOrder (a b : Bytes) : Bytes :=
  Sha2.bigEndian 32 ((number 256 (a.map UInt8.toNat) + number 256 (b.map UInt8.toNat)) % secp256k1Order)

theorem length_addPrivkeysModOrder (a b : Bytes) : (addPrivkeysModOrder a b).length = 32 := rfl

/-! ## Device -/

/-- The limbs of a number that is stored with its most significant byte first. -/
def limbsOf (a : Bytes) : List Nat := (a.map UInt8.toNat).reverse

def ofLimbs (l : List Nat) : Bytes := l.reverse.map UInt8.ofNat

def secpNBe : Bytes :=
  [0xFF, 0xFF, 0xFF, 0xFF, 0xFF, 0xFF, 0xFF, 0xFF, 0xFF, 0xFF, 0xFF, 0xFF, 0xFF, 0xFF, 0xFF, 0xFE,
    0xBA, 0xAE, 0xDC, 0xE6, 0xAF, 0x48, 0xA0, 0x3B, 0xBF, 0xD2, 0x5E, 0x8C, 0xD0, 0x36, 0x41, 0x41]

def two256ModN : Bytes :=
  [0x00, 0x00, 0x00, 0x00, 0x00, 0x00, 0x00, 0x00, 0x00, 0x00, 0x00, 0x00, 0x00, 0x00, 0x00, 0x01,
    0x45, 0x51, 0x23, 0x19, 0x50, 0xb7, 0x5f, 0xc4, 0x40, 0x2d, 0xa1, 0x73, 0x2f, 0xc9, 0xbe, 0xbf]

/-- The end of `add_mod_n`, where the sum is compared with the order. -/
def subOrderOnce (sum : List Nat) : Bytes :=
  if Limbs.compareFrom sum.reverse (secpNBe.map UInt8.toNat) = .lt then ofLimbs sum
  else ofLimbs (Limbs.subBorrow 256 0 sum (limbsOf secpNBe)).1

/-- The carry of the second addition is not looked at. -/
def addModN (a b : Bytes) : Bytes :=
  let first := Limbs.addCarry 256 0 (limbsOf a) (limbsOf b)
  subOrderOnce (if first.2 ≠ 0 then (Limbs.addCarry 256 0 first.1 (limbsOf two256ModN)).1 else first.1)

/-- The number of a key. -/
def keyNumber (a : Bytes) : Nat := number 256 (a.map UInt8.toNat)

theorem value_limbsOf (a : Bytes) : Limbs.value 256 (limbsOf a) = keyNumber a := Limbs.value_reverse ..

@[simp] theorem length_limbsOf (a : Bytes) : (limbsOf a).length = a.length := by simp [limbsOf]

theorem lt_of_mem_limbsOf {a : Bytes} {d : Nat} (h : d ∈ limbsOf a) : d < 256 :=
  toNat_lt_of_mem (List.mem_reverse.mp h)

theorem keyNumber_lt {a : Bytes} (h : a.length = 32) : keyNumber a < 2 ^ 256 := by
  have hLess := number_lt (b := 256) (by decide) (l := a.map UInt8.toNat) fun d => toNat_lt_of_mem
  rw [List.length_map, h] at hLess
  exact hLess.trans_eq (by norm_num)

theorem keyNumber_inj {a b : Bytes} (hLength : a.length = b.length) (h : keyNumber a = keyNumber b) : a = b := by
  have hBytes : a.map UInt8.toNat = b.map UInt8.toNat :=
    number_inj (by decide) (by simpa using hLength) (fun d => toNat_lt_of_mem) (fun d => toNat_lt_of_mem) h
  exact List.map_injective_iff.mpr (fun _ _ => UInt8.toNat_inj.mp) hBytes

/-- Bytes that are read from limbs have the number of the limbs. -/
theorem keyNumber_ofLimbs {l : List Nat} (h : ∀ d ∈ l, d < 256) : keyNumber (ofLimbs l) = Limbs.value 256 l := by
  have hBytes : (ofLimbs l).map UInt8.toNat = l.reverse := by
    rw [ofLimbs, List.map_map]
    apply (List.map_congr_left fun d hd => ?_).trans (List.map_id _)
    exact UInt8.toNat_ofNat_of_lt (h d (List.mem_reverse.mp hd))
  rw [keyNumber, hBytes, ← Limbs.value_reverse, List.reverse_reverse]

theorem keyNumber_bigEndian (n length : Nat) : keyNumber (Sha2.bigEndian length n) = n % 256 ^ length := by
  induction length generalizing n with
  | zero => simp [Sha2.bigEndian, keyNumber, Nat.mod_one]
  | succ length ih =>
    have hSplit : Sha2.bigEndian (length + 1) n = Sha2.bigEndian length (n / 256) ++ [UInt8.ofNat n] := by
      unfold Sha2.bigEndian
      rw [List.range_succ, List.map_append, List.map_singleton]
      congr 1
      · apply List.map_congr_left
        intro i hi
        have hLess := List.mem_range.mp hi
        have hExp : length + 1 - 1 - i = (length - 1 - i) + 1 := by omega
        rw [hExp, Nat.pow_succ', Nat.div_div_eq_div_mul]
      · simp
    have hPow : 256 ^ (length + 1) = 256 * 256 ^ length := Nat.pow_succ'
    rw [hSplit, keyNumber, List.map_append, List.map_singleton, number_concat, ← keyNumber, ih,
      UInt8.toNat_ofNat', hPow, Nat.mod_mul, Nat.add_comm, Nat.mul_comm]

theorem subOrderOnce_spec {l : List Nat} (hLength : l.length = 32) (hLimbs : ∀ d ∈ l, d < 256) :
    (subOrderOnce l).length = 32 ∧ keyNumber (subOrderOnce l) = Limbs.value 256 l % secp256k1Order := by
  have hOrder : keyNumber secpNBe = secp256k1Order := by decide
  have hBound : Limbs.value 256 l < 2 ^ 256 :=
    (Limbs.value_lt (by decide) hLimbs).trans_eq (by rw [hLength]; norm_num)
  have hTwice : 2 ^ 256 < 2 * secp256k1Order := by decide
  have hCompare : Limbs.compareFrom l.reverse (secpNBe.map UInt8.toNat) =
      compare (Limbs.value 256 l) secp256k1Order := by
    rw [Limbs.compareFrom_eq (b := 256) (by decide) (by simp [hLength, secpNBe])
      (fun d hd => hLimbs d (List.mem_reverse.mp hd)) (fun d => toNat_lt_of_mem), ← hOrder, keyNumber,
      ← Limbs.value_reverse, List.reverse_reverse]
  unfold subOrderOnce
  rw [hCompare]
  by_cases hLess : Limbs.value 256 l < secp256k1Order
  · rw [if_pos (Nat.compare_eq_lt.mpr hLess), keyNumber_ofLimbs hLimbs, Nat.mod_eq_of_lt hLess]
    exact ⟨by simp [ofLimbs, hLength], rfl⟩
  · have hSame : l.length = (limbsOf secpNBe).length := by rw [hLength]; rfl
    have hValue := Limbs.value_subBorrow (b := 256) (Nat.zero_le 1) hSame fun d hd => lt_of_mem_limbsOf hd
    have hSize := Limbs.length_subBorrow (b := 256) 0 hSame
    have hDigits := fun d hd => @Limbs.lt_of_mem_subBorrow 256 l (limbsOf secpNBe) 0 hLimbs d hd
    have hRest := (Limbs.value_lt (b := 256) (by decide) hDigits).trans_eq (by rw [hSize, hLength])
    rw [if_neg (fun h => hLess (Nat.compare_eq_lt.mp h)), keyNumber_ofLimbs hDigits]
    refine ⟨by simp [ofLimbs, hSize, hLength], ?_⟩
    rw [value_limbsOf, hOrder, hLength] at hValue
    rw [Nat.mod_eq_sub_mod (Nat.le_of_not_lt hLess), Nat.mod_eq_of_lt (by omega)]
    generalize (Limbs.subBorrow 256 0 l (limbsOf secpNBe)).2 = borrow at hValue
    rcases Nat.eq_zero_or_pos borrow with rfl | hPos
    · omega
    · have : 256 ^ 32 ≤ 256 ^ 32 * borrow := Nat.le_mul_of_pos_right _ hPos
      norm_num at *
      omega

/-- A sum of keys that stays below 2²⁵⁶ + n is reduced as on the host. -/
theorem addModN_eq {a b : Bytes} (ha : a.length = 32) (hb : b.length = 32)
    (hFits : keyNumber a + keyNumber b < 2 ^ 256 + secp256k1Order) : addModN a b = addPrivkeysModOrder a b := by
  let first := Limbs.addCarry 256 0 (limbsOf a) (limbsOf b)
  let sum := if first.2 ≠ 0 then (Limbs.addCarry 256 0 first.1 (limbsOf two256ModN)).1 else first.1
  have hSame : (limbsOf a).length = (limbsOf b).length := by rw [length_limbsOf, length_limbsOf, ha, hb]
  have hLength : first.1.length = 32 := by
    rw [Limbs.length_addCarry 0 hSame, length_limbsOf, ha]
  have hLimbs : ∀ d ∈ first.1, d < 256 := fun d => Limbs.lt_of_mem_addCarry (by decide) 0
  have hSum : Limbs.value 256 first.1 + 2 ^ 256 * first.2 = keyNumber a + keyNumber b := by
    have hValue := Limbs.value_addCarry (b := 256) 0 hSame
    rw [length_limbsOf, ha, value_limbsOf, value_limbsOf, Nat.add_zero] at hValue
    exact hValue
  have hReduced : sum.length = 32 ∧ (∀ d ∈ sum, d < 256) ∧
      Limbs.value 256 sum % secp256k1Order = (keyNumber a + keyNumber b) % secp256k1Order := by
    by_cases hCarry : first.2 = 0
    · have hFirst : sum = first.1 := if_neg (not_not.mpr hCarry)
      rw [hCarry, Nat.mul_zero, Nat.add_zero] at hSum
      rw [hFirst, hSum]
      exact ⟨hLength, hLimbs, rfl⟩
    · have hSecond : sum = (Limbs.addCarry 256 0 first.1 (limbsOf two256ModN)).1 := if_pos hCarry
      have hTwoLength : first.1.length = (limbsOf two256ModN).length := by rw [hLength]; rfl
      have hValue := Limbs.value_addCarry (b := 256) 0 hTwoLength
      have hModulus : keyNumber two256ModN + secp256k1Order = 2 ^ 256 := by decide
      have hOne : first.2 = 1 := by
        have := keyNumber_lt ha
        have := keyNumber_lt hb
        omega
      rw [hLength, value_limbsOf, Nat.add_zero] at hValue
      rw [hOne, Nat.mul_one] at hSum
      -- the first carry leaves less than the order, so that there is no second one
      have hNoCarry : (Limbs.addCarry 256 0 first.1 (limbsOf two256ModN)).2 = 0 := by
        generalize (Limbs.addCarry 256 0 first.1 (limbsOf two256ModN)).2 = carry at hValue
        rcases Nat.eq_zero_or_pos carry with hZero | hPos
        · exact hZero
        · have : 256 ^ 32 ≤ 256 ^ 32 * carry := Nat.le_mul_of_pos_right _ hPos
          norm_num at *
          omega
      rw [hNoCarry, Nat.mul_zero, Nat.add_zero, ← hSecond] at hValue
      refine ⟨by rw [hSecond, Limbs.length_addCarry 0 hTwoLength, hLength], ?_, ?_⟩
      · rw [hSecond]
        exact fun d => Limbs.lt_of_mem_addCarry (by decide) 0
      · have hTotal : keyNumber a + keyNumber b = Limbs.value 256 sum + secp256k1Order := by omega
        rw [hTotal, Nat.add_mod_right]
  obtain ⟨hSumLength, hSumLimbs, hSumValue⟩ := hReduced
  obtain ⟨hResult, hNumber⟩ := subOrderOnce_spec hSumLength hSumLimbs
  have hCode : addModN a b = subOrderOnce sum := rfl
  apply keyNumber_inj (hCode ▸ hResult)
  rw [hCode, addPrivkeysModOrder, keyNumber_bigEndian, hNumber, hSumValue]
  exact (Nat.mod_eq_of_lt ((Nat.mod_lt _ (by decide)).trans (by decide))).symm

end Bloodhound.Scanner
