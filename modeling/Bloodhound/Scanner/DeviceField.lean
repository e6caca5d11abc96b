import Bloodhound.Lib.CarryChain
import Bloodhound.Lib.Limbs
import Mathlib.Data.Nat.ModEq
import Mathlib.Tactic.NormNum

/-!
# The field of the device

The numbers of 256 bits in `field.cu`, and `vanity_mod_mult` of `vanity_math.cuh`, which multiplies modulo
p = 2²⁵⁶ - 2³² - 977. The product of 512 bits is folded twice: its upper half times 2³² + 977 is added to its lower
half, and then what is beyond 2²⁵⁶ once more. The carry of the last addition is dropped, so that the result is the
product exactly if nothing is beyond 2²⁵⁶ at the end (`mulModP_exact_iff`).
-/

namespace Bloodhound.Scanner

open CarryChain Limbs

/-! ## Multiplication -/

/-- Four words of 64 bits. -/
@[ext] structure U64x4 where
  w0 : UInt64
  w1 : UInt64
  w2 : UInt64
  w3 : UInt64
  deriving DecidableEq

def U64x4.toNat (a : U64x4) : Nat := a.w0.toNat + 2 ^ 64 * a.w1.toNat + 2 ^ 128 * a.w2.toNat + 2 ^ 192 * a.w3.toNat

theorem U64x4.toNat_lt (a : U64x4) : a.toNat < 2 ^ 256 := by
  have := a.w0.toNat_lt
  have := a.w1.toNat_lt
  have := a.w2.toNat_lt
  have := a.w3.toNat_lt
  unfold U64x4.toNat
  omega

/-- Five words, as `UMult` writes them. -/
structure Row where
  w0 : UInt64
  w1 : UInt64
  w2 : UInt64
  w3 : UInt64
  w4 : UInt64

def Row.toNat (r : Row) : Nat :=
  r.w0.toNat + 2 ^ 64 * r.w1.toNat + 2 ^ 128 * r.w2.toNat + 2 ^ 192 * r.w3.toNat + 2 ^ 256 * r.w4.toNat

theorem Row.toNat_lt (r : Row) : r.toNat < 2 ^ 256 * 2 ^ 64 := by
  have := r.w0.toNat_lt
  have := r.w1.toNat_lt
  have := r.w2.toNat_lt
  have := r.w3.toNat_lt
  have := r.w4.toNat_lt
  unfold Row.toNat
  omega

/-- `UMult` -/
def uMult (a : U64x4) (b : UInt64) : Row :=
  let r0 := mulLo a.w0 b
  let r1 := mulLo a.w1 b
  let (r1, cc) := madHiCc a.w0 b r1
  let r2 := mulLo a.w2 b
  let (r2, cc) := madcHiCc cc a.w1 b r2
  let r3 := mulLo a.w3 b
  let (r3, cc) := madcHiCc cc a.w2 b r3
  let r4 := madcHi cc a.w3 b 0
  ⟨r0, r1, r2, r3, r4⟩

/-- `UADDO1`, three times `UADDC1` and `UADD1`: a row is added to five words. -/
def addRow (r t : Row) : Row :=
  let (r0, cc) := addCc r.w0 t.w0
  let (r1, cc) := addcCc cc r.w1 t.w1
  let (r2, cc) := addcCc cc r.w2 t.w2
  let (r3, cc) := addcCc cc r.w3 t.w3
  let r4 := addc cc r.w4 t.w4
  ⟨r0, r1, r2, r3, r4⟩

/-- 2²⁵⁶ modulo p. -/
def foldFactor : UInt64 := 0x1000003D1

/-- The eight words of a product, as its lower and its upper half. -/
def product512 (a b : U64x4) : U64x4 × U64x4 :=
  let x := uMult a b.w0
  let y := addRow ⟨x.w1, x.w2, x.w3, x.w4, 0⟩ (uMult a b.w1)
  let z := addRow ⟨y.w1, y.w2, y.w3, y.w4, 0⟩ (uMult a b.w2)
  let w := addRow ⟨z.w1, z.w2, z.w3, z.w4, 0⟩ (uMult a b.w3)
  (⟨x.w0, y.w0, z.w0, w.w0⟩, ⟨w.w1, w.w2, w.w3, w.w4⟩)

def vanityModMult (a b : U64x4) : U64x4 :=
  let r512 := product512 a b
  let t := uMult r512.2 foldFactor
  let s := addRow ⟨r512.1.w0, r512.1.w1, r512.1.w2, r512.1.w3, t.w4⟩ ⟨t.w0, t.w1, t.w2, t.w3, 0⟩
  let al := mulLo s.w4 foldFactor
  let ah := mulHi s.w4 foldFactor
  let (r0, cc) := addCc s.w0 al
  let (r1, cc) := addcCc cc s.w1 ah
  let (r2, cc) := addcCc cc s.w2 0
  let r3 := addc cc s.w3 0
  ⟨r0, r1, r2, r3⟩

theorem U64x4.toNat_mul (a : U64x4) (n : Nat) :
    a.toNat * n = a.w0.toNat * n + 2 ^ 64 * (a.w1.toNat * n) + 2 ^ 128 * (a.w2.toNat * n) +
      2 ^ 192 * (a.w3.toNat * n) := by
  unfold U64x4.toNat
  ring

theorem toNat_uMult (a : U64x4) (b : UInt64) : (uMult a b).toNat = a.toNat * b.toNat := by
  have hBound : a.toNat * b.toNat < 2 ^ 256 * 2 ^ 64 := Nat.mul_lt_mul'' a.toNat_lt b.toNat_lt
  have hRow := a.toNat_mul b.toNat
  have hLimb0 := toNat_mul a.w0 b
  have hLimb1 := toNat_mul a.w1 b
  have hLimb2 := toNat_mul a.w2 b
  have hLimb3 := toNat_mul a.w3 b
  obtain ⟨⟨r1, c1⟩, hR1⟩ : ∃ s, madHiCc a.w0 b (mulLo a.w1 b) = s := ⟨_, rfl⟩
  obtain ⟨⟨r2, c2⟩, hR2⟩ : ∃ s, madcHiCc c1 a.w1 b (mulLo a.w2 b) = s := ⟨_, rfl⟩
  obtain ⟨⟨r3, c3⟩, hR3⟩ : ∃ s, madcHiCc c2 a.w2 b (mulLo a.w3 b) = s := ⟨_, rfl⟩
  obtain ⟨⟨r4, c4⟩, hR4⟩ : ∃ s, madcHiCc c3 a.w3 b 0 = s := ⟨_, rfl⟩
  have hSum1 := toNat_madHiCc a.w0 b (mulLo a.w1 b)
  have hSum2 := toNat_madcHiCc c1 a.w1 b (mulLo a.w2 b)
  have hSum3 := toNat_madcHiCc c2 a.w2 b (mulLo a.w3 b)
  have hSum4 := toNat_madcHiCc c3 a.w3 b 0
  have hZero : (0 : UInt64).toNat = 0 := rfl
  rw [hR1] at hSum1
  rw [hR2] at hSum2
  rw [hR3] at hSum3
  rw [hR4, hZero] at hSum4
  dsimp only at hSum1 hSum2 hSum3 hSum4
  simp only [uMult, hR1, hR2, hR3, madcHi, hR4, Row.toNat]
  -- the row is below 2³²⁰, so that nothing is lost behind the last word
  cases c4 with
  | true =>
    rw [Bool.toNat_true] at hSum4
    omega
  | false =>
    rw [Bool.toNat_false] at hSum4
    omega

/-- A row that is added is reduced modulo 2³²⁰. -/
theorem toNat_addRow (r t : Row) :
    ∃ carry : Bool, (addRow r t).toNat + 2 ^ 256 * 2 ^ 64 * carry.toNat = r.toNat + t.toNat := by
  obtain ⟨⟨r0, c0⟩, hR0⟩ : ∃ s, addCc r.w0 t.w0 = s := ⟨_, rfl⟩
  obtain ⟨⟨r1, c1⟩, hR1⟩ : ∃ s, addcCc c0 r.w1 t.w1 = s := ⟨_, rfl⟩
  obtain ⟨⟨r2, c2⟩, hR2⟩ : ∃ s, addcCc c1 r.w2 t.w2 = s := ⟨_, rfl⟩
  obtain ⟨⟨r3, c3⟩, hR3⟩ : ∃ s, addcCc c2 r.w3 t.w3 = s := ⟨_, rfl⟩
  obtain ⟨⟨r4, c4⟩, hR4⟩ : ∃ s, addcCc c3 r.w4 t.w4 = s := ⟨_, rfl⟩
  have hSum0 := toNat_addCc r.w0 t.w0
  have hSum1 := toNat_addcCc c0 r.w1 t.w1
  have hSum2 := toNat_addcCc c1 r.w2 t.w2
  have hSum3 := toNat_addcCc c2 r.w3 t.w3
  have hSum4 := toNat_addcCc c3 r.w4 t.w4
  rw [hR0] at hSum0
  rw [hR1] at hSum1
  rw [hR2] at hSum2
  rw [hR3] at hSum3
  rw [hR4] at hSum4
  dsimp only at hSum0 hSum1 hSum2 hSum3 hSum4
  refine ⟨c4, ?_⟩
  simp only [addRow, hR0, hR1, hR2, hR3, addc, hR4, Row.toNat]
  omega

theorem toNat_addRow_of_lt {r t : Row} (h : r.toNat + t.toNat < 2 ^ 256 * 2 ^ 64) :
    (addRow r t).toNat = r.toNat + t.toNat := by
  obtain ⟨carry, hSum⟩ := toNat_addRow r t
  cases carry with
  | false => exact hSum
  | true =>
    rw [Bool.toNat_true] at hSum
    omega

/-- The four upper words of a row and the next multiple of `a`. -/
theorem toNat_accumulate (x : Row) (a : U64x4) (b : UInt64) :
    x.w0.toNat + 2 ^ 64 * (addRow ⟨x.w1, x.w2, x.w3, x.w4, 0⟩ (uMult a b)).toNat =
      x.toNat + 2 ^ 64 * (a.toNat * b.toNat) := by
  have hProduct : a.toNat * b.toNat ≤ (2 ^ 256 - 1) * (2 ^ 64 - 1) :=
    Nat.mul_le_mul (Nat.le_sub_one_of_lt a.toNat_lt) (Nat.le_sub_one_of_lt b.toNat_lt)
  have hw1 := x.w1.toNat_lt
  have hw2 := x.w2.toNat_lt
  have hw3 := x.w3.toNat_lt
  have hw4 := x.w4.toNat_lt
  have hZero : (0 : UInt64).toNat = 0 := rfl
  have hUpper : (⟨x.w1, x.w2, x.w3, x.w4, 0⟩ : Row).toNat =
      x.w1.toNat + 2 ^ 64 * x.w2.toNat + 2 ^ 128 * x.w3.toNat + 2 ^ 192 * x.w4.toNat := by
    unfold Row.toNat
    dsimp only
    rw [hZero, Nat.mul_zero, Nat.add_zero]
  have hLess : (⟨x.w1, x.w2, x.w3, x.w4, 0⟩ : Row).toNat + (uMult a b).toNat < 2 ^ 256 * 2 ^ 64 := by
    rw [hUpper, toNat_uMult]
    omega
  rw [toNat_addRow_of_lt hLess, hUpper, toNat_uMult, Row.toNat]
  omega

theorem toNat_product512 (a b : U64x4) :
    (product512 a b).1.toNat + 2 ^ 256 * (product512 a b).2.toNat = a.toNat * b.toNat := by
  let x := uMult a b.w0
  let y := addRow ⟨x.w1, x.w2, x.w3, x.w4, 0⟩ (uMult a b.w1)
  let z := addRow ⟨y.w1, y.w2, y.w3, y.w4, 0⟩ (uMult a b.w2)
  let w := addRow ⟨z.w1, z.w2, z.w3, z.w4, 0⟩ (uMult a b.w3)
  have hx : x.toNat = a.toNat * b.w0.toNat := toNat_uMult a b.w0
  have hy : x.w0.toNat + 2 ^ 64 * y.toNat = x.toNat + 2 ^ 64 * (a.toNat * b.w1.toNat) := toNat_accumulate x a b.w1
  have hz : y.w0.toNat + 2 ^ 64 * z.toNat = y.toNat + 2 ^ 64 * (a.toNat * b.w2.toNat) := toNat_accumulate y a b.w2
  have hw : z.w0.toNat + 2 ^ 64 * w.toNat = z.toNat + 2 ^ 64 * (a.toNat * b.w3.toNat) := toNat_accumulate z a b.w3
  have hProduct : a.toNat * b.toNat = a.toNat * b.w0.toNat + 2 ^ 64 * (a.toNat * b.w1.toNat) +
      2 ^ 128 * (a.toNat * b.w2.toNat) + 2 ^ 192 * (a.toNat * b.w3.toNat) := by
    rw [Nat.mul_comm, U64x4.toNat_mul]
    simp only [Nat.mul_comm a.toNat]
  have hCode : product512 a b = (⟨x.w0, y.w0, z.w0, w.w0⟩, ⟨w.w1, w.w2, w.w3, w.w4⟩) := rfl
  have hWords : w.toNat =
      w.w0.toNat + 2 ^ 64 * w.w1.toNat + 2 ^ 128 * w.w2.toNat + 2 ^ 192 * w.w3.toNat + 2 ^ 256 * w.w4.toNat := rfl
  rw [hCode, hProduct, U64x4.toNat, U64x4.toNat]
  dsimp only
  omega

/-- The part beyond 2²⁵⁶, brought back modulo p. -/
def fold256 (n : Nat) : Nat := n % 2 ^ 256 + n / 2 ^ 256 * 0x1000003D1

theorem toNat_vanityModMult (a b : U64x4) :
    (vanityModMult a b).toNat = fold256 (fold256 (a.toNat * b.toNat)) % 2 ^ 256 := by
  let lo := (product512 a b).1
  let hi := (product512 a b).2
  let t := uMult hi foldFactor
  let s := addRow ⟨lo.w0, lo.w1, lo.w2, lo.w3, t.w4⟩ ⟨t.w0, t.w1, t.w2, t.w3, 0⟩
  have hProduct : lo.toNat + 2 ^ 256 * hi.toNat = a.toNat * b.toNat := toNat_product512 a b
  have hFactor : foldFactor.toNat = 0x1000003D1 := by decide
  have ht : t.toNat = hi.toNat * 0x1000003D1 := by rw [← hFactor]; exact toNat_uMult hi foldFactor
  have hlo := lo.toNat_lt
  have hhi := hi.toNat_lt
  have hZero : (0 : UInt64).toNat = 0 := rfl
  have hs : s.toNat = lo.toNat + t.toNat := by
    have hParts : (⟨lo.w0, lo.w1, lo.w2, lo.w3, t.w4⟩ : Row).toNat +
        (⟨t.w0, t.w1, t.w2, t.w3, 0⟩ : Row).toNat = lo.toNat + t.toNat := by
      unfold Row.toNat U64x4.toNat
      dsimp only
      rw [hZero]
      omega
    rw [← hParts]
    apply toNat_addRow_of_lt
    rw [hParts, ht]
    omega
  have hFold : s.toNat = fold256 (a.toNat * b.toNat) := by
    rw [hs, ht, fold256, ← hProduct]
    omega
  obtain ⟨⟨r0, c0⟩, hR0⟩ : ∃ r, addCc s.w0 (mulLo s.w4 foldFactor) = r := ⟨_, rfl⟩
  obtain ⟨⟨r1, c1⟩, hR1⟩ : ∃ r, addcCc c0 s.w1 (mulHi s.w4 foldFactor) = r := ⟨_, rfl⟩
  obtain ⟨⟨r2, c2⟩, hR2⟩ : ∃ r, addcCc c1 s.w2 0 = r := ⟨_, rfl⟩
  obtain ⟨⟨r3, c3⟩, hR3⟩ : ∃ r, addcCc c2 s.w3 0 = r := ⟨_, rfl⟩
  have hSum0 := toNat_addCc s.w0 (mulLo s.w4 foldFactor)
  have hSum1 := toNat_addcCc c0 s.w1 (mulHi s.w4 foldFactor)
  have hSum2 := toNat_addcCc c1 s.w2 0
  have hSum3 := toNat_addcCc c2 s.w3 0
  have hLimb := toNat_mul s.w4 foldFactor
  rw [hR0] at hSum0
  rw [hR1] at hSum1
  rw [hR2, hZero] at hSum2
  rw [hR3, hZero] at hSum3
  rw [hFactor] at hLimb
  dsimp only at hSum0 hSum1 hSum2 hSum3
  have hCode : vanityModMult a b = ⟨r0, r1, r2, r3⟩ := by
    have hDefinition : vanityModMult a b =
        (let (r0, cc) := addCc s.w0 (mulLo s.w4 foldFactor)
        let (r1, cc) := addcCc cc s.w1 (mulHi s.w4 foldFactor)
        let (r2, cc) := addcCc cc s.w2 0
        ⟨r0, r1, r2, addc cc s.w3 0⟩) := rfl
    rw [hDefinition]
    simp only [hR0, hR1, hR2, addc, hR3]
  have hWords : s.toNat =
      s.w0.toNat + 2 ^ 64 * s.w1.toNat + 2 ^ 128 * s.w2.toNat + 2 ^ 192 * s.w3.toNat + 2 ^ 256 * s.w4.toNat := rfl
  have hLess := (⟨s.w0, s.w1, s.w2, s.w3⟩ : U64x4).toNat_lt
  have hResult := (⟨r0, r1, r2, r3⟩ : U64x4).toNat_lt
  rw [← hFold, hCode, fold256]
  unfold U64x4.toNat at *
  dsimp only at *
  omega

/-! ## Numbers of 256 bits -/

/-- `u256` -/
abbrev U256 := Word (2 ^ 32) 8

def secp256k1Prime : Nat := 2 ^ 256 - 2 ^ 32 - 977

/-- `SECP_P` -/
def secpP : U256 where
  limbs := [0xFFFFFC2F, 0xFFFFFFFE, 0xFFFFFFFF, 0xFFFFFFFF, 0xFFFFFFFF, 0xFFFFFFFF, 0xFFFFFFFF, 0xFFFFFFFF]
  length_limbs := rfl
  limb_lt := by decide

/-- 2²⁵⁶ modulo p, as `u256_add` writes it. -/
def foldWord : U256 where
  limbs := [0x3D1, 1, 0, 0, 0, 0, 0, 0]
  length_limbs := rfl
  limb_lt := by decide

def u256Clear : U256 where
  limbs := List.replicate 8 0
  length_limbs := rfl
  limb_lt := by decide

def u256IsZero (a : U256) : Bool := a.limbs.all (· = 0)

def u256Gte (a b : U256) : Bool := a.compare b ≠ .lt

def u256Sub (a b : U256) : U256 := (a.sub b).1

theorem base_pos : 0 < 2 ^ 32 := by decide

def u256AddRaw (a b : U256) : U256 := (a.add b base_pos).1

def u256Add (a b : U256) : U256 :=
  let s := a.add b base_pos
  let r := if s.2 ≠ 0 then u256AddRaw s.1 foldWord else s.1
  if u256Gte r secpP then u256Sub r secpP else r

def u256SubModP (a b : U256) : U256 :=
  if u256Gte a b then u256Sub a b else u256Add a (u256Sub secpP b)

def u256ToU64x4 (a : U256) : U64x4 :=
  let word := fun i => UInt64.ofNat (a.limbs.getD (i * 2 + 1) 0 <<< 32 ||| a.limbs.getD (i * 2) 0)
  ⟨word 0, word 1, word 2, word 3⟩

theorem toNat_lt_u256 (a : U256) : a.toNat < 2 ^ 256 := (a.toNat_lt (by decide)).trans_eq (by norm_num)

theorem toNat_secpP : secpP.toNat = secp256k1Prime := by decide

theorem prime_lt : secp256k1Prime < 2 ^ 256 := by decide

theorem u256IsZero_iff (a : U256) : u256IsZero a = true ↔ a.toNat = 0 := by
  rw [u256IsZero, List.all_eq_true, Word.toNat, value_eq_zero_iff (by decide)]
  simp only [decide_eq_true_eq]

theorem u256Gte_iff (a b : U256) : u256Gte a b = true ↔ b.toNat ≤ a.toNat := by
  rw [u256Gte, Word.compare_eq (by decide), decide_eq_true_iff, ← Nat.not_lt, not_iff_not]
  exact Nat.compare_eq_lt

theorem toNat_u256Sub {a b : U256} (h : b.toNat ≤ a.toNat) : (u256Sub a b).toNat = a.toNat - b.toNat :=
  Word.toNat_sub_of_le (by decide) h

/-- One subtraction of p is enough for sums. -/
theorem toNat_reduceOnce {r : U256} (h : r.toNat < 2 * secp256k1Prime) :
    (if u256Gte r secpP then u256Sub r secpP else r).toNat = r.toNat % secp256k1Prime := by
  by_cases hGte : u256Gte r secpP = true
  · have hLe := (u256Gte_iff r secpP).mp hGte
    rw [if_pos hGte, toNat_u256Sub hLe, toNat_secpP]
    rw [toNat_secpP] at hLe
    rw [Nat.mod_eq_sub_mod hLe, Nat.mod_eq_of_lt (by omega)]
  · have hLess : r.toNat < secp256k1Prime := by
      rw [← toNat_secpP]
      exact Nat.lt_of_not_le fun hLe => hGte ((u256Gte_iff r secpP).mpr hLe)
    rw [if_neg hGte, Nat.mod_eq_of_lt hLess]

theorem toNat_u256Add {a b : U256} (ha : a.toNat < secp256k1Prime) (hb : b.toNat < secp256k1Prime) :
    (u256Add a b).toNat = (a.toNat + b.toNat) % secp256k1Prime := by
  have hBase : (2 ^ 32) ^ 8 = 2 ^ 256 := by norm_num
  have hPrime : secp256k1Prime + 0x1000003D1 = 2 ^ 256 := by decide
  have hFold : foldWord.toNat = 0x1000003D1 := by decide
  have hSum := Word.toNat_add a b (by decide)
  rw [hBase] at hSum
  unfold u256Add
  dsimp only
  obtain ⟨s, hs⟩ : ∃ s, a.add b (by decide) = s := ⟨_, rfl⟩
  rw [hs] at hSum ⊢
  have hLess := toNat_lt_u256 s.1
  by_cases hCarry : s.2 = 0
  · rw [hCarry, Nat.mul_zero, Nat.add_zero] at hSum
    rw [if_neg (not_not.mpr hCarry), toNat_reduceOnce (by omega), hSum]
  · have hOne : s.2 = 1 := by omega
    rw [hOne, Nat.mul_one] at hSum
    have hRaw : (u256AddRaw s.1 foldWord).toNat = s.1.toNat + 0x1000003D1 := by
      rw [← hFold]
      exact (Word.toNat_add_of_lt (by decide) (by rw [hBase, hFold]; omega)).1
    have hTotal : a.toNat + b.toNat = s.1.toNat + 0x1000003D1 + secp256k1Prime := by omega
    rw [if_pos hCarry, toNat_reduceOnce (by rw [hRaw]; omega), hRaw, hTotal, Nat.add_mod_right]

theorem toNat_u256SubModP {a b : U256} (ha : a.toNat < secp256k1Prime) (hb : b.toNat < secp256k1Prime) :
    (u256SubModP a b).toNat = (a.toNat + (secp256k1Prime - b.toNat)) % secp256k1Prime := by
  unfold u256SubModP
  by_cases hGte : u256Gte a b = true
  · have hLe := (u256Gte_iff a b).mp hGte
    have hTotal : a.toNat + (secp256k1Prime - b.toNat) = a.toNat - b.toNat + secp256k1Prime := by omega
    rw [if_pos hGte, toNat_u256Sub hLe, hTotal, Nat.add_mod_right, Nat.mod_eq_of_lt (by omega)]
  · have hLess : a.toNat < b.toNat := Nat.lt_of_not_le fun hLe => hGte ((u256Gte_iff a b).mpr hLe)
    have hRest : (u256Sub secpP b).toNat = secp256k1Prime - b.toNat := by
      rw [toNat_u256Sub (by rw [toNat_secpP]; exact hb.le), toNat_secpP]
    rw [if_neg hGte, toNat_u256Add ha (by rw [hRest]; omega), hRest]

/-- The end of `u256_from_u64x4`. -/
def reduceP (r : U256) : U256 := if u256Gte r secpP then reduceP (u256Sub r secpP) else r
  termination_by r.toNat
  decreasing_by
    next h =>
    have hLe := (u256Gte_iff r secpP).mp h
    have hPos : 0 < secpP.toNat := by rw [toNat_secpP]; decide
    rw [toNat_u256Sub hLe]
    omega

theorem toNat_reduceP (r : U256) : (reduceP r).toNat = r.toNat % secp256k1Prime := by
  induction r using reduceP.induct with
  | case1 r hGte ih =>
    have hLe := (u256Gte_iff r secpP).mp hGte
    rw [reduceP, if_pos hGte, ih, toNat_u256Sub hLe, toNat_secpP]
    rw [toNat_secpP] at hLe
    exact (Nat.mod_eq_sub_mod hLe).symm
  | case2 r hLess =>
    have hLt : r.toNat < secp256k1Prime := by
      rw [← toNat_secpP]
      exact Nat.lt_of_not_le fun hLe => hLess ((u256Gte_iff r secpP).mpr hLe)
    rw [reduceP, if_neg hLess, Nat.mod_eq_of_lt hLt]

/-- The limbs of four words. -/
def splitU64x4 (a : U64x4) : U256 where
  limbs := [a.w0, a.w1, a.w2, a.w3].flatMap fun w => [w.toNat % 2 ^ 32, w.toNat >>> 32]
  length_limbs := rfl
  limb_lt := by
    intro d hd
    obtain ⟨w, -, hLimb⟩ := List.mem_flatMap.mp hd
    have hw := w.toNat_lt
    rcases List.mem_pair.mp hLimb with rfl | rfl
    · exact Nat.mod_lt _ (by decide)
    · rw [Nat.shiftRight_eq_div_pow]
      omega

def u256FromU64x4 (a : U64x4) : U256 := reduceP (splitU64x4 a)

/-- `u256_mul_mod_p` with some multiplication of words. -/
def u256MulWith (mult : U64x4 → U64x4 → U64x4) (a b : U256) : U256 :=
  u256FromU64x4 (mult (u256ToU64x4 a) (u256ToU64x4 b))

def u256MulModP (a b : U256) : U256 := u256MulWith vanityModMult a b

theorem toNat_splitU64x4 (a : U64x4) : (splitU64x4 a).toNat = a.toNat := by
  have hLimbs : (splitU64x4 a).limbs = [a.w0.toNat % 2 ^ 32, a.w0.toNat >>> 32, a.w1.toNat % 2 ^ 32,
    a.w1.toNat >>> 32, a.w2.toNat % 2 ^ 32, a.w2.toNat >>> 32, a.w3.toNat % 2 ^ 32, a.w3.toNat >>> 32] := rfl
  rw [Word.toNat, hLimbs, U64x4.toNat]
  simp only [value_cons, value_nil, Nat.shiftRight_eq_div_pow, Nat.reducePow]
  omega

theorem toNat_u256FromU64x4 (a : U64x4) : (u256FromU64x4 a).toNat = a.toNat % secp256k1Prime := by
  rw [u256FromU64x4, toNat_reduceP, toNat_splitU64x4]

theorem toNat_joined {low high : Nat} (hLow : low < 2 ^ 32) (hHigh : high < 2 ^ 32) :
    (UInt64.ofNat (high <<< 32 ||| low)).toNat = low + 2 ^ 32 * high := by
  rw [UInt64.toNat_ofNat', ← Nat.shiftLeft_add_eq_or_of_lt hLow, Nat.shiftLeft_eq, Nat.mod_eq_of_lt (by omega)]
  omega

theorem toNat_u256ToU64x4 (a : U256) : (u256ToU64x4 a).toNat = a.toNat := by
  obtain ⟨a0, a1, a2, a3, a4, a5, a6, a7, hLimbs⟩ : ∃ a0 a1 a2 a3 a4 a5 a6 a7,
      a.limbs = [a0, a1, a2, a3, a4, a5, a6, a7] := by
    match a.limbs, a.length_limbs with
    | [a0, a1, a2, a3, a4, a5, a6, a7], _ => exact ⟨a0, a1, a2, a3, a4, a5, a6, a7, rfl⟩
  have hLess := a.limb_lt
  rw [hLimbs] at hLess
  have hWords : u256ToU64x4 a = ⟨UInt64.ofNat (a1 <<< 32 ||| a0), UInt64.ofNat (a3 <<< 32 ||| a2),
      UInt64.ofNat (a5 <<< 32 ||| a4), UInt64.ofNat (a7 <<< 32 ||| a6)⟩ := by
    rw [u256ToU64x4, hLimbs]
    rfl
  rw [hWords, U64x4.toNat, toNat_joined (hLess a0 (by simp)) (hLess a1 (by simp)),
    toNat_joined (hLess a2 (by simp)) (hLess a3 (by simp)), toNat_joined (hLess a4 (by simp)) (hLess a5 (by simp)),
    toNat_joined (hLess a6 (by simp)) (hLess a7 (by simp)), Word.toNat, hLimbs]
  simp only [value_cons, value_nil]
  omega

theorem toNat_u256MulModP (a b : U256) :
    (u256MulModP a b).toNat = fold256 (fold256 (a.toNat * b.toNat)) % 2 ^ 256 % secp256k1Prime := by
  rw [u256MulModP, u256MulWith, toNat_u256FromU64x4, toNat_vanityModMult, toNat_u256ToU64x4, toNat_u256ToU64x4]

/-! ## When a product is exact -/

theorem fold256_modEq (n : Nat) : fold256 n ≡ n [MOD secp256k1Prime] := by
  have hModulus : 2 ^ 256 = secp256k1Prime + 0x1000003D1 := by decide
  have hFactor : 0x1000003D1 ≡ 2 ^ 256 [MOD secp256k1Prime] := by
    rw [hModulus]
    exact (Nat.ModEq.symm (by simp [Nat.ModEq]))
  calc fold256 n ≡ n % 2 ^ 256 + n / 2 ^ 256 * 2 ^ 256 [MOD secp256k1Prime] := (hFactor.mul_left _).add_left _
    _ = n := Nat.mod_add_div' n (2 ^ 256)

/-- A product is exact if and only if the product that is folded twice has no carry. -/
theorem mulModP_exact_iff (a b : U256) :
    (u256MulModP a b).toNat = a.toNat * b.toNat % secp256k1Prime ↔
      fold256 (fold256 (a.toNat * b.toNat)) < 2 ^ 256 := by
  have hSame : fold256 (fold256 (a.toNat * b.toNat)) ≡ a.toNat * b.toNat [MOD secp256k1Prime] :=
    (fold256_modEq _).trans (fold256_modEq _)
  rw [toNat_u256MulModP]
  constructor
  · intro hExact
    by_contra hCarry
    have hProduct : a.toNat * b.toNat < 2 ^ 256 * 2 ^ 256 := Nat.mul_lt_mul'' (toNat_lt_u256 a) (toNat_lt_u256 b)
    have hTwice : fold256 (fold256 (a.toNat * b.toNat)) < 2 * 2 ^ 256 := by
      unfold fold256
      omega
    have hRest : fold256 (fold256 (a.toNat * b.toNat)) % 2 ^ 256 + 2 ^ 256 =
        fold256 (fold256 (a.toNat * b.toNat)) := by
      omega
    have hZero : 2 ^ 256 ≡ 0 [MOD secp256k1Prime] := by
      apply Nat.ModEq.add_left_cancel' (fold256 (fold256 (a.toNat * b.toNat)) % 2 ^ 256)
      rw [hRest, Nat.add_zero]
      exact hSame.trans hExact.symm
    exact absurd hZero (by decide)
  · intro hLess
    rw [Nat.mod_eq_of_lt hLess]
    exact hSame

/-- p - 1 and p less the fold factor. -/
theorem mulModP_carry : ∃ a b : U256, a.toNat < secp256k1Prime ∧ b.toNat < secp256k1Prime ∧
    (u256MulModP a b).toNat ≠ a.toNat * b.toNat % secp256k1Prime := by
  let a : U256 :=
    ⟨[0xFFFFFC2E, 0xFFFFFFFE, 0xFFFFFFFF, 0xFFFFFFFF, 0xFFFFFFFF, 0xFFFFFFFF, 0xFFFFFFFF, 0xFFFFFFFF],
      rfl, by decide⟩
  let b : U256 :=
    ⟨[0xFFFFF85E, 0xFFFFFFFD, 0xFFFFFFFF, 0xFFFFFFFF, 0xFFFFFFFF, 0xFFFFFFFF, 0xFFFFFFFF, 0xFFFFFFFF],
      rfl, by decide⟩
  refine ⟨a, b, by decide +kernel, by decide +kernel, ?_⟩
  rw [toNat_u256MulModP]
  decide

end Bloodhound.Scanner
