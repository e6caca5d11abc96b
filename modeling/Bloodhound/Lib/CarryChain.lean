import Mathlib.Algebra.Group.Nat.Defs
import Mathlib.Data.Nat.Basic

/-!
# Additions and multiplications with a carry flag

Instructions on words of 64 bits as GPUs have them: an addition may read a carry flag and may set it, and a
multiplication gives the low or the high half of the product, the high half with an addition in the same
instruction. A chain of such instructions is exact if the last carry is kept; each lemma here says what one
instruction does to the numbers.
-/

namespace CarryChain

/-- `addc.cc`: reads the carry flag and sets it. -/
def addcCc (cc : Bool) (a b : UInt64) : UInt64 × Bool :=
  let total := a.toNat + b.toNat + cc.toNat
  (UInt64.ofNat total, decide (2 ^ 64 ≤ total))

/-- `add.cc`: sets the carry flag. -/
def addCc (a b : UInt64) : UInt64 × Bool := addcCc false a b

/-- `addc`: reads the carry flag. -/
def addc (cc : Bool) (a b : UInt64) : UInt64 := (addcCc cc a b).1

def mulLo (a b : UInt64) : UInt64 := a * b

def mulHi (a b : UInt64) : UInt64 := UInt64.ofNat (a.toNat * b.toNat / 2 ^ 64)

/-- `madc.hi.cc` -/
def madcHiCc (cc : Bool) (a b c : UInt64) : UInt64 × Bool := addcCc cc (mulHi a b) c

/-- `mad.hi.cc` -/
def madHiCc (a b c : UInt64) : UInt64 × Bool := madcHiCc false a b c

/-- `madc.hi` -/
def madcHi (cc : Bool) (a b c : UInt64) : UInt64 := (madcHiCc cc a b c).1

theorem toNat_addcCc (cc : Bool) (a b : UInt64) :
    (addcCc cc a b).1.toNat + 2 ^ 64 * (addcCc cc a b).2.toNat = a.toNat + b.toNat + cc.toNat := by
  have ha := a.toNat_lt
  have hb := b.toNat_lt
  have hcc := cc.toNat_le
  unfold addcCc
  dsimp only
  rw [UInt64.toNat_ofNat']
  by_cases hCarry : 2 ^ 64 ≤ a.toNat + b.toNat + cc.toNat
  · rw [decide_eq_true hCarry, Bool.toNat_true]
    omega
  · rw [decide_eq_false hCarry, Bool.toNat_false]
    omega

theorem toNat_addCc (a b : UInt64) :
    (addCc a b).1.toNat + 2 ^ 64 * (addCc a b).2.toNat = a.toNat + b.toNat := toNat_addcCc false a b

theorem toNat_mul (a b : UInt64) : (mulLo a b).toNat + 2 ^ 64 * (mulHi a b).toNat = a.toNat * b.toNat := by
  have hHigh : a.toNat * b.toNat / 2 ^ 64 < 2 ^ 64 :=
    Nat.div_lt_of_lt_mul (Nat.mul_lt_mul'' a.toNat_lt b.toNat_lt)
  rw [mulLo, mulHi, UInt64.toNat_mul, UInt64.toNat_ofNat', Nat.mod_eq_of_lt hHigh]
  exact Nat.mod_add_div _ _

theorem toNat_madcHiCc (cc : Bool) (a b c : UInt64) :
    (madcHiCc cc a b c).1.toNat + 2 ^ 64 * (madcHiCc cc a b c).2.toNat =
      (mulHi a b).toNat + c.toNat + cc.toNat := toNat_addcCc cc _ c

theorem toNat_madHiCc (a b c : UInt64) :
    (madHiCc a b c).1.toNat + 2 ^ 64 * (madHiCc a b c).2.toNat = (mulHi a b).toNat + c.toNat :=
  toNat_madcHiCc false a b c

end CarryChain
