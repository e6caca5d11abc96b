import Bloodhound.Lib.Radix
import Mathlib.Data.Nat.Bitwise

/-!
# The binary method

A loop over the bits of a number, the most significant bit first, that doubles in every round and adds one where
the bit is set. `run` is the rule for its invariant: if a round takes what stands for `n` to what stands for
`2 * n + bit`, then the loop reaches what stands for the number of the bits.
-/

namespace BinaryMethod

/-- The number of some bits, behind those of `n`. -/
def valueFrom (n : ℕ) (bs : List Bool) : ℕ := bs.foldl (fun m b => 2 * m + b.toNat) n

/-- The lowest bits of a number, the most significant one first. -/
def bits (width n : ℕ) : List Bool := (List.range width).reverse.map n.testBit

@[simp] theorem valueFrom_nil (n : ℕ) : valueFrom n [] = n := rfl

@[simp] theorem valueFrom_cons (n : ℕ) (b : Bool) (bs : List Bool) :
    valueFrom n (b :: bs) = valueFrom (2 * n + b.toNat) bs := rfl

theorem valueFrom_append (n : ℕ) (bs bs' : List Bool) : valueFrom n (bs ++ bs') = valueFrom (valueFrom n bs) bs' :=
  List.foldl_append

/-- The rule of the loop. -/
theorem run {σ : Type} {Rep : σ → ℕ → Prop} {step : σ → Bool → σ}
    (hStep : ∀ {s n} (b : Bool), Rep s n → Rep (step s b) (2 * n + b.toNat)) {s : σ} {n : ℕ} (h : Rep s n)
    (bs : List Bool) : Rep (bs.foldl step s) (valueFrom n bs) := by
  induction bs generalizing s n with
  | nil => exact h
  | cons b bs ih => exact ih (hStep b h)

theorem bits_succ (width n : ℕ) : bits (width + 1) n = n.testBit width :: bits width n := by
  rw [bits, List.range_succ, List.reverse_append, List.reverse_singleton, List.singleton_append, List.map_cons, bits]

theorem valueFrom_bits (width m n : ℕ) : valueFrom m (bits width n) = m * 2 ^ width + n % 2 ^ width := by
  induction width generalizing m with
  | zero => simp [bits, Nat.mod_one]
  | succ width ih =>
    have hBit : (n.testBit width).toNat = n / 2 ^ width % 2 := Nat.toNat_testBit n width
    rw [bits_succ, valueFrom_cons, ih, hBit, Nat.pow_succ, Nat.mod_mul]
    ring

/-- The bits of some digits. -/
theorem valueFrom_flatMap {width : ℕ} (m : ℕ) {l : List ℕ} (h : ∀ d ∈ l, d < 2 ^ width) :
    valueFrom m (l.flatMap (bits width)) = m * (2 ^ width) ^ l.length + Radix.number (2 ^ width) l := by
  induction l generalizing m with
  | nil => simp
  | cons d l ih =>
    rw [List.flatMap_cons, valueFrom_append, valueFrom_bits, ih _ fun e he => h e (List.mem_cons_of_mem d he),
      Nat.mod_eq_of_lt (h d List.mem_cons_self), Radix.number_cons, List.length_cons, Nat.pow_succ]
    ring

end BinaryMethod
