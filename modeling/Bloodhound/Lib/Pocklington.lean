import Bloodhound.Lib.BinaryMethod
import Mathlib.Data.Nat.ChineseRemainder
import Mathlib.FieldTheory.Finite.Basic

/-!
# Primes from a partial factorisation

A number `n` is prime if the primes that are known to divide `n - 1` have a product above the square root of `n`,
and some base has an order modulo every prime factor of `n` that all of them divide (`prime_of_certificate`). The
test is one that the kernel can evaluate.
-/

namespace Pocklington

open BinaryMethod

/-- A power modulo `m`. -/
def powMod (m a e : ℕ) : ℕ :=
  (bits (e.log2 + 1) e).foldl (fun r b => if b then r * r % m * a % m else r * r % m) (1 % m)

theorem powMod_eq (m a e : ℕ) : powMod m a e = a ^ e % m := by
  have hRun := @run ℕ (fun r n => r = a ^ n % m) (fun r b => if b then r * r % m * a % m else r * r % m)
    (fun {r n} b hr => ?_) (1 % m) 0 (by rw [Nat.pow_zero]) (bits (e.log2 + 1) e)
  · rw [valueFrom_bits, Nat.zero_mul, Nat.zero_add, Nat.mod_eq_of_lt (Nat.lt_log2_self)] at hRun
    exact hRun
  · have hSquare : r * r % m = a ^ (2 * n) % m := by
      rw [hr, ← Nat.mul_mod, ← Nat.pow_add, Nat.two_mul]
    cases b with
    | false => exact hSquare
    | true =>
      rw [if_pos rfl, hSquare, Nat.mod_mul_mod, ← Nat.pow_succ]
      rfl

/-- The numbers of a certificate: a base and some factors of `n - 1`. -/
def certified (n a : ℕ) (factors : List ℕ) : Bool :=
  1 < n && n < factors.prod * factors.prod && powMod n a (n - 1) == 1 && factors.Nodup &&
    factors.all fun q => (n - 1) % q == 0 && Nat.gcd (powMod n a ((n - 1) / q) + (n - 1)) n == 1

theorem prod_dvd_of_primes {factors : List ℕ} (hPrime : ∀ q ∈ factors, q.Prime) (hNodup : factors.Nodup) {m : ℕ}
    (h : ∀ q ∈ factors, q ∣ m) : factors.prod ∣ m := by
  induction factors with
  | nil => exact one_dvd m
  | cons q factors ih =>
    rw [List.nodup_cons] at hNodup
    rw [List.prod_cons]
    apply Nat.Coprime.mul_dvd_of_dvd_of_dvd ?_ (h q List.mem_cons_self)
    · exact ih (fun r hr => hPrime r (List.mem_cons_of_mem q hr)) hNodup.2 fun r hr => h r (List.mem_cons_of_mem q hr)
    · apply Nat.coprime_list_prod_right_iff.mpr
      intro r hr
      apply (Nat.coprime_primes (hPrime q List.mem_cons_self) (hPrime r (List.mem_cons_of_mem q hr))).mpr
      rintro rfl
      exact hNodup.1 hr

/-- A prime that divides the exponent but is needed for it divides the order. -/
theorem dvd_order {M : Type} [Monoid M] {x : M} {q m : ℕ} (hq : q.Prime) (hOne : x ^ (q * m) = 1) (hNot : x ^ m ≠ 1) :
    q ∣ orderOf x := by
  by_contra hCoprime
  apply hNot
  apply orderOf_dvd_iff_pow_eq_one.mp
  exact ((Nat.Prime.coprime_iff_not_dvd hq).mpr hCoprime).symm.dvd_of_dvd_mul_left (orderOf_dvd_of_pow_eq_one hOne)

theorem prime_of_certificate {n : ℕ} (a : ℕ) (factors : List ℕ) (h : certified n a factors = true)
    (hPrime : ∀ q ∈ factors, q.Prime) : n.Prime := by
  simp only [certified, Bool.and_eq_true, decide_eq_true_eq, beq_iff_eq, List.all_eq_true] at h
  obtain ⟨⟨⟨⟨hn, hSize⟩, hOne⟩, hNodup⟩, hFactors⟩ := h
  rw [powMod_eq] at hOne
  by_contra hNot
  let r := n.minFac
  have hr : r.Prime := Nat.minFac_prime (by omega)
  have : Fact r.Prime := ⟨hr⟩
  have hrn : r ∣ n := n.minFac_dvd
  have hCast : ((a ^ (n - 1) : ℕ) : ZMod r) = 1 := by
    have hMod : a ^ (n - 1) ≡ 1 [MOD n] := by
      rw [Nat.ModEq, hOne, Nat.mod_eq_of_lt hn]
    exact_mod_cast (ZMod.natCast_eq_natCast_iff _ 1 r).mpr (hMod.of_dvd hrn)
  have hUnit : (a : ZMod r) ≠ 0 := by
    intro hZero
    rw [Nat.cast_pow, hZero, zero_pow (by omega)] at hCast
    exact zero_ne_one hCast
  have hEach : ∀ q ∈ factors, q ∣ r - 1 := by
    intro q hq
    obtain ⟨hDvd, hGcd⟩ := hFactors q hq
    have hSplit : q * ((n - 1) / q) = n - 1 := Nat.mul_div_cancel' (Nat.dvd_of_mod_eq_zero hDvd)
    have hOrder : (a : ZMod r) ^ ((n - 1) / q) ≠ 1 := by
      intro hPower
      -- otherwise `r` would divide both numbers of the greatest common divisor
      have hMod : a ^ ((n - 1) / q) + (n - 1) ≡ 0 [MOD r] := by
        apply (ZMod.natCast_eq_natCast_iff _ 0 r).mp
        have hZero : ((n : ℕ) : ZMod r) = 0 := (ZMod.natCast_eq_zero_iff n r).mpr hrn
        have hSum : a ^ ((n - 1) / q) + (n - 1) + 1 = a ^ ((n - 1) / q) + n := by omega
        have hSucc := congrArg (Nat.cast : ℕ → ZMod r) hSum
        rw [Nat.cast_add, Nat.cast_add (a ^ _) n, hZero, Nat.cast_pow (a) ((n - 1) / q), hPower, Nat.cast_one,
          add_zero] at hSucc
        rw [Nat.cast_zero]
        exact add_eq_right.mp hSucc
      have hPowDvd : r ∣ a ^ ((n - 1) / q) % n + (n - 1) := by
        have hSame : a ^ ((n - 1) / q) % n + (n - 1) ≡ a ^ ((n - 1) / q) + (n - 1) [MOD r] :=
          (((Nat.mod_modEq _ n).of_dvd hrn)).add_right _
        exact (Nat.modEq_zero_iff_dvd).mp (hSame.trans hMod)
      rw [powMod_eq] at hGcd
      have hOneDvd := Nat.dvd_gcd hPowDvd hrn
      rw [hGcd] at hOneDvd
      exact hr.one_lt.ne' (Nat.dvd_one.mp hOneDvd)
    have hWhole : (a : ZMod r) ^ (q * ((n - 1) / q)) = 1 := by
      rw [hSplit, ← Nat.cast_pow]
      exact hCast
    exact (dvd_order (hPrime q hq) hWhole hOrder).trans (ZMod.orderOf_dvd_card_sub_one hUnit)
  have hProd : factors.prod ≤ r - 1 :=
    Nat.le_of_dvd (by have := hr.one_lt; omega) (prod_dvd_of_primes hPrime hNodup hEach)
  have hSquare : r * r ≤ n := by
    have := Nat.minFac_sq_le_self (by omega : 0 < n) hNot
    rwa [sq] at this
  have hLess : factors.prod < r := by
    have := hr.one_lt
    omega
  exact absurd (Nat.mul_lt_mul'' hLess hLess) (by omega)

end Pocklington
