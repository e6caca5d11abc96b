import Bloodhound.Lib.InPlace
import Bloodhound.Scanner.DeviceField
import Bloodhound.Scanner.PathPrefix

/-!
# Additions on the device

`u256_add` and `u256_sub_mod_p` of `field.cu` write into an array that may be one of their arguments, and
`add_mod_n` of `bip32_device.cuh` adds keys. Each of them takes the modulus away at most once, and the first and
the last one add what 2²⁵⁶ is modulo their modulus where the sum has a carry. For arguments that are reduced, and
for `add_mod_n` for any first argument, that is enough (`additions_exact`).
-/

namespace Bloodhound.Scanner

open InPlace Limbs

variable {N : Type} [DecidableEq N]

/-- The arrays that a caller passes. -/
abbrev U256Memory (N : Type) := Memory N (2 ^ 32) 8

/-- `u256_add`: the folded sum is computed in an array of its own and copied. -/
def u256AddInto (r : N) (a b : Source N (2 ^ 32) 8) (m : U256Memory N) : U256Memory N :=
  let sum := addInto base_pos r a b m
  let folded :=
    if sum.2 ≠ 0 then Function.update sum.1 r (u256AddRaw (sum.1 r) foldWord) else sum.1
  if u256Gte (folded r) secpP then subInto base_pos r (.array r) (.own secpP) folded else folded

/-- `u256_sub_mod_p`: p - b is computed in an array of its own. -/
def u256SubModPInto (r : N) (a b : Source N (2 ^ 32) 8) (m : U256Memory N) : U256Memory N :=
  if u256Gte (a.read m) (b.read m) then subInto base_pos r a b m
  else u256AddInto r a (.own (u256Sub secpP (b.read m))) m

variable {r : N} {a b : Source N (2 ^ 32) 8} {m : U256Memory N}

/-- Only the result changes, and it becomes what the arguments had before. -/
theorem u256AddInto_eq : u256AddInto r a b m = Function.update m r (u256Add (a.read m) (b.read m)) := by
  unfold u256AddInto u256Add
  rw [addInto_eq]
  dsimp only
  generalize (a.read m).add (b.read m) _ = s
  have hFolded : (if s.2 ≠ 0 then Function.update (Function.update m r s.1) r
      (u256AddRaw (Function.update m r s.1 r) foldWord) else Function.update m r s.1) =
        Function.update m r (if s.2 ≠ 0 then u256AddRaw s.1 foldWord else s.1) := by
    rw [Function.update_self, Function.update_idem]
    split <;> rfl
  rw [hFolded, Function.update_self]
  generalize (if s.2 ≠ 0 then u256AddRaw s.1 foldWord else s.1) = folded
  by_cases hGte : u256Gte folded secpP = true
  · rw [if_pos hGte, if_pos hGte, subInto_eq, Source.read, Function.update_self, Function.update_idem]
    rfl
  · rw [if_neg hGte, if_neg hGte]

theorem u256SubModPInto_eq : u256SubModPInto r a b m = Function.update m r (u256SubModP (a.read m) (b.read m)) := by
  unfold u256SubModPInto u256SubModP
  split
  · rw [subInto_eq]
    rfl
  · rw [u256AddInto_eq]
    rfl

/-- The remainder of a difference, as the integers have it. -/
theorem toNat_u256SubModP_int {x y : U256} (hx : x.toNat < secp256k1Prime) (hy : y.toNat < secp256k1Prime) :
    ((u256SubModP x y).toNat : ℤ) = ((x.toNat : ℤ) - y.toNat) % secp256k1Prime := by
  have hShift : (x.toNat : ℤ) + (secp256k1Prime - y.toNat) = x.toNat - y.toNat + secp256k1Prime := by ring
  rw [toNat_u256SubModP hx hy, Int.natCast_mod, Nat.cast_add, Nat.cast_sub hy.le, hShift, Int.add_emod_right]

theorem keyNumber_addModN {x y : Bytes} (hx : x.length = 32) (hy : y.length = 32)
    (hLess : keyNumber y < secp256k1Order) :
    addModN x y = addPrivkeysModOrder x y ∧
      keyNumber (addModN x y) = (keyNumber x + keyNumber y) % secp256k1Order := by
  have hHost := addModN_eq hx hy (Nat.add_lt_add (keyNumber_lt hx) hLess)
  refine ⟨hHost, ?_⟩
  rw [hHost, addPrivkeysModOrder, keyNumber_bigEndian]
  exact Nat.mod_eq_of_lt ((Nat.mod_lt _ (by decide)).trans (by decide))

/-- Additions and subtractions modulo p are exact wherever the result is stored, and additions of keys are exact
and agree with those of the host. -/
theorem additions_exact (m : U256Memory N) (r a b : N) (ha : (m a).toNat < secp256k1Prime)
    (hb : (m b).toNat < secp256k1Prime) {x y : Bytes} (hx : x.length = 32) (hy : y.length = 32)
    (hLess : keyNumber y < secp256k1Order) :
    ((u256AddInto r (.array a) (.array b) m r).toNat = ((m a).toNat + (m b).toNat) % secp256k1Prime ∧
      ∀ k ≠ r, u256AddInto r (.array a) (.array b) m k = m k) ∧
    (((u256SubModPInto r (.array a) (.array b) m r).toNat : ℤ) =
        ((m a).toNat - (m b).toNat : ℤ) % secp256k1Prime ∧
      ∀ k ≠ r, u256SubModPInto r (.array a) (.array b) m k = m k) ∧
    keyNumber (addModN x y) = (keyNumber x + keyNumber y) % secp256k1Order ∧
      addModN x y = addPrivkeysModOrder x y := by
  obtain ⟨hHost, hNumber⟩ := keyNumber_addModN hx hy hLess
  refine ⟨⟨?_, fun k hk => ?_⟩, ⟨?_, fun k hk => ?_⟩, hNumber, hHost⟩
  · rw [u256AddInto_eq, Function.update_self]
    exact toNat_u256Add ha hb
  · rw [u256AddInto_eq, Function.update_of_ne hk]
  · rw [u256SubModPInto_eq, Function.update_self]
    exact toNat_u256SubModP_int ha hb
  · rw [u256SubModPInto_eq, Function.update_of_ne hk]

/-- A double that is stored over its argument, and the largest number with the smallest key. -/
theorem additions_exact_double :
    (u256AddInto () (.array ()) (.array ()) (fun _ => u256Sub secpP foldWord) ()).toNat =
        ((u256Sub secpP foldWord).toNat + (u256Sub secpP foldWord).toNat) % secp256k1Prime ∧
      addModN (List.replicate 32 255) (List.replicate 31 0 ++ [1]) =
        addPrivkeysModOrder (List.replicate 32 255) (List.replicate 31 0 ++ [1]) := by
  have hReduced : (u256Sub secpP foldWord).toNat < secp256k1Prime := by decide
  have hExact := @additions_exact Unit _ (fun _ => u256Sub secpP foldWord) () () () hReduced hReduced
    (List.replicate 32 255) (List.replicate 31 0 ++ [1]) rfl rfl (by decide)
  exact ⟨hExact.1.1, hExact.2.2.2⟩

end Bloodhound.Scanner
