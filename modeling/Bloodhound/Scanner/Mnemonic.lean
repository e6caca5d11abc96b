import Bloodhound.Lib.Radix
import Bloodhound.Lib.Text
import Bloodhound.Scanner.SeedPipeline

/-!
# The mnemonic of an entropy

`entropy_to_mnemonic` of `bip39.cpp` takes its words eleven bits at a time. Its words are the digits, in
base 2048, of the number of the entropy and its check byte, and so a mnemonic that is found for one
entropy is the mnemonic of no other entropy (`mnemonic_exact`).
-/

namespace Bloodhound.Scanner

/-! ## Bits -/

/-- The bits of a byte, the most significant one first. -/
def byteBits (b : UInt8) : List Nat := (List.range 8).map fun i => b.toNat / 2 ^ (7 - i) % 2

theorem length_byteBits (b : UInt8) : (byteBits b).length = 8 := by
  rw [byteBits, List.length_map, List.length_range]

theorem number_byteBits (b : UInt8) : Radix.number 2 (byteBits b) = b.toNat :=
  (Radix.number_quotients 2 8 b.toNat).trans (Nat.mod_eq_of_lt b.toNat_lt)

theorem toNat_bit (b : UInt8) {i : Nat} (hi : i < 8) :
    ((b >>> UInt8.ofNat (7 - i)) &&& 1).toNat = b.toNat / 2 ^ (7 - i) % 2 := by
  have hShift : (UInt8.ofNat (7 - i)).toNat % 8 = 7 - i := by
    rw [UInt8.toNat_ofNat']
    omega
  rw [UInt8.toNat_and, UInt8.toNat_shiftRight, hShift, Nat.shiftRight_eq_div_pow]
  exact Nat.and_two_pow_sub_one_eq_mod _ 1

theorem map_toNat_bits (b : UInt8) :
    ((List.range 8).map fun i => (b >>> UInt8.ofNat (7 - i)) &&& 1).map UInt8.toNat = byteBits b := by
  rw [List.map_map]
  exact List.map_congr_left fun i hi => toNat_bit b (List.mem_range.mp hi)

/-- The byte behind the entropy. -/
def checkByte (entropy : Bytes) : UInt8 := (Sha2.sha256.digest entropy).getD 0 0

/-- The number of the entropy and its check byte. -/
def seedNumber (entropy : Bytes) : Nat :=
  Radix.number 256 ((entropy ++ [checkByte entropy]).map UInt8.toNat)

theorem number_entropyBits (entropy : Bytes) :
    Radix.number 2 ((entropyBits entropy (Sha2.sha256.digest entropy)).map UInt8.toNat) =
      seedNumber entropy := by
  have hBits : (entropyBits entropy (Sha2.sha256.digest entropy)).map UInt8.toNat =
      (entropy ++ [checkByte entropy]).flatMap byteBits := by
    unfold entropyBits
    rw [List.map_append, List.map_flatMap, List.flatMap_append, List.flatMap_singleton]
    exact congrArg₂ _ (List.flatMap_congr fun b _ => map_toNat_bits b) (map_toNat_bits _)
  rw [hBits, Radix.number_flatMap fun b _ => length_byteBits b]
  exact congrArg _ (List.map_congr_left fun b _ => number_byteBits b)

/-! ## Words -/

/-- The shifts give the number of the bits. -/
theorem toNat_foldl_bits {bit : Nat → UInt32} (hBit : ∀ j, (bit j).toNat < 2) {n : Nat} (hn : n ≤ 32) :
    ((List.range n).foldl (fun (idx : UInt32) (j : Nat) => (idx <<< 1) ||| bit j) 0).toNat =
      Radix.number 2 ((List.range n).map fun j => (bit j).toNat) := by
  induction n with
  | zero => rfl
  | succ n ih =>
    have hLess := foldl_bits_lt hBit (Nat.le_of_succ_le hn)
    have hPow : 2 ^ (n + 1) ≤ 2 ^ 32 := Nat.pow_le_pow_right (by decide) hn
    have hOne : (1 : UInt32).toNat % 32 = 1 := rfl
    rw [List.range_succ, List.foldl_append, List.map_append, List.map_singleton, Radix.number_concat,
      ← ih (Nat.le_of_succ_le hn)]
    simp only [List.foldl_cons, List.foldl_nil]
    rw [UInt32.toNat_or, UInt32.toNat_shiftLeft, hOne, Nat.shiftLeft_eq, pow_one,
      Nat.mod_eq_of_lt (by rw [pow_succ] at hPow; omega)]
    have hAdd := Nat.shiftLeft_add_eq_or_of_lt (i := 1) (hBit n)
      ((List.range n).foldl (fun (idx : UInt32) (j : Nat) => (idx <<< 1) ||| bit j) 0).toNat
    rw [Nat.shiftLeft_eq, pow_one] at hAdd
    exact hAdd.symm

/-- The numbers of the words. -/
def wordIndices (entropy : Bytes) : List Nat :=
  (List.range 24).map fun k => (wordIndex (entropyBits entropy (Sha2.sha256.digest entropy)) k).toNat

/-- The words with a space between any two. -/
def mnemonicOf (words : List Bytes) (indices : List Nat) : Bytes :=
  [32].intercalate (indices.map fun i => words.getD i [])

section Entropy

variable {entropy : Bytes} (hEntropy : entropy.length = 32)
include hEntropy

theorem wordIndices_lt : ∀ i ∈ wordIndices entropy, i < 2048 := by
  intro i hi
  obtain ⟨k, -, rfl⟩ := List.mem_map.mp hi
  exact wordIndex_lt _ (entropyBits_lt _ hEntropy) k

/-- The words are the digits of the number in base 2048. -/
theorem number_wordIndices : Radix.number 2048 (wordIndices entropy) = seedNumber entropy := by
  have hLength := length_entropyBits (Sha2.sha256.digest entropy) hEntropy
  have hIndex : ∀ k, (wordIndex (entropyBits entropy (Sha2.sha256.digest entropy)) k).toNat =
      Radix.number 2 ((List.range 11).map fun j =>
        ((entropyBits entropy (Sha2.sha256.digest entropy)).getD (11 * k + j) 0).toNat) := by
    intro k
    refine (toNat_foldl_bits (fun j => ?_) (by decide)).trans ?_
    · rw [UInt8.toNat_toUInt32]
      exact entropyBits_lt _ hEntropy _
    · simp only [UInt8.toNat_toUInt32]
  have hAll : (entropyBits entropy (Sha2.sha256.digest entropy)).map UInt8.toNat =
      (List.range (11 * 24)).map fun i =>
        ((entropyBits entropy (Sha2.sha256.digest entropy)).getD i 0).toNat := by
    refine List.ext_getElem (by simp [hLength]) fun i hi hi' => ?_
    rw [List.getElem_map, List.getElem_map, List.getElem_range,
      List.getD_eq_getElem _ _ (by simpa using hi)]
  have hBlocks : ∀ k ∈ List.range 24, ((List.range 11).map fun j =>
      ((entropyBits entropy (Sha2.sha256.digest entropy)).getD (11 * k + j) 0).toNat).length = 11 :=
    fun k _ => by rw [List.length_map, List.length_range]
  rw [← number_entropyBits, hAll, ← Radix.flatMap_range, Radix.number_flatMap hBlocks]
  exact congrArg (Radix.number 2048) (List.map_congr_left fun k _ => hIndex k)

end Entropy

theorem foldl_spaces (word : Nat → Bytes) (n : Nat) :
    (List.range n).foldl (fun (out : Bytes) k => (if 0 < k then out ++ [32] else out) ++ word k) [] =
      [32].intercalate ((List.range n).map word) := by
  induction n with
  | zero => rfl
  | succ n ih =>
    rw [List.range_succ, List.foldl_append, ih, List.map_append, List.map_singleton]
    simp only [List.foldl_cons, List.foldl_nil]
    split
    · next hPos =>
      have hBefore : (List.range n).map word ≠ [] := by simp; omega
      exact (Text.intercalate_concat hBefore (word n)).symm
    · next hZero =>
      have hn : n = 0 := by omega
      subst hn
      exact List.intercalate_singleton.symm

section Words

variable {lines : List Bytes} (hCount : (loadWordlist lines).length = 2048)
include hCount

theorem entropyToMnemonic_eq_mnemonicOf {entropy : Bytes} (hEntropy : entropy.length = 32) :
    entropyToMnemonic lines entropy = mnemonicOf (loadWordlist lines) (wordIndices entropy) := by
  rw [(entropyToMnemonic_eq hCount hEntropy).1, foldl_spaces]
  unfold mnemonicOf wordIndices
  rw [List.map_map]
  rfl

/-- The words of a text are read off at its spaces. -/
theorem mnemonicOf_inj (hDistinct : (loadWordlist lines).Nodup) (hSpace : ∀ w ∈ loadWordlist lines, 32 ∉ w)
    {l l' : List Nat} (hl : ∀ i ∈ l, i < 2048) (hl' : ∀ i ∈ l', i < 2048)
    (h : mnemonicOf (loadWordlist lines) l = mnemonicOf (loadWordlist lines) l') : l = l' := by
  have hWord : ∀ {i : Nat}, i < 2048 → (loadWordlist lines).getD i [] ∈ loadWordlist lines := by
    intro i hi
    rw [List.getD_eq_getElem _ _ (hCount ▸ hi)]
    exact List.getElem_mem _
  have hWords : ∀ {l : List Nat}, (∀ i ∈ l, i < 2048) →
      ∀ w ∈ l.map fun i => (loadWordlist lines).getD i [], w ≠ [] ∧ 32 ∉ w := by
    intro l hl w hw
    obtain ⟨i, hi, rfl⟩ := List.mem_map.mp hw
    have hMem := hWord (hl i hi)
    exact ⟨of_decide_eq_true (List.mem_filter.mp hMem).2, hSpace _ hMem⟩
  have hLists := Text.lines_inj (hWords hl) (hWords hl') h
  have hBack : ∀ {l : List Nat}, (∀ i ∈ l, i < 2048) →
      (l.map fun i => (loadWordlist lines).getD i []).map (fun w => (loadWordlist lines).idxOf w) = l := by
    intro l hl
    rw [List.map_map]
    refine (List.map_congr_left fun i hi => ?_).trans (List.map_id l)
    have hi : i < (loadWordlist lines).length := hCount ▸ hl i hi
    rw [Function.comp_apply, List.getD_eq_getElem _ _ hi]
    exact hDistinct.idxOf_getElem i hi
  calc l = _ := (hBack hl).symm
    _ = _ := by rw [hLists]
    _ = l' := hBack hl'

/-- The words of a mnemonic are the digits of the entropy and its check byte, and no other entropy has
the same mnemonic. -/
theorem mnemonic_exact (hDistinct : (loadWordlist lines).Nodup)
    (hSpace : ∀ w ∈ loadWordlist lines, 32 ∉ w) {entropy entropy' : Bytes}
    (hEntropy : entropy.length = 32) (hEntropy' : entropy'.length = 32) :
    (∃ indices : List Nat, indices.length = 24 ∧ (∀ i ∈ indices, i < 2048) ∧
        Radix.number 2048 indices = seedNumber entropy ∧
        entropyToMnemonic lines entropy = mnemonicOf (loadWordlist lines) indices) ∧
      (entropyToMnemonic lines entropy = entropyToMnemonic lines entropy' → entropy = entropy') := by
  refine ⟨⟨wordIndices entropy, ?_, wordIndices_lt hEntropy, number_wordIndices hEntropy,
    entropyToMnemonic_eq_mnemonicOf hCount hEntropy⟩, fun hSame => ?_⟩
  · rw [wordIndices, List.length_map, List.length_range]
  · rw [entropyToMnemonic_eq_mnemonicOf hCount hEntropy,
      entropyToMnemonic_eq_mnemonicOf hCount hEntropy'] at hSame
    have hIndices := mnemonicOf_inj hCount hDistinct hSpace (wordIndices_lt hEntropy)
      (wordIndices_lt hEntropy') hSame
    have hNumber : seedNumber entropy = seedNumber entropy' := by
      rw [← number_wordIndices hEntropy, ← number_wordIndices hEntropy', hIndices]
    have hByte : ∀ l : Bytes, ∀ d ∈ l.map UInt8.toNat, d < 256 := by
      intro l d hd
      obtain ⟨b, -, rfl⟩ := List.mem_map.mp hd
      exact b.toNat_lt
    have hBytes := Radix.number_inj (by decide) (by simp [hEntropy, hEntropy']) (hByte _) (hByte _) hNumber
    have hAll := (List.map_injective_iff.mpr fun _ _ => UInt8.toNat_inj.mp) hBytes
    exact (List.append_inj hAll (hEntropy.trans hEntropy'.symm)).1

end Words

theorem nodup_threeLetters : (loadWordlist threeLetterLines).Nodup := by
  have hSame : loadWordlist threeLetterLines = threeLetterLines := by decide +kernel
  rw [hSame]
  refine List.Nodup.map_on (fun i hi j hj h => ?_) List.nodup_range
  have hi := List.mem_range.mp hi
  have hj := List.mem_range.mp hj
  have hLetters := List.cons.inj h
  have hMore := List.cons.inj hLetters.2
  have hFirst := congrArg UInt8.toNat hLetters.1
  have hSecond := congrArg UInt8.toNat hMore.1
  have hThird := congrArg UInt8.toNat (List.cons.inj hMore.2).1
  rw [UInt8.toNat_ofNat', UInt8.toNat_ofNat'] at hFirst hSecond hThird
  omega

theorem mnemonic_exact_threeLetters :
    (∃ indices : List Nat, indices.length = 24 ∧ (∀ i ∈ indices, i < 2048) ∧
        Radix.number 2048 indices = seedNumber (List.replicate 32 7) ∧
        entropyToMnemonic threeLetterLines (List.replicate 32 7) =
          mnemonicOf (loadWordlist threeLetterLines) indices) ∧
      (entropyToMnemonic threeLetterLines (List.replicate 32 7) =
          entropyToMnemonic threeLetterLines (List.replicate 32 8) →
        List.replicate 32 (7 : UInt8) = List.replicate 32 8) :=
  mnemonic_exact (by decide +kernel) nodup_threeLetters (by decide +kernel) List.length_replicate
    List.length_replicate

end Bloodhound.Scanner
