import Mathlib.Analysis.SpecialFunctions.Pow.NthRootLemmas
import Mathlib.Data.List.GetD
import Mathlib.Data.UInt
import Mathlib.Logic.Function.Iterate

/-!
# SHA-2, HMAC and PBKDF2

SHA-256 and SHA-512 on lists of bytes, over words of 32 and 64 bits: the constants are the fractional
parts of roots of the first primes, a message is padded to whole blocks, and the blocks are compressed
one after another. HMAC and PBKDF2 are over any hash function.

* `digest_of_blocks`: the whole blocks of a message are compressed first, then its rest with the padding,
  which is one block or two.
-/

namespace Sha2

/-! ## Words and constants -/

structure State (α : Type) where
  a : α
  b : α
  c : α
  d : α
  e : α
  f : α
  g : α
  h : α

def State.toList {α : Type} (s : State α) : List α := [s.a, s.b, s.c, s.d, s.e, s.f, s.g, s.h]

theorem State.toList_inj {α : Type} {s t : State α} (h : s.toList = t.toList) : s = t := by
  cases s
  cases t
  simpa [toList] using h

/-- A hash function of the family; the words have `wordSize` bytes, the most significant one first. -/
structure Family (α : Type) where
  wordSize : Nat
  ofBytes : List UInt8 → α
  toBytes : α → List UInt8
  bigSigma0 : α → α
  bigSigma1 : α → α
  smallSigma0 : α → α
  smallSigma1 : α → α
  constants : List α
  initial : State α

def isPrime (n : Nat) : Bool := 2 ≤ n && (List.range n).all fun d => d < 2 || n % d ≠ 0

/-- The first eighty primes. -/
def primes : List Nat := (List.range 410).filter isPrime

theorem primes_eq : primes =
  [2, 3, 5, 7, 11, 13, 17, 19, 23, 29, 31, 37, 41, 43, 47, 53, 59, 61, 67, 71, 73, 79, 83, 89, 97,
  101, 103, 107, 109, 113, 127, 131, 137, 139, 149, 151, 157, 163, 167, 173, 179, 181, 191, 193,
  197, 199, 211, 223, 227, 229, 233, 239, 241, 251, 257, 263, 269, 271, 277, 281, 283, 293, 307,
  311, 313, 317, 331, 337, 347, 349, 353, 359, 367, 373, 379, 383, 389, 397, 401, 409] := by decide +kernel

/-- The first `w` bits of the fractional part of a root. -/
def rootBits (r w p : Nat) : Nat := Nat.nthRoot r (p * 2 ^ (r * w)) % 2 ^ w

theorem rootBits_eq {r w p a : Nat} (hLow : a ^ r ≤ p * 2 ^ (r * w)) (hHigh : p * 2 ^ (r * w) < (a + 1) ^ r) :
    rootBits r w p = a % 2 ^ w := by
  rw [rootBits, Nat.nthRoot_eq_of_le_of_lt hLow hHigh]

def initialOf {α : Type} (word : Nat → α) (w : Nat) : State α where
  a := word (rootBits 2 w 2)
  b := word (rootBits 2 w 3)
  c := word (rootBits 2 w 5)
  d := word (rootBits 2 w 7)
  e := word (rootBits 2 w 11)
  f := word (rootBits 2 w 13)
  g := word (rootBits 2 w 17)
  h := word (rootBits 2 w 19)

/-- A number as `n` bytes, the most significant one first. -/
def bigEndian (n v : Nat) : List UInt8 := (List.range n).map fun i => UInt8.ofNat (v / 256 ^ (n - 1 - i))

@[simp] theorem length_bigEndian (n v : Nat) : (bigEndian n v).length = n := by simp [bigEndian]

def rotr32 (n : UInt32) (x : UInt32) : UInt32 := x >>> n ||| x <<< (32 - n)

def rotr64 (n : UInt64) (x : UInt64) : UInt64 := x >>> n ||| x <<< (64 - n)

def sha256 : Family UInt32 where
  wordSize := 4
  ofBytes bytes := bytes.foldl (fun acc b => acc <<< 8 ||| b.toUInt32) 0
  toBytes x := [(x >>> 24).toUInt8, (x >>> 16).toUInt8, (x >>> 8).toUInt8, x.toUInt8]
  bigSigma0 x := rotr32 2 x ^^^ rotr32 13 x ^^^ rotr32 22 x
  bigSigma1 x := rotr32 6 x ^^^ rotr32 11 x ^^^ rotr32 25 x
  smallSigma0 x := rotr32 7 x ^^^ rotr32 18 x ^^^ x >>> 3
  smallSigma1 x := rotr32 17 x ^^^ rotr32 19 x ^^^ x >>> 10
  constants := (primes.take 64).map fun p => UInt32.ofNat (rootBits 3 32 p)
  initial := initialOf UInt32.ofNat 32

def sha512 : Family UInt64 where
  wordSize := 8
  ofBytes bytes := bytes.foldl (fun acc b => acc <<< 8 ||| b.toUInt64) 0
  toBytes x := [(x >>> 56).toUInt8, (x >>> 48).toUInt8, (x >>> 40).toUInt8, (x >>> 32).toUInt8,
    (x >>> 24).toUInt8, (x >>> 16).toUInt8, (x >>> 8).toUInt8, x.toUInt8]
  bigSigma0 x := rotr64 28 x ^^^ rotr64 34 x ^^^ rotr64 39 x
  bigSigma1 x := rotr64 14 x ^^^ rotr64 18 x ^^^ rotr64 41 x
  smallSigma0 x := rotr64 1 x ^^^ rotr64 8 x ^^^ x >>> 7
  smallSigma1 x := rotr64 19 x ^^^ rotr64 61 x ^^^ x >>> 6
  constants := primes.map fun p => UInt64.ofNat (rootBits 3 64 p)
  initial := initialOf UInt64.ofNat 64

/-! ## Blocks -/

namespace Family

section Blocks

variable {α : Type} (F : Family α)

def blockSize : Nat := 16 * F.wordSize

/-- What follows a message: a one bit, zeros, and its length in bits. -/
def padding (len : Nat) : List UInt8 :=
  let zeros := (F.blockSize - (len + 1 + 2 * F.wordSize) % F.blockSize) % F.blockSize
  0x80 :: (List.replicate zeros 0 ++ bigEndian (2 * F.wordSize) (8 * len))

/-- The whole blocks of a text. -/
def blocks (bytes : List UInt8) : List (List UInt8) :=
  (List.range (bytes.length / F.blockSize)).map fun i =>
    (bytes.drop (F.blockSize * i)).take F.blockSize

theorem blocks_whole {l : List UInt8} {n : Nat} (hB : 0 < F.blockSize)
    (h : l.length = F.blockSize * n) :
    F.blocks l = (List.range n).map fun i => (l.drop (F.blockSize * i)).take F.blockSize := by
  unfold blocks
  rw [h, Nat.mul_div_cancel_left n hB]

theorem blocks_single {l : List UInt8} (hB : 0 < F.blockSize) (h : l.length = F.blockSize) :
    F.blocks l = [l] := by
  rw [F.blocks_whole hB (h.trans (Nat.mul_one _).symm)]
  simp [← h]

theorem blocks_append {l l' : List UInt8} {n : Nat} (hB : 0 < F.blockSize)
    (h : l.length = F.blockSize * n) : F.blocks (l ++ l') = F.blocks l ++ F.blocks l' := by
  have hCount : (l ++ l').length / F.blockSize = n + l'.length / F.blockSize := by
    rw [List.length_append, h, Nat.mul_add_div hB]
  rw [F.blocks_whole hB h]
  unfold blocks
  rw [hCount, List.range_add, List.map_append, List.map_map]
  congr 1
  · refine List.map_congr_left fun i hi => ?_
    have hLess : F.blockSize * i + F.blockSize ≤ l.length := by
      have hSucc := Nat.mul_le_mul_left F.blockSize (List.mem_range.mp hi)
      rw [h]
      exact hSucc
    rw [List.drop_append_of_le_length (by omega),
      List.take_append_of_le_length (by rw [List.length_drop]; omega)]
  · refine List.map_congr_left fun i _ => ?_
    have hPast : F.blockSize * (n + i) = l.length + F.blockSize * i := by rw [h, Nat.mul_add]
    rw [Function.comp_apply, hPast, List.drop_length_add_append]

theorem padding_eq (len : Nat) {zeros : Nat}
    (h : (F.blockSize - (len + 1 + 2 * F.wordSize) % F.blockSize) % F.blockSize = zeros) :
    F.padding len =
      0x80 :: (List.replicate zeros 0 ++ bigEndian (2 * F.wordSize) (8 * len)) := by
  unfold padding
  rw [h]

/-- A rest with room for the length is one block with its padding. -/
theorem blocks_of_short {rest : List UInt8} {len : Nat} (hRest : rest.length = len % F.blockSize)
    (hShort : rest.length + 1 + 2 * F.wordSize ≤ F.blockSize) :
    F.blocks (rest ++ F.padding len) =
      [rest ++ 0x80 :: (List.replicate (F.blockSize - (rest.length + 1 + 2 * F.wordSize)) 0 ++
        bigEndian (2 * F.wordSize) (8 * len))] := by
  have hB : 0 < F.blockSize := by omega
  have hZeros : (F.blockSize - (len + 1 + 2 * F.wordSize) % F.blockSize) % F.blockSize =
      F.blockSize - (rest.length + 1 + 2 * F.wordSize) := by
    have hMod : (len + 1 + 2 * F.wordSize) % F.blockSize =
        (rest.length + 1 + 2 * F.wordSize) % F.blockSize := by
      rw [hRest, Nat.add_assoc, Nat.add_assoc, Nat.mod_add_mod]
    rw [hMod]
    rcases Nat.lt_or_eq_of_le hShort with hLess | hEq
    · rw [Nat.mod_eq_of_lt hLess, Nat.mod_eq_of_lt (by omega)]
    · rw [hEq, Nat.mod_self, Nat.sub_zero, Nat.mod_self, Nat.sub_self]
  rw [F.padding_eq len hZeros]
  refine F.blocks_single hB ?_
  simp only [List.length_append, List.length_cons, List.length_replicate, length_bigEndian]
  omega

/-- A rest without room for the length is two blocks with its padding. -/
theorem blocks_of_long {rest : List UInt8} {len : Nat} (hB : 0 < F.blockSize)
    (hRest : rest.length = len % F.blockSize)
    (hLong : F.blockSize < rest.length + 1 + 2 * F.wordSize) (hSize : 2 * F.wordSize < F.blockSize) :
    F.blocks (rest ++ F.padding len) =
      [rest ++ 0x80 :: List.replicate (F.blockSize - (rest.length + 1)) 0,
        List.replicate (F.blockSize - 2 * F.wordSize) 0 ++ bigEndian (2 * F.wordSize) (8 * len)] := by
  have hLess : rest.length < F.blockSize := hRest ▸ Nat.mod_lt _ hB
  have hZeros : (F.blockSize - (len + 1 + 2 * F.wordSize) % F.blockSize) % F.blockSize =
      (F.blockSize - (rest.length + 1)) + (F.blockSize - 2 * F.wordSize) := by
    have hMod : (len + 1 + 2 * F.wordSize) % F.blockSize =
        (rest.length + 1 + 2 * F.wordSize) % F.blockSize := by
      rw [hRest, Nat.add_assoc, Nat.add_assoc, Nat.mod_add_mod]
    have hOver : (rest.length + 1 + 2 * F.wordSize) % F.blockSize =
        rest.length + 1 + 2 * F.wordSize - F.blockSize := by
      rw [Nat.mod_eq_sub_mod (Nat.le_of_lt hLong), Nat.mod_eq_of_lt (by omega)]
    rw [hMod, hOver, Nat.mod_eq_of_lt (by omega)]
    omega
  have hSplit : rest ++ F.padding len =
      (rest ++ 0x80 :: List.replicate (F.blockSize - (rest.length + 1)) 0) ++
        (List.replicate (F.blockSize - 2 * F.wordSize) 0 ++
          bigEndian (2 * F.wordSize) (8 * len)) := by
    rw [F.padding_eq len hZeros, ← List.replicate_append_replicate]
    simp only [List.append_assoc, List.cons_append]
  have hFirst : (rest ++ (0x80 : UInt8) ::
      List.replicate (F.blockSize - (rest.length + 1)) 0).length = F.blockSize := by
    simp only [List.length_append, List.length_cons, List.length_replicate]
    omega
  rw [hSplit, F.blocks_append hB (hFirst.trans (Nat.mul_one _).symm), F.blocks_single hB hFirst,
    F.blocks_single hB]
  · rfl
  · simp only [List.length_append, List.length_replicate, length_bigEndian]
    omega

end Blocks

/-! ## The hash computation -/

section Hash

variable {α : Type} [Add α] [AndOp α] [XorOp α] [Complement α] [Zero α] (F : Family α)

/-- The sixteen words of a block. -/
def words (block : List UInt8) : List α :=
  (List.range 16).map fun i => F.ofBytes ((block.drop (F.wordSize * i)).take F.wordSize)

/-- The word that follows the first `t` ones. -/
def next (w : List α) (t : Nat) : List α :=
  w ++ [F.smallSigma1 (w.getD (t - 2) 0) + w.getD (t - 7) 0 + F.smallSigma0 (w.getD (t - 15) 0) +
    w.getD (t - 16) 0]

/-- The words of a block and `n` more. -/
def schedule (block : List UInt8) : Nat → List α
  | 0 => F.words block
  | n + 1 => F.next (schedule block n) (16 + n)

def ch (x y z : α) : α := x &&& y ^^^ ~~~x &&& z

def maj (x y z : α) : α := x &&& y ^^^ x &&& z ^^^ y &&& z

def round (s : State α) (k w : α) : State α :=
  let t1 := s.h + F.bigSigma1 s.e + ch s.e s.f s.g + k + w
  let t2 := F.bigSigma0 s.a + maj s.a s.b s.c
  { a := t1 + t2, b := s.a, c := s.b, d := s.c, e := s.d + t1, f := s.e, g := s.f, h := s.g }

def compress (s : State α) (block : List UInt8) : State α :=
  let w := F.schedule block (F.constants.length - 16)
  let r := (F.constants.zip w).foldl (fun r kw => F.round r kw.1 kw.2) s
  { a := s.a + r.a, b := s.b + r.b, c := s.c + r.c, d := s.d + r.d, e := s.e + r.e, f := s.f + r.f
    g := s.g + r.g, h := s.h + r.h }

def digest (msg : List UInt8) : List UInt8 :=
  ((F.blocks (msg ++ F.padding msg.length)).foldl F.compress F.initial).toList.flatMap F.toBytes

omit [AndOp α] [XorOp α] [Complement α] in
theorem schedule_eq_foldl (block : List UInt8) (n : Nat) :
    F.schedule block n = (List.range' 16 n).foldl F.next (F.words block) := by
  induction n with
  | zero => rfl
  | succ n ih =>
    rw [List.range'_concat, List.foldl_append, Nat.one_mul, ← ih]
    rfl

omit [AndOp α] [XorOp α] [Complement α] in
theorem length_schedule (block : List UInt8) (n : Nat) : (F.schedule block n).length = 16 + n := by
  induction n with
  | zero => simp [schedule, words]
  | succ n ih =>
    simp only [schedule, next, List.length_append, ih, List.length_singleton]
    omega

/-- The rounds, by the numbers of their constants and words. -/
theorem rounds_eq_range (s : State α) {k w : List α} {n : Nat} (hk : k.length = n)
    (hw : w.length = n) : (k.zip w).foldl (fun r kw => F.round r kw.1 kw.2) s =
      (List.range n).foldl (fun r i => F.round r (k.getD i 0) (w.getD i 0)) s := by
  have hZip : k.zip w = (List.range n).map fun i => (k.getD i 0, w.getD i 0) := by
    refine List.ext_getElem (by simp [hk, hw]) fun i hi _ => ?_
    simp only [List.length_zip, hk, hw, Nat.min_self] at hi
    simp only [List.getElem_zip, List.getElem_map, List.getElem_range]
    rw [List.getD_eq_getElem _ _ (by omega), List.getD_eq_getElem _ _ (by omega)]
  rw [hZip, List.foldl_map]

/-- The whole blocks of the message are compressed first. -/
theorem digest_of_blocks (msg : List UInt8) (hB : 0 < F.blockSize) :
    F.digest msg =
      ((F.blocks (msg.drop (F.blockSize * (msg.length / F.blockSize)) ++ F.padding msg.length)).foldl
        F.compress ((List.range (msg.length / F.blockSize)).foldl
          (fun s i => F.compress s ((msg.drop (F.blockSize * i)).take F.blockSize))
          F.initial)).toList.flatMap F.toBytes := by
  let whole := F.blockSize * (msg.length / F.blockSize)
  have hLe : whole ≤ msg.length := Nat.mul_div_le _ _
  have hLength : (msg.take whole).length = F.blockSize * (msg.length / F.blockSize) := by
    rw [List.length_take, Nat.min_eq_left hLe]
  have hSplit : msg ++ F.padding msg.length =
      msg.take whole ++ (msg.drop whole ++ F.padding msg.length) := by
    rw [← List.append_assoc, List.take_append_drop]
  have hWhole : F.blocks (msg.take whole) = (List.range (msg.length / F.blockSize)).map
      fun i => (msg.drop (F.blockSize * i)).take F.blockSize := by
    rw [F.blocks_whole hB hLength]
    refine List.map_congr_left fun i hi => ?_
    have hBound : F.blockSize * i + F.blockSize ≤ whole :=
      Nat.mul_le_mul_left F.blockSize (List.mem_range.mp hi)
    rw [List.drop_take, List.take_take, Nat.min_eq_left (by omega)]
  unfold digest
  rw [hSplit, F.blocks_append hB hLength, hWhole, List.foldl_append, List.foldl_map]

end Hash

end Family

/-! ## HMAC and PBKDF2 -/

section Keyed

def xorBytes (x y : List UInt8) : List UInt8 := List.zipWith (· ^^^ ·) x y

theorem length_xorBytes (x y : List UInt8) : (xorBytes x y).length = min x.length y.length :=
  List.length_zipWith

/-- HMAC over a hash function with blocks of a size. -/
def hmac (hash : List UInt8 → List UInt8) (blockSize : Nat) (key text : List UInt8) : List UInt8 :=
  let short := if blockSize < key.length then hash key else key
  let padded := short ++ List.replicate (blockSize - short.length) 0
  hash (padded.map (· ^^^ 0x5c) ++ hash (padded.map (· ^^^ 0x36) ++ text))

variable (prf : List UInt8 → List UInt8)

/-- The blocks that a block of the key is the sum of; `U 0` is the first one. -/
def pbkdf2U (salt : List UInt8) (block : Nat) : Nat → List UInt8
  | 0 => prf (salt ++ bigEndian 4 block)
  | j + 1 => prf (pbkdf2U salt block j)

def pbkdf2Block (salt : List UInt8) (iterations block : Nat) : List UInt8 :=
  (List.range (iterations - 1)).foldl (fun t j => xorBytes t (pbkdf2U prf salt block (j + 1)))
    (pbkdf2U prf salt block 0)

/-- A key of `size` bytes from a pseudorandom function (with the password) that gives `hashSize` bytes. -/
def pbkdf2 (hashSize : Nat) (salt : List UInt8) (iterations size : Nat) : List UInt8 :=
  ((List.range ((size + hashSize - 1) / hashSize)).flatMap fun i =>
    pbkdf2Block prf salt iterations (i + 1)).take size

section Length

variable {prf} {n : Nat} (h : ∀ data, (prf data).length = n)
include h

theorem length_pbkdf2U (salt : List UInt8) (block j : Nat) : (pbkdf2U prf salt block j).length = n := by
  cases j with
  | zero => exact h _
  | succ j => exact h _

theorem length_pbkdf2Block (salt : List UInt8) (iterations block : Nat) :
    (pbkdf2Block prf salt iterations block).length = n := by
  unfold pbkdf2Block
  induction iterations - 1 with
  | zero => exact length_pbkdf2U h salt block 0
  | succ i ih =>
    rw [List.range_succ, List.foldl_append]
    simp only [List.foldl_cons, List.foldl_nil, length_xorBytes, ih, length_pbkdf2U h,
      Nat.min_self]

end Length

/-- The blocks and their sum, side by side. -/
theorem pbkdf2_pairs (salt : List UInt8) (block n : Nat) :
    (List.range n).foldl (fun (s : List UInt8 × List UInt8) _ => (prf s.1, xorBytes s.2 (prf s.1)))
        (pbkdf2U prf salt block 0, pbkdf2U prf salt block 0) =
      (pbkdf2U prf salt block n, pbkdf2Block prf salt (n + 1) block) := by
  induction n with
  | zero => rfl
  | succ n ih =>
    rw [List.range_succ, List.foldl_append, ih]
    simp only [List.foldl_cons, List.foldl_nil, pbkdf2Block, Nat.add_sub_cancel, List.range_succ,
      List.foldl_append]
    rfl

/-- A key of one block. -/
theorem pbkdf2_single {hashSize : Nat} {salt : List UInt8} {iterations : Nat} (hPos : 0 < hashSize)
    (hLength : (pbkdf2Block prf salt iterations 1).length = hashSize) :
    pbkdf2 prf hashSize salt iterations hashSize = pbkdf2Block prf salt iterations 1 := by
  have hOne : (hashSize + hashSize - 1) / hashSize = 1 :=
    Nat.div_eq_of_lt_le (by omega) (by omega)
  unfold pbkdf2
  rw [hOne]
  simp only [List.range_one, List.flatMap_cons, List.flatMap_nil, List.append_nil, Nat.zero_add]
  exact List.take_of_length_le (Nat.le_of_eq hLength)

end Keyed

end Sha2
