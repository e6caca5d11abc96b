import Bloodhound.Lib.Sha2
import Mathlib.Data.List.Basic

/-!
# Hash functions on the device

`sha512_device.cuh`, `hmac_sha512_device.cuh` and the SHA-256 part of `hash160_device.cuh`: the device code
with its tables, its padding in a block of its own and its fixed buffers. Arrays are lists, and a loop that
fills an array is `buffer`.

* `sha512Bytes_eq`, `sha256Bytes_eq`, `hmacSha512Device_eq`: they compute the standard functions.
-/

namespace Bloodhound.Scanner

open Sha2 (State)

/-- An array of a size, filled by its index. -/
def buffer (size : Nat) (f : Nat → UInt8) : List UInt8 := (List.range size).map f

/-! ## SHA-512 -/

section Sha512

def sha512Rotr64 (x n : UInt64) : UInt64 := x >>> n ||| x <<< (64 - n)

def sha512Ch (x y z : UInt64) : UInt64 := (x &&& y) ^^^ (~~~x &&& z)

def sha512Maj (x y z : UInt64) : UInt64 := (x &&& y) ^^^ (x &&& z) ^^^ (y &&& z)

def sha512Sigma0 (x : UInt64) : UInt64 := sha512Rotr64 x 28 ^^^ sha512Rotr64 x 34 ^^^ sha512Rotr64 x 39

def sha512Sigma1 (x : UInt64) : UInt64 := sha512Rotr64 x 14 ^^^ sha512Rotr64 x 18 ^^^ sha512Rotr64 x 41

def sha512Gamma0 (x : UInt64) : UInt64 := sha512Rotr64 x 1 ^^^ sha512Rotr64 x 8 ^^^ x >>> 7

def sha512Gamma1 (x : UInt64) : UInt64 := sha512Rotr64 x 19 ^^^ sha512Rotr64 x 61 ^^^ x >>> 6

def sha512K : List UInt64 := [
  0x428a2f98d728ae22, 0x7137449123ef65cd, 0xb5c0fbcfec4d3b2f, 0xe9b5dba58189dbbc,
  0x3956c25bf348b538, 0x59f111f1b605d019, 0x923f82a4af194f9b, 0xab1c5ed5da6d8118,
  0xd807aa98a3030242, 0x12835b0145706fbe, 0x243185be4ee4b28c, 0x550c7dc3d5ffb4e2,
  0x72be5d74f27b896f, 0x80deb1fe3b1696b1, 0x9bdc06a725c71235, 0xc19bf174cf692694,
  0xe49b69c19ef14ad2, 0xefbe4786384f25e3, 0x0fc19dc68b8cd5b5, 0x240ca1cc77ac9c65,
  0x2de92c6f592b0275, 0x4a7484aa6ea6e483, 0x5cb0a9dcbd41fbd4, 0x76f988da831153b5,
  0x983e5152ee66dfab, 0xa831c66d2db43210, 0xb00327c898fb213f, 0xbf597fc7beef0ee4,
  0xc6e00bf33da88fc2, 0xd5a79147930aa725, 0x06ca6351e003826f, 0x142929670a0e6e70,
  0x27b70a8546d22ffc, 0x2e1b21385c26c926, 0x4d2c6dfc5ac42aed, 0x53380d139d95b3df,
  0x650a73548baf63de, 0x766a0abb3c77b2a8, 0x81c2c92e47edaee6, 0x92722c851482353b,
  0xa2bfe8a14cf10364, 0xa81a664bbc423001, 0xc24b8b70d0f89791, 0xc76c51a30654be30,
  0xd192e819d6ef5218, 0xd69906245565a910, 0xf40e35855771202a, 0x106aa07032bbd1b8,
  0x19a4c116b8d2d0c8, 0x1e376c085141ab53, 0x2748774cdf8eeb99, 0x34b0bcb5e19b48a8,
  0x391c0cb3c5c95a63, 0x4ed8aa4ae3418acb, 0x5b9cca4f7763e373, 0x682e6ff3d6b2b8a3,
  0x748f82ee5defb2fc, 0x78a5636f43172f60, 0x84c87814a1f0ab72, 0x8cc702081a6439ec,
  0x90befffa23631e28, 0xa4506cebde82bde9, 0xbef9a3f7b2c67915, 0xc67178f2e372532b,
  0xca273eceea26619c, 0xd186b8c721c0c207, 0xeada7dd6cde0eb1e, 0xf57d4f7fee6ed178,
  0x06f067aa72176fba, 0x0a637dc5a2c898a6, 0x113f9804bef90dae, 0x1b710b35131c471b,
  0x28db77f523047d84, 0x32caab7b40c72493, 0x3c9ebe0a15c9bebc, 0x431d67c49c100d4c,
  0x4cc5d4becb3e42b6, 0x597f299cfc657e2a, 0x5fcb6fab3ad6faec, 0x6c44198c4a475817]

/-- The sixteen words of a block. -/
def sha512Load (block : List UInt8) : List UInt64 :=
  (List.range 16).map fun i =>
    (block.getD (i * 8) 0).toUInt64 <<< 56 ||| (block.getD (i * 8 + 1) 0).toUInt64 <<< 48 |||
      (block.getD (i * 8 + 2) 0).toUInt64 <<< 40 ||| (block.getD (i * 8 + 3) 0).toUInt64 <<< 32 |||
      (block.getD (i * 8 + 4) 0).toUInt64 <<< 24 ||| (block.getD (i * 8 + 5) 0).toUInt64 <<< 16 |||
      (block.getD (i * 8 + 6) 0).toUInt64 <<< 8 ||| (block.getD (i * 8 + 7) 0).toUInt64

def sha512Extend (w : List UInt64) (i : Nat) : List UInt64 :=
  w ++ [sha512Gamma1 (w.getD (i - 2) 0) + w.getD (i - 7) 0 + sha512Gamma0 (w.getD (i - 15) 0) +
    w.getD (i - 16) 0]

def sha512Round (s : State UInt64) (k w : UInt64) : State UInt64 :=
  let t1 := s.h + sha512Sigma1 s.e + sha512Ch s.e s.f s.g + k + w
  let t2 := sha512Sigma0 s.a + sha512Maj s.a s.b s.c
  { h := s.g, g := s.f, f := s.e, e := s.d + t1, d := s.c, c := s.b, b := s.a, a := t1 + t2 }

def sha512Transform (state : State UInt64) (block : List UInt8) : State UInt64 :=
  let w := (List.range' 16 64).foldl sha512Extend (sha512Load block)
  let r := (List.range 80).foldl (fun s i => sha512Round s (sha512K.getD i 0) (w.getD i 0)) state
  { a := state.a + r.a, b := state.b + r.b, c := state.c + r.c, d := state.d + r.d
    e := state.e + r.e, f := state.f + r.f, g := state.g + r.g, h := state.h + r.h }

def sha512Initial : State UInt64 where
  a := 0x6a09e667f3bcc908
  b := 0xbb67ae8584caa73b
  c := 0x3c6ef372fe94f82b
  d := 0xa54ff53a5f1d36f1
  e := 0x510e527fade682d1
  f := 0x9b05688c2b3e6c1f
  g := 0x1f83d9abfb41bd6b
  h := 0x5be0cd19137e2179

def sha512Store (x : UInt64) : List UInt8 :=
  [(x >>> 56).toUInt8, (x >>> 48).toUInt8, (x >>> 40).toUInt8, (x >>> 32).toUInt8, (x >>> 24).toUInt8,
    (x >>> 16).toUInt8, (x >>> 8).toUInt8, x.toUInt8]

/-- The length in bits is put into the last eight bytes of the block. -/
def sha512Bytes (msg : List UInt8) (len : Nat) : List UInt8 :=
  let state := (List.range (len / 128)).foldl
    (fun s i => sha512Transform s (msg.drop (128 * i))) sha512Initial
  let offset := 128 * (len / 128)
  let rem := len - offset
  let block := buffer 128 fun i =>
    if i < rem then msg.getD (offset + i) 0 else if i = rem then 0x80 else 0
  let full := 112 ≤ rem
  let state := if full then sha512Transform state block else state
  let block := if full then buffer 128 fun _ => 0 else block
  let bitlen := UInt64.ofNat len * 8
  let block := buffer 128 fun i =>
    if i < 120 then block.getD i 0 else (bitlen >>> UInt64.ofNat (8 * (127 - i))).toUInt8
  (sha512Transform state block).toList.flatMap sha512Store

end Sha512

/-! ## SHA-256 of a short message -/

section Sha256

def hash160Rotr (x n : UInt32) : UInt32 := x >>> n ||| x <<< (32 - n)

def hash160Sha256K : List UInt32 := [
  0x428a2f98, 0x71374491, 0xb5c0fbcf, 0xe9b5dba5, 0x3956c25b, 0x59f111f1, 0x923f82a4, 0xab1c5ed5,
  0xd807aa98, 0x12835b01, 0x243185be, 0x550c7dc3, 0x72be5d74, 0x80deb1fe, 0x9bdc06a7, 0xc19bf174,
  0xe49b69c1, 0xefbe4786, 0x0fc19dc6, 0x240ca1cc, 0x2de92c6f, 0x4a7484aa, 0x5cb0a9dc, 0x76f988da,
  0x983e5152, 0xa831c66d, 0xb00327c8, 0xbf597fc7, 0xc6e00bf3, 0xd5a79147, 0x06ca6351, 0x14292967,
  0x27b70a85, 0x2e1b2138, 0x4d2c6dfc, 0x53380d13, 0x650a7354, 0x766a0abb, 0x81c2c92e, 0x92722c85,
  0xa2bfe8a1, 0xa81a664b, 0xc24b8b70, 0xc76c51a3, 0xd192e819, 0xd6990624, 0xf40e3585, 0x106aa070,
  0x19a4c116, 0x1e376c08, 0x2748774c, 0x34b0bcb5, 0x391c0cb3, 0x4ed8aa4a, 0x5b9cca4f, 0x682e6ff3,
  0x748f82ee, 0x78a5636f, 0x84c87814, 0x8cc70208, 0x90befffa, 0xa4506ceb, 0xbef9a3f7, 0xc67178f2]

def hash160Sha256Load (block : List UInt8) : List UInt32 :=
  (List.range 16).map fun i =>
    (block.getD (i * 4) 0).toUInt32 <<< 24 ||| (block.getD (i * 4 + 1) 0).toUInt32 <<< 16 |||
      (block.getD (i * 4 + 2) 0).toUInt32 <<< 8 ||| (block.getD (i * 4 + 3) 0).toUInt32

def hash160Sha256Extend (w : List UInt32) (i : Nat) : List UInt32 :=
  let w15 := w.getD (i - 15) 0
  let w2 := w.getD (i - 2) 0
  let s0 := hash160Rotr w15 7 ^^^ hash160Rotr w15 18 ^^^ w15 >>> 3
  let s1 := hash160Rotr w2 17 ^^^ hash160Rotr w2 19 ^^^ w2 >>> 10
  w ++ [w.getD (i - 16) 0 + s0 + w.getD (i - 7) 0 + s1]

def hash160Sha256Round (s : State UInt32) (k w : UInt32) : State UInt32 :=
  let S1 := hash160Rotr s.e 6 ^^^ hash160Rotr s.e 11 ^^^ hash160Rotr s.e 25
  let ch := (s.e &&& s.f) ^^^ (~~~s.e &&& s.g)
  let t1 := s.h + S1 + ch + k + w
  let S0 := hash160Rotr s.a 2 ^^^ hash160Rotr s.a 13 ^^^ hash160Rotr s.a 22
  let maj := (s.a &&& s.b) ^^^ (s.a &&& s.c) ^^^ (s.b &&& s.c)
  let t2 := S0 + maj
  { h := s.g, g := s.f, f := s.e, e := s.d + t1, d := s.c, c := s.b, b := s.a, a := t1 + t2 }

def hash160Sha256Transform (state : State UInt32) (block : List UInt8) : State UInt32 :=
  let w := (List.range' 16 48).foldl hash160Sha256Extend (hash160Sha256Load block)
  let r := (List.range 64).foldl
    (fun s i => hash160Sha256Round s (hash160Sha256K.getD i 0) (w.getD i 0)) state
  { a := state.a + r.a, b := state.b + r.b, c := state.c + r.c, d := state.d + r.d
    e := state.e + r.e, f := state.f + r.f, g := state.g + r.g, h := state.h + r.h }

def hash160Sha256Initial : State UInt32 where
  a := 0x6a09e667
  b := 0xbb67ae85
  c := 0x3c6ef372
  d := 0xa54ff53a
  e := 0x510e527f
  f := 0x9b05688c
  g := 0x1f83d9ab
  h := 0x5be0cd19

def hash160Sha256Store (x : UInt32) : List UInt8 :=
  [(x >>> 24 &&& 0xff).toUInt8, (x >>> 16 &&& 0xff).toUInt8, (x >>> 8 &&& 0xff).toUInt8,
    (x &&& 0xff).toUInt8]

/-- The message has to leave room for its length in the only block. -/
def hash160Sha256Bytes (msg : List UInt8) (len : Nat) : List UInt8 :=
  let bitlen := UInt64.ofNat len * 8
  let block := buffer 64 fun i =>
    if 60 ≤ i then (bitlen >>> UInt64.ofNat (8 * (63 - i))).toUInt8
    else if i = len then 0x80
    else if i < len then msg.getD i 0
    else 0
  (hash160Sha256Transform hash160Sha256Initial block).toList.flatMap hash160Sha256Store

end Sha256

/-! ## HMAC -/

def hmacSha512Device (key : List UInt8) (keyLen : Nat) (data : List UInt8) (dataLen : Nat) :
    List UInt8 :=
  let hashed := if 128 < keyLen then sha512Bytes key keyLen else key
  let hashedLen := if 128 < keyLen then 64 else keyLen
  let kPad := buffer 128 fun i => if i < hashedLen then hashed.getD i 0 else 0
  let oKeyPad := buffer 128 fun i => kPad.getD i 0 ^^^ 0x5c
  let iKeyPad := buffer 128 fun i => kPad.getD i 0 ^^^ 0x36
  let inner := buffer (128 + 256) fun i =>
    if i < 128 then iKeyPad.getD i 0 else if i - 128 < dataLen then data.getD (i - 128) 0 else 0
  let innerHash := sha512Bytes inner (128 + dataLen)
  let outer := buffer (128 + 64) fun i =>
    if i < 128 then oKeyPad.getD i 0 else innerHash.getD (i - 128) 0
  sha512Bytes outer 192

/-! ## The standard functions -/

theorem map_getD_eq_take_drop {l : List UInt8} {a n : Nat} (h : a + n ≤ l.length) :
    (List.range n).map (fun j => l.getD (a + j) 0) = (l.drop a).take n := by
  refine List.ext_getElem (by simp; omega) fun i hi _ => ?_
  simp only [List.length_map, List.length_range] at hi
  simp only [List.getElem_map, List.getElem_range, List.getElem_take, List.getElem_drop]
  exact List.getD_eq_getElem _ _ _

theorem eq_buffer {l : List UInt8} {size : Nat} {f : Nat → UInt8} (hLength : l.length = size)
    (h : ∀ i < size, l.getD i 0 = f i) : l = buffer size f := by
  refine List.ext_getElem (by simp [buffer, hLength]) fun i hi _ => ?_
  have hGet := h i (hLength ▸ hi)
  rw [List.getD_eq_getElem _ _ hi] at hGet
  simp [buffer, hGet]

theorem getD_buffer {size : Nat} {f : Nat → UInt8} {i : Nat} (h : i < size) :
    (buffer size f).getD i 0 = f i := by
  unfold buffer
  rw [List.getD_eq_getElem _ _ (by simpa using h)]
  simp

@[simp] theorem length_buffer (size : Nat) (f : Nat → UInt8) : (buffer size f).length = size := by
  simp [buffer]

theorem getD_bigEndian {n v i : Nat} (h : i < n) :
    (Sha2.bigEndian n v).getD i 0 = UInt8.ofNat (v / 256 ^ (n - 1 - i)) := by
  unfold Sha2.bigEndian
  rw [List.getD_eq_getElem _ _ (by simpa using h)]
  simp

theorem bitlen_byte {len k : Nat} (hLen : 8 * len < 2 ^ 64) (hk : k < 8) :
    ((UInt64.ofNat len * 8) >>> UInt64.ofNat (8 * k)).toUInt8 = UInt8.ofNat (8 * len / 256 ^ k) := by
  refine UInt8.toNat_inj.mp ?_
  have hBits : (UInt64.ofNat len * 8).toNat = 8 * len := by
    rw [UInt64.toNat_mul, UInt64.toNat_ofNat']
    show len % 2 ^ 64 * 8 % 2 ^ 64 = _
    omega
  have hShift : (UInt64.ofNat (8 * k)).toNat % 64 = 8 * k := by
    rw [UInt64.toNat_ofNat']
    omega
  rw [UInt64.toNat_toUInt8, UInt64.toNat_shiftRight, hBits, hShift, UInt8.toNat_ofNat',
    Nat.shiftRight_eq_div_pow, Nat.pow_mul]

theorem getD_append {l l' : List UInt8} (i : Nat) :
    (l ++ l').getD i 0 = if i < l.length then l.getD i 0 else l'.getD (i - l.length) 0 := by
  split
  · next hi => exact List.getD_append _ _ _ _ hi
  · next hi => exact List.getD_append_right _ _ _ _ (Nat.le_of_not_lt hi)

theorem getD_replicate_zero (n i : Nat) : (List.replicate n (0 : UInt8)).getD i 0 = 0 := by
  rw [List.getD_eq_getElem?_getD, List.getElem?_replicate]
  split <;> rfl

/-- The end of the last block: zeros, and the length, whose last bytes are not zero. -/
theorem getD_length {len zeros i size bytes : Nat} (hLen : 8 * len < 256 ^ bytes) (hBytes : bytes ≤ 8)
    (hSize : bytes ≤ size) (hi : i < zeros + size) :
    (List.replicate zeros (0 : UInt8) ++ Sha2.bigEndian size (8 * len)).getD i 0 =
      if i < zeros + (size - bytes) then (0 : UInt8) else
        ((UInt64.ofNat len * 8) >>> UInt64.ofNat (8 * (zeros + size - 1 - i))).toUInt8 := by
  rw [getD_append, List.length_replicate, getD_replicate_zero]
  by_cases hZeros : i < zeros
  · rw [if_pos hZeros, if_pos (by omega)]
  · rw [if_neg hZeros, getD_bigEndian (by omega)]
    split
    · next hHigh =>
      have hLarge : 256 ^ bytes ≤ 256 ^ (size - 1 - (i - zeros)) :=
        Nat.pow_le_pow_right (by decide) (by omega)
      rw [Nat.div_eq_of_lt (Nat.lt_of_lt_of_le hLen hLarge)]
      rfl
    · have hWord : 8 * len < 2 ^ 64 :=
        Nat.lt_of_lt_of_le hLen (Nat.pow_le_pow_right (by decide : 0 < 256) hBytes)
      rw [bitlen_byte hWord (by omega), show size - 1 - (i - zeros) = zeros + size - 1 - i by omega]

/-- The message bytes of a block with its one bit. -/
theorem getD_rest {rest tail : List UInt8} (i : Nat) (hTail : ∀ j, j + rest.length + 1 = i → tail.getD j 0 = 0) :
    (rest ++ 0x80 :: tail).getD i 0 =
      if i < rest.length then rest.getD i 0 else if i = rest.length then 0x80 else 0 := by
  rw [getD_append]
  split
  · rfl
  · next hi =>
    split
    · next hEq =>
      rw [hEq, Nat.sub_self]
      rfl
    · next hNe =>
      obtain ⟨j, hj⟩ := Nat.exists_eq_add_of_lt (Nat.lt_of_le_of_ne (Nat.le_of_not_lt hi) (Ne.symm hNe))
      rw [show i - rest.length = j + 1 by omega, List.getD_cons_succ]
      exact hTail j (by omega)

/-- The only block of a short rest: the block of its bytes with the length at its end. -/
theorem short_block {rest block : List UInt8} {len blockSize size bytes : Nat}
    (hShort : rest.length + 1 + size ≤ blockSize) (hLen : 8 * len < 256 ^ bytes) (hBytes : bytes ≤ 8)
    (hSize : bytes ≤ size)
    (hBlock : ∀ i < blockSize, block.getD i 0 = if i < rest.length then rest.getD i 0 else
      if i = rest.length then 0x80 else 0) :
    rest ++ 0x80 :: (List.replicate (blockSize - (rest.length + 1 + size)) 0 ++
        Sha2.bigEndian size (8 * len)) =
      buffer blockSize fun i => if i < blockSize - bytes then block.getD i 0 else
        ((UInt64.ofNat len * 8) >>> UInt64.ofNat (8 * (blockSize - 1 - i))).toUInt8 := by
  refine eq_buffer (by simp; omega) fun i hi => ?_
  by_cases hFront : i < blockSize - bytes
  · rw [if_pos hFront, hBlock i hi]
    refine getD_rest i fun j hj => ?_
    rw [getD_length hLen hBytes hSize (by omega), if_pos (by omega)]
  · rw [if_neg hFront, getD_append, if_neg (by omega)]
    rw [show i - rest.length = (i - rest.length - 1) + 1 by omega, List.getD_cons_succ,
      getD_length hLen hBytes hSize (by omega), if_neg (by omega)]
    congr 4
    omega

/-- The constant, with the whole part of the cube root of `p` in front of it. -/
def rootWith (w p constant : Nat) : Nat := (List.range 8).countP (fun c => (c + 1) ^ 3 ≤ p) * 2 ^ w + constant

/-- The constants are checked as cube roots, and no root is computed. -/
theorem map_rootBits {α : Type} {word : Nat → α} {w : Nat} {constants : List Nat} {ps : List Nat}
    (hLength : ps.length = constants.length)
    (hRoots : ∀ e ∈ ps.zip constants, e.2 < 2 ^ w ∧ rootWith w e.1 e.2 ^ 3 ≤ e.1 * 2 ^ (3 * w) ∧
      e.1 * 2 ^ (3 * w) < (rootWith w e.1 e.2 + 1) ^ 3) :
    ps.map (fun p => word (Sha2.rootBits 3 w p)) = constants.map word := by
  induction ps generalizing constants with
  | nil => rw [List.length_eq_zero_iff.mp hLength.symm, List.map_nil, List.map_nil]
  | cons p ps ih =>
    cases constants with
    | nil => cases hLength
    | cons k constants =>
      obtain ⟨hLess, hLow, hHigh⟩ := hRoots (p, k) List.mem_cons_self
      have hBits : Sha2.rootBits 3 w p = k := by
        rw [Sha2.rootBits_eq hLow hHigh, rootWith, Nat.mul_add_mod', Nat.mod_eq_of_lt hLess]
      have hRest := ih (Nat.succ.inj hLength) fun e he => hRoots e (List.mem_cons_of_mem _ he)
      rw [List.map_cons, List.map_cons, hBits, hRest]

section Sha512

theorem sha512K_eq : Sha2.sha512.constants = sha512K := by
  have hRoots : Sha2.primes.map (fun p => UInt64.ofNat (Sha2.rootBits 3 64 p)) =
      (sha512K.map UInt64.toNat).map UInt64.ofNat := by
    rw [Sha2.primes_eq]
    exact map_rootBits rfl (by decide)
  rw [List.map_map] at hRoots
  exact hRoots.trans ((List.map_congr_left fun k _ => UInt64.ofNat_toNat).trans (List.map_id _))

theorem sha512Initial_eq : Sha2.sha512.initial = sha512Initial := by
  have hWords : Sha2.sha512.initial.toList = sha512Initial.toList := by decide
  exact State.toList_inj hWords

theorem ofBytes_eq64 (b0 b1 b2 b3 b4 b5 b6 b7 : UInt8) :
    Sha2.sha512.ofBytes [b0, b1, b2, b3, b4, b5, b6, b7] =
      b0.toUInt64 <<< 56 ||| b1.toUInt64 <<< 48 ||| b2.toUInt64 <<< 40 ||| b3.toUInt64 <<< 32 |||
        b4.toUInt64 <<< 24 ||| b5.toUInt64 <<< 16 ||| b6.toUInt64 <<< 8 ||| b7.toUInt64 := by
  have hShift : ∀ (x : UInt64) (n : UInt64), n.toNat + 8 < 64 → x <<< n <<< 8 = x <<< (n + 8) :=
    fun x n hn => (UInt64.shiftLeft_add_of_toNat_lt hn).symm
  simp only [Sha2.sha512, List.foldl_cons, List.foldl_nil, UInt64.zero_shiftLeft, UInt64.zero_or,
    UInt64.shiftLeft_or]
  simp (disch := decide) only [hShift]
  rfl

theorem sha512Load_eq {block : List UInt8} (h : 128 ≤ block.length) :
    sha512Load block = Sha2.sha512.words (block.take 128) := by
  unfold sha512Load Sha2.Family.words
  refine List.map_congr_left fun i hi => ?_
  have hi := List.mem_range.mp hi
  have hBytes : ((block.take 128).drop (8 * i)).take 8 =
      (List.range 8).map fun j => block.getD (i * 8 + j) 0 := by
    rw [map_getD_eq_take_drop (by omega), List.drop_take, List.take_take, Nat.min_eq_left (by omega),
      Nat.mul_comm]
  show _ = Sha2.sha512.ofBytes (((block.take 128).drop (8 * i)).take 8)
  rw [hBytes]
  exact (ofBytes_eq64 _ _ _ _ _ _ _ _).symm

theorem sha512Transform_eq (state : State UInt64) {block : List UInt8} (h : 128 ≤ block.length) :
    sha512Transform state block = Sha2.sha512.compress state (block.take 128) := by
  have hRounds := Sha2.sha512.rounds_eq_range state (n := 80) (k := sha512K) rfl
    (Sha2.sha512.length_schedule (block.take 128) 64)
  rw [Sha2.Family.schedule_eq_foldl, ← sha512Load_eq h] at hRounds
  unfold Sha2.Family.compress
  rw [sha512K_eq, show sha512K.length - 16 = 64 from rfl, Sha2.Family.schedule_eq_foldl,
    ← sha512Load_eq h]
  simp only [hRounds]
  rfl

theorem sha512Transform_block (state : State UInt64) {block : List UInt8} (h : block.length = 128) :
    sha512Transform state block = Sha2.sha512.compress state block := by
  rw [sha512Transform_eq state (Nat.le_of_eq h.symm), List.take_of_length_le (Nat.le_of_eq h)]

theorem sha512Bytes_eq {msg : List UInt8} {len : Nat} (hMsg : len ≤ msg.length)
    (hLen : 8 * len < 2 ^ 64) : sha512Bytes msg len = Sha2.sha512.digest (msg.take len) := by
  have hTake : (msg.take len).length = len := by rw [List.length_take, Nat.min_eq_left hMsg]
  have hWhole : 128 * (len / 128) ≤ len := Nat.mul_div_le _ _
  let rest := (msg.take len).drop (128 * (len / 128))
  have hRest : rest.length = len - 128 * (len / 128) := by
    rw [List.length_drop, hTake]
  have hMod : rest.length = len % 128 := by omega
  -- the whole blocks
  have hFold : (List.range (len / 128)).foldl (fun s i => sha512Transform s (msg.drop (128 * i)))
        sha512Initial =
      (List.range (len / 128)).foldl
        (fun s i => Sha2.sha512.compress s (((msg.take len).drop (128 * i)).take 128))
        Sha2.sha512.initial := by
    rw [sha512Initial_eq]
    refine List.foldl_ext _ _ _ fun s i hi => ?_
    have hi := List.mem_range.mp hi
    rw [sha512Transform_eq s (by rw [List.length_drop]; omega), List.drop_take, List.take_take,
      Nat.min_eq_left (by omega)]
  -- the bytes of the rest in the block
  have hBlock : ∀ i < 128, (buffer 128 fun i => if i < rest.length then
      msg.getD (128 * (len / 128) + i) 0 else if i = rest.length then 0x80 else 0).getD i 0 =
      if i < rest.length then rest.getD i 0 else if i = rest.length then 0x80 else 0 := by
    intro i hi
    rw [getD_buffer hi]
    split
    · next hLess =>
      rw [List.getD_eq_getElem _ _ hLess, List.getElem_drop, List.getElem_take]
      exact List.getD_eq_getElem _ _ _
    · rfl
  rw [Sha2.Family.digest_of_blocks _ _ (by decide), hTake]
  have hB : Sha2.sha512.blockSize = 128 := rfl
  rw [hB]
  unfold sha512Bytes
  simp only
  rw [hFold, ← hRest]
  by_cases hFull : 112 ≤ rest.length
  · have hBlocks : Sha2.sha512.blocks (rest ++ Sha2.sha512.padding len) = _ :=
      Sha2.sha512.blocks_of_long (by decide) hMod (show 128 < rest.length + 1 + 2 * 8 by omega)
        (by decide)
    have hFirst : rest ++ 0x80 :: List.replicate (128 - (rest.length + 1)) 0 =
        buffer 128 fun i => if i < rest.length then msg.getD (128 * (len / 128) + i) 0
          else if i = rest.length then 0x80 else 0 := by
      refine eq_buffer (by simp; omega) fun i hi => ?_
      rw [getD_rest i fun j _ => getD_replicate_zero _ j, ← hBlock i hi, getD_buffer hi]
    have hSecond : List.replicate 112 0 ++ Sha2.bigEndian 16 (8 * len) =
        buffer 128 fun i => if i < 120 then (buffer 128 fun _ => 0).getD i 0 else
          ((UInt64.ofNat len * 8) >>> UInt64.ofNat (8 * (127 - i))).toUInt8 := by
      refine eq_buffer (by simp) fun i hi => ?_
      rw [getD_length hLen (Nat.le_refl 8) (by decide) hi, getD_buffer hi]
    simp only [hFull, if_true]
    rw [sha512Transform_block _ (length_buffer _ _), sha512Transform_block _ (length_buffer _ _),
      ← hFirst, ← hSecond]
    show _ = List.flatMap _ (State.toList (List.foldl _ _ (Sha2.sha512.blocks (rest ++ _))))
    rw [hBlocks]
    rfl
  · have hShort : rest.length + 1 + 16 ≤ 128 := by omega
    have hBlocks : Sha2.sha512.blocks (rest ++ Sha2.sha512.padding len) = _ :=
      Sha2.sha512.blocks_of_short hMod hShort
    have hOnly := short_block hShort hLen (Nat.le_refl 8) (by decide) hBlock
    simp only [hFull, if_false]
    rw [sha512Transform_block _ (length_buffer _ _), ← hOnly]
    show _ = List.flatMap _ (State.toList (List.foldl _ _ (Sha2.sha512.blocks (rest ++ _))))
    rw [hBlocks]
    rfl
end Sha512

section Sha256

theorem hash160Sha256K_eq : Sha2.sha256.constants = hash160Sha256K := by
  have hRoots : (Sha2.primes.take 64).map (fun p => UInt32.ofNat (Sha2.rootBits 3 32 p)) =
      (hash160Sha256K.map UInt32.toNat).map UInt32.ofNat := by
    rw [Sha2.primes_eq]
    exact map_rootBits rfl (by decide)
  rw [List.map_map] at hRoots
  exact hRoots.trans ((List.map_congr_left fun k _ => UInt32.ofNat_toNat).trans (List.map_id _))

theorem hash160Sha256Initial_eq : Sha2.sha256.initial = hash160Sha256Initial := by
  have hWords : Sha2.sha256.initial.toList = hash160Sha256Initial.toList := by decide
  exact State.toList_inj hWords

theorem ofBytes_eq32 (b0 b1 b2 b3 : UInt8) :
    Sha2.sha256.ofBytes [b0, b1, b2, b3] =
      b0.toUInt32 <<< 24 ||| b1.toUInt32 <<< 16 ||| b2.toUInt32 <<< 8 ||| b3.toUInt32 := by
  have hShift : ∀ (x : UInt32) (n : UInt32), n.toNat + 8 < 32 → x <<< n <<< 8 = x <<< (n + 8) :=
    fun x n hn => (UInt32.shiftLeft_add_of_toNat_lt hn).symm
  simp only [Sha2.sha256, List.foldl_cons, List.foldl_nil, UInt32.zero_shiftLeft, UInt32.zero_or,
    UInt32.shiftLeft_or]
  simp (disch := decide) only [hShift]
  rfl

theorem hash160Sha256Load_eq {block : List UInt8} (h : block.length = 64) :
    hash160Sha256Load block = Sha2.sha256.words block := by
  unfold hash160Sha256Load Sha2.Family.words
  refine List.map_congr_left fun i hi => ?_
  have hi := List.mem_range.mp hi
  have hBytes : (block.drop (4 * i)).take 4 = (List.range 4).map fun j => block.getD (i * 4 + j) 0 := by
    rw [map_getD_eq_take_drop (by omega), Nat.mul_comm]
  show _ = Sha2.sha256.ofBytes ((block.drop (4 * i)).take 4)
  rw [hBytes]
  exact (ofBytes_eq32 _ _ _ _).symm

/-- The device adds the four words in another order. -/
theorem hash160Sha256Extend_eq : hash160Sha256Extend = Sha2.sha256.next := by
  funext w i
  have hOrder : ∀ a b c d : UInt32, a + b + c + d = d + c + b + a := fun a b c d => by ac_rfl
  exact congrArg (fun x => w ++ [x]) (hOrder _ _ _ _)

theorem hash160Sha256Transform_eq (state : State UInt32) {block : List UInt8}
    (h : block.length = 64) :
    hash160Sha256Transform state block = Sha2.sha256.compress state block := by
  have hRounds := Sha2.sha256.rounds_eq_range state (n := 64) (k := hash160Sha256K) rfl
    (Sha2.sha256.length_schedule block 48)
  rw [Sha2.Family.schedule_eq_foldl, ← hash160Sha256Load_eq h, ← hash160Sha256Extend_eq] at hRounds
  unfold Sha2.Family.compress
  rw [hash160Sha256K_eq, show hash160Sha256K.length - 16 = 48 from rfl,
    Sha2.Family.schedule_eq_foldl, ← hash160Sha256Load_eq h, ← hash160Sha256Extend_eq]
  simp only [hRounds]
  rfl

theorem hash160Sha256Store_eq (x : UInt32) : hash160Sha256Store x = Sha2.sha256.toBytes x := by
  have hByte : ∀ y : UInt32, (y &&& 0xff).toUInt8 = y.toUInt8 := by
    intro y
    refine UInt8.toNat_inj.mp ?_
    have hMask : (y &&& 0xff).toNat = y.toNat % 2 ^ 8 :=
      (UInt32.toNat_and y 0xff).trans (Nat.and_two_pow_sub_one_eq_mod y.toNat 8)
    rw [UInt32.toNat_toUInt8, UInt32.toNat_toUInt8, hMask, Nat.mod_mod]
  simp only [hash160Sha256Store, hByte]
  rfl

theorem hash160Sha256Bytes_eq {msg : List UInt8} (hLen : msg.length < 56) :
    hash160Sha256Bytes msg msg.length = Sha2.sha256.digest msg := by
  have hShort : msg.length + 1 + 8 ≤ 64 := by omega
  have hBlocks : Sha2.sha256.blocks (msg ++ Sha2.sha256.padding msg.length) = _ :=
    Sha2.sha256.blocks_of_short (Nat.mod_eq_of_lt (show msg.length < 64 by omega)).symm hShort
  have hBits : 8 * msg.length < 256 ^ 4 := by omega
  -- the block, in the order in which the bytes are told apart
  have hOnly : msg ++ 0x80 :: (List.replicate (64 - (msg.length + 1 + 8)) 0 ++
      Sha2.bigEndian 8 (8 * msg.length)) = buffer 64 fun i =>
        if 60 ≤ i then ((UInt64.ofNat msg.length * 8) >>> UInt64.ofNat (8 * (63 - i))).toUInt8
        else if i = msg.length then 0x80 else if i < msg.length then msg.getD i 0 else 0 := by
    let block := buffer 64 fun i =>
      if i < msg.length then msg.getD i 0 else if i = msg.length then 0x80 else 0
    have hGet : ∀ i < 64, block.getD i 0 = if i < msg.length then msg.getD i 0 else
        if i = msg.length then 0x80 else 0 := fun i hi => getD_buffer hi
    have hBlock := short_block hShort hBits (by decide) (by decide) hGet
    refine hBlock.trans (List.map_congr_left fun i hi => ?_)
    have hi := List.mem_range.mp hi
    by_cases hBytes : 60 ≤ i
    · rw [if_neg (by omega), if_pos hBytes]
    · rw [if_pos (by omega), if_neg hBytes, getD_buffer hi]
      by_cases hEnd : i = msg.length
      · rw [if_neg (by omega), if_pos hEnd, if_pos hEnd]
      · rw [if_neg hEnd, if_neg hEnd]
  have hWhole : msg.length / 64 = 0 := by omega
  have hStore : hash160Sha256Store = Sha2.sha256.toBytes := funext hash160Sha256Store_eq
  rw [Sha2.sha256.digest_of_blocks msg (by decide), show Sha2.sha256.blockSize = 64 from rfl, hWhole,
    Nat.mul_zero, List.drop_zero, hBlocks]
  unfold hash160Sha256Bytes
  dsimp only
  rw [hStore, ← hOnly, hash160Sha256Transform_eq _ (by simp; omega), ← hash160Sha256Initial_eq]
  rfl

end Sha256

/-! ### HMAC -/

theorem length_digest512 (msg : List UInt8) : (Sha2.sha512.digest msg).length = 64 := rfl

theorem map_xor_eq_buffer {l : List UInt8} {size : Nat} (h : l.length = size) (b : UInt8) :
    l.map (· ^^^ b) = buffer size fun i => l.getD i 0 ^^^ b := by
  refine eq_buffer (by rw [List.length_map, h]) fun i hi => ?_
  rw [List.getD_eq_getElem _ _ (by rw [List.length_map]; omega), List.getElem_map,
    List.getD_eq_getElem _ _ (by omega)]

/-- One array behind another one, in a buffer that may be larger. -/
theorem take_buffer_append {l l' : List UInt8} {size : Nat} (h : l.length + l'.length ≤ size) :
    (buffer size fun i => if i < l.length then l.getD i 0 else
      if i - l.length < l'.length then l'.getD (i - l.length) 0 else 0).take (l.length + l'.length) =
      l ++ l' := by
  unfold buffer
  rw [← List.map_take, List.take_range, Nat.min_eq_left h]
  refine (eq_buffer (List.length_append) fun i hi => ?_).symm
  rw [getD_append]
  split
  · rfl
  · rw [if_pos (by omega)]

theorem buffer_congr {size : Nat} {f g : Nat → UInt8} (h : ∀ i < size, f i = g i) :
    buffer size f = buffer size g :=
  List.map_congr_left fun i hi => h i (List.mem_range.mp hi)

theorem getD_take {l : List UInt8} {n i : Nat} (h : i < n) : (l.take n).getD i 0 = l.getD i 0 := by
  rw [List.getD_eq_getElem?_getD, List.getD_eq_getElem?_getD, List.getElem?_take_of_lt h]

/-- The key in its block, as it is or as its hash. -/
theorem hmac_key_eq {key : List UInt8} {keyLen : Nat} (hLe : keyLen ≤ key.length)
    (hKey : 8 * keyLen < 2 ^ 64) {short : List UInt8}
    (hShort : short = if 128 < keyLen then Sha2.sha512.digest (key.take keyLen) else key.take keyLen) :
    (buffer 128 fun i => if i < (if 128 < keyLen then 64 else keyLen) then
      (if 128 < keyLen then sha512Bytes key keyLen else key).getD i 0 else 0) =
      short ++ List.replicate (128 - short.length) 0 := by
  have hTake : (key.take keyLen).length = keyLen := by rw [List.length_take, Nat.min_eq_left hLe]
  by_cases hLong : 128 < keyLen
  · rw [if_pos hLong] at hShort
    simp only [if_pos hLong, sha512Bytes_eq hLe hKey, ← hShort]
    have hLength : short.length = 64 := by rw [hShort, length_digest512]
    refine (eq_buffer (by simp [hLength]) fun i _ => ?_).symm
    rw [getD_append, getD_replicate_zero, hLength]
  · rw [if_neg hLong] at hShort
    simp only [if_neg hLong]
    have hLength : short.length = keyLen := by rw [hShort, hTake]
    refine (eq_buffer (by simp [hLength]; omega) fun i _ => ?_).symm
    rw [getD_append, getD_replicate_zero, hLength, hShort]
    split
    · next hi => exact getD_take hi
    · rfl

/-- HMAC of the first parts of two arrays, for a text that fits into the buffer of the device. -/
theorem hmacSha512Device_eq {key data : List UInt8} {keyLen dataLen : Nat}
    (hKeyLe : keyLen ≤ key.length) (hKey : 8 * keyLen < 2 ^ 64) (hDataLe : dataLen ≤ data.length)
    (hData : dataLen ≤ 256) :
    hmacSha512Device key keyLen data dataLen =
      Sha2.hmac Sha2.sha512.digest 128 (key.take keyLen) (data.take dataLen) := by
  have hKeyTake : (key.take keyLen).length = keyLen := by
    rw [List.length_take, Nat.min_eq_left hKeyLe]
  have hDataTake : (data.take dataLen).length = dataLen := by
    rw [List.length_take, Nat.min_eq_left hDataLe]
  let short := if 128 < keyLen then Sha2.sha512.digest (key.take keyLen) else key.take keyLen
  have hShort : short.length ≤ 128 := by
    unfold short
    split
    · rw [length_digest512]
      decide
    · omega
  let padded := short ++ List.replicate (128 - short.length) 0
  have hPadded : padded.length = 128 := by
    simp only [padded, List.length_append, List.length_replicate]
    omega
  -- the inner and the outer hash
  let iKeyPad := padded.map (· ^^^ 0x36)
  let oKeyPad := padded.map (· ^^^ 0x5c)
  have hIKeyPad : iKeyPad.length = 128 := (List.length_map _).trans hPadded
  have hOKeyPad : oKeyPad.length = 128 := (List.length_map _).trans hPadded
  have hBuffer : (buffer (128 + 256) fun i => if i < 128 then iKeyPad.getD i 0 else
      if i - 128 < dataLen then data.getD (i - 128) 0 else 0) =
      buffer (128 + 256) fun i => if i < iKeyPad.length then iKeyPad.getD i 0 else
        if i - iKeyPad.length < (data.take dataLen).length then
          (data.take dataLen).getD (i - iKeyPad.length) 0 else 0 := by
    rw [hIKeyPad, hDataTake]
    refine buffer_congr fun i _ => ?_
    split
    · rfl
    · split
      · next hi => rw [getD_take hi]
      · rfl
  have hInner : sha512Bytes (buffer (128 + 256) fun i => if i < 128 then iKeyPad.getD i 0 else
      if i - 128 < dataLen then data.getD (i - 128) 0 else 0) (128 + dataLen) =
      Sha2.sha512.digest (iKeyPad ++ data.take dataLen) := by
    have hSum : 128 + dataLen = iKeyPad.length + (data.take dataLen).length := by
      rw [hIKeyPad, hDataTake]
    rw [sha512Bytes_eq (by rw [length_buffer]; omega) (by omega), hBuffer, hSum,
      take_buffer_append (by omega)]
  have hOuter : ∀ hash : List UInt8, hash.length = 64 → (buffer (128 + 64) fun i => if i < 128 then
      oKeyPad.getD i 0 else hash.getD (i - 128) 0) = oKeyPad ++ hash := by
    intro hash hHash
    refine (eq_buffer (by rw [List.length_append, hOKeyPad, hHash]) fun i hi => ?_).symm
    rw [getD_append, hOKeyPad]
  unfold hmacSha512Device
  dsimp only
  rw [hmac_key_eq hKeyLe hKey (show short = _ from rfl), ← map_xor_eq_buffer hPadded,
    ← map_xor_eq_buffer hPadded]
  change sha512Bytes (buffer (128 + 64) fun i => if i < 128 then oKeyPad.getD i 0 else
    (sha512Bytes (buffer (128 + 256) fun i => if i < 128 then iKeyPad.getD i 0 else
      if i - 128 < dataLen then data.getD (i - 128) 0 else 0) (128 + dataLen)).getD
        (i - 128) 0) 192 = _
  have hLength : (oKeyPad ++ Sha2.sha512.digest (iKeyPad ++ data.take dataLen)).length = 192 := by
    rw [List.length_append, hOKeyPad, length_digest512]
  have hHmac : Sha2.hmac Sha2.sha512.digest 128 (key.take keyLen) (data.take dataLen) =
      Sha2.sha512.digest (oKeyPad ++ Sha2.sha512.digest (iKeyPad ++ data.take dataLen)) := by
    unfold Sha2.hmac
    dsimp only
    rw [hKeyTake]
  rw [hInner, hOuter _ (length_digest512 _), sha512Bytes_eq (Nat.le_of_eq hLength.symm) (by decide),
    List.take_of_length_le (Nat.le_of_eq hLength), hHmac]

end Bloodhound.Scanner
