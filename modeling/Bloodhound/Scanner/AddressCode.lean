import Bloodhound.Lib.Radix
import Bloodhound.Scanner.HostSeed

/-!
# Addresses

`address_encode.cpp` and `address_decode.cpp`: Base58Check, Bech32 for witness version zero, and the lookup
key of an address, which is a script family and a hash of 20 bytes. Vectors of digits are lists of numbers.

Whatever key the text of a key decodes to, it is that key again (`addressToLookupKey_encodeKey`).
-/

namespace Bloodhound.Scanner

open Radix

/-- The bytes of a literal. -/
def ascii (s : String) : Bytes := s.toList.map fun c => UInt8.ofNat c.toNat

inductive ScriptFamily
  | bip84
  | bip49
  | bip44
  deriving DecidableEq

/-! ## Base58 -/

def base58Alphabet : Bytes := ascii "123456789ABCDEFGHJKLMNPQRSTUVWXYZabcdefghijkmnopqrstuvwxyz"

/-- `strchr` also finds the end mark of the alphabet. -/
def base58Index (c : UInt8) : Option Nat := (base58Alphabet ++ [0]).idxOf? c

def base58Encode (data : Bytes) : Bytes :=
  (toRadix 58 256 (data.map UInt8.toNat)).map fun d => base58Alphabet.getD d 0

def base58Decode (input : Bytes) : Option Bytes :=
  (input.mapM base58Index).map fun digits => (toRadix 256 58 digits).map UInt8.ofNat

def base58checkEncode (payload : Bytes) : Bytes := base58Encode (payload ++ (sha256d payload).take 4)

def base58checkDecode (input : Bytes) : Option Bytes :=
  (base58Decode input).bind fun raw =>
    let payload := raw.take (raw.length - 4)
    if raw.length < 5 ∨ raw.drop (raw.length - 4) ≠ (sha256d payload).take 4 then none else some payload

/-! ## Bech32 -/

def bech32Charset : Bytes := ascii "qpzry9x8gf2tvdw0s3jn54khce6mua7l"

def toLower (c : UInt8) : UInt8 := if 65 ≤ c ∧ c ≤ 90 then c + 32 else c

def bech32CharsetIndex (c : UInt8) : Option Nat := bech32Charset.idxOf? (toLower c)

def bech32Generators : List UInt32 := [0x3b6a57b2, 0x26508e6d, 0x1ea119fa, 0x3d4233dd, 0x2a1462b3]

def bech32Polymod (values : List Nat) : UInt32 :=
  values.foldl (fun chk value =>
    let top := chk >>> 25
    (List.range 5).foldl
      (fun (chk : UInt32) i =>
        if (top >>> UInt32.ofNat i) &&& 1 ≠ 0 then chk ^^^ bech32Generators.getD i 0 else chk)
      (((chk &&& 0x1ffffff) <<< 5) ^^^ UInt32.ofNat value)) 1

/-- The characters of the human readable part are signed. -/
def bech32HrpValues (hrp : Bytes) : List Nat :=
  hrp.map (fun c => (c.toInt8 >>> (5 : Int8)).toUInt8.toNat) ++ 0 :: hrp.map fun c => (c &&& 31).toNat

def bech32Encode (hrp : Bytes) (data : List Nat) : Bytes :=
  let chk := bech32Polymod (bech32HrpValues hrp ++ data ++ List.replicate 6 0) ^^^ 1
  hrp ++ 49 :: (data.map fun v => bech32Charset.getD v 0) ++
    (List.range 6).map fun i => bech32Charset.getD ((chk >>> UInt32.ofNat (5 * (5 - i))) &&& 31).toNat 0

/-- The part behind the last `1`; nothing where there is none. -/
def afterLastOne (addr : Bytes) : Option Bytes :=
  if 49 ∈ addr then some (addr.reverse.takeWhile (· ≠ 49)).reverse else none

def bech32Decode (addr : Bytes) : Option (Bytes × List Nat) :=
  (afterLastOne addr).bind fun behind =>
    if behind.length < 6 then none
    else (behind.mapM bech32CharsetIndex).bind fun data =>
      let hrp := addr.take (addr.length - behind.length - 1)
      if data.length < 6 ∨ bech32Polymod (bech32HrpValues hrp ++ data) ≠ 1 then none
      else some (hrp, data.take (data.length - 6))

/-! ## Groups of bits -/

/-- The `while` loop of `convert_bits`: it runs `bits / tobits` times. -/
def drainBits (tobits acc bits : Nat) (out : List Nat) : Nat × List Nat :=
  (List.range (bits / tobits)).foldl
    (fun s _ => (s.1 - tobits, s.2 ++ [(acc >>> (s.1 - tobits)) &&& (2 ^ tobits - 1)])) (bits, out)

structure BitGroups where
  acc : Nat
  bits : Nat
  out : List Nat

/-- Only the lowest twelve bits of the accumulator are read. -/
def BitGroups.push (frombits tobits : Nat) (g : BitGroups) (value : Nat) : BitGroups :=
  let acc := g.acc <<< frombits ||| value
  let drained := drainBits tobits acc (g.bits + frombits) g.out
  ⟨acc, drained.1, drained.2⟩

def convertBits (input : List Nat) (frombits tobits : Nat) (pad : Bool) : List Nat :=
  let g := input.foldl (BitGroups.push frombits tobits) ⟨0, 0, []⟩
  if pad = true ∧ 0 < g.bits then g.out ++ [(g.acc <<< (tobits - g.bits)) &&& (2 ^ tobits - 1)] else g.out

/-- The variant of the decoder, which returns nothing where a value is too large. -/
def convertBitsChecked (input : List Nat) (frombits tobits : Nat) (pad : Bool) : List Nat :=
  if input.all (fun value => value >>> frombits = 0) then convertBits input frombits tobits pad else []

/-! ## Keys -/

def addressToLookupKey (address : Bytes) : Option (ScriptFamily × Bytes) :=
  if (ascii "bc1").isPrefixOf address then
    (bech32Decode address).bind fun decoded =>
      if decoded.1 ≠ ascii "bc" ∨ decoded.2.head? ≠ some 0 then none
      else
        let bytes := convertBitsChecked decoded.2.tail 5 8 false
        if bytes.length ≠ 20 then none else some (.bip84, bytes.map UInt8.ofNat)
  else
    (base58checkDecode address).bind fun payload =>
      if payload.length ≠ 21 then none
      else if payload.head? = some 0 then some (.bip44, payload.tail)
      else if payload.head? = some 5 then some (.bip49, payload.tail)
      else none

/-- The text of a key. -/
def encodeKey : ScriptFamily → Bytes → Bytes
  | .bip84, key => bech32Encode (ascii "bc") (0 :: convertBits (key.map UInt8.toNat) 8 5 true)
  | .bip49, key => base58checkEncode (5 :: key)
  | .bip44, key => base58checkEncode (0 :: key)

/-- The hash functions and the operations on the curve that the host and the device share. -/
structure Primitives where
  ripemd160 : Bytes → Bytes
  pubkey33 : Bytes → Bytes
  length_ripemd160 : ∀ data, (ripemd160 data).length = 20
  length_pubkey33 : ∀ priv, (pubkey33 priv).length = 33

variable (C : Primitives)

def hash160 (data : Bytes) : Bytes := C.ripemd160 (Sha2.sha256.digest data)

def encodeAddress (family : ScriptFamily) (pubkeyHash20 : Bytes) : Bytes :=
  if family = .bip84 then
    bech32Encode (ascii "bc") (0 :: convertBits (pubkeyHash20.map UInt8.toNat) 8 5 true)
  else if family = .bip49 then
    let redeem : Bytes := [0x00, 0x14] ++ pubkeyHash20
    let rh := C.ripemd160 (Sha2.sha256.digest redeem)
    base58checkEncode (0x05 :: rh)
  else base58checkEncode (0x00 :: pubkeyHash20)

/-- The key that the address of a public key stands for. -/
def pubkeyKey (family : ScriptFamily) (pub : Bytes) : Bytes :=
  if family = .bip49 then hash160 C ([0x00, 0x14] ++ hash160 C pub) else hash160 C pub

theorem length_pubkeyKey (family : ScriptFamily) (pub : Bytes) : (pubkeyKey C family pub).length = 20 := by
  unfold pubkeyKey
  split <;> exact C.length_ripemd160 _

theorem encodeAddress_hash160 (family : ScriptFamily) (pub : Bytes) :
    encodeAddress C family (hash160 C pub) = encodeKey family (pubkeyKey C family pub) := by
  cases family <;> rfl

/-! ## Regrouped bits -/

section Groups

variable {f t : Nat}

/-- Bits of a stream: written groups and the lowest bits of the accumulator. -/
def heldBits (t acc : Nat) (s : Nat × List Nat) : Nat := number (2 ^ t) s.2 * 2 ^ s.1 + acc % 2 ^ s.1

theorem heldBits_drain (acc : Nat) {bits : Nat} (out : List Nat) (h : t ≤ bits) :
    heldBits t acc (bits - t, out ++ [(acc >>> (bits - t)) &&& (2 ^ t - 1)]) = heldBits t acc (bits, out) := by
  obtain ⟨b, rfl⟩ := Nat.exists_eq_add_of_le' h
  unfold heldBits
  rw [Nat.add_sub_cancel, number_concat, Nat.and_two_pow_sub_one_eq_mod, Nat.shiftRight_eq_div_pow,
    Nat.pow_add, Nat.mod_mul]
  ring

theorem drainBits_spec (acc bits : Nat) {out : List Nat} (hOut : ∀ d ∈ out, d < 2 ^ t) :
    (drainBits t acc bits out).1 = bits % t ∧
      heldBits t acc (drainBits t acc bits out) = heldBits t acc (bits, out) ∧
      (drainBits t acc bits out).2.length = out.length + bits / t ∧
      ∀ d ∈ (drainBits t acc bits out).2, d < 2 ^ t := by
  have hLoop : ∀ n, n * t ≤ bits →
      let s := (List.range n).foldl
        (fun s _ => (s.1 - t, s.2 ++ [(acc >>> (s.1 - t)) &&& (2 ^ t - 1)])) (bits, out)
      s.1 = bits - n * t ∧ heldBits t acc s = heldBits t acc (bits, out) ∧ s.2.length = out.length + n ∧
        ∀ d ∈ s.2, d < 2 ^ t := by
    intro n
    induction n with
    | zero => simpa using hOut
    | succ n ih =>
      intro hn
      rw [Nat.add_mul, Nat.one_mul] at hn
      obtain ⟨hBits, hHeld, hLength, hDigits⟩ := ih (by omega)
      rw [List.range_succ, List.foldl_append, List.foldl_cons, List.foldl_nil]
      dsimp only
      refine ⟨?_, ?_, ?_, ?_⟩
      · rw [hBits, Nat.add_mul, Nat.one_mul]
        omega
      · rw [heldBits_drain _ _ (by omega), ← hHeld]
      · rw [List.length_append, hLength, List.length_singleton]
        omega
      · intro d hd
        rcases List.mem_append.mp hd with hOld | hNew
        · exact hDigits d hOld
        · rw [List.mem_singleton.mp hNew, Nat.and_two_pow_sub_one_eq_mod]
          exact Nat.mod_lt _ (Nat.two_pow_pos t)
  obtain ⟨hBits, hHeld, hLength, hDigits⟩ := hLoop (bits / t) (Nat.div_mul_le_self bits t)
  refine ⟨?_, hHeld, hLength, hDigits⟩
  unfold drainBits
  rw [hBits, Nat.mul_comm]
  have := Nat.div_add_mod bits t
  omega

/-- The loop has read some values: the groups and the rest of the accumulator hold their bits. -/
structure BitGroups.Holds (f t : Nat) (input : List Nat) (g : BitGroups) : Prop where
  value : heldBits t g.acc (g.bits, g.out) = number (2 ^ f) input
  length : g.out.length * t + g.bits = input.length * f
  less : g.bits < t
  digit : ∀ d ∈ g.out, d < 2 ^ t

theorem BitGroups.Holds.push {input : List Nat} {g : BitGroups} (h : g.Holds f t input) {value : Nat}
    (hValue : value < 2 ^ f) : (g.push f t value).Holds f t (input ++ [value]) := by
  have hPos : 0 < t := Nat.zero_lt_of_lt h.less
  have hAcc : g.acc <<< f ||| value = g.acc * 2 ^ f + value := by
    rw [← Nat.shiftLeft_add_eq_or_of_lt hValue, Nat.shiftLeft_eq]
  obtain ⟨hBits, hHeld, hLength, hDigits⟩ :=
    drainBits_spec (t := t) (g.acc <<< f ||| value) (g.bits + f) h.digit
  have hLow : (g.acc * 2 ^ f + value) % 2 ^ (g.bits + f) = g.acc % 2 ^ g.bits * 2 ^ f + value := by
    rw [Nat.add_comm g.bits f, Nat.pow_add, Nat.mod_mul, Nat.mul_comm g.acc, Nat.mul_add_mod,
      Nat.mod_eq_of_lt hValue, Nat.mul_add_div (Nat.two_pow_pos f), Nat.div_eq_of_lt hValue, Nat.add_zero]
    ring
  constructor
  · unfold BitGroups.push
    dsimp only
    rw [hHeld, number_concat, ← h.value]
    unfold heldBits
    dsimp only
    rw [hAcc, hLow]
    ring
  · unfold BitGroups.push
    dsimp only
    rw [hLength, hBits, List.length_append, List.length_singleton, Nat.add_mul, Nat.add_mul, ← h.length]
    have := Nat.div_add_mod (g.bits + f) t
    rw [Nat.mul_comm] at this
    omega
  · unfold BitGroups.push
    dsimp only
    rw [hBits]
    exact Nat.mod_lt _ hPos
  · exact hDigits

theorem convertBits_holds (ht : 0 < t) {input : List Nat} (h : ∀ d ∈ input, d < 2 ^ f) :
    (input.foldl (BitGroups.push f t) ⟨0, 0, []⟩).Holds f t input := by
  induction input using List.reverseRecOn with
  | nil => exact ⟨by simp [heldBits], by simp, ht, by simp⟩
  | append_singleton input d ih =>
    rw [List.foldl_append, List.foldl_cons, List.foldl_nil]
    exact (ih fun e he => h e (List.mem_append_left _ he)).push (h d (by simp))

/-- Groups that take up all bits hold the same number. -/
theorem convertBits_whole (ht : 0 < t) {input : List Nat} (h : ∀ d ∈ input, d < 2 ^ f)
    (hWhole : t ∣ input.length * f) (pad : Bool) :
    number (2 ^ t) (convertBits input f t pad) = number (2 ^ f) input ∧
      (convertBits input f t pad).length * t = input.length * f ∧
      ∀ d ∈ convertBits input f t pad, d < 2 ^ t := by
  have hHolds := convertBits_holds ht h
  have hBits : (input.foldl (BitGroups.push f t) ⟨0, 0, []⟩).bits = 0 := by
    have hLess := hHolds.less
    have hDvd := hHolds.length ▸ hWhole
    exact Nat.eq_zero_of_dvd_of_lt ((Nat.dvd_add_right (Nat.dvd_mul_left _ _)).mp hDvd) hLess
  have hValue := hHolds.value
  have hLength := hHolds.length
  unfold heldBits at hValue
  rw [hBits, Nat.pow_zero, Nat.mul_one, Nat.mod_one, Nat.add_zero] at hValue
  rw [hBits, Nat.add_zero] at hLength
  have hOut : convertBits input f t pad = (input.foldl (BitGroups.push f t) ⟨0, 0, []⟩).out := by
    unfold convertBits
    dsimp only
    rw [hBits, if_neg (fun hPad => Nat.lt_irrefl 0 hPad.2)]
  rw [hOut]
  exact ⟨hValue, hLength, hHolds.digit⟩

end Groups

/-! ## Reading what was written -/

theorem mapM_of_index {enc : Nat → UInt8} {dec : UInt8 → Option Nat} {n : Nat}
    (h : ∀ d < n, dec (enc d) = some d) {l : List Nat} (hl : ∀ d ∈ l, d < n) : (l.map enc).mapM dec = some l := by
  induction l with
  | nil => rfl
  | cons d l ih =>
    rw [List.map_cons, List.mapM_cons, h d (hl d List.mem_cons_self),
      ih fun e he => hl e (List.mem_cons_of_mem _ he)]
    rfl

theorem toNat_lt_of_mem {data : Bytes} {d : Nat} (h : d ∈ data.map UInt8.toNat) : d < 256 := by
  obtain ⟨c, -, rfl⟩ := List.mem_map.mp h
  exact c.toNat_lt

theorem base58Index_getD : ∀ d < 58, base58Index (base58Alphabet.getD d 0) = some d := by decide

theorem base58Decode_encode {data raw : Bytes} (h : base58Decode (base58Encode data) = some raw) :
    raw = data ∨ raw.length = data.length + 2 := by
  have hDigits : ∀ d ∈ toRadix 58 256 (data.map UInt8.toNat), d < 58 := fun d hd =>
    lt_of_mem_toRadix (by decide) (by decide) hd
  unfold base58Decode base58Encode at h
  rw [mapM_of_index base58Index_getD hDigits, Option.map_some] at h
  cases h
  rcases toRadix_toRadix (b := 58) (by decide) (by decide) (l := data.map UInt8.toNat)
    (fun d => toNat_lt_of_mem) with hSame | hLength
  · left
    rw [hSame, List.map_map]
    exact (List.map_congr_left fun c _ => UInt8.ofNat_toNat).trans (List.map_id data)
  · right
    rw [List.length_map, hLength, List.length_map]

theorem base58checkDecode_encode {payload found : Bytes}
    (h : base58checkDecode (base58checkEncode payload) = some found) :
    found = payload ∨ found.length = payload.length + 2 := by
  obtain ⟨raw, hRaw, hCheck⟩ := Option.bind_eq_some_iff.mp h
  dsimp only at hCheck
  split at hCheck
  · cases hCheck
  · cases hCheck
    have hSum : ((sha256d payload).take 4).length = 4 := by rw [List.length_take, length_sha256d]; rfl
    rcases base58Decode_encode hRaw with rfl | hLength
    · left
      rw [List.length_append, hSum, Nat.add_sub_cancel, List.take_left]
    · right
      rw [List.length_append, hSum] at hLength
      rw [List.length_take, hLength]
      omega

theorem bech32CharsetIndex_getD : ∀ d < 32, bech32CharsetIndex (bech32Charset.getD d 0) = some d := by
  decide

theorem bech32Charset_ne_one : ∀ d < 32, bech32Charset.getD d 0 ≠ 49 := by decide

theorem afterLastOne_append (hrp : Bytes) {behind : Bytes} (h : 49 ∉ behind) :
    afterLastOne (hrp ++ 49 :: behind) = some behind := by
  have hTake : ((hrp ++ 49 :: behind).reverse.takeWhile (· ≠ 49)) = behind.reverse := by
    rw [List.reverse_append, List.reverse_cons, List.append_assoc,
      List.takeWhile_append_of_pos (fun c hc => by
        simpa using fun hOne : c = 49 => h (hOne ▸ List.mem_reverse.mp hc))]
    simp
  unfold afterLastOne
  rw [if_pos (by simp), hTake, List.reverse_reverse]

/-- What is read from the text of a part and some symbols with their checksum. -/
theorem bech32Decode_text (hrp : Bytes) {data sums : List Nat} (hAll : ∀ d ∈ data ++ sums, d < 32)
    (hLength : sums.length = 6) :
    bech32Decode (hrp ++ 49 :: ((data ++ sums).map fun v => bech32Charset.getD v 0)) =
      if bech32Polymod (bech32HrpValues hrp ++ (data ++ sums)) ≠ 1 then none else some (hrp, data) := by
  have hBehind : 49 ∉ (data ++ sums).map fun v => bech32Charset.getD v 0 := by
    intro hMem
    obtain ⟨d, hd, hOne⟩ := List.mem_map.mp hMem
    exact bech32Charset_ne_one d (hAll d hd) hOne
  have hSize : (data ++ sums).length = data.length + 6 := by rw [List.length_append, hLength]
  have hHrp : (hrp ++ 49 :: ((data ++ sums).map fun v => bech32Charset.getD v 0)).length -
      ((data ++ sums).map fun v => bech32Charset.getD v 0).length - 1 = hrp.length := by
    rw [List.length_append, List.length_cons]
    omega
  unfold bech32Decode
  rw [afterLastOne_append _ hBehind, Option.bind_some, if_neg (by rw [List.length_map, hSize]; omega),
    mapM_of_index bech32CharsetIndex_getD hAll, Option.bind_some, hHrp, List.take_left, hSize,
    Nat.add_sub_cancel, List.take_left]
  dsimp only
  simp only [show ¬ data.length + 6 < 6 by omega, false_or]

/-- The six symbols of a checksum. -/
def checksumSymbols (chk : UInt32) (n : Nat) : List Nat :=
  (List.range n).map fun i => ((chk >>> UInt32.ofNat (5 * (5 - i))) &&& 31).toNat

theorem checksumSymbols_lt {chk : UInt32} {n d : Nat} (h : d ∈ checksumSymbols chk n) : d < 32 := by
  obtain ⟨i, -, rfl⟩ := List.mem_map.mp h
  rw [UInt32.toNat_and]
  exact Nat.lt_of_le_of_lt Nat.and_le_right (by decide)

theorem length_checksumSymbols (chk : UInt32) (n : Nat) : (checksumSymbols chk n).length = n := by
  rw [checksumSymbols, List.length_map, List.length_range]

/-- The checksum that `bech32_encode` writes. -/
def bech32Sums (hrp : Bytes) (data : List Nat) : List Nat :=
  checksumSymbols (bech32Polymod (bech32HrpValues hrp ++ data ++ List.replicate 6 0) ^^^ 1) 6

theorem bech32Encode_eq (hrp : Bytes) (data : List Nat) :
    bech32Encode hrp data = hrp ++ 49 :: ((data ++ bech32Sums hrp data).map fun v => bech32Charset.getD v 0) := by
  unfold bech32Encode
  dsimp only
  rw [List.map_append, bech32Sums, checksumSymbols, List.map_map, List.append_assoc hrp, List.cons_append]
  rfl

theorem lt_of_mem_sums (hrp : Bytes) {data : List Nat} (hData : ∀ d ∈ data, d < 32) :
    ∀ d ∈ data ++ bech32Sums hrp data, d < 32 := by
  intro d hd
  rcases List.mem_append.mp hd with hLeft | hRight
  · exact hData d hLeft
  · exact checksumSymbols_lt hRight

/-- What is read from the text of a part and some symbols, when it is accepted. -/
theorem bech32Decode_encode {hrp : Bytes} {data : List Nat} (hData : ∀ d ∈ data, d < 32)
    {decoded : Bytes × List Nat} (h : bech32Decode (bech32Encode hrp data) = some decoded) :
    decoded = (hrp, data) := by
  rw [bech32Encode_eq, bech32Decode_text hrp (lt_of_mem_sums hrp hData) (length_checksumSymbols _ 6)] at h
  split at h
  · cases h
  · exact (Option.some.inj h).symm

theorem isPrefixOf_append (p l : Bytes) : p.isPrefixOf (p ++ l) = true :=
  List.isPrefixOf_iff_prefix.mpr (List.prefix_append p l)

theorem convertBits_of_key {key : Bytes} (hKey : key.length = 20) :
    (∀ d ∈ convertBits (key.map UInt8.toNat) 8 5 true, d < 32) ∧
      convertBitsChecked (convertBits (key.map UInt8.toNat) 8 5 true) 5 8 false = key.map UInt8.toNat := by
  have hBytes : ∀ d ∈ key.map UInt8.toNat, d < 2 ^ 8 := fun d => toNat_lt_of_mem
  have hLength : (key.map UInt8.toNat).length * 8 = 160 := by rw [List.length_map, hKey]
  obtain ⟨hValue, hGroups, hDigits⟩ := convertBits_whole (f := 8) (t := 5) (by decide) hBytes
    (by rw [hLength]; decide) true
  obtain ⟨hValue', hGroups', hDigits'⟩ := convertBits_whole (f := 5) (t := 8) (by decide) hDigits
    (by rw [hGroups, hLength]; decide) false
  refine ⟨hDigits, ?_⟩
  have hAll : (convertBits (key.map UInt8.toNat) 8 5 true).all fun value => value >>> 5 = 0 := by
    apply List.all_eq_true.mpr
    intro d hd
    have : d / 32 = 0 := Nat.div_eq_of_lt (hDigits d hd)
    simpa [Nat.shiftRight_eq_div_pow] using this
  rw [convertBitsChecked, if_pos hAll]
  apply number_inj (b := 2 ^ 8) (by decide) (by omega) hDigits' hBytes
  rw [hValue', hValue]

theorem length_of_mapM {α β : Type} {f : α → Option β} {l : List α} {found : List β}
    (h : l.mapM f = some found) : found.length = l.length := by
  induction l generalizing found with
  | nil =>
    cases h
    rfl
  | cons a l ih =>
    rw [List.mapM_cons] at h
    obtain ⟨b, -, hRest⟩ := Option.bind_eq_some_iff.mp h
    obtain ⟨rest, hTail, hEnd⟩ := Option.bind_eq_some_iff.mp hRest
    cases hEnd
    rw [List.length_cons, List.length_cons, ih hTail]

theorem length_of_convertBitsChecked {input : List Nat} (h : (convertBitsChecked input 5 8 false).length = 20) :
    32 ≤ input.length := by
  unfold convertBitsChecked at h
  split at h
  · next hAll =>
    have hDigits : ∀ d ∈ input, d < 2 ^ 5 := by
      intro d hd
      have hShift : d >>> 5 = 0 := by simpa using List.all_eq_true.mp hAll d hd
      rw [Nat.shiftRight_eq_div_pow] at hShift
      omega
    have hLength := (convertBits_holds (t := 8) (by decide) hDigits).length
    have hOut : (input.foldl (BitGroups.push 5 8) ⟨0, 0, []⟩).out.length = 20 := by
      simpa [convertBits] using h
    omega
  · cases h

/-- An address that is read as Bech32 is longer than a Base58 text of 25 bytes without zeros in front. -/
theorem length_of_bech32 {address : Bytes} {found : ScriptFamily × Bytes}
    (hPre : (ascii "bc1").isPrefixOf address = true) (h : addressToLookupKey address = some found) :
    36 ≤ address.length := by
  unfold addressToLookupKey at h
  rw [if_pos hPre] at h
  obtain ⟨decoded, hDecode, hKey⟩ := Option.bind_eq_some_iff.mp h
  obtain ⟨behind, hBehind, hRest⟩ := Option.bind_eq_some_iff.mp hDecode
  have hLe : behind.length ≤ address.length := by
    unfold afterLastOne at hBehind
    split at hBehind
    · cases hBehind
      have hReverse : address.reverse.length = address.length := List.length_reverse
      rw [List.length_reverse, ← hReverse]
      exact (List.takeWhile_prefix _).length_le
    · cases hBehind
  split at hRest
  · cases hRest
  · obtain ⟨data, hData, hEnd⟩ := Option.bind_eq_some_iff.mp hRest
    dsimp only at hEnd
    split at hEnd
    · cases hEnd
    · cases hEnd
      dsimp only at hKey
      split at hKey
      · cases hKey
      · split at hKey
        · cases hKey
        · next hBytes =>
          have hSymbols := length_of_convertBitsChecked (not_not.mp hBytes)
          rw [List.length_tail, List.length_take] at hSymbols
          have := length_of_mapM hData
          omega

/-- The text of 21 bytes is read as these bytes or not at all. -/
theorem base58check_key {version : UInt8} {key payload : Bytes} (hKey : key.length = 20)
    (h : base58checkDecode (base58checkEncode (version :: key)) = some payload) (hLength : payload.length = 21) :
    payload = version :: key := by
  rcases base58checkDecode_encode h with hSame | hLonger
  · exact hSame
  · rw [hLength, List.length_cons, hKey] at hLonger
    omega

/-- A Base58 text is not read as Bech32. -/
theorem not_bech32_of_base58 {version : UInt8} {key : Bytes} (hKey : key.length = 20)
    (hVersion : version = 0 ∨ version = 5) {found : ScriptFamily × Bytes}
    (h : addressToLookupKey (base58checkEncode (version :: key)) = some found) :
    (ascii "bc1").isPrefixOf (base58checkEncode (version :: key)) = false := by
  apply Bool.eq_false_iff.mpr
  intro hPre
  have hLong := length_of_bech32 hPre h
  rcases hVersion with rfl | rfl
  · have hFirst : (base58checkEncode (0 :: key)).head? = some 49 := rfl
    obtain ⟨rest, hRest⟩ := List.isPrefixOf_iff_prefix.mp hPre
    rw [← hRest] at hFirst
    have hLetter : some (98 : UInt8) = some 49 := hFirst
    cases hLetter
  · let data : Bytes := 5 :: key ++ (sha256d (5 :: key)).take 4
    have hData : (data.map UInt8.toNat).length = 25 := by
      rw [List.length_map, List.length_append, List.length_cons, hKey, List.length_take, length_sha256d]
      rfl
    have hZeros : leadingZeros (data.map UInt8.toNat) = 0 := rfl
    have hShort := length_toRadix_le (b := 58) (m := 256) (n := 35) (by decide) (by decide)
      (l := data.map UInt8.toNat) (fun d => toNat_lt_of_mem) (by rw [hData]; decide) (by decide)
    have hText : (base58checkEncode (5 :: key)).length = (toRadix 58 256 (data.map UInt8.toNat)).length :=
      List.length_map _
    omega

theorem lookupKey_of_base58 {version : UInt8} {family : ScriptFamily} {key : Bytes} (hKey : key.length = 20)
    (hVersion : version = 0 ∧ family = .bip44 ∨ version = 5 ∧ family = .bip49) {found : ScriptFamily × Bytes}
    (h : addressToLookupKey (base58checkEncode (version :: key)) = some found) : found = (family, key) := by
  have hNot := not_bech32_of_base58 hKey (hVersion.imp And.left And.left) h
  unfold addressToLookupKey at h
  rw [hNot, if_neg Bool.false_ne_true] at h
  obtain ⟨payload, hPayload, hEnd⟩ := Option.bind_eq_some_iff.mp h
  split at hEnd
  · cases hEnd
  · next hLength =>
    rw [base58check_key hKey hPayload (not_not.mp hLength)] at hEnd
    rcases hVersion with ⟨rfl, rfl⟩ | ⟨rfl, rfl⟩ <;> exact (Option.some.inj hEnd).symm

theorem addressToLookupKey_encodeKey {family : ScriptFamily} {key : Bytes} (hKey : key.length = 20)
    {found : ScriptFamily × Bytes} (h : addressToLookupKey (encodeKey family key) = some found) :
    found = (family, key) := by
  cases family with
  | bip84 =>
    obtain ⟨hDigits, hBack⟩ := convertBits_of_key hKey
    have hPre : (ascii "bc1").isPrefixOf (encodeKey .bip84 key) = true := by
      have hText : ascii "bc1" = ascii "bc" ++ [49] := by decide
      unfold encodeKey bech32Encode
      dsimp only
      rw [hText, List.append_assoc (ascii "bc"), List.cons_append, ← List.singleton_append,
        ← List.append_assoc]
      exact isPrefixOf_append _ _
    have hSymbols : ∀ d ∈ 0 :: convertBits (key.map UInt8.toNat) 8 5 true, d < 32 := by
      intro d hd
      rcases List.mem_cons.mp hd with rfl | hd
      · decide
      · exact hDigits d hd
    unfold addressToLookupKey at h
    rw [if_pos hPre] at h
    obtain ⟨decoded, hDecode, hEnd⟩ := Option.bind_eq_some_iff.mp h
    rw [bech32Decode_encode hSymbols hDecode] at hEnd
    dsimp only [List.tail_cons] at hEnd
    rw [hBack] at hEnd
    split at hEnd
    · cases hEnd
    · split at hEnd
      · cases hEnd
      · cases hEnd
        rw [List.map_map]
        congr 1
        exact (List.map_congr_left fun c _ => UInt8.ofNat_toNat).trans (List.map_id key)
  | bip49 => exact lookupKey_of_base58 hKey (.inr ⟨rfl, rfl⟩) h
  | bip44 => exact lookupKey_of_base58 hKey (.inl ⟨rfl, rfl⟩) h

end Bloodhound.Scanner
