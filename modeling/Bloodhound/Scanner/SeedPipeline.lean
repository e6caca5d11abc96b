import Bloodhound.Scanner.DeviceHash
import Bloodhound.Scanner.HostSeed

/-!
# Seeds on the device

`seed_pipeline.cu` and `yasmarang_device.cuh`: the device draws the entropy, builds the mnemonic from a flat
table of words and computes the master key with its own hash functions.

* `loadLines_eq`: the table that the host uploads holds the words, each in nine bytes.
* `entropyToMnemonicDevice_eq`, `pbkdf2HmacSha512Device_eq`: the parts of the pipeline.
* `seedToMasterDevice_eq`: the device computes the master key of the host.
-/

namespace Bloodhound.Scanner

/-! ## The generator -/

structure YasmarangDeviceState where
  pad : UInt32
  n : UInt32
  d : UInt32
  dat : UInt8

def yasmarangDeviceStep (st : YasmarangDeviceState) : UInt32 × YasmarangDeviceState :=
  let pad := st.pad + (st.dat.toUInt32 + st.d * st.n)
  let pad := (pad <<< 3) + (pad >>> 29)
  let n := pad ||| 2
  let d := st.d ^^^ ((pad <<< 31) + (pad >>> 1))
  let dat := st.dat ^^^ (pad.toUInt8 ^^^ (d >>> 8).toUInt8 ^^^ 1)
  (pad ^^^ (d <<< 5) ^^^ (pad >>> 18) ^^^ (dat.toUInt32 <<< 1), { pad, n, d, dat })

def yasmarangMpColdStart (pad : UInt32) : YasmarangDeviceState := ⟨pad, 0, 0, 0⟩

def yasmarangLibnguMk3Init : YasmarangDeviceState := ⟨0x0a8ce26f, 69, 233, 0⟩

/-- The loop of `my_random_bytes_device`, with the bytes written so far. -/
def myRandomBytesDevice (count : Nat) :
    Nat → YasmarangDeviceState → YasmarangDeviceState → UInt32 → Bytes → Option Bytes
  | fuel, mp, lib, last, dest =>
    if dest.length < count then
      match fuel with
      | 0 => none
      | fuel + 1 =>
        let (chip, mp) := yasmarangDeviceStep mp
        if chip = last then myRandomBytesDevice count fuel mp lib last dest
        else
          let (word, lib) := yasmarangDeviceStep lib
          let here := if count - dest.length < 4 then count - dest.length else 4
          myRandomBytesDevice count fuel mp lib chip
            (dest ++ buffer here fun i => ((chip ^^^ word) >>> UInt32.ofNat (8 * i)).toUInt8)
    else some dest

/-! ## The word table -/

def wordCount : Nat := 2048

def wordMaxLen : Nat := 9

structure WordTable where
  flat : Bytes
  lens : List Nat

/-- `memcpy` into an array at an offset. -/
def copyTo (dest : Bytes) (offset : Nat) (bytes : Bytes) : Bytes :=
  dest.take offset ++ (bytes ++ dest.drop (offset + bytes.length))

/-- The loop of `load_bip39_wordlist_host`, with the number of words so far. -/
def loadLines : List Bytes → Nat → WordTable → Except String (Nat × WordTable)
  | [], wi, table => .ok (wi, table)
  | line :: rest, wi, table =>
    if wi < wordCount then
      let line := stripReturn line
      if line = [] then loadLines rest wi table
      else if wordMaxLen ≤ line.length then .error s!"bip39 word too long at index {wi}"
      else
        loadLines rest (wi + 1) ⟨copyTo table.flat (wi * wordMaxLen) line, table.lens.set wi line.length⟩
    else .ok (wi, table)

/-- `load_bip39_wordlist_host`, from the lines of the file. -/
def loadBip39WordlistHost (lines : List Bytes) : Except String WordTable :=
  let table := ⟨List.replicate (wordCount * wordMaxLen) 0, List.replicate wordCount 0⟩
  match loadLines lines 0 table with
  | .error err => .error err
  | .ok (wi, table) =>
    if wi ≠ wordCount then .error s!"bip39 wordlist expected {wordCount} words, got {wi}" else .ok table

/-! ## Mnemonic and master key -/

def sha256dDevice (data : Bytes) (len : Nat) : Bytes :=
  hash160Sha256Bytes (hash160Sha256Bytes data len) 32

/-- The output array up to its end mark, and the length without the mark. -/
def entropyToMnemonicDevice (entropy words : Bytes) (wordLens : List Nat) : Bytes × Nat :=
  let hash := hash160Sha256Bytes entropy 32
  let bits : List Bool := (List.range 264).map fun i =>
    if i < 256 then entropy.getD (i / 8) 0 >>> UInt8.ofNat (7 - i % 8) &&& 1 ≠ 0
    else hash.getD 0 0 >>> UInt8.ofNat (7 - (i - 256)) &&& 1 ≠ 0
  let out := (List.range 24).foldl (fun (out : Bytes) w =>
    let out := if 0 < w then out ++ [32] else out
    let idx := (List.range 11).foldl (fun (idx : UInt32) (j : Nat) =>
      (idx <<< 1) ||| (if bits.getD (w * 11 + j) false then 1 else 0)) 0
    let word := (idx * UInt32.ofNat wordMaxLen).toNat
    out ++ buffer (wordLens.getD idx.toNat 0) fun c => words.getD (word + c) 0) []
  (out ++ [0], out.length)

/-- `U` is read and written by the same call, which copies it first. -/
def pbkdf2HmacSha512Device (password : Bytes) (passLen : Nat) (salt : Bytes) (saltLen iterations : Nat) :
    Bytes :=
  let saltBlock := buffer (saltLen + 4) fun i =>
    if i < saltLen then salt.getD i 0 else if i = saltLen + 3 then 1 else 0
  let U := hmacSha512Device password passLen saltBlock (saltLen + 4)
  ((List.range (iterations - 1)).foldl (fun (s : Bytes × Bytes) _ =>
    let U := hmacSha512Device password passLen s.1 64
    (U, buffer 64 fun i => s.2.getD i 0 ^^^ U.getD i 0)) (U, U)).2

def bip32MasterDevice (bip39Seed64 : Bytes) : Bip32Key :=
  let mac := hmacSha512Device bitcoinSeed 12 bip39Seed64 64
  ⟨mac.take 32, (mac.drop 32).take 32⟩

/-- The bytes of `mnemonic` with the end mark of the literal. -/
def kSalt : Bytes := mnemonicSalt ++ [0]

def seedToMasterDevice (fuel : Nat) (pad priorDraws : UInt32) (words : Bytes) (wordLens : List Nat) :
    Option Bytes :=
  let drawn := (List.range priorDraws.toNat).foldl
    (fun s _ => ((yasmarangDeviceStep s.1).2, (yasmarangDeviceStep s.2).2))
    (yasmarangMpColdStart pad, yasmarangLibnguMk3Init)
  (myRandomBytesDevice 32 fuel drawn.1 drawn.2 0 []).map fun raw =>
    let entropy := sha256dDevice raw 32
    let (mnemonic, mnemonicLen) := entropyToMnemonicDevice entropy words wordLens
    let bip39Seed := pbkdf2HmacSha512Device mnemonic mnemonicLen kSalt 8 2048
    let master := bip32MasterDevice bip39Seed
    master.priv32 ++ master.chain32

/-! ## Texts with pieces of one length -/

theorem length_flatMap_const {α β : Type} {l : List α} {f : α → List β} {n : Nat}
    (h : ∀ a ∈ l, (f a).length = n) : (l.flatMap f).length = n * l.length := by
  induction l with
  | nil => simp
  | cons a l ih =>
    rw [List.flatMap_cons, List.length_append, h a List.mem_cons_self,
      ih fun b hb => h b (List.mem_cons_of_mem a hb), List.length_cons, Nat.mul_succ, Nat.add_comm]

theorem getD_flatMap_const {α β : Type} {l : List α} {f : α → List β} {n i j : Nat} (a : α) (d : β)
    (h : ∀ a ∈ l, (f a).length = n) (hi : i < l.length) (hj : j < n) :
    (l.flatMap f).getD (n * i + j) d = (f (l.getD i a)).getD j d := by
  induction l generalizing i with
  | nil => cases hi
  | cons b l ih =>
    have hHead : (f b).length = n := h b List.mem_cons_self
    rw [List.flatMap_cons]
    cases i with
    | zero => rw [Nat.mul_zero, Nat.zero_add, List.getD_append _ _ _ _ (by omega), List.getD_cons_zero]
    | succ i =>
      have hPast : n * (i + 1) + j - n = n * i + j := by
        rw [Nat.mul_succ]
        omega
      rw [List.getD_append_right _ _ _ _ (by rw [hHead, Nat.mul_succ]; omega), hHead, hPast,
        List.getD_cons_succ]
      exact ih (fun a ha => h a (List.mem_cons_of_mem b ha)) (Nat.lt_of_succ_lt_succ hi)

/-! ## Generators in lockstep -/

def YasmarangState.onDevice (st : YasmarangState) : YasmarangDeviceState := ⟨st.pad, st.n, st.d, st.dat⟩

/-- A generator that is not seeded starts from zero. -/
def YasmarangRng.onDevice (rng : YasmarangRng) : YasmarangDeviceState :=
  (if rng.seeded then rng.st else ⟨0, 0, 0, 0⟩).onDevice

theorem yasmarangDeviceStep_eq (st : YasmarangState) :
    yasmarangDeviceStep st.onDevice = ((yasmarangStep st).1, (yasmarangStep st).2.onDevice) := rfl

theorem yasmarangDeviceStep_rng (rng : YasmarangRng) :
    yasmarangDeviceStep rng.onDevice = (rng.rngGet.1, rng.rngGet.2.onDevice) := rfl

/-- The bytes that a shift gives are the ones in memory. -/
theorem shifts_eq_littleEndian (x : UInt32) {here : Nat} (h : here ≤ 4) :
    (buffer here fun i => (x >>> UInt32.ofNat (8 * i)).toUInt8) = (littleEndian x).take here := by
  have hWhole : (buffer 4 fun i => (x >>> UInt32.ofNat (8 * i)).toUInt8) = littleEndian x := by
    have hFirst : x >>> UInt32.ofNat (8 * 0) = x := UInt32.shiftRight_zero
    simp only [buffer, List.range, List.range.loop, List.map_cons, List.map_nil, hFirst]
    rfl
  rw [← hWhole]
  unfold buffer
  rw [← List.map_take, List.take_range, Nat.min_eq_left h]

theorem myRandomBytesDevice_eq (count fuel : Nat) (mp : YasmarangRng) (lib : YasmarangState)
    (last : UInt32) (dest : Bytes) :
    myRandomBytesDevice count fuel mp.onDevice lib.onDevice last dest =
      myRandomBytes count fuel mp lib last dest := by
  induction fuel generalizing mp lib last dest with
  | zero => rfl
  | succ fuel ih =>
    unfold myRandomBytesDevice myRandomBytes
    by_cases hMore : dest.length < count
    · have hHere : (if count - dest.length < 4 then count - dest.length else 4) =
          min 4 (count - dest.length) := by
        split <;> omega
      simp only [if_pos hMore, yasmarangDeviceStep_rng, yasmarangDeviceStep_eq, ih, hHere,
        shifts_eq_littleEndian _ (Nat.min_le_left 4 _)]
    · rw [if_neg hMore, if_neg hMore]

/-- The draws of the earlier sessions. -/
theorem drawn_eq (pad : UInt32) (n : Nat) :
    (List.range n).foldl (fun s _ => ((yasmarangDeviceStep s.1).2, (yasmarangDeviceStep s.2).2))
        (yasmarangMpColdStart pad, yasmarangLibnguMk3Init) =
      Prod.map YasmarangRng.onDevice YasmarangState.onDevice
        ((List.range n).foldl (fun s _ => (s.1.rngGet.2, (yasmarangStep s.2).2))
          (YasmarangRng.resetColdStart pad, libnguYasmarang)) := by
  have hStart : (yasmarangMpColdStart pad, yasmarangLibnguMk3Init) =
      Prod.map YasmarangRng.onDevice YasmarangState.onDevice
        (YasmarangRng.resetColdStart pad, libnguYasmarang) := rfl
  rw [hStart]
  exact List.foldl_hom _ fun _ _ => rfl

theorem length_myRandomBytes {count fuel : Nat} {mp : YasmarangRng} {lib : YasmarangState}
    {last : UInt32} {dest raw : Bytes} (hDest : dest.length ≤ count)
    (h : myRandomBytes count fuel mp lib last dest = some raw) : raw.length = count := by
  induction fuel generalizing mp lib last dest with
  | zero =>
    unfold myRandomBytes at h
    split at h
    · cases h
    · cases h
      omega
  | succ fuel ih =>
    unfold myRandomBytes at h
    split at h
    · dsimp only at h
      split at h
      · exact ih hDest h
      · refine ih ?_ h
        have hWord : (littleEndian (mp.rngGet.1 ^^^ (yasmarangStep lib).1)).length = 4 := rfl
        rw [List.length_append, List.length_take, hWord]
        omega
    · cases h
      omega

/-! ## The uploaded words -/

/-- A word in its place in the flat table. -/
def padWord (word : Bytes) : Bytes := word ++ List.replicate (wordMaxLen - word.length) 0

/-- The table that holds the first words. -/
def tableOf (words : List Bytes) : WordTable where
  flat := words.flatMap padWord ++ List.replicate ((wordCount - words.length) * wordMaxLen) 0
  lens := words.map List.length ++ List.replicate (wordCount - words.length) 0

theorem length_padWord {word : Bytes} (h : word.length < wordMaxLen) :
    (padWord word).length = wordMaxLen := by
  simp only [padWord, List.length_append, List.length_replicate]
  omega

/-- The next word is written behind the last one. -/
theorem tableOf_concat {words : List Bytes} {word : Bytes} (hCount : words.length < wordCount)
    (hWords : ∀ w ∈ words, w.length < wordMaxLen) (hWord : word.length < wordMaxLen) :
    tableOf (words ++ [word]) =
      ⟨copyTo (tableOf words).flat (words.length * wordMaxLen) word,
        (tableOf words).lens.set words.length word.length⟩ := by
  have hLength : (words.flatMap padWord).length = words.length * wordMaxLen := by
    rw [length_flatMap_const fun w hw => length_padWord (hWords w hw), Nat.mul_comm]
  have hRest : wordCount - words.length = (wordCount - (words.length + 1)) + 1 := by omega
  have hZeros : (wordCount - words.length) * wordMaxLen - word.length =
      (wordMaxLen - word.length) + (wordCount - (words.length + 1)) * wordMaxLen := by
    rw [hRest, Nat.succ_mul]
    omega
  have hFlat : copyTo (tableOf words).flat (words.length * wordMaxLen) word =
      (tableOf (words ++ [word])).flat := by
    unfold copyTo tableOf
    dsimp only
    rw [← hLength, List.take_left, List.drop_length_add_append, List.drop_replicate, hZeros,
      ← List.replicate_append_replicate, List.flatMap_append, List.length_append]
    simp only [List.flatMap_cons, List.flatMap_nil, List.append_nil, padWord, List.append_assoc,
      List.length_singleton]
  have hLens : (tableOf words).lens.set words.length word.length = (tableOf (words ++ [word])).lens := by
    unfold tableOf
    dsimp only
    rw [List.set_append_right _ _ (Nat.le_of_eq (List.length_map _)), List.length_map, Nat.sub_self, hRest,
      List.replicate_succ, List.set_cons_zero, List.map_append, List.length_append]
    simp only [List.map_cons, List.map_nil, List.append_assoc, List.singleton_append,
      List.length_singleton]
  rw [hFlat, hLens]

theorem loadLines_eq {lines words : List Bytes}
    (hCount : words.length + (loadWordlist lines).length = wordCount)
    (hWords : ∀ w ∈ words ++ loadWordlist lines, w.length < wordMaxLen) :
    loadLines lines words.length (tableOf words) =
      .ok (wordCount, tableOf (words ++ loadWordlist lines)) := by
  induction lines generalizing words with
  | nil =>
    have hAll : words.length = wordCount := hCount
    simp only [loadLines, loadWordlist, List.map_nil, List.filter_nil, List.append_nil, hAll]
  | cons line rest ih =>
    by_cases hEmpty : stripReturn line = []
    · have hSkip : loadWordlist (line :: rest) = loadWordlist rest := by
        simp [loadWordlist, hEmpty]
      rw [hSkip] at hCount hWords ⊢
      unfold loadLines
      split
      · simp only [hEmpty, if_true]
        exact ih hCount hWords
      · next hFull =>
        have hAll : words.length = wordCount := by omega
        have hNone : loadWordlist rest = [] := List.length_eq_zero_iff.mp (by omega)
        rw [hNone, List.append_nil, hAll]
    · have hWord : loadWordlist (line :: rest) = stripReturn line :: loadWordlist rest := by
        simp [loadWordlist, hEmpty]
      rw [hWord] at hCount hWords ⊢
      have hMore : words.length < wordCount := by
        rw [List.length_cons] at hCount
        omega
      have hShort : (stripReturn line).length < wordMaxLen :=
        hWords _ (List.mem_append_right words List.mem_cons_self)
      have hTable := tableOf_concat hMore (fun w hw => hWords w (List.mem_append_left _ hw)) hShort
      unfold loadLines
      simp only [if_pos hMore, if_neg hEmpty, if_neg (Nat.not_le.mpr hShort), ← hTable]
      have hNext : words.length + 1 = (words ++ [stripReturn line]).length := by
        rw [List.length_append, List.length_singleton]
      have hSplit : words ++ stripReturn line :: loadWordlist rest =
          (words ++ [stripReturn line]) ++ loadWordlist rest := by
        rw [List.append_assoc, List.singleton_append]
      rw [hNext, hSplit]
      refine ih ?_ (hSplit ▸ hWords)
      rw [← hNext, ← hCount, List.length_cons]
      omega

theorem loadBip39WordlistHost_eq {lines : List Bytes} (hCount : (loadWordlist lines).length = 2048)
    (hWords : ∀ w ∈ loadWordlist lines, w.length < 9) :
    loadBip39WordlistHost lines = .ok (tableOf (loadWordlist lines)) := by
  have hAll : ([] : List Bytes).length + (loadWordlist lines).length = wordCount := by
    rw [hCount]
    rfl
  have hLoad : loadLines lines 0 (tableOf []) = .ok (wordCount, tableOf (loadWordlist lines)) :=
    loadLines_eq hAll hWords
  have hEmpty : tableOf [] = ⟨List.replicate (wordCount * wordMaxLen) 0, List.replicate wordCount 0⟩ :=
    rfl
  unfold loadBip39WordlistHost
  dsimp only
  rw [← hEmpty, hLoad]
  rfl

theorem getD_lens {words : List Bytes} {i : Nat} (hi : i < words.length) :
    (tableOf words).lens.getD i 0 = (words.getD i []).length := by
  unfold tableOf
  dsimp only
  rw [List.getD_append _ _ _ _ (by simpa using hi), List.getD_eq_getElem _ _ (by simpa using hi),
    List.getElem_map, List.getD_eq_getElem _ _ hi]

/-- The bytes at a word's place are the word. -/
theorem buffer_flat {words : List Bytes} (hWords : ∀ w ∈ words, w.length < wordMaxLen) {i : Nat}
    (hi : i < words.length) :
    (buffer (words.getD i []).length fun c => (tableOf words).flat.getD (wordMaxLen * i + c) 0) =
      words.getD i [] := by
  have hMem : words.getD i [] ∈ words := by
    rw [List.getD_eq_getElem _ _ hi]
    exact List.getElem_mem hi
  have hPieces : ∀ w ∈ words, (padWord w).length = wordMaxLen := fun w hw => length_padWord (hWords w hw)
  refine (eq_buffer rfl fun c hc => ?_).symm
  have hPlace : c < wordMaxLen := Nat.lt_trans hc (hWords _ hMem)
  have hIn : wordMaxLen * i + c < (words.flatMap padWord).length := by
    have hSucc := Nat.mul_le_mul_left wordMaxLen (Nat.succ_le_of_lt hi)
    rw [length_flatMap_const hPieces]
    rw [Nat.mul_succ] at hSucc
    omega
  unfold tableOf
  dsimp only
  rw [List.getD_append _ _ _ _ hIn, getD_flatMap_const [] 0 hPieces hi hPlace]
  exact (List.getD_append _ _ _ _ hc).symm

/-! ## The mnemonic -/

/-- The bits of the entropy and of its check sum, as the host lists them. -/
def entropyBits (entropy hash : Bytes) : Bytes :=
  (entropy.flatMap fun b => (List.range 8).map fun i => (b >>> UInt8.ofNat (7 - i)) &&& 1) ++
    (List.range 8).map fun i => (hash.getD 0 0 >>> UInt8.ofNat (7 - i)) &&& 1

theorem length_entropyBits {entropy : Bytes} (hash : Bytes) (h : entropy.length = 32) :
    (entropyBits entropy hash).length = 264 := by
  unfold entropyBits
  rw [List.length_append, length_flatMap_const fun b _ => by rw [List.length_map, List.length_range], h,
    List.length_map, List.length_range]

theorem getD_map_range {α : Type} (f : Nat → α) (d : α) {n i : Nat} (h : i < n) :
    ((List.range n).map f).getD i d = f i := by
  rw [List.getD_eq_getElem _ _ (by simpa using h), List.getElem_map, List.getElem_range]

theorem getD_entropyBits {entropy : Bytes} (hash : Bytes) (h : entropy.length = 32) {i : Nat}
    (hi : i < 264) :
    (entropyBits entropy hash).getD i 0 =
      if i < 256 then entropy.getD (i / 8) 0 >>> UInt8.ofNat (7 - i % 8) &&& 1
      else hash.getD 0 0 >>> UInt8.ofNat (7 - (i - 256)) &&& 1 := by
  have hPieces : ∀ b ∈ entropy, ((List.range 8).map fun i => (b >>> UInt8.ofNat (7 - i)) &&& 1).length = 8 :=
    fun b _ => by rw [List.length_map, List.length_range]
  have hLength : (entropy.flatMap fun b =>
      (List.range 8).map fun i => (b >>> UInt8.ofNat (7 - i)) &&& 1).length = 256 := by
    rw [length_flatMap_const hPieces, h]
  unfold entropyBits
  rw [getD_append, hLength]
  split
  · have hByte : i / 8 < entropy.length := by omega
    have hBit : i % 8 < 8 := Nat.mod_lt _ (by decide)
    have hGet := getD_flatMap_const 0 0 hPieces hByte hBit
    rw [Nat.div_add_mod, getD_map_range _ _ hBit] at hGet
    exact hGet
  · exact getD_map_range _ _ (by omega)

theorem bit_toUInt32 (x : UInt8) : (x &&& 1).toUInt32 = if x &&& 1 ≠ 0 then 1 else 0 := by
  have hBit : (x &&& 1).toNat = x.toNat % 2 :=
    (UInt8.toNat_and x 1).trans (Nat.and_two_pow_sub_one_eq_mod x.toNat 1)
  rcases Nat.mod_two_eq_zero_or_one x.toNat with hZero | hOne
  · have hx : x &&& 1 = 0 := UInt8.toNat_inj.mp (hBit.trans hZero)
    simp [hx]
  · have hx : x &&& 1 = 1 := UInt8.toNat_inj.mp (hBit.trans hOne)
    simp [hx]

/-- A number read bit by bit. -/
theorem foldl_bits_lt {bit : Nat → UInt32} (hBit : ∀ j, (bit j).toNat < 2) {n : Nat} (hn : n ≤ 32) :
    ((List.range n).foldl (fun (idx : UInt32) (j : Nat) => (idx <<< 1) ||| bit j) 0).toNat < 2 ^ n := by
  induction n with
  | zero => exact Nat.one_pos
  | succ n ih =>
    rw [List.range_succ, List.foldl_append]
    simp only [List.foldl_cons, List.foldl_nil]
    have hLess := ih (by omega)
    rw [UInt32.toNat_or, UInt32.toNat_shiftLeft]
    refine Nat.or_lt_two_pow (Nat.lt_of_le_of_lt (Nat.mod_le _ _) ?_) ?_
    · rw [Nat.shiftLeft_eq, Nat.pow_succ]
      exact Nat.mul_lt_mul_of_pos_right hLess (by decide)
    · have hTwo : 2 ^ 1 ≤ 2 ^ (n + 1) := Nat.pow_le_pow_right (by decide) (Nat.le_add_left 1 n)
      exact Nat.lt_of_lt_of_le (hBit n) hTwo

/-- The number of a word, from the bits of the host. -/
def wordIndex (bits : Bytes) (k : Nat) : UInt32 :=
  (List.range 11).foldl
    (fun (idx : UInt32) (j : Nat) => (idx <<< 1) ||| (bits.getD (11 * k + j) 0).toUInt32) 0

/-- A space is put in front of each word that is not the first one. -/
theorem spaces_eq {word : Nat → Bytes} {n : Nat} (h : ∀ k < n, word k ≠ []) :
    (List.range n).foldl (fun (mnemonic : Bytes) k =>
        (if mnemonic ≠ [] then mnemonic ++ [32] else mnemonic) ++ word k) [] =
      (List.range n).foldl (fun (out : Bytes) k => (if 0 < k then out ++ [32] else out) ++ word k) [] ∧
    (0 < n → (List.range n).foldl (fun (out : Bytes) k =>
      (if 0 < k then out ++ [32] else out) ++ word k) [] ≠ []) := by
  induction n with
  | zero => exact ⟨rfl, fun h => absurd h (Nat.lt_irrefl 0)⟩
  | succ n ih =>
    obtain ⟨hEq, hNonempty⟩ := ih fun k hk => h k (Nat.lt_succ_of_lt hk)
    have hWord := h n (Nat.lt_succ_self n)
    simp only [List.range_succ, List.foldl_append, List.foldl_cons, List.foldl_nil, hEq]
    refine ⟨?_, fun _ hNil => hWord (List.append_eq_nil_iff.mp hNil).2⟩
    cases n with
    | zero => rfl
    | succ n => rw [if_pos (hNonempty (Nat.succ_pos n)), if_pos (Nat.succ_pos n)]

/-- The words with their spaces fit into the array of the device. -/
theorem length_spaces {word : Nat → Bytes} {n : Nat} (h : ∀ k < n, (word k).length < wordMaxLen) :
    ((List.range n).foldl (fun (out : Bytes) k =>
      (if 0 < k then out ++ [32] else out) ++ word k) []).length ≤ n * wordMaxLen := by
  induction n with
  | zero => exact Nat.le_refl 0
  | succ n ih =>
    have hBefore := ih fun k hk => h k (Nat.lt_succ_of_lt hk)
    have hWord := h n (Nat.lt_succ_self n)
    simp only [List.range_succ, List.foldl_append, List.foldl_cons, List.foldl_nil]
    rw [List.length_append, Nat.succ_mul]
    split
    · rw [List.length_append, List.length_singleton]
      omega
    · omega

theorem wordIndex_lt (bits : Bytes) (hBits : ∀ i, (bits.getD i 0).toNat < 2) (k : Nat) :
    (wordIndex bits k).toNat < 2048 :=
  foldl_bits_lt (fun j => by rw [UInt8.toNat_toUInt32]; exact hBits _) (by decide : 11 ≤ 32)

theorem entropyBits_lt {entropy : Bytes} (hash : Bytes) (h : entropy.length = 32) (i : Nat) :
    ((entropyBits entropy hash).getD i 0).toNat < 2 := by
  have hMask : ∀ x : UInt8, (x &&& 1).toNat < 2 := fun x => by
    rw [UInt8.toNat_and]
    exact Nat.and_lt_two_pow x.toNat (by decide : (1 : UInt8).toNat < 2 ^ 1)
  by_cases hi : i < 264
  · rw [getD_entropyBits hash h hi]
    split <;> exact hMask _
  · rw [List.getD_eq_default _ _ (by rw [length_entropyBits hash h]; omega)]
    decide

/-- The device reads the same numbers from its bits. -/
theorem deviceIndex_eq {entropy : Bytes} (hash : Bytes) (h : entropy.length = 32) {w : Nat} (hw : w < 24) :
    (List.range 11).foldl (fun (idx : UInt32) (j : Nat) => (idx <<< 1) |||
      (if ((List.range 264).map fun i =>
        if i < 256 then decide (entropy.getD (i / 8) 0 >>> UInt8.ofNat (7 - i % 8) &&& 1 ≠ 0)
        else decide (hash.getD 0 0 >>> UInt8.ofNat (7 - (i - 256)) &&& 1 ≠ 0)).getD (w * 11 + j) false
        then 1 else 0)) 0 = wordIndex (entropyBits entropy hash) w := by
  unfold wordIndex
  refine List.foldl_ext _ _ _ fun idx j hj => ?_
  have hj := List.mem_range.mp hj
  have hi : 11 * w + j < 264 := by omega
  rw [Nat.mul_comm w 11, getD_map_range _ _ hi, getD_entropyBits hash h hi]
  split
  · rw [bit_toUInt32]
    simp only [decide_eq_true_eq]
  · rw [bit_toUInt32]
    simp only [decide_eq_true_eq]

section Mnemonic

variable {lines : List Bytes} {entropy : Bytes} (hCount : (loadWordlist lines).length = 2048)
  (hEntropy : entropy.length = 32)
include hCount hEntropy

/-- The word of the mnemonic at a place. -/
theorem getD_word_mem (k : Nat) :
    (loadWordlist lines).getD (wordIndex (entropyBits entropy (Sha2.sha256.digest entropy)) k).toNat [] ∈
      loadWordlist lines := by
  have hIndex := wordIndex_lt _ (entropyBits_lt (Sha2.sha256.digest entropy) hEntropy) k
  rw [List.getD_eq_getElem _ _ (hCount ▸ hIndex)]
  exact List.getElem_mem _

theorem entropyToMnemonic_eq :
    entropyToMnemonic lines entropy =
      (List.range 24).foldl (fun (out : Bytes) k => (if 0 < k then out ++ [32] else out) ++
        (loadWordlist lines).getD
          (wordIndex (entropyBits entropy (Sha2.sha256.digest entropy)) k).toNat []) [] ∧
      entropyToMnemonic lines entropy ≠ [] := by
  have hWord : ∀ k < 24, (loadWordlist lines).getD
      (wordIndex (entropyBits entropy (Sha2.sha256.digest entropy)) k).toNat [] ≠ [] := by
    intro k _
    have hMem := getD_word_mem hCount hEntropy k
    exact of_decide_eq_true (List.mem_filter.mp hMem).2
  obtain ⟨hSpaces, hNonempty⟩ := spaces_eq hWord
  have hBits : (entropyBits entropy (Sha2.sha256.digest entropy)).length / 11 = 24 := by
    rw [length_entropyBits _ hEntropy]
  have hHost : entropyToMnemonic lines entropy = (List.range 24).foldl (fun (mnemonic : Bytes) k =>
      (if mnemonic ≠ [] then mnemonic ++ [32] else mnemonic) ++ (loadWordlist lines).getD
        (wordIndex (entropyBits entropy (Sha2.sha256.digest entropy)) k).toNat []) [] := by
    unfold entropyToMnemonic
    rw [← hBits]
    exact if_neg (not_or.mpr ⟨not_not.mpr hCount, not_not.mpr hEntropy⟩)
  rw [hHost, hSpaces]
  exact ⟨rfl, hNonempty (by decide)⟩

theorem entropyToMnemonicDevice_eq (hWords : ∀ w ∈ loadWordlist lines, w.length < wordMaxLen) :
    entropyToMnemonicDevice entropy (tableOf (loadWordlist lines)).flat
        (tableOf (loadWordlist lines)).lens =
      (entropyToMnemonic lines entropy ++ [0], (entropyToMnemonic lines entropy).length) := by
  have hHash : hash160Sha256Bytes entropy 32 = Sha2.sha256.digest entropy := by
    rw [← hash160Sha256Bytes_eq (show entropy.length < 56 by omega), hEntropy]
  let bits := entropyBits entropy (Sha2.sha256.digest entropy)
  have hOut : ∀ index : Nat → UInt32, (∀ w < 24, index w = wordIndex bits w) →
      (List.range 24).foldl (fun (out : Bytes) w => (if 0 < w then out ++ [32] else out) ++
        buffer ((tableOf (loadWordlist lines)).lens.getD (index w).toNat 0) fun c =>
          (tableOf (loadWordlist lines)).flat.getD
            ((index w * UInt32.ofNat wordMaxLen).toNat + c) 0) [] =
        entropyToMnemonic lines entropy := by
    intro index hSame
    rw [(entropyToMnemonic_eq hCount hEntropy).1]
    refine List.foldl_ext _ _ _ fun out w hw => ?_
    have hIndex := wordIndex_lt bits (entropyBits_lt (Sha2.sha256.digest entropy) hEntropy) w
    have hPlace : (wordIndex bits w * UInt32.ofNat wordMaxLen).toNat =
        wordMaxLen * (wordIndex bits w).toNat := by
      rw [UInt32.toNat_mul, Nat.mul_comm]
      refine Nat.mod_eq_of_lt ?_
      show 9 * _ < 2 ^ 32
      omega
    rw [hSame w (List.mem_range.mp hw), hPlace, getD_lens (hCount ▸ hIndex),
      buffer_flat hWords (hCount ▸ hIndex)]
  unfold entropyToMnemonicDevice
  dsimp only
  rw [hHash]
  exact congrArg (fun out : Bytes => (out ++ [0], out.length))
    (hOut _ fun w hw => deviceIndex_eq (Sha2.sha256.digest entropy) hEntropy hw)

end Mnemonic

/-! ## The keys -/

theorem length_hmacSha512 (key data : Bytes) : (hmacSha512 key data).length = 64 := rfl

theorem buffer_xor_eq {x y : Bytes} (hx : x.length = 64) (hy : y.length = 64) :
    (buffer 64 fun i => x.getD i 0 ^^^ y.getD i 0) = Sha2.xorBytes x y := by
  refine (eq_buffer (by rw [Sha2.length_xorBytes, hx, hy, Nat.min_self]) fun i hi => ?_).symm
  rw [Sha2.xorBytes, List.getD_eq_getElem _ _ (by rw [List.length_zipWith]; omega),
    List.getElem_zipWith, List.getD_eq_getElem _ _ (by omega), List.getD_eq_getElem _ _ (by omega)]

theorem pbkdf2HmacSha512Device_eq {password salt : Bytes} {passLen saltLen iterations : Nat}
    (hPass : passLen ≤ password.length) (hBits : 8 * passLen < 2 ^ 64) (hSalt : saltLen ≤ salt.length)
    (hSize : saltLen + 4 ≤ 256) (hIterations : 0 < iterations) :
    pbkdf2HmacSha512Device password passLen salt saltLen iterations =
      Sha2.pbkdf2 (hmacSha512 (password.take passLen)) 64 (salt.take saltLen) iterations 64 := by
  let prf := hmacSha512 (password.take passLen)
  have hPrf : ∀ data : Bytes, (prf data).length = 64 := length_hmacSha512 _
  have hDevice : ∀ data : Bytes, data.length ≤ 256 →
      hmacSha512Device password passLen data data.length = prf data := by
    intro data hData
    rw [hmacSha512Device_eq hPass hBits (Nat.le_refl _) hData, List.take_length]
    rfl
  -- the salt with the number of the block
  have hTake : (salt.take saltLen).length = saltLen := by rw [List.length_take, Nat.min_eq_left hSalt]
  let saltBlock := salt.take saltLen ++ Sha2.bigEndian 4 1
  have hLength : saltBlock.length = saltLen + 4 := by
    rw [List.length_append, hTake, Sha2.length_bigEndian]
  have hSaltBlock : (buffer (saltLen + 4) fun i =>
      if i < saltLen then salt.getD i 0 else if i = saltLen + 3 then 1 else 0) = saltBlock := by
    refine (eq_buffer hLength fun i hi => ?_).symm
    rw [getD_append, hTake]
    split
    · next hFront => exact getD_take hFront
    · obtain h | h | h | h : i - saltLen = 0 ∨ i - saltLen = 1 ∨ i - saltLen = 2 ∨ i - saltLen = 3 := by
        omega
      · rw [h, if_neg (by omega)]
        rfl
      · rw [h, if_neg (by omega)]
        rfl
      · rw [h, if_neg (by omega)]
        rfl
      · rw [h, if_pos (by omega)]
        rfl
  have hFirst : hmacSha512Device password passLen saltBlock (saltLen + 4) =
      Sha2.pbkdf2U prf (salt.take saltLen) 1 0 := by
    rw [← hLength, hDevice _ (hLength ▸ hSize)]
    rfl
  have hLoop : ∀ n, (List.range n).foldl (fun (s : Bytes × Bytes) _ =>
      (hmacSha512Device password passLen s.1 64,
        buffer 64 fun i => s.2.getD i 0 ^^^ (hmacSha512Device password passLen s.1 64).getD i 0))
      (Sha2.pbkdf2U prf (salt.take saltLen) 1 0, Sha2.pbkdf2U prf (salt.take saltLen) 1 0) =
      (Sha2.pbkdf2U prf (salt.take saltLen) 1 n, Sha2.pbkdf2Block prf (salt.take saltLen) (n + 1) 1) := by
    intro n
    induction n with
    | zero => rfl
    | succ n ih =>
      have hU := Sha2.length_pbkdf2U hPrf (salt.take saltLen) 1 n
      have hT := Sha2.length_pbkdf2Block hPrf (salt.take saltLen) (n + 1) 1
      have hCall := hDevice _ (show (Sha2.pbkdf2U prf (salt.take saltLen) 1 n).length ≤ 256 by omega)
      rw [hU] at hCall
      have hPairs := Sha2.pbkdf2_pairs prf (salt.take saltLen) 1 (n + 1)
      rw [List.range_succ, List.foldl_append, Sha2.pbkdf2_pairs] at hPairs
      rw [List.range_succ, List.foldl_append, ih, ← hPairs]
      simp only [List.foldl_cons, List.foldl_nil, hCall, buffer_xor_eq hT (hPrf _)]
  have hCount : iterations - 1 + 1 = iterations := Nat.sub_add_cancel hIterations
  unfold pbkdf2HmacSha512Device
  dsimp only
  rw [hSaltBlock, hFirst, hLoop, hCount]
  exact (Sha2.pbkdf2_single prf (by decide) (Sha2.length_pbkdf2Block hPrf _ _ _)).symm

theorem bip32MasterDevice_eq {seed : Bytes} (hSeed : seed.length = 64) :
    bip32MasterDevice seed = bip32Master seed := by
  have hMac : hmacSha512Device bitcoinSeed 12 seed 64 = hmacSha512 bitcoinSeed seed := by
    have hWhole := hmacSha512Device_eq (Nat.le_refl bitcoinSeed.length) (by decide)
      (Nat.le_refl seed.length) (by omega)
    rw [List.take_length, List.take_length, hSeed] at hWhole
    exact hWhole
  have hDrop : ((hmacSha512 bitcoinSeed seed).drop 32).length = 32 := by
    rw [List.length_drop, length_hmacSha512]
  unfold bip32MasterDevice bip32Master
  dsimp only
  rw [hMac, List.take_of_length_le (Nat.le_of_eq hDrop)]

/-! ## The whole pipeline -/

theorem length_entropyToMnemonic {lines : List Bytes} {entropy : Bytes}
    (hCount : (loadWordlist lines).length = 2048) (hEntropy : entropy.length = 32)
    (hWords : ∀ w ∈ loadWordlist lines, w.length < wordMaxLen) :
    (entropyToMnemonic lines entropy).length ≤ 216 := by
  rw [(entropyToMnemonic_eq hCount hEntropy).1]
  exact length_spaces fun k _ => hWords _ (getD_word_mem hCount hEntropy k)

theorem bip39SeedFromEntropy_eq {lines : List Bytes} {entropy : Bytes}
    (hCount : (loadWordlist lines).length = 2048) (hEntropy : entropy.length = 32) :
    bip39SeedFromEntropy lines entropy =
      Sha2.pbkdf2 (hmacSha512 (entropyToMnemonic lines entropy)) 64 mnemonicSalt 2048 64 :=
  if_neg (entropyToMnemonic_eq hCount hEntropy).2

theorem length_bip39SeedFromEntropy {lines : List Bytes} {entropy : Bytes}
    (hCount : (loadWordlist lines).length = 2048) (hEntropy : entropy.length = 32) :
    (bip39SeedFromEntropy lines entropy).length = 64 := by
  have hKey := Sha2.length_pbkdf2Block (length_hmacSha512 (entropyToMnemonic lines entropy)) mnemonicSalt
    2048 1
  rw [bip39SeedFromEntropy_eq hCount hEntropy, Sha2.pbkdf2_single _ (by decide) hKey, hKey]

/-- The master key of the entropy. -/
theorem master_of_entropy {lines : List Bytes} {entropy : Bytes}
    (hCount : (loadWordlist lines).length = 2048) (hEntropy : entropy.length = 32)
    (hWords : ∀ w ∈ loadWordlist lines, w.length < wordMaxLen) :
    bip32MasterDevice (pbkdf2HmacSha512Device (entropyToMnemonic lines entropy ++ [0])
        (entropyToMnemonic lines entropy).length kSalt 8 2048) =
      bip32Master (bip39SeedFromEntropy lines entropy) := by
  have hLength := length_entropyToMnemonic hCount hEntropy hWords
  have hPass : (entropyToMnemonic lines entropy).length ≤
      (entropyToMnemonic lines entropy ++ [0]).length := by
    rw [List.length_append]
    omega
  have hSalt : kSalt.take 8 = mnemonicSalt := rfl
  have hSeed := pbkdf2HmacSha512Device_eq hPass (by omega) (show 8 ≤ kSalt.length by decide)
    (by decide) (show 0 < 2048 by decide)
  rw [List.take_left, hSalt, ← bip39SeedFromEntropy_eq hCount hEntropy] at hSeed
  rw [hSeed]
  exact bip32MasterDevice_eq (length_bip39SeedFromEntropy hCount hEntropy)

theorem seedToMasterDevice_hostMaster {lines : List Bytes} (hCount : (loadWordlist lines).length = 2048)
    (hWords : ∀ w ∈ loadWordlist lines, w.length < 9) (fuel : Nat) (pad n : UInt32) :
    seedToMasterDevice fuel pad n (tableOf (loadWordlist lines)).flat (tableOf (loadWordlist lines)).lens =
      hostMaster lines fuel pad n := by
  unfold seedToMasterDevice hostMaster coldcardSeedEntropy
  dsimp only
  rw [drawn_eq, Prod.map_fst, Prod.map_snd, myRandomBytesDevice_eq, Option.map_map]
  refine Option.map_congr fun raw hRaw => ?_
  have hLength : raw.length = 32 := length_myRandomBytes (show ([] : Bytes).length ≤ 32 from Nat.zero_le 32) hRaw
  have hEntropy := length_sha256d raw
  have hDigest := length_digest256 raw
  have hInner : hash160Sha256Bytes raw 32 = Sha2.sha256.digest raw := by
    rw [← hash160Sha256Bytes_eq (show raw.length < 56 by omega), hLength]
  have hOuter : hash160Sha256Bytes (Sha2.sha256.digest raw) 32 = sha256d raw :=
    hash160Sha256Bytes_eq (show (Sha2.sha256.digest raw).length < 56 by omega)
  rw [sha256dDevice, hInner, hOuter, entropyToMnemonicDevice_eq hCount hEntropy hWords,
    master_of_entropy hCount hEntropy hWords]
  rfl

/-- The device and the host return together, and return the same key. -/
theorem seedToMasterDevice_eq {lines : List Bytes} (hCount : (loadWordlist lines).length = 2048)
    (hWords : ∀ w ∈ loadWordlist lines, w.length < 9) :
    ∃ table, loadBip39WordlistHost lines = .ok table ∧
      ∀ (fuel : Nat) (pad priorDraws : UInt32),
        seedToMasterDevice fuel pad priorDraws table.flat table.lens =
          hostMaster lines fuel pad priorDraws ∧
        ∀ master, seedToMasterDevice fuel pad priorDraws table.flat table.lens = some master →
          master.length = 64 := by
  refine ⟨tableOf (loadWordlist lines), loadBip39WordlistHost_eq hCount hWords, fun fuel pad n => ?_⟩
  have hSame := seedToMasterDevice_hostMaster hCount hWords fuel pad n
  refine ⟨hSame, fun master hMaster => ?_⟩
  rw [hSame] at hMaster
  obtain ⟨entropy, -, rfl⟩ := Option.map_eq_some_iff.mp hMaster
  rfl

/-- A file of words of three letters. -/
def threeLetterLines : List Bytes :=
  (List.range 2048).map fun i =>
    [UInt8.ofNat (97 + i / 169), UInt8.ofNat (97 + i / 13 % 13), UInt8.ofNat (97 + i % 13)]

theorem seedToMasterDevice_threeLetters :
    ∃ table, loadBip39WordlistHost threeLetterLines = .ok table ∧
      seedToMasterDevice 8 0x00400001 8 table.flat table.lens =
        hostMaster threeLetterLines 8 0x00400001 8 ∧
      (hostMaster threeLetterLines 8 0x00400001 8).isSome := by
  have hCount : (loadWordlist threeLetterLines).length = 2048 := by decide +kernel
  have hWords : ∀ w ∈ loadWordlist threeLetterLines, w.length < 9 := by decide +kernel
  obtain ⟨table, hTable, hSame⟩ := seedToMasterDevice_eq hCount hWords
  refine ⟨table, hTable, (hSame 8 0x00400001 8).1, ?_⟩
  have hDraws : (myRandomBytes 32 8 ((List.range 8).foldl
      (fun s _ => (s.1.rngGet.2, (yasmarangStep s.2).2))
      (YasmarangRng.resetColdStart 0x00400001, libnguYasmarang)).1 ((List.range 8).foldl
      (fun s _ => (s.1.rngGet.2, (yasmarangStep s.2).2))
      (YasmarangRng.resetColdStart 0x00400001, libnguYasmarang)).2 0 []).isSome := by decide +kernel
  unfold hostMaster coldcardSeedEntropy
  rw [Option.isSome_map, Option.isSome_map]
  exact hDraws

end Bloodhound.Scanner
