import Bloodhound.Lib.Hex
import Bloodhound.Sources.ContentHash
import Mathlib.Data.Nat.Digits.Lemmas

/-!
# Payloads of OP_RETURN outputs

`chain/opReturn.ts`: the payload of an output is read from its assembly text or from its script in hexadecimal
digits. A push of data is written in one of four forms, which differ in how they give its length.

The script is read up to its first push and the text up to its end, so the two fields of one output give the
same payload exactly when the script has one push (`payload_parsers`). A length of 2³¹ or more is read as a
negative one, because the shift to the left by 24 bits is signed.
-/

namespace Bloodhound.Chain

open Sources

abbrev Script := List UInt8

/-! ## Parsers -/

/-- Letters beyond ASCII have no hexadecimal digit as their lower case. -/
def bytesFromHex (hex : List Char) : Option Script :=
  let normalized := (hex.filter fun c => !isTrimmed c).map Char.toLower
  if normalized = [] ∨ normalized.length % 2 ≠ 0 ∨ normalized.all Hex.isDigit = false then none
  else some (Hex.readPairs normalized)

def opReturnWord : List Char := "OP_RETURN".toList

def isWordChar (c : Char) : Bool := c.isAlphanum || c = '_'

/-- `/^OP_RETURN\b/i` -/
def startsWithOpReturn (text : List Char) : Bool :=
  (text.take opReturnWord.length).map Char.toUpper = opReturnWord &&
    !((text.drop opReturnWord.length).head?.any isWordChar)

def parseOpReturnPayloadFromAsm (asm : List Char) : Option Script :=
  let trimmed := trim asm
  if startsWithOpReturn trimmed = false then none
  else
    let rest := trim (trimmed.drop opReturnWord.length)
    if rest = [] then some [] else bytesFromHex rest

/-- The first push: its data may start at `offset` and has `dataLen` bytes. -/
structure PushHeader where
  offset : Nat
  dataLen : Int
  deriving DecidableEq

/-- Bytes of a length, the lowest first, as an integer of 32 bits with its sign. -/
def readLength (bytes : Script) : Int :=
  (bytes.zipIdx.foldl (fun (n : UInt32) b => n ||| b.1.toUInt32 <<< UInt32.ofNat (8 * b.2)) 0).toInt32.toInt

/-- A length of `n` bytes behind the opcode; nothing where the script ends before. -/
def countedHeader (script : Script) (offset n : Nat) : Option PushHeader :=
  if script.length ≤ offset + n then none
  else some ⟨offset + 1 + n, readLength ((script.drop (offset + 1)).take n)⟩

/-- Nothing where the opcode at the position is no push. -/
def pushHeader (script : Script) (offset : Nat) : Option (Option PushHeader) :=
  let op := script.getD offset 0
  if 0x01 ≤ op ∧ op ≤ 0x4b then some (some ⟨offset + 1, op.toNat⟩)
  else if op = 0x4c then some (countedHeader script offset 1)
  else if op = 0x4d then some (countedHeader script offset 2)
  else if op = 0x4e then some (countedHeader script offset 4)
  else none

def parseOpReturnPayloadFromScript (scriptHex : List Char) : Option Script :=
  (bytesFromHex scriptHex).bind fun script =>
    if script.length < 1 ∨ script.getD 0 0 ≠ 0x6a then none
    else if script.length ≤ 1 then some []
    else
      match pushHeader script 1 with
      | none => some []
      | some header =>
        header.bind fun h =>
          if h.dataLen < 0 ∨ (script.length : Int) < h.offset + h.dataLen then none
          else some ((script.drop h.offset).take h.dataLen.toNat)

/-! ## Pushes -/

inductive PushForm
  | direct
  | pushdata1
  | pushdata2
  | pushdata4
  deriving DecidableEq

namespace PushForm

/-- How many bytes give the length, behind the opcode. -/
def lengthBytes : PushForm → Nat
  | direct => 0
  | pushdata1 => 1
  | pushdata2 => 2
  | pushdata4 => 4

/-- The opcode for data of a length. -/
def opcode : PushForm → Nat → UInt8
  | direct, n => UInt8.ofNat n
  | pushdata1, _ => 0x4c
  | pushdata2, _ => 0x4d
  | pushdata4, _ => 0x4e

/-- Lengths that the form can give. -/
def limit : PushForm → Nat
  | direct => 76
  | form => 256 ^ form.lengthBytes

end PushForm

/-- A number as bytes, the lowest first. -/
def littleEndian (n length : Nat) : Script := (List.range length).map fun i => UInt8.ofNat (n / 256 ^ i)

/-- Data in a form that can give its length. -/
structure Push where
  form : PushForm
  data : Script
  fits : data.length < form.limit

namespace Push

def header (p : Push) : Script :=
  p.form.opcode p.data.length :: littleEndian p.data.length p.form.lengthBytes

def bytes (p : Push) : Script := p.header ++ p.data

end Push

/-- The script that returns some pushes. -/
def returnScript (pushes : List Push) : Script := 0x6a :: pushes.flatMap Push.bytes

/-- The assembly text of the same script. -/
def returnAsm (pushes : List Push) : List Char :=
  opReturnWord ++ pushes.flatMap fun p => ' ' :: Hex.write p.data

/-- The script ends inside of its first push, behind the opcode. -/
def EndsInside (p : Push) (script : Script) : Prop :=
  ∃ n, 1 ≤ n ∧ n < p.bytes.length ∧ script = 0x6a :: p.bytes.take n

/-! ## Lengths -/

theorem toNat_orShift {n : UInt32} {j : Nat} (hj : j < 4) (hn : n.toNat < 256 ^ j) (b : UInt8) :
    (n ||| b.toUInt32 <<< UInt32.ofNat (8 * j)).toNat = n.toNat + 256 ^ j * b.toNat := by
  have hPow : 256 ^ j = 2 ^ (8 * j) := by rw [Nat.pow_mul]
  have hShift : (b.toUInt32 <<< UInt32.ofNat (8 * j)).toNat = b.toNat <<< (8 * j) := by
    have hSmall : 8 * j % 2 ^ 32 = 8 * j := Nat.mod_eq_of_lt (by omega)
    have hBound : b.toNat * 2 ^ (8 * j) < 2 ^ 32 := by
      calc b.toNat * 2 ^ (8 * j) < 2 ^ 8 * 2 ^ (8 * j) :=
            Nat.mul_lt_mul_of_pos_right b.toNat_lt (Nat.two_pow_pos _)
        _ = 2 ^ (8 + 8 * j) := (Nat.pow_add 2 8 (8 * j)).symm
        _ ≤ 2 ^ 32 := Nat.pow_le_pow_right (by decide) (by omega)
    rw [UInt32.toNat_shiftLeft, UInt32.toNat_ofNat', UInt8.toNat_toUInt32, hSmall,
      Nat.mod_eq_of_lt (show 8 * j < 32 by omega), Nat.shiftLeft_eq, Nat.mod_eq_of_lt hBound]
  rw [hPow] at hn
  rw [UInt32.toNat_or, hShift, Nat.or_comm, ← Nat.shiftLeft_add_eq_or_of_lt hn, Nat.shiftLeft_eq, hPow]
  ring

theorem toNat_readLength {bytes : Script} (h : bytes.length ≤ 4) :
    (bytes.zipIdx.foldl (fun (n : UInt32) b => n ||| b.1.toUInt32 <<< UInt32.ofNat (8 * b.2)) 0).toNat =
      Nat.ofDigits 256 (bytes.map UInt8.toNat) := by
  induction bytes using List.reverseRecOn with
  | nil => rfl
  | append_singleton bytes b ih =>
    rw [List.length_append, List.length_singleton] at h
    have hRest := ih (by omega)
    have hLess : Nat.ofDigits 256 (bytes.map UInt8.toNat) < 256 ^ bytes.length := by
      rw [← List.length_map (f := UInt8.toNat)]
      apply Nat.ofDigits_lt_base_pow_length (by decide)
      intro d hd
      obtain ⟨c, -, rfl⟩ := List.mem_map.mp hd
      exact c.toNat_lt
    rw [List.zipIdx_append, List.foldl_append, List.zipIdx_singleton, List.foldl_cons, List.foldl_nil,
      Nat.zero_add, toNat_orShift (by omega) (hRest ▸ hLess), hRest, List.map_append, Nat.ofDigits_append,
      List.length_map, List.map_singleton, Nat.ofDigits_singleton]

theorem toInt_toInt32 (n : UInt32) :
    n.toInt32.toInt = if n.toNat < 2 ^ 31 then (n.toNat : Int) else (n.toNat : Int) - 2 ^ 32 := by
  have hCond : n.toInt32.toInt =
      if 2 * n.toNat < 2 ^ 32 then (n.toNat : Int) else (n.toNat : Int) - (2 ^ 32 : Nat) :=
    BitVec.toInt_eq_toNat_cond n.toBitVec
  rw [hCond]
  split <;> split <;> omega

theorem ofDigits_littleEndian (n length : Nat) :
    Nat.ofDigits 256 ((littleEndian n length).map UInt8.toNat) = n % 256 ^ length := by
  induction length with
  | zero => simp [littleEndian, Nat.mod_one]
  | succ length ih =>
    have hSplit : littleEndian n (length + 1) = littleEndian n length ++ [UInt8.ofNat (n / 256 ^ length)] := by
      simp [littleEndian, List.range_succ]
    rw [hSplit, List.map_append, Nat.ofDigits_append, ih, List.map_singleton, Nat.ofDigits_singleton,
      Nat.mod_pow_succ, UInt8.toNat_ofNat', List.length_map]
    simp [littleEndian]

theorem readLength_littleEndian {n length : Nat} (hLength : length ≤ 4) (hn : n < 256 ^ length) :
    readLength (littleEndian n length) = if n < 2 ^ 31 then (n : Int) else (n : Int) - 2 ^ 32 := by
  have hBytes : (littleEndian n length).length ≤ 4 := by simpa [littleEndian] using hLength
  rw [readLength, toInt_toInt32, toNat_readLength hBytes, ofDigits_littleEndian, Nat.mod_eq_of_lt hn]

/-! ## Digits -/

theorem digit_plain : ∀ n < 16, isTrimmed (Hex.digit n) = false ∧ (Hex.digit n).toLower = Hex.digit n ∧
    Hex.isDigit (Hex.digit n) = true := by decide +kernel

theorem filter_write (bytes : Script) :
    (Hex.write bytes).filter (fun c => !isTrimmed c) = Hex.write bytes := by
  apply List.filter_eq_self.mpr
  intro c hc
  obtain ⟨n, hn, rfl⟩ := Hex.mem_write hc
  rw [(digit_plain n hn).1]
  rfl

/-- White space between the digits does not count. -/
theorem bytesFromHex_of_filter {hex : List Char} {bytes : Script} (hNe : bytes ≠ [])
    (h : hex.filter (fun c => !isTrimmed c) = Hex.write bytes) : bytesFromHex hex = some bytes := by
  have hLower : (Hex.write bytes).map Char.toLower = Hex.write bytes := by
    apply (List.map_congr_left fun c hc => ?_).trans (List.map_id _)
    obtain ⟨n, hn, rfl⟩ := Hex.mem_write hc
    exact (digit_plain n hn).2.1
  have hDigits : (Hex.write bytes).all Hex.isDigit = true := by
    apply List.all_eq_true.mpr
    intro c hc
    obtain ⟨n, hn, rfl⟩ := Hex.mem_write hc
    exact (digit_plain n hn).2.2
  have hLong : Hex.write bytes ≠ [] := by
    apply List.ne_nil_of_length_pos
    rw [Hex.length_write]
    have := List.length_pos_iff.mpr hNe
    omega
  have hEven : (Hex.write bytes).length % 2 = 0 := by
    rw [Hex.length_write]
    exact Nat.mul_mod_right 2 _
  unfold bytesFromHex
  dsimp only
  rw [h, hLower, if_neg (by simp [hLong, hDigits]), Hex.readPairs_write]

/-! ## Scripts -/

namespace Push

variable (p : Push)

theorem length_header : p.header.length = 1 + p.form.lengthBytes := by
  simp [header, littleEndian, Nat.add_comm]

theorem lengthBytes_le : p.form.lengthBytes ≤ 4 := by
  cases p.form <;> decide

theorem countedHeader_header (tail : Script) (h : p.form ≠ .direct) :
    countedHeader (0x6a :: (p.header ++ tail)) 1 p.form.lengthBytes = some ⟨1 + p.header.length,
      if p.data.length < 2 ^ 31 then (p.data.length : Int) else (p.data.length : Int) - 2 ^ 32⟩ := by
  have hFits : p.data.length < 256 ^ p.form.lengthBytes := by
    have := p.fits
    cases hForm : p.form <;> rw [hForm] at this h
    · exact absurd rfl h
    all_goals exact this
  have hSize : (littleEndian p.data.length p.form.lengthBytes).length = p.form.lengthBytes := by
    simp [littleEndian]
  have hDrop : (0x6a :: (p.header ++ tail)).drop (1 + 1) =
      littleEndian p.data.length p.form.lengthBytes ++ tail := rfl
  have hLong : ¬ (0x6a :: (p.header ++ tail)).length ≤ 1 + p.form.lengthBytes := by
    rw [List.length_cons, List.length_append, p.length_header]
    omega
  rw [countedHeader, if_neg hLong, hDrop, List.take_left' hSize,
    readLength_littleEndian p.lengthBytes_le hFits, p.length_header, Nat.add_assoc]

/-- What is read from the front of a push, whatever follows. -/
theorem pushHeader_header (tail : Script) :
    pushHeader (0x6a :: (p.header ++ tail)) 1 =
      if p.form = .direct ∧ p.data = [] then none
      else some (some ⟨1 + p.header.length,
        if p.data.length < 2 ^ 31 then (p.data.length : Int) else (p.data.length : Int) - 2 ^ 32⟩) := by
  have hCounted := p.countedHeader_header tail
  have hFits := p.fits
  have hOp : (0x6a :: (p.header ++ tail)).getD 1 0 = p.form.opcode p.data.length := rfl
  unfold pushHeader
  rw [hOp]
  cases hForm : p.form with
  | direct =>
    rw [hForm] at hFits
    have hSmall : p.data.length < 76 := hFits
    have hHeader : p.header.length = 1 := by rw [p.length_header, hForm]; rfl
    have hCode : (PushForm.direct.opcode p.data.length).toNat = p.data.length :=
      (UInt8.toNat_ofNat' ..).trans (Nat.mod_eq_of_lt (by omega))
    dsimp only
    by_cases hEmpty : p.data = []
    · rw [hEmpty]
      rfl
    · have hPos := List.length_pos_iff.mpr hEmpty
      have hRange : (0x01 : UInt8) ≤ PushForm.direct.opcode p.data.length ∧
          PushForm.direct.opcode p.data.length ≤ 0x4b := by
        rw [UInt8.le_iff_toNat_le, UInt8.le_iff_toNat_le, hCode]
        exact ⟨hPos, by change p.data.length ≤ 75; omega⟩
      rw [if_pos hRange, if_neg (fun h => hEmpty h.2), if_pos (by omega), hCode, hHeader]
  | pushdata1 =>
    rw [hForm] at hCounted
    exact congrArg some (hCounted (by decide))
  | pushdata2 =>
    rw [hForm] at hCounted
    exact congrArg some (hCounted (by decide))
  | pushdata4 =>
    rw [hForm] at hCounted
    exact congrArg some (hCounted (by decide))

/-- The opcode alone tells how many bytes the length takes. -/
theorem pushHeader_short {n : Nat} (hPos : 1 ≤ n) (hShort : n < p.header.length) :
    pushHeader (0x6a :: p.header.take n) 1 = some none := by
  have hLength := p.length_header
  obtain ⟨m, rfl⟩ := Nat.exists_eq_add_of_le' hPos
  have hOp : (0x6a :: p.header.take (m + 1)).getD 1 0 = p.form.opcode p.data.length := rfl
  have hScript : (0x6a :: p.header.take (m + 1)).length ≤ 1 + p.form.lengthBytes := by
    rw [List.length_cons, List.length_take]
    omega
  have hNone : countedHeader (0x6a :: p.header.take (m + 1)) 1 p.form.lengthBytes = none := if_pos hScript
  unfold pushHeader
  rw [hOp]
  cases hForm : p.form with
  | direct =>
    rw [hForm] at hLength
    have : p.header.length = 1 := hLength
    omega
  | pushdata1 =>
    rw [hForm] at hNone
    exact congrArg some hNone
  | pushdata2 =>
    rw [hForm] at hNone
    exact congrArg some hNone
  | pushdata4 =>
    rw [hForm] at hNone
    exact congrArg some hNone

end Push

theorem parseScript_write (script : Script) :
    parseOpReturnPayloadFromScript (Hex.write (0x6a :: script)) =
      if script = [] then some []
      else
        match pushHeader (0x6a :: script) 1 with
        | none => some []
        | some header =>
          header.bind fun h =>
            if h.dataLen < 0 ∨ ((0x6a :: script).length : Int) < h.offset + h.dataLen then none
            else some (((0x6a :: script).drop h.offset).take h.dataLen.toNat) := by
  unfold parseOpReturnPayloadFromScript
  rw [bytesFromHex_of_filter (by simp) (filter_write _), Option.bind_some, if_neg (by simp)]
  cases script with
  | nil => rfl
  | cons op rest => rw [if_neg (by simp), if_neg (by simp)]

/-- What the parser gives for the front of a push and any bytes behind it. -/
theorem parseScript_header (p : Push) (tail : Script) :
    parseOpReturnPayloadFromScript (Hex.write (0x6a :: (p.header ++ tail))) =
      if p.form = .direct ∧ p.data = [] then some []
      else if p.data.length < 2 ^ 31 ∧ p.data.length ≤ tail.length then some (tail.take p.data.length)
      else none := by
  have hDrop : (0x6a :: (p.header ++ tail)).drop (1 + p.header.length) = tail := by
    rw [Nat.add_comm, List.drop_succ_cons, List.drop_left]
  rw [parseScript_write, if_neg (by simp [Push.header]), p.pushHeader_header]
  by_cases hEmpty : p.form = .direct ∧ p.data = []
  · rw [if_pos hEmpty, if_pos hEmpty]
  · rw [if_neg hEmpty, if_neg hEmpty]
    dsimp only
    rw [Option.bind_some, hDrop, List.length_cons, List.length_append]
    by_cases hLess : p.data.length < 2 ^ 31
    · rw [if_pos hLess]
      by_cases hLong : p.data.length ≤ tail.length
      · rw [if_neg (by push_cast; omega), if_pos ⟨hLess, hLong⟩, Int.toNat_natCast]
      · rw [if_pos (by push_cast; omega), if_neg (fun h => hLong h.2)]
    · have hFits : p.data.length < 2 ^ 32 := by
        refine p.fits.trans_le ?_
        cases p.form <;> decide
      rw [if_neg hLess, if_pos (by push_cast; omega), if_neg (fun h => hLess h.1)]

theorem parseScript_endsInside {p : Push} {script : Script} (h : EndsInside p script) :
    parseOpReturnPayloadFromScript (Hex.write script) = none := by
  obtain ⟨n, hPos, hLess, rfl⟩ := h
  rw [Push.bytes, List.length_append] at hLess
  rcases Nat.lt_or_ge n p.header.length with hShort | hLong
  · have hTake : p.bytes.take n = p.header.take n := List.take_append_of_le_length (Nat.le_of_lt hShort)
    have hNe : p.header.take n ≠ [] := by
      apply List.ne_nil_of_length_pos
      rw [List.length_take]
      omega
    rw [hTake, parseScript_write, if_neg hNe, p.pushHeader_short hPos hShort]
    rfl
  · have hTake : p.bytes.take n = p.header ++ p.data.take (n - p.header.length) := by
      rw [Push.bytes, List.take_append, List.take_of_length_le hLong]
    have hData : ¬ (p.form = .direct ∧ p.data = []) := by
      rintro ⟨-, hNil⟩
      rw [hNil, List.length_nil] at hLess
      omega
    rw [hTake, parseScript_header, if_neg hData, if_neg]
    rw [List.length_take]
    omega

/-- A script gives the data of its first push, unless the length is read as a negative one. -/
theorem parseScript_returnScript (p : Push) (rest : List Push) :
    parseOpReturnPayloadFromScript (Hex.write (returnScript (p :: rest))) =
      if p.data.length < 2 ^ 31 then some p.data else none := by
  have hScript : returnScript (p :: rest) = 0x6a :: (p.header ++ (p.data ++ rest.flatMap Push.bytes)) := by
    rw [returnScript, List.flatMap_cons, Push.bytes, List.append_assoc]
  rw [hScript, parseScript_header, List.take_left, List.length_append]
  by_cases hEmpty : p.form = .direct ∧ p.data = []
  · rw [if_pos hEmpty, if_pos (by simp [hEmpty.2]), hEmpty.2]
  · rw [if_neg hEmpty]
    simp

/-! ## Texts -/

theorem trim_eq_self {text : List Char} (hHead : ∀ c, text.head? = some c → isTrimmed c = false)
    (hLast : ∀ c, text.getLast? = some c → isTrimmed c = false) : trim text = text := by
  have hDrop : ∀ {l : List Char}, (∀ c, l.head? = some c → isTrimmed c = false) → l.dropWhile isTrimmed = l := by
    intro l h
    cases l with
    | nil => rfl
    | cons c l => rw [List.dropWhile_cons, h c rfl, if_neg Bool.false_ne_true]
  rw [trim, hDrop hHead, hDrop (fun c hc => hLast c (by rwa [List.head?_reverse] at hc)), List.reverse_reverse]

theorem trim_cons {c : Char} (h : isTrimmed c = true) (text : List Char) : trim (c :: text) = trim text := by
  rw [trim, List.dropWhile_cons, h, if_pos rfl, trim]

/-- The texts of the pushes, each behind a space. -/
def pushTexts (pushes : List Push) : List Char := pushes.flatMap fun p => ' ' :: Hex.write p.data

theorem getLast_write {bytes : Script} (h : bytes ≠ []) :
    ∃ n < 16, (Hex.write bytes).getLast? = some (Hex.digit n) := by
  obtain ⟨front, b, rfl⟩ := List.eq_nil_or_concat' bytes |>.resolve_left h
  refine ⟨b.toNat % 16, (Hex.halves_lt b).2, ?_⟩
  have hLast : Hex.write [b] = [Hex.digit (b.toNat / 16), Hex.digit (b.toNat % 16)] := rfl
  rw [Hex.write_append, hLast, List.getLast?_append]
  rfl

theorem getLast_pushTexts {pushes : List Push} (hNe : pushes ≠ []) (hData : ∀ p ∈ pushes, p.data ≠ []) :
    ∃ n < 16, (pushTexts pushes).getLast? = some (Hex.digit n) := by
  obtain ⟨front, p, rfl⟩ := List.eq_nil_or_concat' pushes |>.resolve_left hNe
  obtain ⟨n, hn, hLast⟩ := getLast_write (hData p (by simp))
  refine ⟨n, hn, ?_⟩
  have hCons : (' ' :: Hex.write p.data).getLast? = some (Hex.digit n) := by
    rw [List.getLast?_cons, hLast]
    rfl
  rw [pushTexts, List.flatMap_append, List.flatMap_singleton, List.getLast?_append, hCons]
  rfl

theorem filter_pushTexts (pushes : List Push) :
    (pushTexts pushes).filter (fun c => !isTrimmed c) = Hex.write (pushes.flatMap Push.data) := by
  induction pushes with
  | nil => rfl
  | cons p pushes ih =>
    have hCons : pushTexts (p :: pushes) = ' ' :: (Hex.write p.data ++ pushTexts pushes) := rfl
    rw [hCons, List.filter_cons, if_neg (by decide), List.filter_append, filter_write, ih, List.flatMap_cons,
      Hex.write_append]

/-- The text gives the data of all pushes. -/
theorem parseAsm_returnAsm {pushes : List Push} (hNe : pushes ≠ []) (hData : ∀ p ∈ pushes, p.data ≠ []) :
    parseOpReturnPayloadFromAsm (returnAsm pushes) = some (pushes.flatMap Push.data) := by
  obtain ⟨n, hn, hLast⟩ := getLast_pushTexts hNe hData
  obtain ⟨p, rest, rfl⟩ := List.exists_cons_of_ne_nil hNe
  obtain ⟨b, data, hFirst⟩ := List.exists_cons_of_ne_nil (hData p List.mem_cons_self)
  have hCons : pushTexts (p :: rest) = ' ' :: (Hex.write p.data ++ pushTexts rest) := rfl
  have hHead : (Hex.write p.data ++ pushTexts rest).head? = some (Hex.digit (b.toNat / 16)) := by
    rw [hFirst]
    rfl
  have hEnd : (Hex.write p.data ++ pushTexts rest).getLast? = some (Hex.digit n) := by
    rw [hCons, List.getLast?_cons] at hLast
    cases hRest : (Hex.write p.data ++ pushTexts rest).getLast? with
    | none =>
      rw [List.getLast?_eq_none_iff.mp hRest] at hHead
      cases hHead
    | some c =>
      rw [hRest] at hLast
      exact hLast
  have hText : returnAsm (p :: rest) = opReturnWord ++ pushTexts (p :: rest) := rfl
  have hTrim : trim (returnAsm (p :: rest)) = returnAsm (p :: rest) := by
    apply trim_eq_self
    · rintro c hc
      cases hc
      decide
    · intro c hc
      rw [hText, List.getLast?_append, hLast] at hc
      cases hc
      exact (digit_plain n hn).1
  have hRest : trim (pushTexts (p :: rest)) = Hex.write p.data ++ pushTexts rest := by
    rw [hCons, trim_cons (by decide)]
    apply trim_eq_self
    · intro c hc
      rw [hHead] at hc
      cases hc
      exact (digit_plain _ (Hex.halves_lt b).1).1
    · intro c hc
      rw [hEnd] at hc
      cases hc
      exact (digit_plain n hn).1
  have hStarts : startsWithOpReturn (returnAsm (p :: rest)) = true := by
    unfold startsWithOpReturn
    rw [hText, List.take_left, List.drop_left, hCons, List.head?_cons]
    decide
  have hFilter := filter_pushTexts (p :: rest)
  rw [hCons, List.filter_cons, if_neg (by decide)] at hFilter
  unfold parseOpReturnPayloadFromAsm
  dsimp only
  rw [hTrim, hStarts, if_neg (by decide), hText, List.drop_left, hRest, if_neg (fun hNil => by simp [hNil] at hHead)]
  apply bytesFromHex_of_filter _ hFilter
  rw [List.flatMap_cons, hFirst]
  exact List.cons_ne_nil _ _

/-! ## Both parsers -/

/-- The script is read up to its first push only. -/
theorem parsers_agree_iff {pushes : List Push} (hNe : pushes ≠ []) (hData : ∀ p ∈ pushes, p.data ≠ []) :
    parseOpReturnPayloadFromAsm (returnAsm pushes) =
        parseOpReturnPayloadFromScript (Hex.write (returnScript pushes)) ↔
      pushes.length = 1 ∧ ∀ p ∈ pushes, p.data.length < 2 ^ 31 := by
  rw [parseAsm_returnAsm hNe hData]
  obtain ⟨p, rest, rfl⟩ := List.exists_cons_of_ne_nil hNe
  rw [parseScript_returnScript]
  by_cases hLess : p.data.length < 2 ^ 31
  · rw [if_pos hLess, Option.some_inj, List.flatMap_cons, List.append_right_eq_self, List.flatMap_eq_nil_iff]
    constructor
    · intro hEmpty
      cases rest with
      | nil => exact ⟨rfl, by simpa using hLess⟩
      | cons q rest => exact absurd (hEmpty q List.mem_cons_self) (hData q (by simp))
    · rintro ⟨hOne, -⟩ q hq
      rw [List.length_eq_zero_iff.mp (Nat.succ.inj hOne)] at hq
      cases hq
  · rw [if_neg hLess]
    constructor
    · intro hNone
      cases hNone
    · rintro ⟨-, hAll⟩
      exact absurd (hAll p List.mem_cons_self) hLess

theorem payload_parsers (p : Push) (pushes : List Push) (hNe : pushes ≠ []) (hData : ∀ q ∈ pushes, q.data ≠ []) :
    (parseOpReturnPayloadFromScript (Hex.write (returnScript [p])) = some p.data ↔ p.data.length < 2 ^ 31) ∧
    (∀ script, EndsInside p script → parseOpReturnPayloadFromScript (Hex.write script) = none) ∧
    (parseOpReturnPayloadFromAsm (returnAsm pushes) =
        parseOpReturnPayloadFromScript (Hex.write (returnScript pushes)) ↔
      pushes.length = 1 ∧ ∀ q ∈ pushes, q.data.length < 2 ^ 31) := by
  refine ⟨?_, fun script => parseScript_endsInside, parsers_agree_iff hNe hData⟩
  rw [parseScript_returnScript]
  split
  · next hLess => exact ⟨fun _ => hLess, fun _ => rfl⟩
  · next hMore => exact ⟨fun hNone => (nomatch hNone), fun hLess => absurd hLess hMore⟩

/-- Two pushes of one byte each. -/
def twoPushes : List Push := [⟨.direct, [0x61], by decide⟩, ⟨.direct, [0x62], by decide⟩]

theorem payload_twoPushes :
    returnAsm twoPushes = "OP_RETURN 61 62".toList ∧ Hex.write (returnScript twoPushes) = "6a01610162".toList ∧
      parseOpReturnPayloadFromAsm (returnAsm twoPushes) = some [0x61, 0x62] ∧
      parseOpReturnPayloadFromScript (Hex.write (returnScript twoPushes)) = some [0x61] := by
  decide +kernel

theorem payload_onePush :
    parseOpReturnPayloadFromAsm (returnAsm [⟨.pushdata1, [0x61], by decide⟩]) =
      parseOpReturnPayloadFromScript (Hex.write (returnScript [⟨.pushdata1, [0x61], by decide⟩])) :=
  (payload_parsers ⟨.direct, [], by decide⟩ [⟨.pushdata1, [0x61], by decide⟩] (by decide) (by decide)).2.2.mpr
    (by decide)

end Bloodhound.Chain
