import Bloodhound.Lib.Text

/-!
# Checkpoints

`checkpoint.cpp`: a checkpoint is written as JSON text in one go after its file has been emptied, and
read back by searching for its keys. The characters stand for the bytes of the file.

A file that holds a prefix of the text is read back as the state that was written exactly when the
last number is complete and the hashes hold nothing that is escaped (`checkpoint_restored_iff`).
-/

namespace Bloodhound.Scanner

abbrev Text := List Char

/-- How a `double` is printed and read; the text of one has no quote, and is read back up to a comma. -/
structure DoubleIo (δ : Type) where
  print : δ → Text
  stod : Text → Option δ
  print_noQuote : ∀ d, '"' ∉ print d
  stod_print : ∀ d rest, (stod (print d ++ ',' :: rest)).isSome

structure CheckpointState (δ : Type) where
  runId : Text
  configHash : Text
  nextPadIndex : UInt64
  padsTotal : UInt64
  seedsTested : UInt64
  hits : UInt64
  elapsedSec : δ
  victimSnapshotHash : Text
  gpuUtilPct : Int32

/-! ## Writing -/

def escapeJson (s : Text) : Text := Text.escape '"' '\\' s

def printUInt64 (n : UInt64) : Text := Nat.toDigits 10 n.toNat

def printInt (i : Int32) : Text :=
  if i.toInt < 0 then '-' :: Nat.toDigits 10 i.toInt.natAbs else Nat.toDigits 10 i.toInt.natAbs

/-- A key in quotes, up to its value. -/
def keyText (key : String) (value : Text) : Text := '"' :: (key.toList ++ '"' :: ':' :: ' ' :: value)

/-- A line of the file; the value goes up to the rest of the file. -/
def line (key : String) (value : Text) : Text := ' ' :: ' ' :: keyText key value

/-- A value in quotes, and the end of its line. -/
def stringValue (s rest : Text) : Text := '"' :: (escapeJson s ++ '"' :: ',' :: '\n' :: rest)

def numberValue (digits rest : Text) : Text := digits ++ ',' :: '\n' :: rest

/-- The text that `save_checkpoint` writes, up to the last number. -/
def savedFields {δ : Type} (io : DoubleIo δ) (state : CheckpointState δ) (rest : Text) : Text :=
  '{' :: '\n' ::
    line "run_id" (stringValue state.runId
    (line "config_hash" (stringValue state.configHash
    (line "next_pad_index" (numberValue (printUInt64 state.nextPadIndex)
    (line "pads_total" (numberValue (printUInt64 state.padsTotal)
    (line "seeds_tested" (numberValue (printUInt64 state.seedsTested)
    (line "hits" (numberValue (printUInt64 state.hits)
    (line "elapsed_sec" (numberValue (io.print state.elapsedSec)
    (line "victim_snapshot_hash" (stringValue state.victimSnapshotHash
    (line "gpu_util_pct" (printInt state.gpuUtilPct ++ rest)))))))))))))))))

/-- `save_checkpoint`. -/
def saveCheckpoint {δ : Type} (io : DoubleIo δ) (state : CheckpointState δ) : Text :=
  savedFields io state ['\n', '}', '\n']

/-! ## Reading -/

def isSpace (c : Char) : Bool := c ∈ [' ', '\t', '\n', '\x0b', '\x0c', '\r']

/-- The sign of a number, and its digits. -/
def readSign : Text → Bool × Text
  | '-' :: rest => (true, rest)
  | '+' :: rest => (false, rest)
  | s => (false, s)

/-- `std::stoull`: white space, a sign and digits; nothing where it throws. A negative number is
taken modulo 2^64. -/
def stoull (s : Text) : Option UInt64 :=
  let signed := readSign (s.dropWhile isSpace)
  let digits := signed.2.takeWhile Char.isDigit
  let value := Nat.ofDigitChars 10 digits 0
  if digits = [] ∨ 2 ^ 64 ≤ value then none
  else some (UInt64.ofInt (if signed.1 then -value else value))

/-- How a load ends other than with a state. -/
inductive LoadError
  | notFound
  | invalidJson
  | threw
  deriving DecidableEq

/-- `find_num`: the value stays as it is where the key is not found. -/
def findNum (content : Text) (key : String) (out : UInt64) : Except LoadError UInt64 :=
  match Text.after (keyText key []) content with
  | none => pure out
  | some rest => (stoull rest).elim (throw .threw) pure

def findDbl {δ : Type} (io : DoubleIo δ) (content : Text) (key : String) (out : δ) :
    Except LoadError δ :=
  match Text.after (keyText key []) content with
  | none => pure out
  | some rest => (io.stod rest).elim (throw .threw) pure

/-- `find_str`: the value goes up to the next quote, or to the end of the file. -/
def findStr (content : Text) (key : String) : Option Text :=
  (Text.after (keyText key ['"']) content).map (Text.readUpTo '"')

/-- `load_checkpoint` into the given state; the content is missing where the file is. -/
def loadCheckpoint {δ : Type} (io : DoubleIo δ) (file : Option Text) (runId : Text)
    (state : CheckpointState δ) : Except LoadError (CheckpointState δ) := do
  let content ← file.elim (throw .notFound) pure
  let configHash ← (findStr content "config_hash").elim (throw .invalidJson) pure
  let nextPadIndex ← findNum content "next_pad_index" state.nextPadIndex
  let padsTotal ← findNum content "pads_total" state.padsTotal
  let seedsTested ← findNum content "seeds_tested" state.seedsTested
  let hits ← findNum content "hits" state.hits
  let elapsedSec ← findDbl io content "elapsed_sec" state.elapsedSec
  let victimSnapshotHash := (findStr content "victim_snapshot_hash").getD state.victimSnapshotHash
  let gpu ← findNum content "gpu_util_pct" (UInt64.ofInt state.gpuUtilPct.toInt)
  pure
    { runId, configHash, nextPadIndex, padsTotal, seedsTested, hits, elapsedSec, victimSnapshotHash
      gpuUtilPct := Int32.ofInt gpu.toNat }

/-! ## Searching a saved text -/

section Search

variable {δ : Type} {key key' : String} {n v rest : Text}

/-- A key that is found in quotes only: it holds none, and what follows a quoted value does not start
it. -/
def IsKey (key : String) : Prop :=
  ('"' ∉ key.toList ∧ '\\' ∉ key.toList) ∧ key.toList.head? ≠ some ',' ∧
    key.toList.head? ≠ some ':' ∧ key.toList ≠ []

instance (key : String) : Decidable (IsKey key) := by unfold IsKey; infer_instance

theorem after_plain {c : Char} (h : c ≠ '"') (l : Text) :
    Text.after (keyText key n) (c :: l) = Text.after (keyText key n) l := Text.after_cons_of_ne h _ l

/-- Keys without quotes are told apart by their quoted forms. -/
theorem eq_of_quoted {k k' : Text} (h : '"' ∉ k) (h' : '"' ∉ k') {l l' : Text}
    (hPrefix : k ++ '"' :: l <+: k' ++ '"' :: l') : k = k' := by
  induction k generalizing k' with
  | nil =>
    cases k' with
    | nil => rfl
    | cons c k' => exact absurd ((List.cons_prefix_cons.mp hPrefix).1 ▸ List.mem_cons_self) h'
  | cons c k ih =>
    cases k' with
    | nil => exact absurd ((List.cons_prefix_cons.mp hPrefix).1 ▸ List.mem_cons_self) h
    | cons c' k' =>
      obtain ⟨rfl, hTail⟩ := List.cons_prefix_cons.mp hPrefix
      rw [ih (fun hc => h (List.mem_cons_of_mem _ hc)) (fun hc => h' (List.mem_cons_of_mem _ hc)) hTail]

/-- The line of another key. -/
theorem after_line (hKey : IsKey key) (hKey' : IsKey key') (hNe : key.toList ≠ key'.toList) :
    Text.after (keyText key n) (line key' v) = Text.after (keyText key n) v := by
  have hOpen : ¬ keyText key n <+: keyText key' v := fun hPrefix =>
    hNe (eq_of_quoted hKey.1.1 hKey'.1.1 (List.cons_prefix_cons.mp hPrefix).2)
  have hClose : ¬ keyText key n <+: '"' :: ':' :: ' ' :: v := by
    intro hPrefix
    obtain ⟨c, k, hk⟩ := List.exists_cons_of_ne_nil hKey.2.2.2
    have hTail := (List.cons_prefix_cons.mp hPrefix).2
    rw [hk] at hTail
    exact hKey.2.2.1 (by rw [hk, (List.cons_prefix_cons.mp hTail).1]; rfl)
  have hSpaces : Text.after (keyText key n) (line key' v) = Text.after (keyText key n) (keyText key' v) :=
    (after_plain (by decide) _).trans (after_plain (by decide) _)
  have hBody : Text.after (keyText key n) (key'.toList ++ '"' :: ':' :: ' ' :: v) =
      Text.after (keyText key n) ('"' :: ':' :: ' ' :: v) := Text.after_skip hKey'.1.1 _
  have hRest : Text.after (keyText key n) (':' :: ' ' :: v) = Text.after (keyText key n) v :=
    (after_plain (by decide) _).trans (after_plain (by decide) _)
  rw [hSpaces]
  refine (Text.after_cons_of_not_prefix hOpen).trans ?_
  rw [hBody]
  exact (Text.after_cons_of_not_prefix hClose).trans hRest

theorem after_line_self : Text.after (keyText key n) (line key (n ++ v)) = some v := by
  have hSpaces : Text.after (keyText key n) (line key (n ++ v)) =
      Text.after (keyText key n) (keyText key (n ++ v)) :=
    (after_plain (by decide) _).trans (after_plain (by decide) _)
  have hHit : keyText key (n ++ v) = keyText key n ++ v := by
    unfold keyText
    simp
  rw [hSpaces, hHit]
  exact Text.after_hit _ v

theorem after_stringValue (hKey : IsKey key) (s : Text) :
    Text.after (keyText key n) (stringValue s v) = Text.after (keyText key n) v := by
  refine (Text.after_quoted hKey.1 (by decide) (by decide) hKey.2.1 hKey.2.2.2 s).trans ?_
  exact (after_plain (by decide) _).trans (after_plain (by decide) _)

theorem after_numberValue {digits : Text} (hDigits : '"' ∉ digits) :
    Text.after (keyText key n) (numberValue digits v) = Text.after (keyText key n) v := by
  refine (Text.after_skip hDigits _).trans ?_
  exact (after_plain (by decide) _).trans (after_plain (by decide) _)

theorem noQuote_of_isDigit {digits : Text} (h : ∀ c ∈ digits, c.isDigit = true) : '"' ∉ digits :=
  fun hQuote => absurd (h _ hQuote) (by decide)

theorem isDigit_of_mem_toDigits (m : Nat) : ∀ c ∈ Nat.toDigits 10 m, c.isDigit = true :=
  fun _ hc => Nat.isDigit_of_mem_toDigits (by decide) (by decide) hc

theorem noQuote_printUInt64 (m : UInt64) : '"' ∉ printUInt64 m :=
  noQuote_of_isDigit (isDigit_of_mem_toDigits _)

end Search

/-! ## Numbers -/

/-- Digits in front of something else are read back. -/
theorem takeWhile_isDigit {digits : Text} (h : ∀ c ∈ digits, c.isDigit = true) {rest : Text}
    (hRest : rest.head?.all (fun c => !c.isDigit) = true) :
    (digits ++ rest).takeWhile Char.isDigit = digits := by
  rw [List.takeWhile_append_of_pos h]
  cases rest with
  | nil => simp
  | cons c rest =>
    have hc : c.isDigit = false := by simpa using hRest
    rw [List.takeWhile_cons_of_neg (by simp [hc]), List.append_nil]

/-- A text that starts with a digit starts with neither white space nor a sign. -/
theorem readSign_of_isDigit {c : Char} (h : c.isDigit = true) (rest : Text) :
    readSign ((c :: rest).dropWhile isSpace) = (false, c :: rest) := by
  have hSpace : isSpace c = false := by
    by_contra hc
    simp only [isSpace, Bool.not_eq_false, decide_eq_true_eq, List.mem_cons, List.not_mem_nil,
      or_false] at hc
    rcases hc with rfl | rfl | rfl | rfl | rfl | rfl <;> exact absurd h (by decide)
  rw [List.dropWhile_cons_of_neg (by simp [hSpace])]
  unfold readSign
  split
  · next hEq => exact absurd ((List.cons.inj hEq).1 ▸ h) (by decide)
  · next hEq => exact absurd ((List.cons.inj hEq).1 ▸ h) (by decide)
  · rfl

/-- A number, by its sign and its digits. -/
theorem stoull_of_digits {digits rest : Text} {s : Text} (neg : Bool)
    (hSign : readSign (s.dropWhile isSpace) = (neg, digits ++ rest)) (hNe : digits ≠ [])
    (hDigits : ∀ c ∈ digits, c.isDigit = true)
    (hRest : rest.head?.all (fun c => !c.isDigit) = true)
    (hSmall : Nat.ofDigitChars 10 digits 0 < 2 ^ 64) :
    stoull s = some (UInt64.ofInt
      (if neg then -(Nat.ofDigitChars 10 digits 0 : Int) else Nat.ofDigitChars 10 digits 0)) := by
  unfold stoull
  simp only [hSign, takeWhile_isDigit hDigits hRest]
  rw [if_neg]
  rintro (hNil | hLarge)
  · exact hNe hNil
  · omega

theorem readSign_digits {digits : Text} (hNe : digits ≠ []) (hDigits : ∀ c ∈ digits, c.isDigit = true)
    (rest : Text) : readSign ((digits ++ rest).dropWhile isSpace) = (false, digits ++ rest) := by
  obtain ⟨c, digits, rfl⟩ := List.exists_cons_of_ne_nil hNe
  exact readSign_of_isDigit (hDigits c List.mem_cons_self) _

theorem uint64_ofInt_natCast (m : UInt64) : UInt64.ofInt (m.toNat : Int) = m := by
  refine UInt64.toNat_inj.mp ?_
  have hLt := m.toNat_lt
  rw [UInt64.ofInt, UInt64.toNat_ofNat']
  omega

theorem stoull_printUInt64 (m : UInt64) {rest : Text}
    (hRest : rest.head?.all (fun c => !c.isDigit) = true) :
    stoull (printUInt64 m ++ rest) = some m := by
  have hDigits := isDigit_of_mem_toDigits m.toNat
  have hRead := stoull_of_digits false (readSign_digits Nat.toDigits_ne_nil hDigits rest)
    Nat.toDigits_ne_nil hDigits hRest (by rw [Nat.ofDigitChars_ten_toDigits]; exact m.toNat_lt)
  rw [Nat.ofDigitChars_ten_toDigits] at hRead
  simp only [Bool.false_eq_true, if_false, uint64_ofInt_natCast] at hRead
  exact hRead

theorem natAbs_toInt_lt (g : Int32) : g.toInt.natAbs < 2 ^ 64 := by
  have hLow := g.le_toInt
  have hHigh := g.toInt_lt
  omega

/-- The sign and the digits of an `int` that is followed by something else. -/
theorem readSign_printInt (g : Int32) (rest : Text) :
    readSign ((printInt g ++ rest).dropWhile isSpace) =
      (decide (g.toInt < 0), Nat.toDigits 10 g.toInt.natAbs ++ rest) := by
  unfold printInt
  split
  · next hNeg =>
    rw [decide_eq_true hNeg, List.cons_append, List.dropWhile_cons_of_neg (by decide)]
    rfl
  · next hNonneg =>
    rw [decide_eq_false hNonneg]
    exact readSign_digits Nat.toDigits_ne_nil (isDigit_of_mem_toDigits _) rest

theorem stoull_printInt (g : Int32) {rest : Text}
    (hRest : rest.head?.all (fun c => !c.isDigit) = true) :
    stoull (printInt g ++ rest) = some (UInt64.ofInt g.toInt) := by
  have hRead := stoull_of_digits _ (readSign_printInt g rest) Nat.toDigits_ne_nil
    (isDigit_of_mem_toDigits _) hRest
    (by rw [Nat.ofDigitChars_ten_toDigits]; exact natAbs_toInt_lt g)
  rw [hRead, Nat.ofDigitChars_ten_toDigits]
  congr 2
  by_cases hNeg : g.toInt < 0
  · simp only [hNeg, decide_true, if_true]
    omega
  · simp only [hNeg, decide_false, Bool.false_eq_true, if_false]
    omega

/-- The conversion to 64 bits and back. -/
theorem int32_ofInt_toNat (i : Int) : Int32.ofInt ((UInt64.ofInt i).toNat : Int) = Int32.ofInt i := by
  refine Int32.toInt_inj.mp ?_
  rw [Int32.toInt_ofInt, Int32.toInt_ofInt, UInt64.ofInt, UInt64.toNat_ofNat']
  have hMod : (((i % 2 ^ 64).toNat % 2 ^ 64 : Nat) : Int) = i % 2 ^ 64 := by omega
  rw [hMod]
  show (i % (2 ^ 64 : Int)).bmod (2 ^ 32) = i.bmod (2 ^ 32)
  simp only [Int.bmod_def]
  omega

theorem int32_ofInt_toInt (g : Int32) : Int32.ofInt g.toInt = g := by
  refine Int32.toInt_inj.mp (Int32.toInt_ofInt_of_le ?_ g.toInt_lt)
  exact g.le_toInt

/-- An `int` that is cut short is not read back. -/
theorem stoull_cut {g : Int32} {r s : Text} (h : printInt g = r ++ s) (hs : s ≠ []) {u : UInt64}
    (hRead : stoull r = some u) : Int32.ofInt (u.toNat : Int) ≠ g := by
  have hLow : -2 ^ 31 ≤ g.toInt := g.le_toInt
  have hHigh : g.toInt < 2 ^ 31 := g.toInt_lt
  -- the digits that are left, and the sign in front of them
  have hParts : ∃ t, t ≠ [] ∧ Nat.toDigits 10 g.toInt.natAbs = t ++ s ∧
      readSign (r.dropWhile isSpace) = (decide (g.toInt < 0), t) := by
    unfold printInt at h
    split at h
    · next hNeg =>
      cases r with
      | nil => cases hRead
      | cons c t =>
        obtain ⟨rfl, hDigits⟩ := List.cons.inj h
        refine ⟨t, fun hNil => ?_, hDigits, ?_⟩
        · subst hNil
          cases hRead
        · rw [decide_eq_true hNeg, List.dropWhile_cons_of_neg (by decide)]
          rfl
    · next hNonneg =>
      have hNe : r ≠ [] := by
        rintro rfl
        cases hRead
      have hDigits : ∀ c ∈ r, c.isDigit = true := fun c hc =>
        isDigit_of_mem_toDigits g.toInt.natAbs c (h ▸ List.mem_append_left s hc)
      have hSign := readSign_digits hNe hDigits []
      rw [List.append_nil] at hSign
      exact ⟨r, hNe, h, by rw [hSign, decide_eq_false hNonneg]⟩
  obtain ⟨t, hNe, hDigits, hSign⟩ := hParts
  have hLess := Text.ofDigitChars_lt_of_cut hDigits hNe hs
  have hTail : readSign (r.dropWhile isSpace) = (decide (g.toInt < 0), t ++ []) := by
    rw [hSign, List.append_nil]
  have hValue := stoull_of_digits _ hTail hNe
    (fun c hc => isDigit_of_mem_toDigits g.toInt.natAbs c (hDigits ▸ List.mem_append_left s hc)) rfl
    (hLess.trans (natAbs_toInt_lt g))
  rw [hRead] at hValue
  rw [Option.some.inj hValue, int32_ofInt_toNat]
  intro hEq
  have hInt := congrArg Int32.toInt hEq
  by_cases hNeg : g.toInt < 0
  · simp only [hNeg, decide_true, if_true] at hInt
    rw [Int32.toInt_ofInt_of_le (by omega) (by omega)] at hInt
    omega
  · simp only [hNeg, decide_false, Bool.false_eq_true, if_false] at hInt
    rw [Int32.toInt_ofInt_of_le (by omega) (by omega)] at hInt
    omega

/-! ## What a load finds -/

section Load

variable {δ : Type} (io : DoubleIo δ) (state : CheckpointState δ) (rest : Text)

theorem after_line_number {key : String} (v : Text) :
    Text.after (keyText key []) (line key v) = some v := after_line_self

theorem after_line_string {key : String} (s v : Text) :
    Text.after (keyText key ['"']) (line key (stringValue s v)) =
      some (escapeJson s ++ '"' :: ',' :: '\n' :: v) := after_line_self

theorem stoull_numberValue (m : UInt64) (v : Text) : stoull (numberValue (printUInt64 m) v) = some m :=
  stoull_printUInt64 m rfl

/-- A saved string, as it is read back. -/
def readBack (s : Text) : Text := Text.readUpTo '"' (escapeJson s)

/-- Nothing in the string is escaped. -/
def Clean (s : Text) : Prop := '"' ∉ s ∧ '\\' ∉ s

instance (s : Text) : Decidable (Clean s) := by unfold Clean; infer_instance

theorem readBack_eq_iff (s : Text) : readBack s = s ↔ Clean s := by
  constructor
  · exact fun h => Text.clean_of_readUpTo (by decide) h
  · intro h
    unfold readBack escapeJson
    rw [Text.escape_of_clean fun c hc =>
      ⟨ne_of_mem_of_not_mem hc h.1, ne_of_mem_of_not_mem hc h.2⟩]
    exact Text.readUpTo_of_notMem h.1

/-- The load of a text whose numbers are complete. -/
theorem loadCheckpoint_savedFields (runId : Text) (init : CheckpointState δ)
    (hRest : rest.head?.all (fun c => !c.isDigit) = true) :
    ∃ elapsed, loadCheckpoint io (some (savedFields io state rest)) runId init =
      .ok { state with
        runId := runId
        configHash := readBack state.configHash
        elapsedSec := elapsed
        victimSnapshotHash := readBack state.victimSnapshotHash } := by
  have hStod := io.stod_print state.elapsedSec ('\n' :: line "victim_snapshot_hash"
    (stringValue state.victimSnapshotHash (line "gpu_util_pct" (printInt state.gpuUtilPct ++ rest))))
  obtain ⟨elapsed, hElapsed⟩ := Option.isSome_iff_exists.mp hStod
  change io.stod (numberValue (io.print state.elapsedSec) _) = some elapsed at hElapsed
  refine ⟨elapsed, ?_⟩
  unfold loadCheckpoint findNum findDbl findStr
  -- every key is found in its own line, and each of the others is passed over
  simp (disch := first | decide | exact noQuote_printUInt64 _ | exact io.print_noQuote _) only
    [savedFields, after_plain, after_line, after_line_number, after_line_string, after_stringValue,
      after_numberValue, stoull_numberValue, stoull_printInt state.gpuUtilPct hRest, hElapsed,
      Option.map_some, Option.elim_some, Text.readUpTo_append, pure_bind, Option.getD_some,
      int32_ofInt_toNat, int32_ofInt_toInt]
  rfl

theorem line_append (key : String) (v : Text) : line key v ++ rest = line key (v ++ rest) := by
  simp [line, keyText]

theorem stringValue_append (s v : Text) : stringValue s v ++ rest = stringValue s (v ++ rest) := by
  simp [stringValue]

theorem numberValue_append (digits v : Text) :
    numberValue digits v ++ rest = numberValue digits (v ++ rest) := by
  simp [numberValue]

theorem savedFields_append : savedFields io state rest = savedFields io state [] ++ rest := by
  simp only [savedFields, List.cons_append, line_append, stringValue_append, numberValue_append,
    List.append_assoc, List.nil_append]

/-- The last number is found in its own line. -/
theorem after_gpuUtilPct : Text.after (keyText "gpu_util_pct" []) (savedFields io state rest) =
    some (printInt state.gpuUtilPct ++ rest) := by
  simp (disch := first | decide | exact noQuote_printUInt64 _ | exact io.print_noQuote _) only
    [savedFields, after_plain, after_line, after_line_number, after_stringValue, after_numberValue]

theorem bind_eq_ok {α β : Type} {x : Except LoadError α} {f : α → Except LoadError β} {b : β}
    (h : x >>= f = .ok b) : ∃ a, x = .ok a ∧ f a = .ok b := by
  cases x with
  | error e => cases h
  | ok a => exact ⟨a, rfl, h⟩

/-- The last number of a loaded state is the one that is found, or the given one. -/
theorem gpuUtilPct_of_loadCheckpoint {content runId : Text} {init loaded : CheckpointState δ}
    (h : loadCheckpoint io (some content) runId init = .ok loaded) :
    ∃ gpu, findNum content "gpu_util_pct" (UInt64.ofInt init.gpuUtilPct.toInt) = .ok gpu ∧
      loaded.gpuUtilPct = Int32.ofInt gpu.toNat := by
  obtain ⟨c, hContent, h⟩ := bind_eq_ok h
  cases hContent
  obtain ⟨config, _, h⟩ := bind_eq_ok h
  obtain ⟨nextPad, _, h⟩ := bind_eq_ok h
  obtain ⟨pads, _, h⟩ := bind_eq_ok h
  obtain ⟨seeds, _, h⟩ := bind_eq_ok h
  obtain ⟨hits, _, h⟩ := bind_eq_ok h
  obtain ⟨elapsed, _, h⟩ := bind_eq_ok h
  obtain ⟨gpu, hGpu, h⟩ := bind_eq_ok h
  cases h
  exact ⟨gpu, hGpu, rfl⟩

end Load

/-! ## Files that hold a prefix -/

section Prefixes

variable {δ : Type}

/-- The integers and strings of the states agree. -/
structure SameFields (a b : CheckpointState δ) : Prop where
  runId : a.runId = b.runId
  configHash : a.configHash = b.configHash
  nextPadIndex : a.nextPadIndex = b.nextPadIndex
  padsTotal : a.padsTotal = b.padsTotal
  seedsTested : a.seedsTested = b.seedsTested
  hits : a.hits = b.hits
  victimSnapshotHash : a.victimSnapshotHash = b.victimSnapshotHash
  gpuUtilPct : a.gpuUtilPct = b.gpuUtilPct

/-- The file that holds the first characters of a state is loaded as this state or as the one before
it, never as one that is further on, and as this one where all of it was written. -/
def RestoredAt (io : DoubleIo δ) (new : CheckpointState δ) (k : Nat) : Prop :=
  ∀ old init : CheckpointState δ, old.runId = new.runId → ∃ loaded,
    loadCheckpoint io (some ((saveCheckpoint io new).take k)) new.runId init = .ok loaded ∧
      (SameFields loaded old ∨ SameFields loaded new) ∧
      loaded.nextPadIndex.toNat ≤ max old.nextPadIndex.toNat new.nextPadIndex.toNat ∧
      ((saveCheckpoint io new).length ≤ k → SameFields loaded new)

/-- A cut that leaves a digit of the last number out, or its key. -/
theorem gpuUtilPct_of_cut {io : DoubleIo δ} {new : CheckpointState δ} {k : Nat}
    (hk : k < (savedFields io new []).length) {init loaded : CheckpointState δ}
    (hInit : init.gpuUtilPct ≠ new.gpuUtilPct)
    (h : loadCheckpoint io (some ((saveCheckpoint io new).take k)) new.runId init = .ok loaded) :
    loaded.gpuUtilPct ≠ new.gpuUtilPct := by
  obtain ⟨gpu, hGpu, hLoaded⟩ := gpuUtilPct_of_loadCheckpoint io h
  rw [hLoaded]
  unfold findNum at hGpu
  split at hGpu
  · -- the key is not found, and the number stays as it is
    cases hGpu
    rw [int32_ofInt_toNat, int32_ofInt_toInt]
    exact hInit
  · next r hFound =>
    have hWhole := Text.after_append hFound ((saveCheckpoint io new).drop k)
    rw [List.take_append_drop] at hWhole
    have hText := Option.some.inj (hWhole.symm.trans (after_gpuUtilPct io new _))
    have hShort : r.length < (printInt new.gpuUtilPct).length := by
      have hLength := congrArg List.length hText
      have hAll := congrArg List.length (savedFields_append io new ['\n', '}', '\n'])
      change (saveCheckpoint io new).length = _ at hAll
      rw [List.length_append, List.length_append, List.length_drop, hAll, List.length_append] at hLength
      omega
    obtain ⟨s, hs⟩ := List.prefix_of_prefix_length_le ⟨_, hText⟩ (List.prefix_append _ _) hShort.le
    have hNe : s ≠ [] := by
      rintro rfl
      rw [List.append_nil] at hs
      rw [hs] at hShort
      exact absurd hShort (lt_irrefl _)
    cases hRead : stoull r with
    | none =>
      rw [hRead] at hGpu
      cases hGpu
    | some u =>
      rw [hRead] at hGpu
      cases hGpu
      exact stoull_cut hs.symm hNe hRead

/-- The load of a file with all the numbers. -/
theorem loadCheckpoint_take (io : DoubleIo δ) (new : CheckpointState δ) {k : Nat}
    (hk : (savedFields io new []).length ≤ k) (runId : Text) (init : CheckpointState δ) : ∃ elapsed,
    loadCheckpoint io (some ((saveCheckpoint io new).take k)) runId init =
      .ok { new with
        runId := runId
        configHash := readBack new.configHash
        elapsedSec := elapsed
        victimSnapshotHash := readBack new.victimSnapshotHash } := by
  have hSaved : saveCheckpoint io new = savedFields io new [] ++ ['\n', '}', '\n'] :=
    savedFields_append io new _
  rw [hSaved, List.take_append, List.take_of_length_le hk, ← savedFields_append]
  refine loadCheckpoint_savedFields io new _ runId init ?_
  cases k - (savedFields io new []).length <;> rfl

/-- A file with the first characters of a checkpoint is safe to load exactly when they reach to the end
of the last number and the hashes have no quote and no backslash. -/
theorem checkpoint_restored_iff (io : DoubleIo δ) (new : CheckpointState δ) (k : Nat) :
    RestoredAt io new k ↔ (savedFields io new []).length ≤ k ∧ Clean new.configHash ∧
      Clean new.victimSnapshotHash := by
  constructor
  · intro h
    have hk : (savedFields io new []).length ≤ k := by
      by_contra hCut
      have hOther : new.gpuUtilPct + 1 ≠ new.gpuUtilPct := by simp
      obtain ⟨loaded, hLoad, hSame, _⟩ := h new { new with gpuUtilPct := new.gpuUtilPct + 1 } rfl
      refine gpuUtilPct_of_cut (by omega) hOther hLoad ?_
      rcases hSame with hSame | hSame <;> exact hSame.gpuUtilPct
    obtain ⟨loaded, hLoad, hSame, _⟩ := h new new rfl
    obtain ⟨elapsed, hRead⟩ := loadCheckpoint_take io new hk new.runId new
    rw [hRead] at hLoad
    cases hLoad
    have hNew : SameFields _ new := hSame.elim id id
    exact ⟨hk, (readBack_eq_iff _).mp hNew.configHash, (readBack_eq_iff _).mp hNew.victimSnapshotHash⟩
  · rintro ⟨hk, hConfig, hVictims⟩ old init _
    obtain ⟨elapsed, hRead⟩ := loadCheckpoint_take io new hk new.runId init
    rw [(readBack_eq_iff _).mpr hConfig, (readBack_eq_iff _).mpr hVictims] at hRead
    have hSame : SameFields { new with elapsedSec := elapsed } new :=
      ⟨rfl, rfl, rfl, rfl, rfl, rfl, rfl, rfl⟩
    exact ⟨_, hRead, Or.inr hSame, Nat.le_max_right _ _, fun _ => hSame⟩

end Prefixes

/-! ### A cut in front of a number -/

/-- Durations of whole seconds. -/
def wholeSeconds : DoubleIo Nat where
  print := Nat.toDigits 10
  stod s := some (Nat.ofDigitChars 10 (s.takeWhile Char.isDigit) 0)
  print_noQuote d := noQuote_of_isDigit (isDigit_of_mem_toDigits d)
  stod_print _ _ := rfl

def freshCheckpoint : CheckpointState Nat where
  runId := []
  configHash := []
  nextPadIndex := 0
  padsTotal := 0
  seedsTested := 0
  hits := 0
  elapsedSec := 0
  victimSnapshotHash := []
  gpuUtilPct := 100

def checkpointAt (nextPadIndex : UInt64) : CheckpointState Nat :=
  { freshCheckpoint with runId := ['r'], configHash := ['c'], nextPadIndex, victimSnapshotHash := ['v'] }

/-- The file ends with the key of the first number: the load throws. -/
theorem checkpoint_load_throws : ¬ ∀ (old new : CheckpointState Nat) (k : Nat), old.runId = new.runId →
    ∃ loaded, loadCheckpoint wholeSeconds (some ((saveCheckpoint wholeSeconds new).take k)) new.runId
      freshCheckpoint = .ok loaded ∧ (SameFields loaded old ∨ SameFields loaded new) ∧
      loaded.nextPadIndex.toNat ≤ max old.nextPadIndex.toNat new.nextPadIndex.toNat ∧
      ((saveCheckpoint wholeSeconds new).length ≤ k → SameFields loaded new) := by
  intro h
  obtain ⟨loaded, hLoad, _⟩ := h (checkpointAt 1000) (checkpointAt 2000) 61 rfl
  have hThrows : (loadCheckpoint wholeSeconds (some ((saveCheckpoint wholeSeconds
      (checkpointAt 2000)).take 61)) ['r'] freshCheckpoint).toOption.isSome = false := by decide +kernel
  rw [show (checkpointAt 2000).runId = ['r'] from rfl] at hLoad
  rw [hLoad] at hThrows
  cases hThrows

end Bloodhound.Scanner
