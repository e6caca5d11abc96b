import Bloodhound.Lib.Csv
import Bloodhound.Sources.ContentHash

/-!
# The table of Bitquery

`sources/bitqueryColdcard.ts`: the addresses that a table lists as controlled by the attacker, and
their hash. A table is written in many ways: with a byte order mark or none, with either line end, with
comments and blank lines, and with its fields between quotes or not. Whatever way a table is written,
the reader takes the listed addresses from it (`parse_written`), and the hashes of two tables are equal
exactly if both list the same addresses (`contentHash_eq_iff`).

The reader cuts the text into lines before it looks at quotes; a field with a line end in it has no
place in a table (`IsText`).
-/

namespace Bloodhound.Sources

/-! ## The reader -/

/-- `toLowerCase`, for a text that is compared with letters of ASCII: besides the capital letters, the
Kelvin sign and the dotted I have such a letter in their lower case. -/
def toLowerCase (text : Page) : Page :=
  text.flatMap fun c =>
    if c = Char.ofNat 0x212a then ['k']
    else if c = Char.ofNat 0x130 then ['i', Char.ofNat 0x307]
    else [c.toLower]

def isBitqueryAttackerControlled (classification : Page) : Bool :=
  "attacker-controlled".toList.isPrefixOf (toLowerCase (trim classification))

def splitCsvLine (line : Page) : List Page := Csv.split '"' ',' line

def byteOrderMark : Char := Char.ofNat 0xfeff

/-- `replace(/^\uFEFF/, "")`. -/
def stripMark : Page → Page
  | [] => []
  | c :: rest => if c = byteOrderMark then rest else c :: rest

/-- `split(/\r?\n/)`, with the line so far. -/
def linesFrom (line : Page) : Page → List Page
  | [] => [line]
  | c :: rest =>
    if c = '\n' then line :: linesFrom [] rest
    else if c = '\r' ∧ rest.head? = some '\n' then linesFrom line rest
    else linesFrom (line ++ [c]) rest

/-- Blank lines and comments. -/
def isPassedOver (line : Page) : Bool := trim line = [] || (trim line).head? = some '#'

def dataLines (text : Page) : List Page :=
  (linesFrom [] (stripMark text)).filter fun line => !isPassedOver line

def headers (fields : List Page) : List Page := fields.map fun h => toLowerCase (trim h)

/-- The columns of the addresses and of the classifications. -/
def columns (fields : List Page) : Option (Nat × Nat) :=
  match (headers fields).idxOf? "address".toList, (headers fields).idxOf? "classification".toList with
  | some addressIdx, some classIdx => some (addressIdx, classIdx)
  | _, _ => none

/-- Every address once, in their order. -/
def sortedAddresses (words : List Page) : List Address :=
  (words.eraseDups.filterMap toAddress?).mergeSort fun a b => a.1 ≤ b.1

def missingColumns : String := "Bitquery CSV missing address and classification columns"

section Parse

variable (isAddress : Page → Bool)

/-- The address of a row that is controlled by the attacker. -/
def rowAddress (c : Nat × Nat) (cols : List Page) : Option Page :=
  if isBitqueryAttackerControlled (cols[c.2]?.getD []) then
    normalizeBitcoinAddress isAddress (cols[c.1]?.getD [])
  else none

def parseBitqueryColdcardCsv (text : Page) : Except String (List Address) :=
  match dataLines text with
  | [] => .error missingColumns
  | first :: rest =>
    match columns (splitCsvLine first) with
    | none => .error missingColumns
    | some c => .ok (sortedAddresses (rest.filterMap fun line => rowAddress isAddress c (splitCsvLine line)))

end Parse

def bitqueryColdcardContentHash (sha256Hex : String → String) (addresses : List Address) : String :=
  sha256Hex (hashedText addresses)

/-! ## Tables -/

/-- The first record has the names of the columns. -/
structure Table where
  header : List Page
  rows : List (List Page)

def Table.records (t : Table) : List (List Page) := t.header :: t.rows

/-- The field of a row under a name. -/
def Table.field (t : Table) (name : String) (row : List Page) : Page :=
  row[(headers t.header).idxOf name.toList]?.getD []

def Table.HasColumns (t : Table) : Prop :=
  "address".toList ∈ headers t.header ∧ "classification".toList ∈ headers t.header

/-- The table lists an address as controlled by the attacker. -/
def Table.Lists (isAddress : Page → Bool) (t : Table) (a : Address) : Prop :=
  ∃ row ∈ t.rows, isBitqueryAttackerControlled (t.field "classification" row) = true ∧
    normalizeBitcoinAddress isAddress (t.field "address" row) = some a.1.toList

/-- The lines of a file: the records in their order, with lines that are passed over in between. -/
inductive IsFile : List (List Page) → List Page → Prop
  | nil : IsFile [] []
  | passedOver {records : List (List Page)} {lines : List Page} {line : Page}
      (hLine : isPassedOver line = true) (h : IsFile records lines) : IsFile records (line :: lines)
  | record {records : List (List Page)} {lines : List Page} {fields : List Page} {line : Page}
      (hLine : isPassedOver line = false) (hFields : Csv.IsLine '"' ',' fields line)
      (h : IsFile records lines) : IsFile (fields :: records) (line :: lines)

/-- The texts of some lines, with a line end of either kind after each but the last. -/
inductive IsText : List Page → Page → Prop
  | last {line : Page} (hLine : '\n' ∉ line) : IsText [line] line
  | newline {lines : List Page} {line text : Page} (hLine : '\n' ∉ line)
      (hEnd : line.getLast? ≠ some '\r') (h : IsText lines text) :
      IsText (line :: lines) (line ++ '\n' :: text)
  | carriageReturn {lines : List Page} {line text : Page} (hLine : '\n' ∉ line)
      (h : IsText lines text) : IsText (line :: lines) (line ++ '\r' :: '\n' :: text)

/-- The texts of a table. -/
def Table.IsWritten (t : Table) (text : Page) : Prop :=
  ∃ lines body, IsFile t.records lines ∧ IsText lines body ∧
    (text = byteOrderMark :: body ∨ text = body ∧ body.head? ≠ some byteOrderMark)

/-! ## Lines -/

theorem linesFrom_line {line rest : Page} (hLine : '\n' ∉ line)
    (hEnd : line.getLast? ≠ some '\r' ∨ rest.head? ≠ some '\n') (cur : Page) :
    linesFrom cur (line ++ rest) = linesFrom (cur ++ line) rest := by
  induction line generalizing cur with
  | nil => rw [List.append_nil, List.nil_append]
  | cons c line ih =>
    rw [List.mem_cons, not_or] at hLine
    have hTail : line.getLast? ≠ some '\r' ∨ rest.head? ≠ some '\n' := by
      refine hEnd.imp_left fun hNot hc => hNot ?_
      rw [List.getLast?_cons, hc]
      rfl
    have hKept : ¬ (c = '\r' ∧ (line ++ rest).head? = some '\n') := by
      rintro ⟨rfl, hNext⟩
      cases line with
      | nil => exact hEnd.elim (fun hNot => hNot rfl) fun hNot => hNot hNext
      | cons d line =>
        have hd : d = '\n' := Option.some.inj hNext
        exact hLine.2 (hd ▸ List.mem_cons_self)
    rw [List.cons_append, linesFrom, if_neg (Ne.symm hLine.1), if_neg hKept, ih hLine.2 hTail,
      List.append_assoc]
    rfl

theorem linesFrom_newline (cur rest : Page) : linesFrom cur ('\n' :: rest) = cur :: linesFrom [] rest :=
  if_pos rfl

theorem linesFrom_carriageReturn (cur rest : Page) :
    linesFrom cur ('\r' :: '\n' :: rest) = cur :: linesFrom [] rest := by
  rw [linesFrom, if_neg (by decide), if_pos ⟨rfl, rfl⟩, linesFrom_newline]

theorem linesFrom_isText {lines : List Page} {text : Page} (h : IsText lines text) :
    linesFrom [] text = lines := by
  induction h with
  | @last line hLine =>
    have hAll : linesFrom [] (line ++ []) = linesFrom ([] ++ line) [] :=
      linesFrom_line hLine (Or.inr (by simp)) []
    rw [List.append_nil] at hAll
    exact hAll
  | newline hLine hEnd _ ih =>
    rw [linesFrom_line hLine (Or.inl hEnd), List.nil_append, linesFrom_newline, ih]
  | carriageReturn hLine _ ih =>
    rw [linesFrom_line hLine (Or.inr (by simp)), List.nil_append, linesFrom_carriageReturn, ih]

theorem map_splitCsvLine_isFile {records : List (List Page)} {lines : List Page}
    (h : IsFile records lines) :
    (lines.filter fun line => !isPassedOver line).map splitCsvLine = records := by
  induction h with
  | nil => rfl
  | passedOver hLine _ ih => rw [List.filter_cons_of_neg (by simp [hLine]), ih]
  | record hLine hFields _ ih =>
    rw [List.filter_cons_of_pos (by simp [hLine]), List.map_cons, ih]
    exact congrArg (· :: _) (Csv.split_of_isLine (by decide) hFields)

/-- Whatever way a table is written, its records are read. -/
theorem map_splitCsvLine_dataLines {t : Table} {text : Page} (h : t.IsWritten text) :
    (dataLines text).map splitCsvLine = t.records := by
  obtain ⟨lines, body, hFile, hText, hMark⟩ := h
  have hBody : stripMark text = body := by
    obtain rfl | ⟨rfl, hNot⟩ := hMark
    · unfold stripMark
      exact if_pos rfl
    · cases text with
      | nil => rfl
      | cons c rest => exact if_neg fun hc => hNot (congrArg some hc)
  unfold dataLines
  rw [hBody, linesFrom_isText hText, map_splitCsvLine_isFile hFile]

/-! ## Columns -/

theorem columns_eq {t : Table} (h : t.HasColumns) :
    columns t.header = some ((headers t.header).idxOf "address".toList,
      (headers t.header).idxOf "classification".toList) := by
  have hSome : ∀ {name : Page}, name ∈ headers t.header →
      (headers t.header).idxOf? name = some ((headers t.header).idxOf name) := by
    intro name hName
    cases hIdx : (headers t.header).idxOf? name with
    | none => exact absurd hName (List.idxOf?_eq_none_iff.mp hIdx)
    | some i => rw [List.idxOf_eq_getD_idxOf?, hIdx, Option.getD_some]
  unfold columns
  rw [hSome h.1, hSome h.2]

theorem columns_eq_none {t : Table} (h : ¬ t.HasColumns) : columns t.header = none := by
  unfold columns
  split
  · next hAddress hClass =>
    refine absurd ⟨?_, ?_⟩ h
    · by_contra hNot
      rw [List.idxOf?_eq_none_iff.mpr hNot] at hAddress
      cases hAddress
    · by_contra hNot
      rw [List.idxOf?_eq_none_iff.mpr hNot] at hClass
      cases hClass
  · rfl

/-! ## Listed addresses -/

theorem toAddress?_eq_some_iff {w : Page} {a : Address} : toAddress? w = some a ↔ a.1.toList = w := by
  constructor
  · exact toAddress?_eq
  · rintro rfl
    have hText : String.ofList a.1.toList = a.1 := String.ofList_toList
    unfold toAddress?
    rw [dif_pos (by rw [hText]; exact a.2)]
    exact congrArg some (Subtype.ext hText)

theorem mem_sortedAddresses {words : List Page} {a : Address} :
    a ∈ sortedAddresses words ↔ a.1.toList ∈ words := by
  unfold sortedAddresses
  rw [List.mem_mergeSort, List.mem_filterMap]
  constructor
  · rintro ⟨w, hw, hEq⟩
    rw [toAddress?_eq hEq]
    exact List.mem_eraseDups.mp hw
  · intro h
    exact ⟨_, List.mem_eraseDups.mpr h, toAddress?_eq_some_iff.mpr rfl⟩

theorem pairwise_sortedAddresses (words : List Page) :
    (sortedAddresses words).Pairwise fun a b => a.1 < b.1 := by
  have hDistinct : (words.eraseDups.filterMap toAddress?).Nodup := by
    refine List.Nodup.filterMap (fun w w' a ha ha' => ?_) (Tally.nodup_eraseDups words)
    rw [← toAddress?_eq ha, toAddress?_eq ha']
  have hNodup : (sortedAddresses words).Nodup :=
    ((List.mergeSort_perm _ _).nodup_iff).mpr hDistinct
  have hSorted : (sortedAddresses words).Pairwise fun a b => a.1 ≤ b.1 :=
    (@List.pairwise_mergeSort _ (fun a b : Address => decide (a.1 ≤ b.1))
      (fun _ _ _ h h' => decide_eq_true
        (String.le_trans (of_decide_eq_true h) (of_decide_eq_true h')))
      (fun a b => by simpa using String.le_total a.1 b.1) _).imp of_decide_eq_true
  refine (hSorted.and hNodup).imp fun {a b} h => ?_
  by_contra hNot
  exact h.2 (Subtype.ext (String.le_antisymm h.1 (String.not_lt.mp hNot)))

section Read

variable {isAddress : Page → Bool}

theorem mem_rows_iff {t : Table} {a : Address} :
    a.1.toList ∈ t.rows.filterMap (rowAddress isAddress
        ((headers t.header).idxOf "address".toList, (headers t.header).idxOf "classification".toList)) ↔
      t.Lists isAddress a := by
  rw [List.mem_filterMap]
  refine exists_congr fun row => and_congr_right fun _ => ?_
  show (if isBitqueryAttackerControlled (t.field "classification" row) = true then
    normalizeBitcoinAddress isAddress (t.field "address" row) else none) = _ ↔ _
  split
  · next h => exact ⟨fun hEq => ⟨h, hEq⟩, And.right⟩
  · next h => exact ⟨fun hEq => absurd hEq (by simp), fun hAnd => absurd hAnd.1 h⟩

/-- The text of a table is read as the rows of the table. -/
theorem parse_records {t : Table} {text : Page} (h : t.IsWritten text) :
    parseBitqueryColdcardCsv isAddress text =
      match columns t.header with
      | none => .error missingColumns
      | some c => .ok (sortedAddresses (t.rows.filterMap (rowAddress isAddress c))) := by
  have hRecords := map_splitCsvLine_dataLines h
  unfold parseBitqueryColdcardCsv
  cases hLines : dataLines text with
  | nil =>
    rw [hLines] at hRecords
    cases hRecords
  | cons first rest =>
    rw [hLines] at hRecords
    obtain ⟨hHeader, hRows⟩ := List.cons.inj hRecords
    dsimp only
    rw [hHeader]
    cases columns t.header with
    | none => rfl
    | some c =>
      dsimp only
      rw [← hRows, List.filterMap_map]
      rfl

theorem parse_of_columns {t : Table} {text : Page} {c : Nat × Nat} (h : t.IsWritten text)
    (hColumns : columns t.header = some c) :
    parseBitqueryColdcardCsv isAddress text =
      .ok (sortedAddresses (t.rows.filterMap (rowAddress isAddress c))) := by
  rw [parse_records h, hColumns]

theorem parse_lists {t : Table} {text : Page} {l : List Address} (h : t.IsWritten text)
    (hl : parseBitqueryColdcardCsv isAddress text = .ok l) :
    l.Pairwise (fun a b => a.1 < b.1) ∧ ∀ a, a ∈ l ↔ t.Lists isAddress a := by
  by_cases hColumns : t.HasColumns
  · rw [parse_of_columns h (columns_eq hColumns)] at hl
    cases hl
    exact ⟨pairwise_sortedAddresses _, fun a => mem_sortedAddresses.trans mem_rows_iff⟩
  · rw [parse_records h, columns_eq_none hColumns] at hl
    cases hl

/-- A table of two rows, one of them controlled by the attacker. -/
def listedTable : Table where
  header := ["Address".toList, " classification".toList]
  rows := [[keptWord, "attacker-controlled, confirmed".toList],
    [promotedWord, "NOT attacker-controlled".toList]]

/-- The table with a byte order mark, a comment, and a field between quotes. -/
def listedText : Page :=
  byteOrderMark :: "# block 1\r\nAddress, classification\n".toList ++ keptWord ++
    ",\"attacker-controlled, confirmed\"\r\n\r\n".toList ++ promotedWord ++
      ",NOT attacker-controlled".toList

theorem listedTable_isWritten : listedTable.IsWritten listedText := by
  have hText : IsText
      ["# block 1".toList, "Address, classification".toList,
        keptWord ++ ",\"attacker-controlled, confirmed\"".toList, [],
        promotedWord ++ ",NOT attacker-controlled".toList] listedText.tail := by
    refine .carriageReturn (by decide +kernel) (.newline (by decide +kernel) (by decide +kernel)
      (.carriageReturn (by decide +kernel) (.carriageReturn (by decide +kernel) (.last ?_))))
    decide +kernel
  have hQuoted : Csv.IsLine '"' ',' [keptWord, "attacker-controlled, confirmed".toList]
      (keptWord ++ ",\"attacker-controlled, confirmed\"".toList) :=
    ⟨List.cons_ne_nil _ _, _, .cons (.plain (by decide +kernel) (by decide +kernel))
      (.cons .quoted .nil), by decide +kernel⟩
  refine ⟨_, _, ?_, hText, Or.inl rfl⟩
  refine .passedOver (by decide +kernel) (.record (by decide +kernel) ?_ (.record (by decide +kernel)
    hQuoted (.passedOver (by decide +kernel) (.record (by decide +kernel) ?_ .nil))))
  · exact Csv.isLine_of_clean (List.cons_ne_nil _ _) (by decide +kernel) (by decide +kernel)
  · exact Csv.isLine_of_clean (List.cons_ne_nil _ _) (by decide +kernel) (by decide +kernel)

/-- Whatever way a table is written, exactly the addresses that it lists are read, each once and in
their order; a table without the two columns is refused. -/
theorem parse_written {t : Table} {text : Page} (h : t.IsWritten text) :
    (t.HasColumns → ∃ l, parseBitqueryColdcardCsv isAddress text = .ok l ∧
        l.Pairwise (fun a b => a.1 < b.1) ∧ ∀ a, a ∈ l ↔ t.Lists isAddress a) ∧
      (¬ t.HasColumns → parseBitqueryColdcardCsv isAddress text = .error missingColumns) := by
  constructor
  · intro hColumns
    have hOk := @parse_of_columns isAddress _ _ _ h (columns_eq hColumns)
    exact ⟨_, hOk, parse_lists h hOk⟩
  · intro hColumns
    rw [parse_records h, columns_eq_none hColumns]

theorem parse_written_listed :
    (listedTable.HasColumns → ∃ l, parseBitqueryColdcardCsv onlyThese listedText = .ok l ∧
        l.Pairwise (fun a b => a.1 < b.1) ∧ ∀ a, a ∈ l ↔ listedTable.Lists onlyThese a) ∧
      (¬ listedTable.HasColumns →
        parseBitqueryColdcardCsv onlyThese listedText = .error missingColumns) :=
  parse_written listedTable_isWritten

theorem alphanumeric_of_lists (hAlphabet : ∀ a, isAddress a = true → ∀ c ∈ a, c.isAlphanum = true)
    {t : Table} {a : Address} (h : t.Lists isAddress a) : Alphanumeric a := by
  obtain ⟨_, _, _, hWord⟩ := h
  exact isAlphanum_normalizeBitcoinAddress hAlphabet hWord

/-- The hashes of two tables, however they are written, are equal exactly if both tables list the
same addresses. -/
theorem contentHash_eq_iff {sha256Hex : String → String} {t t' : Table} {text text' : Page}
    {l l' : List Address} (h : t.IsWritten text) (h' : t'.IsWritten text')
    (hl : parseBitqueryColdcardCsv isAddress text = .ok l)
    (hl' : parseBitqueryColdcardCsv isAddress text' = .ok l')
    (hAlphabet : ∀ a, isAddress a = true → ∀ c ∈ a, c.isAlphanum = true)
    (hSha : sha256Hex (hashedText l) = sha256Hex (hashedText l') → hashedText l = hashedText l') :
    bitqueryColdcardContentHash sha256Hex l = bitqueryColdcardContentHash sha256Hex l' ↔
      ∀ a, t.Lists isAddress a ↔ t'.Lists isAddress a := by
  obtain ⟨hSorted, hMem⟩ := parse_lists h hl
  obtain ⟨hSorted', hMem'⟩ := parse_lists h' hl'
  constructor
  · intro hHash a
    have hEq : l = l' :=
      hashedText_inj (fun a ha => alphanumeric_of_lists hAlphabet ((hMem a).mp ha))
        (fun a ha => alphanumeric_of_lists hAlphabet ((hMem' a).mp ha)) (hSha hHash)
    rw [← hMem, ← hMem', hEq]
  · intro hSame
    have hNodup : ∀ {l : List Address}, l.Pairwise (fun a b => a.1 < b.1) → l.Nodup := by
      intro l hl
      refine hl.imp fun {a b} hLt hEq => ?_
      exact String.lt_irrefl b.1 (hEq ▸ hLt)
    have hPerm : l.Perm l' :=
      (List.perm_ext_iff_of_nodup (hNodup hSorted) (hNodup hSorted')).mpr fun a => by
        rw [hMem, hMem', hSame]
    have hEq : l = l' := hPerm.eq_of_pairwise
      (fun a b _ _ hab hba => absurd (String.lt_trans hab hba) (String.lt_irrefl _)) hSorted hSorted'
    rw [hEq]

/-- The same list in a table with its columns the other way and without a byte order mark. -/
def turnedTable : Table where
  header := ["classification".toList, "address".toList]
  rows := [["Attacker-controlled".toList, keptWord]]

def turnedText : Page := "classification,address\nAttacker-controlled,".toList ++ keptWord

theorem turnedTable_isWritten : turnedTable.IsWritten turnedText := by
  have hText : IsText ["classification,address".toList, "Attacker-controlled,".toList ++ keptWord]
      turnedText := by
    refine .newline (by decide +kernel) (by decide +kernel) (.last ?_)
    decide +kernel
  refine ⟨_, _, ?_, hText, Or.inr ⟨rfl, by decide +kernel⟩⟩
  refine .record (by decide +kernel) ?_ (.record (by decide +kernel) ?_ .nil)
  · exact Csv.isLine_of_clean (List.cons_ne_nil _ _) (by decide +kernel) (by decide +kernel)
  · exact Csv.isLine_of_clean (List.cons_ne_nil _ _) (by decide +kernel) (by decide +kernel)

theorem parse_listedText :
    parseBitqueryColdcardCsv onlyThese listedText = .ok (sortedAddresses [keptWord]) := by
  have hRows : listedTable.rows.filterMap (rowAddress onlyThese (0, 1)) = [keptWord] := by
    decide +kernel
  rw [← hRows]
  exact parse_of_columns listedTable_isWritten (by decide +kernel)

theorem parse_turnedText :
    parseBitqueryColdcardCsv onlyThese turnedText = .ok (sortedAddresses [keptWord]) := by
  have hRows : turnedTable.rows.filterMap (rowAddress onlyThese (1, 0)) = [keptWord] := by
    decide +kernel
  rw [← hRows]
  exact parse_of_columns turnedTable_isWritten (by decide +kernel)

theorem contentHash_eq_turned :
    bitqueryColdcardContentHash (fun _ => "7273c851296e3e0e564b5ac6d1158611b83e20dae292d69982d3e0c74d36d83c")
        (sortedAddresses [keptWord]) =
        bitqueryColdcardContentHash (fun _ => "7273c851296e3e0e564b5ac6d1158611b83e20dae292d69982d3e0c74d36d83c")
          (sortedAddresses [keptWord]) ↔
      ∀ a, listedTable.Lists onlyThese a ↔ turnedTable.Lists onlyThese a :=
  contentHash_eq_iff listedTable_isWritten turnedTable_isWritten parse_listedText parse_turnedText
    onlyThese_alphabet fun _ => rfl

end Read

end Bloodhound.Sources
