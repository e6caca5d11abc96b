import Mathlib.Data.List.Basic
import Mathlib.Data.List.Forall2

/-!
# Lines of separated fields

A reader of a line of fields, where a field may stand between quotes with its own quotes doubled, and
the ways to write such a line. Every way to write the fields is read as these fields
(`split_of_isLine`).
-/

namespace Csv

variable {α : Type}

/-! ## Reading -/

section Reading

variable [DecidableEq α] (quote sep : α)

/-- The fields of the rest of a line: whether its first character has been read already, whether it
stands between quotes, and the field so far. -/
def splitFrom : Bool → Bool → List α → List α → List (List α)
  | _, _, cur, [] => [cur]
  | true, quoted, cur, _ :: rest => splitFrom false quoted cur rest
  | false, true, cur, c :: rest =>
    if c = quote then
      if rest.head? = some quote then splitFrom true true (cur ++ [quote]) rest
      else splitFrom false false cur rest
    else splitFrom false true (cur ++ [c]) rest
  | false, false, cur, c :: rest =>
    if c = quote then splitFrom false true cur rest
    else if c = sep then cur :: splitFrom false false [] rest
    else splitFrom false false (cur ++ [c]) rest

def split (line : List α) : List (List α) := splitFrom quote sep false false [] line

end Reading

/-! ## Writing -/

/-- Every quote is written twice. -/
def doubled [DecidableEq α] (quote : α) (field : List α) : List α :=
  field.flatMap fun c => if c = quote then [quote, quote] else [c]

/-- The texts of a field: as it is, where it has no quote and no separator, or between quotes. -/
inductive IsField [DecidableEq α] (quote sep : α) (field : List α) : List α → Prop
  | plain (hQuote : quote ∉ field) (hSep : sep ∉ field) : IsField quote sep field field
  | quoted : IsField quote sep field (quote :: (doubled quote field ++ [quote]))

/-- The texts of a line of fields. -/
def IsLine [DecidableEq α] (quote sep : α) (fields : List (List α)) (line : List α) : Prop :=
  fields ≠ [] ∧ ∃ texts, List.Forall₂ (IsField quote sep) fields texts ∧ line = [sep].intercalate texts

theorem isLine_of_clean [DecidableEq α] {quote sep : α} {fields : List (List α)}
    {line : List α} (hFields : fields ≠ []) (h : ∀ field ∈ fields, quote ∉ field ∧ sep ∉ field)
    (hLine : line = [sep].intercalate fields) : IsLine quote sep fields line := by
  refine ⟨hFields, fields, ?_, hLine⟩
  rw [List.forall₂_same]
  exact fun field hField => .plain (h field hField).1 (h field hField).2

/-! ## What is written is read -/

section Read

variable [DecidableEq α] {quote sep : α}

theorem splitFrom_plain {field : List α} (hQuote : quote ∉ field) (hSep : sep ∉ field)
    (cur rest : List α) :
    splitFrom quote sep false false cur (field ++ rest) =
      splitFrom quote sep false false (cur ++ field) rest := by
  induction field generalizing cur with
  | nil => rw [List.append_nil, List.nil_append]
  | cons c field ih =>
    rw [List.mem_cons, not_or] at hQuote hSep
    rw [List.cons_append, splitFrom, if_neg (Ne.symm hQuote.1), if_neg (Ne.symm hSep.1),
      ih hQuote.2 hSep.2, List.append_assoc]
    rfl

theorem splitFrom_doubled (field cur rest : List α) :
    splitFrom quote sep false true cur (doubled quote field ++ rest) =
      splitFrom quote sep false true (cur ++ field) rest := by
  induction field generalizing cur with
  | nil => rw [List.append_nil]; rfl
  | cons c field ih =>
    have hCons : doubled quote (c :: field) ++ rest =
        (if c = quote then [quote, quote] else [c]) ++ (doubled quote field ++ rest) :=
      List.append_assoc _ _ _
    rw [hCons]
    by_cases hc : c = quote
    · -- the second of the two quotes is the one that is skipped
      subst hc
      rw [if_pos rfl]
      simp only [List.cons_append, List.nil_append, splitFrom, if_true, List.head?_cons]
      rw [ih, List.append_assoc]
      rfl
    · rw [if_neg hc]
      simp only [List.cons_append, List.nil_append, splitFrom, if_neg hc]
      rw [ih, List.append_assoc]
      rfl

theorem splitFrom_close {rest : List α} (h : rest.head? ≠ some quote) (cur : List α) :
    splitFrom quote sep false true cur (quote :: rest) =
      splitFrom quote sep false false cur rest := by
  rw [splitFrom, if_pos rfl, if_neg h]

/-- After the text of a field the reader holds the field. -/
theorem splitFrom_field {field text rest : List α} (hText : IsField quote sep field text)
    (hRest : rest.head? ≠ some quote) :
    splitFrom quote sep false false [] (text ++ rest) =
      splitFrom quote sep false false field rest := by
  cases hText with
  | plain hQuote hSep => exact splitFrom_plain hQuote hSep [] rest
  | quoted =>
    rw [List.cons_append, splitFrom, if_pos rfl, List.append_assoc, splitFrom_doubled]
    exact splitFrom_close hRest field

theorem splitFrom_sep (hNe : quote ≠ sep) (cur rest : List α) :
    splitFrom quote sep false false cur (sep :: rest) =
      cur :: splitFrom quote sep false false [] rest := by
  rw [splitFrom, if_neg (Ne.symm hNe), if_pos rfl]

theorem split_of_isLine (hNe : quote ≠ sep) {fields : List (List α)} {line : List α}
    (h : IsLine quote sep fields line) : split quote sep line = fields := by
  obtain ⟨hFields, texts, hTexts, rfl⟩ := h
  unfold split
  induction hTexts with
  | nil => exact absurd rfl hFields
  | @cons field text fields texts hText hTexts ih =>
    cases hTexts with
    | nil =>
      have hLast : splitFrom quote sep false false [] (text ++ []) =
          splitFrom quote sep false false field [] := splitFrom_field hText (by simp)
      rw [List.append_nil] at hLast
      rw [List.intercalate_singleton, hLast]
      rfl
    | cons hNext hMore =>
      have hHead : ∀ rest : List α, (sep :: rest).head? ≠ some quote := by
        intro rest hc
        exact hNe (Option.some.inj hc).symm
      rw [List.intercalate_cons_cons, List.append_assoc]
      refine (splitFrom_field hText (hHead _)).trans ?_
      exact (splitFrom_sep hNe field _).trans (congrArg _ (ih (List.cons_ne_nil _ _)))

end Read

end Csv
