import Mathlib.Algebra.Order.Ring.Nat
import Mathlib.Data.List.Basic
import Mathlib.Tactic.Tauto

/-!
# Searching texts

The text after the first occurrence of a needle, escaped strings, and decimal numbers that are cut
short. A needle that starts with a character is not found in front of it (`after_skip`), and what is
found stays found when the text grows (`after_append`).
-/

namespace Text

variable {α : Type} [DecidableEq α]

/-! ## The first occurrence -/

/-- What follows the first occurrence of the needle. -/
def after (needle : List α) : List α → Option (List α)
  | [] => if needle = [] then some [] else none
  | c :: rest =>
    if needle <+: c :: rest then some ((c :: rest).drop needle.length) else after needle rest

theorem after_hit (needle rest : List α) : after needle (needle ++ rest) = some rest := by
  cases h : needle ++ rest with
  | nil =>
    obtain ⟨rfl, rfl⟩ := List.append_eq_nil_iff.mp h
    rfl
  | cons c l =>
    have hPrefix : needle <+: c :: l := ⟨rest, h⟩
    unfold after
    rw [if_pos hPrefix, ← h, List.drop_left]

theorem after_cons_of_not_prefix {needle : List α} {c : α} {rest : List α}
    (h : ¬ needle <+: c :: rest) : after needle (c :: rest) = after needle rest := if_neg h

/-- No needle is found where its first character does not occur. -/
theorem after_skip {q : α} {needle piece : List α} (h : q ∉ piece) (rest : List α) :
    after (q :: needle) (piece ++ rest) = after (q :: needle) rest := by
  induction piece with
  | nil => rfl
  | cons c piece ih =>
    rw [List.mem_cons, not_or] at h
    rw [List.cons_append, after_cons_of_not_prefix, ih h.2]
    intro hPrefix
    exact h.1 (List.cons_prefix_cons.mp hPrefix).1

theorem length_le_of_after {needle l rest : List α} (h : after needle l = some rest) :
    needle.length ≤ l.length := by
  induction l with
  | nil =>
    unfold after at h
    split at h
    · next hNil => simp [hNil]
    · cases h
  | cons c l ih =>
    unfold after at h
    split at h
    · next hPrefix => exact hPrefix.length_le
    · exact Nat.le_trans (ih h) (Nat.le_succ _)

/-- A first occurrence stays the first one in a longer text. -/
theorem after_append {needle l rest : List α} (h : after needle l = some rest) (more : List α) :
    after needle (l ++ more) = some (rest ++ more) := by
  induction l with
  | nil =>
    unfold after at h
    split at h
    · next hNil =>
      cases h
      subst hNil
      exact after_hit [] more
    · cases h
  | cons c l ih =>
    unfold after at h
    split at h
    · next hPrefix =>
      obtain ⟨tail, hTail⟩ := hPrefix
      rw [← hTail, List.drop_left] at h
      cases h
      rw [← hTail, List.append_assoc, after_hit]
    · next hNot =>
      have hLong := length_le_of_after h
      rw [List.cons_append, after_cons_of_not_prefix, ih h]
      intro hPrefix
      have hShort : needle <+: c :: l :=
        List.prefix_of_prefix_length_le hPrefix (List.prefix_append (c :: l) more) (by simp; omega)
      exact hNot hShort

/-! ## Escapes -/

/-- Every quote and every backslash is preceded by a backslash. -/
def escape (quote backslash : α) (s : List α) : List α :=
  s.flatMap fun c => if c = quote ∨ c = backslash then [backslash, c] else [c]

section Escape

variable {quote backslash : α}

theorem escape_cons (c : α) (s : List α) :
    escape quote backslash (c :: s) =
      (if c = quote ∨ c = backslash then [backslash, c] else [c]) ++ escape quote backslash s := rfl

theorem escape_of_clean {s : List α} (h : ∀ c ∈ s, c ≠ quote ∧ c ≠ backslash) :
    escape quote backslash s = s := by
  induction s with
  | nil => rfl
  | cons c s ih =>
    have hHead := h c List.mem_cons_self
    rw [escape_cons, if_neg (by tauto), ih fun d hd => h d (List.mem_cons_of_mem _ hd)]
    rfl

/-- What a reader that stops at the next quote takes from an escaped string. -/
def readUpTo (quote : α) (l : List α) : List α := l.takeWhile (· ≠ quote)

theorem readUpTo_cons_of_ne {c : α} (h : c ≠ quote) (l : List α) :
    readUpTo quote (c :: l) = c :: readUpTo quote l := List.takeWhile_cons_of_pos (by simpa using h)

theorem readUpTo_prefix (q : α) (s t : List α) : readUpTo q s <+: readUpTo q (s ++ t) := by
  induction s with
  | nil => exact List.nil_prefix
  | cons c s ih =>
    by_cases hc : c = q
    · simp [readUpTo, hc]
    · simpa [readUpTo, hc] using ih

theorem readUpTo_append (l rest : List α) : readUpTo quote (l ++ quote :: rest) = readUpTo quote l := by
  induction l with
  | nil => exact List.takeWhile_cons_of_neg (by simp)
  | cons c l ih =>
    by_cases hc : c = quote
    · subst hc
      exact (List.takeWhile_cons_of_neg (by simp)).trans (List.takeWhile_cons_of_neg (by simp)).symm
    · rw [List.cons_append, readUpTo_cons_of_ne hc, readUpTo_cons_of_ne hc, ih]

theorem readUpTo_of_notMem {s : List α} (h : quote ∉ s) : readUpTo quote s = s := by
  induction s with
  | nil => rfl
  | cons c s ih =>
    rw [List.mem_cons, not_or] at h
    rw [readUpTo_cons_of_ne (Ne.symm h.1), ih h.2]

/-- Two texts are told apart by what stands in front of their first separator. -/
theorem eq_of_separated {x y l l' : List α} (hx : quote ∉ x) (hy : quote ∉ y)
    (h : x ++ quote :: l = y ++ quote :: l') : x = y ∧ l = l' := by
  have hFront : x = y := by
    calc x = readUpTo quote (x ++ quote :: l) := by rw [readUpTo_append, readUpTo_of_notMem hx]
      _ = readUpTo quote (y ++ quote :: l') := by rw [h]
      _ = y := by rw [readUpTo_append, readUpTo_of_notMem hy]
  subst hFront
  exact ⟨rfl, List.tail_eq_of_cons_eq (List.append_cancel_left h)⟩

/-- The pieces between separators are read off a joined text where none of them is empty. -/
theorem lines_inj {x : α} {l l' : List (List α)} (hl : ∀ s ∈ l, s ≠ [] ∧ x ∉ s)
    (hl' : ∀ s ∈ l', s ≠ [] ∧ x ∉ s) (h : [x].intercalate l = [x].intercalate l') : l = l' := by
  have hNil : ∀ {l : List (List α)}, (∀ s ∈ l, s ≠ [] ∧ x ∉ s) →
      [x].intercalate l = [] → l = [] := by
    intro l hl h
    cases l with
    | nil => rfl
    | cons s l =>
      exfalso
      have hFront := (hl s List.mem_cons_self).1
      cases l with
      | nil => exact hFront (List.intercalate_singleton.symm.trans h)
      | cons t l =>
        rw [List.intercalate_cons_cons] at h
        exact hFront (List.append_eq_nil_iff.mp (List.append_eq_nil_iff.mp h).1).1
  by_cases hEmpty : l = []
  · subst hEmpty
    exact (hNil hl' h.symm).symm
  · have hEmpty' : l' ≠ [] := fun hc => hEmpty (hNil hl (by rw [h, hc]; rfl))
    calc l = ([x].intercalate l).splitOn x :=
          (List.splitOn_intercalate x (fun s hs => (hl s hs).2) hEmpty).symm
      _ = ([x].intercalate l').splitOn x := by rw [h]
      _ = l' := List.splitOn_intercalate x (fun s hs => (hl' s hs).2) hEmpty'

omit [DecidableEq α] in
/-- One more piece is joined behind the others. -/
theorem intercalate_concat {x : List α} {l : List (List α)} (hl : l ≠ []) (s : List α) :
    x.intercalate (l ++ [s]) = x.intercalate l ++ x ++ s := by
  induction l with
  | nil => exact absurd rfl hl
  | cons t l ih =>
    by_cases hNil : l = []
    · subst hNil
      exact List.intercalate_cons_cons.trans (by rw [List.intercalate_singleton, List.intercalate_singleton])
    · have hMore : l ++ [s] ≠ [] := List.append_ne_nil_of_left_ne_nil hNil _
      rw [List.cons_append, List.intercalate_cons_of_ne_nil hMore, List.intercalate_cons_of_ne_nil hNil,
        ih hNil]
      simp only [List.append_assoc]

/-- The number of backslashes at the front. -/
def leading (backslash : α) (l : List α) : Nat := (l.takeWhile (· = backslash)).length

theorem leading_cons_self (l : List α) :
    leading backslash (backslash :: l) = leading backslash l + 1 := by
  unfold leading
  rw [List.takeWhile_cons_of_pos (by simp), List.length_cons]

theorem leading_cons_of_ne {c : α} (h : c ≠ backslash) (l : List α) :
    leading backslash (c :: l) = 0 := by
  unfold leading
  rw [List.takeWhile_cons_of_neg (by simpa using h), List.length_nil]

theorem leading_readUpTo (hNe : quote ≠ backslash) (s : List α) :
    2 * leading backslash s ≤ leading backslash (readUpTo quote (escape quote backslash s)) := by
  induction s with
  | nil => exact Nat.zero_le _
  | cons c s ih =>
    by_cases hc : c = backslash
    · subst hc
      rw [escape_cons, if_pos (Or.inr rfl)]
      show 2 * leading c (c :: s) ≤ leading c (readUpTo quote (c :: c :: escape quote c s))
      rw [readUpTo_cons_of_ne hNe.symm, readUpTo_cons_of_ne hNe.symm, leading_cons_self,
        leading_cons_self, leading_cons_self]
      omega
    · rw [leading_cons_of_ne hc]
      exact Nat.zero_le _

/-- An escaped string is read back as it was only where nothing had to be escaped. -/
theorem clean_of_readUpTo (hNe : quote ≠ backslash) {s : List α}
    (h : readUpTo quote (escape quote backslash s) = s) :
    quote ∉ s ∧ backslash ∉ s := by
  induction s with
  | nil => simp
  | cons c s ih =>
    by_cases hEscaped : c = quote ∨ c = backslash
    · exfalso
      rcases hEscaped with rfl | rfl
      · rw [escape_cons, if_pos (Or.inl rfl)] at h
        have hFirst : readUpTo c (backslash :: c :: escape c backslash s) = c :: s := h
        rw [readUpTo_cons_of_ne hNe.symm] at hFirst
        exact hNe (List.cons.inj hFirst).1.symm
      · -- the backslashes at the front would be twice as many
        have hTwice := leading_readUpTo hNe (c :: s)
        rw [h, leading_cons_self] at hTwice
        omega
    · obtain ⟨hQuote, hBackslash⟩ := not_or.mp hEscaped
      rw [escape_cons, if_neg hEscaped] at h
      have hFirst : readUpTo quote (c :: escape quote backslash s) = c :: s := h
      rw [readUpTo_cons_of_ne hQuote] at hFirst
      obtain ⟨hQuoteTail, hBackslashTail⟩ := ih (List.cons.inj hFirst).2
      rw [List.mem_cons, List.mem_cons, not_or, not_or]
      exact ⟨⟨Ne.symm hQuote, hQuoteTail⟩, Ne.symm hBackslash, hBackslashTail⟩

theorem after_cons_of_ne {q c : α} (h : c ≠ q) (needle rest : List α) :
    after (q :: needle) (c :: rest) = after (q :: needle) rest :=
  after_cons_of_not_prefix fun hPrefix => h (List.cons_prefix_cons.mp hPrefix).1.symm

section Quoted

variable {key needle rest : List α} {sep next : α}

/-- A quoted key does not match an escaped string that is followed by another character. -/
theorem not_prefix_escape (hKey : quote ∉ key ∧ backslash ∉ key) (hSep : sep ≠ next)
    (hNe : quote ≠ backslash) (s : List α) :
    ¬ key ++ quote :: sep :: needle <+: escape quote backslash s ++ quote :: next :: rest := by
  intro hPrefix
  induction key generalizing s with
  | nil =>
    cases s with
    | nil => exact hSep (List.cons_prefix_cons.mp (List.cons_prefix_cons.mp hPrefix).2).1
    | cons c s =>
      rw [escape_cons] at hPrefix
      split at hPrefix
      · exact hNe (List.cons_prefix_cons.mp hPrefix).1
      · next hPlain => exact hPlain (Or.inl (List.cons_prefix_cons.mp hPrefix).1.symm)
  | cons k key ih =>
    have hTail : quote ∉ key ∧ backslash ∉ key :=
      ⟨fun h => hKey.1 (List.mem_cons_of_mem _ h), fun h => hKey.2 (List.mem_cons_of_mem _ h)⟩
    cases s with
    | nil =>
      have hHead : k = quote := (List.cons_prefix_cons.mp hPrefix).1
      exact hKey.1 (hHead ▸ List.mem_cons_self)
    | cons c s =>
      rw [escape_cons] at hPrefix
      split at hPrefix
      · have hHead : k = backslash := (List.cons_prefix_cons.mp hPrefix).1
        exact hKey.2 (hHead ▸ List.mem_cons_self)
      · exact ih hTail s (List.cons_prefix_cons.mp hPrefix).2

/-- A quoted key is not found in a quoted string. -/
theorem after_quoted (hKey : quote ∉ key ∧ backslash ∉ key) (hSep : sep ≠ next)
    (hNe : quote ≠ backslash) (hFirst : key.head? ≠ some next) (hKeyNe : key ≠ []) (s : List α) :
    after (quote :: (key ++ quote :: sep :: needle))
        (quote :: (escape quote backslash s ++ quote :: next :: rest)) =
      after (quote :: (key ++ quote :: sep :: needle)) (next :: rest) := by
  have hOpen : ∀ t : List α, after (quote :: (key ++ quote :: sep :: needle))
        (quote :: (escape quote backslash t ++ quote :: next :: rest)) =
      after (quote :: (key ++ quote :: sep :: needle))
        (escape quote backslash t ++ quote :: next :: rest) := by
    intro t
    refine after_cons_of_not_prefix fun hPrefix => ?_
    exact not_prefix_escape hKey hSep hNe t (List.cons_prefix_cons.mp hPrefix).2
  rw [hOpen]
  induction s with
  | nil =>
    refine after_cons_of_not_prefix fun hPrefix => ?_
    have hTail := (List.cons_prefix_cons.mp hPrefix).2
    obtain ⟨k, key, rfl⟩ := List.exists_cons_of_ne_nil hKeyNe
    exact hFirst (congrArg some (List.cons_prefix_cons.mp hTail).1)
  | cons c s ih =>
    rw [escape_cons]
    by_cases hQuote : c = quote
    · subst hQuote
      rw [if_pos (Or.inl rfl)]
      exact (after_cons_of_ne hNe.symm _ _).trans ((hOpen s).trans ih)
    · by_cases hBackslash : c = backslash
      · subst hBackslash
        rw [if_pos (Or.inr rfl)]
        exact (after_cons_of_ne hQuote _ _).trans ((after_cons_of_ne hQuote _ _).trans ih)
      · rw [if_neg (not_or.mpr ⟨hQuote, hBackslash⟩)]
        exact (after_cons_of_ne hQuote _ _).trans ih

end Quoted

end Escape

/-! ## Decimal numbers -/

/-- A decimal number that is cut short has a smaller value. -/
theorem ofDigitChars_lt_of_cut {n : Nat} {r s : List Char} (h : Nat.toDigits 10 n = r ++ s)
    (hr : r ≠ []) (hs : s ≠ []) : Nat.ofDigitChars 10 r 0 < n := by
  have hAll : Nat.ofDigitChars 10 (r ++ s) 0 = n := by rw [← h, Nat.ofDigitChars_ten_toDigits]
  rw [Nat.ofDigitChars_append, Nat.ofDigitChars_eq_ofDigitChars_zero] at hAll
  have hPow : 10 ≤ 10 ^ s.length := by
    obtain ⟨c, s, rfl⟩ := List.exists_cons_of_ne_nil hs
    rw [List.length_cons, pow_succ]
    exact Nat.le_mul_of_pos_left 10 (pow_pos (by decide) _)
  have hTen : 10 * Nat.ofDigitChars 10 r 0 ≤ 10 ^ s.length * Nat.ofDigitChars 10 r 0 :=
    Nat.mul_le_mul_right _ hPow
  by_contra hNot
  have hZero : n = 0 := by omega
  rw [hZero, Nat.toDigits_zero] at h
  have hLength := congrArg List.length h
  rw [List.length_append, List.length_singleton] at hLength
  have hrPos := List.length_pos_iff.mpr hr
  have hsPos := List.length_pos_iff.mpr hs
  omega

end Text
