import Mathlib.Data.Finset.Card
import Mathlib.Data.List.Sort

/-!
# The latest rows of one owner

A query that lists the latest rows of several owners, up to a limit, lists for each owner a
prefix of the owner's own latest rows (`filter_latest`). The lookup in such a prefix takes its
distinct items up to a cap and returns the first that a test accepts; it finds the first
accepted item of all rows exactly if that lies in the prefix with fewer distinct items than
the cap before it (`find_distinctUpTo`).
-/

namespace Latest

variable {α : Type}

/-! ## Sorting and filters -/

section Sorted
variable (r : α → α → Prop) [DecidableRel r]

theorem orderedInsert_of_forall {a : α} {l : List α} (h : ∀ b ∈ l, r a b) :
    l.orderedInsert r a = a :: l := by
  cases l with
  | nil => rfl
  | cons b l => rw [List.orderedInsert_cons_of_le r l (h b List.mem_cons_self)]

theorem filter_orderedInsert_of_dropped {p : α → Bool} {a : α} (ha : ¬ p a = true) (l : List α) :
    (l.orderedInsert r a).filter p = l.filter p := by
  induction l with
  | nil => rw [List.orderedInsert_nil, List.filter_cons_of_neg ha]
  | cons b l ih =>
    rw [List.orderedInsert_cons]
    split
    · rw [List.filter_cons_of_neg ha]
    · rw [List.filter_cons, List.filter_cons, ih]

variable [IsTrans α r]

theorem filter_orderedInsert {p : α → Bool} {a : α} (ha : p a = true) {l : List α}
    (hSorted : l.Pairwise r) : (l.orderedInsert r a).filter p = (l.filter p).orderedInsert r a := by
  induction l with
  | nil => rw [List.orderedInsert_nil, List.filter_cons_of_pos ha]; rfl
  | cons b l ih =>
    obtain ⟨hHead, hTail⟩ := List.pairwise_cons.mp hSorted
    rw [List.orderedInsert_cons]
    by_cases hab : r a b
    · have hAll : ∀ c ∈ (b :: l).filter p, r a c := fun c hc => by
        rcases List.mem_cons.mp (List.mem_of_mem_filter hc) with rfl | hMem
        · exact hab
        · exact IsTrans.trans a b c hab (hHead c hMem)
      rw [if_pos hab, List.filter_cons_of_pos ha, orderedInsert_of_forall r hAll]
    · rw [if_neg hab, List.filter_cons]
      by_cases hb : p b = true
      · rw [if_pos hb, List.filter_cons_of_pos hb, List.orderedInsert_cons, if_neg hab, ih hTail]
      · rw [if_neg hb, List.filter_cons_of_neg hb, ih hTail]

/-- A stable sort commutes with a filter. -/
theorem filter_insertionSort [Std.Total r] (p : α → Bool) (l : List α) :
    (l.insertionSort r).filter p = (l.filter p).insertionSort r := by
  induction l with
  | nil => rfl
  | cons a l ih =>
    rw [List.insertionSort_cons]
    by_cases ha : p a = true
    · rw [List.filter_cons_of_pos ha, List.insertionSort_cons,
        filter_orderedInsert r ha (List.pairwise_insertionSort r l), ih]
    · rw [List.filter_cons_of_neg ha, filter_orderedInsert_of_dropped r ha, ih]

end Sorted

/-- The kept rows of a prefix are a prefix of the kept rows. -/
theorem filter_take (p : α → Bool) (n : Nat) (l : List α) :
    (l.take n).filter p = (l.filter p).take ((l.take n).countP p) := by
  induction l generalizing n with
  | nil => simp
  | cons a l ih =>
    cases n with
    | zero => simp
    | succ n =>
      rw [List.take_succ_cons]
      by_cases ha : p a = true
      · rw [List.filter_cons_of_pos ha, List.filter_cons_of_pos ha, List.countP_cons_of_pos ha,
          List.take_succ_cons, ih]
      · rw [List.filter_cons_of_neg ha, List.filter_cons_of_neg ha, List.countP_cons_of_neg ha, ih]

theorem find_take (p : α → Bool) (n : Nat) (l : List α) :
    (l.take n).find? p = if l.findIdx p < n then l.find? p else none := by
  induction l generalizing n with
  | nil => rw [List.take_nil, List.find?_nil, ite_self]
  | cons a l ih =>
    cases n with
    | zero => simp
    | succ n =>
      rw [List.take_succ_cons, List.find?_cons, List.find?_cons, List.findIdx_cons]
      cases ha : p a with
      | true => simp
      | false => simp [ih]

/-! ## The lookup -/

variable [DecidableEq α] {shown : α → Bool}

/-- The distinct items of a list up to a cap, after those that are there. -/
def distinctUpTo (limit : Nat) : List α → List α → List α
  | out, [] => out
  | out, a :: l =>
    if a ∈ out then distinctUpTo limit out l
    else if limit ≤ (out ++ [a]).length then out ++ [a]
    else distinctUpTo limit (out ++ [a]) l

/-- One step of the loop that passes over every item. -/
def addUpTo (limit : Nat) (out : List α) (a : α) : List α :=
  if limit ≤ out.length then out else if a ∈ out then out else out ++ [a]

theorem foldl_addUpTo_of_full {limit : Nat} {out : List α} (h : limit ≤ out.length) (l : List α) :
    l.foldl (addUpTo limit) out = out := by
  induction l with
  | nil => rfl
  | cons a l ih => rw [List.foldl_cons, addUpTo, if_pos h, ih]

theorem foldl_addUpTo {limit : Nat} {out : List α} (h : out.length < limit) (l : List α) :
    l.foldl (addUpTo limit) out = distinctUpTo limit out l := by
  induction l generalizing out with
  | nil => rfl
  | cons a l ih =>
    rw [List.foldl_cons, addUpTo, if_neg (Nat.not_le.mpr h), distinctUpTo]
    split
    · exact ih h
    · split
      next hFull => exact foldl_addUpTo_of_full hFull l
      next hMore => exact ih (Nat.not_le.mp hMore)

theorem prefix_distinctUpTo (limit : Nat) (out l : List α) : out <+: distinctUpTo limit out l := by
  induction l generalizing out with
  | nil => exact List.prefix_refl _
  | cons a l ih =>
    rw [distinctUpTo]
    split
    · exact ih out
    · split
      · exact List.prefix_append _ _
      · exact (List.prefix_append _ _).trans (ih _)

theorem find_distinctUpTo_from {limit : Nat} {out : List α} (hNodup : out.Nodup)
    (hRoom : out.length < limit) (hNone : ∀ a ∈ out, ¬ shown a = true) (l : List α) :
    (distinctUpTo limit out l).find? shown =
      if (out ++ l.take (l.findIdx shown)).toFinset.card < limit then l.find? shown else none := by
  induction l generalizing out with
  | nil => simpa [distinctUpTo] using hNone
  | cons a l ih =>
    rw [distinctUpTo, List.findIdx_cons, List.find?_cons]
    have hFind : out.find? shown = none := List.find?_eq_none.mpr hNone
    by_cases ha : shown a = true
    · have hOut : a ∉ out := fun hMem => hNone a hMem ha
      have hCard : (out ++ (a :: l).take 0).toFinset.card < limit := by
        rwa [List.take_zero, List.append_nil, List.toFinset_card_of_nodup hNodup]
      rw [if_neg hOut, ha]
      simp only [cond_true, hCard, if_true]
      have hFirst : (out ++ [a]).find? shown = some a := by
        rw [List.find?_append, hFind, Option.none_or, List.find?_cons_of_pos ha]
      split
      · exact hFirst
      · obtain ⟨rest, hRest⟩ := prefix_distinctUpTo limit (out ++ [a]) l
        rw [← hRest, List.find?_append, hFirst, Option.some_or]
    · rw [Bool.not_eq_true] at ha
      simp only [ha, cond_false, List.take_succ_cons]
      by_cases hMem : a ∈ out
      · have hSame : (out ++ a :: l.take (l.findIdx shown)).toFinset =
            (out ++ l.take (l.findIdx shown)).toFinset := by
          ext b
          simp only [List.mem_toFinset, List.mem_append, List.mem_cons]
          constructor
          · rintro (hb | rfl | hb)
            exacts [.inl hb, .inl hMem, .inr hb]
          · rintro (hb | hb)
            exacts [.inl hb, .inr (.inr hb)]
        rw [if_pos hMem, ih hNodup hRoom hNone, hSame]
      · have hSplit : out ++ a :: l.take (l.findIdx shown) = (out ++ [a]) ++ l.take (l.findIdx shown) := by
          rw [List.append_assoc, List.singleton_append]
        have hNext : (out ++ [a]).Nodup := by
          rw [List.nodup_append_comm, List.singleton_append]
          exact List.nodup_cons.mpr ⟨hMem, hNodup⟩
        have hNoneNext : ∀ b ∈ out ++ [a], ¬ shown b = true := fun b hb => by
          rcases List.mem_append.mp hb with hb | hb
          · exact hNone b hb
          · rw [List.mem_singleton.mp hb, ha]
            exact Bool.false_ne_true
        rw [if_neg hMem, hSplit]
        split
        next hFull =>
          -- the cap is reached before an accepted item
          have hCard : (out ++ [a]).toFinset.card ≤
              (out ++ [a] ++ l.take (l.findIdx shown)).toFinset.card :=
            Finset.card_le_card fun b hb =>
              List.mem_toFinset.mpr (List.mem_append_left _ (List.mem_toFinset.mp hb))
          rw [List.toFinset_card_of_nodup hNext] at hCard
          rw [if_neg (by omega), List.find?_eq_none.mpr hNoneNext]
        next hMore => exact ih hNext (Nat.not_le.mp hMore) hNoneNext

/-- The first accepted item lies in a window, and fewer distinct items than the cap come before. -/
def Finds (shown : α → Bool) (limit window : Nat) (l : List α) : Prop :=
  l.findIdx shown < l.length ∧ l.findIdx shown < window ∧
    (l.take (l.findIdx shown)).toFinset.card < limit

instance (limit window : Nat) (l : List α) : Decidable (Finds shown limit window l) :=
  inferInstanceAs (Decidable (_ ∧ _ ∧ _))

/-- The lookup in a window finds the first accepted item of all or nothing. -/
theorem find_distinctUpTo {limit : Nat} (hLimit : 0 < limit) (window : Nat) (l : List α) :
    (distinctUpTo limit [] (l.take window)).find? shown =
      if Finds shown limit window l then l.find? shown else none := by
  rw [find_distinctUpTo_from List.nodup_nil hLimit (fun _ h => nomatch h), find_take,
    List.findIdx_take, List.nil_append]
  by_cases hWindow : l.findIdx shown < window
  · rw [if_pos hWindow, Nat.min_eq_right hWindow.le, List.take_take, Nat.min_eq_left hWindow.le]
    by_cases hFound : l.findIdx shown < l.length
    · simp only [Finds, hFound, hWindow, true_and]
    · have hNone : l.find? shown = none := by
        rw [List.find?_eq_none]
        intro a ha hShown
        exact hFound (List.findIdx_lt_length_of_exists ⟨a, ha, hShown⟩)
      rw [hNone, ite_self, ite_self]
  · rw [if_neg hWindow, ite_self, if_neg fun h => hWindow h.2.1]

end Latest
