import Mathlib.Data.List.Sort
import Mathlib.Data.List.TakeDrop
import Mathlib.Data.List.TakeWhile

/-!
# Keyset pagination

Rows are ordered by a key, and a page holds the first rows behind a cursor, which is the key of a row. A
pager asks for `limit` rows at a time, `cap` in all, keeps some of them, and goes on behind the last row it
has kept; it stops where it keeps fewer rows than it has asked for.

* `fetch_behind`: behind the key of a row come the later rows with another key.
* `Lists.sublist`: a pager lists no row twice.
* `Lists.exact_iff`: when it lists every row that it would keep.
-/

namespace Keyset

variable {α κ : Type} [LinearOrder κ] (key : α → κ)

/-! ## Pages -/

/-- Rows by increasing key; rows with the same key stay in their order. -/
def ordered (rows : List α) : List α := rows.insertionSort fun a b => key a ≤ key b

/-- The rows behind a cursor. -/
def behind (cursor : Option κ) (rows : List α) : List α :=
  rows.filter fun a => cursor.all fun k => k < key a

def fetch (cursor : Option κ) (limit : Nat) (rows : List α) : List α :=
  (ordered key (behind key cursor rows)).take limit

/-- What is left of ordered rows behind a row. -/
def rest (a : α) (later : List α) : List α := later.dropWhile fun b => key b = key a

abbrev Ordered (rows : List α) : Prop := rows.Pairwise fun a b => key a ≤ key b

theorem ordered_ordered (rows : List α) : Ordered key (ordered key rows) :=
  have : IsTrans α fun a b => key a ≤ key b := ⟨fun _ _ _ => le_trans⟩
  have : Std.Total fun a b : α => key a ≤ key b := ⟨fun a b => le_total (key a) (key b)⟩
  List.pairwise_insertionSort _ rows

theorem filter_orderedInsert (p : α → Bool) (a : α) {rows : List α} (h : Ordered key rows) :
    (rows.orderedInsert (fun a b => key a ≤ key b) a).filter p =
      if p a then (rows.filter p).orderedInsert (fun a b => key a ≤ key b) a else rows.filter p := by
  induction rows with
  | nil => by_cases hp : p a <;> simp [hp]
  | cons b rows ih =>
    obtain ⟨hFirst, hRest⟩ := List.pairwise_cons.mp h
    by_cases hab : key a ≤ key b
    · rw [List.orderedInsert_cons, if_pos hab]
      by_cases hp : p a
      · -- `a` stands in front of all rows that are kept
        rw [List.filter_cons_of_pos hp, if_pos hp]
        cases hKept : (b :: rows).filter p with
        | nil => rfl
        | cons c kept =>
          have hMem : c ∈ b :: rows := List.mem_of_mem_filter (hKept ▸ List.mem_cons_self)
          have hac : key a ≤ key c := by
            rcases List.mem_cons.mp hMem with rfl | hc
            · exact hab
            · exact le_trans hab (hFirst c hc)
          rw [List.orderedInsert_cons, if_pos hac]
      · rw [List.filter_cons_of_neg hp, if_neg hp]
    · rw [List.orderedInsert_cons, if_neg hab]
      by_cases hpb : p b
      · rw [List.filter_cons_of_pos hpb, ih hRest, List.filter_cons_of_pos hpb]
        split
        · rw [List.orderedInsert_cons, if_neg hab]
        · rfl
      · rw [List.filter_cons_of_neg hpb, ih hRest, List.filter_cons_of_neg hpb]

/-- Rows may be left out before or after they are ordered. -/
theorem ordered_filter (p : α → Bool) (rows : List α) :
    ordered key (rows.filter p) = (ordered key rows).filter p := by
  induction rows with
  | nil => rfl
  | cons a rows ih =>
    have hInsert := filter_orderedInsert key p a (ordered_ordered key rows)
    show ordered key ((a :: rows).filter p) = ((ordered key rows).orderedInsert _ a).filter p
    rw [hInsert]
    split
    · next hp =>
      rw [List.filter_cons_of_pos hp, ← ih]
      rfl
    · next hp => rw [List.filter_cons_of_neg hp, ih]

theorem filter_lt_eq_rest {a : α} {later : List α} (h : Ordered key (a :: later)) :
    (later.filter fun b => key a < key b) = rest key a later := by
  unfold rest
  induction later with
  | nil => rfl
  | cons b later ih =>
    obtain ⟨hFirst, hRest⟩ := List.pairwise_cons.mp h
    obtain ⟨hSecond, hLater⟩ := List.pairwise_cons.mp hRest
    by_cases hab : key b = key a
    · rw [List.filter_cons_of_neg (by simp [hab]), List.dropWhile_cons_of_pos (by simp [hab])]
      refine ih (List.pairwise_cons.mpr ⟨fun c hc => ?_, hLater⟩)
      exact hFirst c (List.mem_cons_of_mem b hc)
    · have hLess : key a < key b := lt_of_le_of_ne (hFirst b List.mem_cons_self) (Ne.symm hab)
      rw [List.dropWhile_cons_of_neg (by simp [hab])]
      refine List.filter_eq_self.mpr fun c hc => decide_eq_true ?_
      rcases List.mem_cons.mp hc with rfl | hc
      · exact hLess
      · exact lt_of_lt_of_le hLess (hSecond c hc)

/-- Behind the key of a row come the later rows with another key. -/
theorem fetch_behind {rows front later : List α} {a : α} (limit : Nat)
    (h : ordered key rows = front ++ a :: later) :
    fetch key (some (key a)) limit rows = (rest key a later).take limit := by
  have hOrdered := ordered_ordered key rows
  rw [h] at hOrdered
  obtain ⟨-, hTail, hFront⟩ := List.pairwise_append.mp hOrdered
  have hNone : (front.filter fun b => decide (key a < key b)) = [] :=
    List.filter_eq_nil_iff.mpr fun b hb => by
      simpa using hFront b hb a List.mem_cons_self
  unfold fetch behind
  rw [ordered_filter, h]
  simp only [Option.all_some]
  rw [List.filter_append, hNone, List.nil_append, List.filter_cons_of_neg (by simp),
    filter_lt_eq_rest key hTail]

theorem fetch_first (limit : Nat) (rows : List α) :
    fetch key none limit rows = (ordered key rows).take limit := by
  unfold fetch behind
  simp

/-! ## Pagers -/

section Pager

variable (keep : α → Bool) (limit : Nat)

/-- What a pager lists of the rows that are left. -/
inductive Lists : Nat → List α → List α → Prop
  | last {cap : Nat} {rows : List α}
      (h : ((rows.take (min limit cap)).filter keep).length < min limit cap ∨ min limit cap = 0) :
      Lists cap rows ((rows.take (min limit cap)).filter keep)
  | more {cap : Nat} {front later out : List α} {a : α} (hLength : (front ++ [a]).length = min limit cap)
      (hKeep : ∀ b ∈ front ++ [a], keep b = true)
      (hRest : Lists (cap - min limit cap) (rest key a later) out) :
      Lists cap (front ++ a :: later) (front ++ a :: out)

variable {key keep limit}

theorem sublist_rest (a : α) (later : List α) : (rest key a later).Sublist later :=
  List.dropWhile_sublist _

/-- No row is listed twice, and none that is not kept. -/
theorem Lists.sublist {cap : Nat} {rows out : List α} (h : Lists key keep limit cap rows out) :
    out.Sublist (rows.filter keep) := by
  induction h with
  | last _ => exact (List.take_sublist _ _).filter keep
  | @more cap front later out a _ hKeep _ ih =>
    have hFront : (front ++ a :: later).filter keep = (front ++ [a]) ++ later.filter keep := by
      rw [List.append_cons, List.filter_append, List.filter_eq_self.mpr hKeep]
    rw [hFront, List.append_cons]
    exact (List.Sublist.refl _).append (ih.trans ((sublist_rest a later).filter keep))

/-! ### Exactness -/

variable (key keep limit)

/-- Each row that would be kept stands within the cap and on no later page than the first row that is not
kept, and a page does not begin with it behind a row with its key. -/
def Exact (cap : Nat) (rows : List α) : Prop :=
  ∀ front a later, rows = front ++ a :: later → keep a = true →
    front.length < cap ∧ front.length / limit ≤ (rows.takeWhile keep).length / limit ∧
      (front.length % limit = 0 → ∀ b, front.getLast? = some b → key b ≠ key a)

variable {key keep limit}

theorem filter_take_of_le {rows : List α} {n : Nat} (h : n ≤ (rows.takeWhile keep).length) :
    (rows.take n).filter keep = rows.take n := by
  have hTake : rows.take n = (rows.takeWhile keep).take n := by
    conv_lhs => rw [← List.takeWhile_append_dropWhile (p := keep) (l := rows)]
    exact List.take_append_of_le_length h
  apply List.filter_eq_self.mpr
  intro b hb
  rw [hTake] at hb
  exact List.mem_takeWhile_imp (List.mem_of_mem_take hb)

omit [LinearOrder κ] in
/-- A row of the first page meets the condition. -/
theorem exact_of_lt {cap : Nat} {rows front : List α} {a : α} (h : front.length < min limit cap) :
    front.length < cap ∧ front.length / limit ≤ (rows.takeWhile keep).length / limit ∧
      (front.length % limit = 0 → ∀ b, front.getLast? = some b → key b ≠ key a) := by
  have hLimit : front.length < limit := by omega
  refine ⟨by omega, ?_, fun hMod b hb => ?_⟩
  · rw [Nat.div_eq_of_lt hLimit]
    exact Nat.zero_le _
  · rw [Nat.mod_eq_of_lt hLimit] at hMod
    rw [List.length_eq_zero_iff.mp hMod] at hb
    cases hb

omit [LinearOrder κ] in
theorem exact_last {cap : Nat} {rows : List α} (hLimit : 0 < limit)
    (hLast : ((rows.take (min limit cap)).filter keep).length < min limit cap ∨ min limit cap = 0) :
    (rows.take (min limit cap)).filter keep = rows.filter keep ↔ Exact key keep limit cap rows := by
  have hSplit : rows.filter keep = (rows.take (min limit cap)).filter keep ++
      (rows.drop (min limit cap)).filter keep := by
    rw [← List.filter_append, List.take_append_drop]
  rw [hSplit]
  constructor
  · intro hAll front a later hRows hKeep
    have hNone : (rows.drop (min limit cap)).filter keep = [] := List.self_eq_append_right.mp hAll
    apply exact_of_lt
    by_contra hPast
    have hDrop : rows.drop (min limit cap) = front.drop (min limit cap) ++ a :: later := by
      rw [hRows]
      exact List.drop_append_of_le_length (Nat.not_lt.mp hPast)
    apply List.filter_eq_nil_iff.mp hNone a
    · rw [hDrop]
      exact List.mem_append_right _ List.mem_cons_self
    · exact hKeep
  · intro hExact
    have hNone : (rows.drop (min limit cap)).filter keep = [] := by
      apply List.filter_eq_nil_iff.mpr
      intro a ha hKeep
      obtain ⟨s, t, hDrop⟩ := List.append_of_mem ha
      have hRows : rows = (rows.take (min limit cap) ++ s) ++ a :: t := by
        rw [List.append_assoc, ← hDrop, List.take_append_drop]
      have hLong : min limit cap ≤ rows.length := by
        have hPos := List.length_pos_of_mem ha
        rw [List.length_drop] at hPos
        omega
      have hLength : (rows.take (min limit cap) ++ s).length = min limit cap + s.length := by
        rw [List.length_append, List.length_take, Nat.min_eq_left hLong]
      obtain ⟨hCap, hPage, -⟩ := hExact _ a t hRows hKeep
      rw [hLength] at hCap hPage
      -- the cap is not reached, so the page has as many rows as asked for
      have hWhole : min limit cap = limit := by omega
      rw [hWhole] at hLast hLength hPage
      have hSecond : 1 ≤ (limit + s.length) / limit :=
        (Nat.le_div_iff_mul_le hLimit).mpr (by omega)
      have hFirst : limit ≤ (rows.takeWhile keep).length := by
        have hKept := (Nat.le_div_iff_mul_le hLimit).mp (hSecond.trans hPage)
        omega
      rw [filter_take_of_le hFirst, List.length_take] at hLast
      omega
    rw [hNone, List.append_nil]

omit [LinearOrder κ] in
/-- Behind a whole page that ends with another key, the condition is the one for the later rows. -/
theorem exact_append {cap : Nat} {front later : List α} {a : α} (hLimit : 0 < limit)
    (hLength : (front ++ [a]).length = min limit cap) (hKeep : ∀ b ∈ front ++ [a], keep b = true)
    (hHead : ∀ b, later.head? = some b → key b ≠ key a) :
    Exact key keep limit cap ((front ++ [a]) ++ later) ↔ Exact key keep limit (cap - min limit cap) later := by
  have hPage : ∀ n, min limit cap = limit → (n + limit) / limit = n / limit + 1 ∧
      (n + limit) % limit = n % limit := fun n _ =>
    ⟨Nat.add_div_right n hLimit, Nat.add_mod_right n limit⟩
  have hWhile : (((front ++ [a]) ++ later).takeWhile keep).length =
      (later.takeWhile keep).length + min limit cap := by
    rw [List.takeWhile_append_of_pos hKeep, List.length_append, hLength, Nat.add_comm]
  constructor
  · intro hExact s b t hLater hb
    have hRows : (front ++ [a]) ++ later = ((front ++ [a]) ++ s) ++ b :: t := by
      rw [hLater, ← List.append_assoc]
    obtain ⟨hCap, hPages, hBorder⟩ := hExact _ b t hRows hb
    rw [List.length_append, hLength] at hCap hPages hBorder
    have hWhole : min limit cap = limit := by omega
    rw [hWhile, Nat.add_comm, hWhole, (hPage _ hWhole).1, (hPage _ hWhole).1] at hPages
    refine ⟨by omega, by omega, fun hMod x hx => ?_⟩
    apply hBorder
    · rw [Nat.add_comm, hWhole, (hPage _ hWhole).2, hMod]
    · rw [List.getLast?_append, hx]
      rfl
  · intro hExact s b t hRows hb
    by_cases hFirst : s.length < min limit cap
    · exact exact_of_lt hFirst
    · -- the row stands behind the page
      have hLe : (front ++ [a]).length ≤ s.length := by omega
      obtain ⟨s', hs', hLater⟩ : ∃ s', s = (front ++ [a]) ++ s' ∧ later = s' ++ b :: t := by
        rcases List.append_eq_append_iff.mp hRows with ⟨s', h, h'⟩ | ⟨s', h, h'⟩
        · exact ⟨s', h, h'⟩
        · have hNil : s' = [] := by
            rw [h, List.length_append] at hLe
            exact List.length_eq_zero_iff.mp (by omega)
          rw [hNil, List.append_nil] at h
          rw [hNil, List.nil_append] at h'
          exact ⟨[], by rw [← h, List.append_nil], by rw [← h', List.nil_append]⟩
      obtain ⟨hCap, hPages, hBorder⟩ := hExact s' b t hLater hb
      have hSum : s.length = s'.length + min limit cap := by
        rw [hs', List.length_append, hLength, Nat.add_comm]
      have hWhole : min limit cap = limit := by omega
      rw [hWhile, hSum, hWhole, (hPage _ hWhole).1, (hPage _ hWhole).1, (hPage _ hWhole).2]
      refine ⟨by omega, by omega, fun hMod x hx => ?_⟩
      rw [hs', List.getLast?_append] at hx
      cases hLast : s'.getLast? with
      | some y =>
        rw [hLast] at hx
        cases hx
        exact hBorder hMod _ hLast
      | none =>
        rw [hLast, List.getLast?_append] at hx
        cases hx
        rw [List.getLast?_eq_none_iff.mp hLast] at hLater
        apply Ne.symm
        apply hHead
        rw [hLater]
        rfl

/-- A pager lists every row that it would keep exactly under the condition. -/
theorem Lists.exact_iff (hKey : ∀ a b, key a = key b → keep a = keep b) (hLimit : 0 < limit) {cap : Nat}
    {rows out : List α} (h : Lists key keep limit cap rows out) :
    out = rows.filter keep ↔ Exact key keep limit cap rows := by
  induction h with
  | last hLast => exact exact_last hLimit hLast
  | @more cap front later out a hLength hKeep hRest ih =>
    have hFilter : (front ++ a :: later).filter keep = front ++ a :: later.filter keep := by
      rw [List.append_cons, List.filter_append, List.filter_eq_self.mpr hKeep, List.append_assoc]
      rfl
    have hOut : front ++ a :: out = (front ++ a :: later).filter keep ↔ out = later.filter keep := by
      rw [hFilter, List.append_cancel_left_eq, List.cons.injEq]
      simp
    rw [hOut, List.append_cons]
    by_cases hTie : ∃ c, later.head? = some c ∧ key c = key a
    · -- the row with the key of the last one is skipped
      obtain ⟨c, hHead, hKeyC⟩ := hTie
      obtain ⟨later, rfl⟩ : ∃ t, later = c :: t := List.head?_eq_some_iff.mp hHead
      have hKept : keep c = true := (hKey c a hKeyC).trans (hKeep a (by simp))
      constructor
      · intro hAll
        have hRestC : rest key a (c :: later) = rest key a later := by
          unfold rest
          rw [List.dropWhile_cons_of_pos (by simp [hKeyC])]
        have hShort := (hRest.sublist.trans
          (hRestC ▸ (sublist_rest a later).filter keep)).length_le
        rw [hAll, List.filter_cons_of_pos hKept, List.length_cons] at hShort
        omega
      · intro hExact
        obtain ⟨hCap, -, hBorder⟩ := hExact _ c later rfl hKept
        rw [hLength] at hCap hBorder
        have hWhole : min limit cap = limit := by omega
        rw [hWhole, Nat.mod_self] at hBorder
        exact absurd hKeyC.symm (hBorder rfl a (by simp))
    · have hHead : ∀ b, later.head? = some b → key b ≠ key a := fun b hb hEq => hTie ⟨b, hb, hEq⟩
      have hSame : rest key a later = later := by
        unfold rest
        cases later with
        | nil => rfl
        | cons b later => rw [List.dropWhile_cons_of_neg (by simpa using hHead b rfl)]
      rw [hSame] at ih
      rw [ih, exact_append hLimit hLength hKeep hHead]

end Pager

end Keyset
