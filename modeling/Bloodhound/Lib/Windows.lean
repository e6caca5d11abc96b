import Mathlib.Data.List.TakeDrop
import Mathlib.Data.List.TakeWhile

/-!
# Windows on a list

A reader takes windows of a list one after the other, keeps some of the rows of each, and stops at the first
window in which it does not keep all rows. It reads the kept rows in front of the first row that is not kept
(`leading`); these are all the kept rows, up to a cap, exactly where no row that is not kept stands before one
of them (`leading_eq_iff`).
-/

namespace Windows

variable {α : Type} (keep : α → Bool) (cap : Nat)

/-- The rows in front of the first one that is not kept, up to a cap. -/
def leading (rows : List α) : List α := (rows.takeWhile keep).take cap

/-- Below the cap, no row that is not kept stands before one that is. -/
def Unbroken (rows : List α) : Prop :=
  ∀ front a later, rows = front ++ a :: later → keep a = true → (front.filter keep).length < cap →
    ∀ b ∈ front, keep b = true

variable {keep cap} {rows : List α}

theorem length_leading_le : (leading keep cap rows).length ≤ cap := List.length_take_le _ _

theorem filter_takeWhile (rows : List α) : (rows.takeWhile keep).filter keep = rows.takeWhile keep :=
  List.filter_eq_self.mpr fun _ h => List.mem_takeWhile_imp h

theorem filter_eq_takeWhile_append (keep : α → Bool) (rows : List α) :
    rows.filter keep = rows.takeWhile keep ++ (rows.dropWhile keep).filter keep := by
  conv_lhs => rw [← List.takeWhile_append_dropWhile (p := keep) (l := rows)]
  rw [List.filter_append, filter_takeWhile]

/-- Where the cap is not reached by then, no row behind the first one that is not kept is kept. -/
theorem Unbroken.filter_dropWhile (h : Unbroken keep cap rows) (hCap : (rows.takeWhile keep).length < cap) :
    (rows.dropWhile keep).filter keep = [] := by
  cases hKept : (rows.dropWhile keep).filter keep with
  | nil => rfl
  | cons a kept =>
    obtain ⟨s, t, hSplit, hNone, hKeep, -⟩ := List.filter_eq_cons_iff.mp hKept
    have hRows : rows = (rows.takeWhile keep ++ s) ++ a :: t := by
      rw [List.append_assoc, ← hSplit, List.takeWhile_append_dropWhile]
    have hFront : ((rows.takeWhile keep ++ s).filter keep).length < cap := by
      rw [List.filter_append, filter_takeWhile, List.filter_eq_nil_iff.mpr hNone, List.append_nil]
      exact hCap
    have hAll := h _ a t hRows hKeep hFront
    have hSome : rows.dropWhile keep ≠ [] := by simp [hSplit]
    have hHead := List.head_dropWhile_not keep hSome
    cases s with
    | nil =>
      simp only [hSplit, List.nil_append, List.head_cons] at hHead
      rw [hKeep] at hHead
      cases hHead
    | cons b s => exact absurd (hAll b (List.mem_append_right _ List.mem_cons_self)) (hNone b List.mem_cons_self)

theorem unbroken_of_filter (h : (rows.dropWhile keep).filter keep = []) : Unbroken keep cap rows := by
  intro front a later hRows hKeep _
  by_contra hNot
  have hDrop : front.dropWhile keep ≠ [] := fun hNil => hNot (List.dropWhile_eq_nil_iff.mp hNil)
  have hMem : a ∈ rows.dropWhile keep := by
    rw [hRows, List.dropWhile_append, if_neg (by simpa using hDrop)]
    exact List.mem_append_right _ List.mem_cons_self
  exact List.filter_eq_nil_iff.mp h a hMem hKeep

theorem unbroken_of_le (h : cap ≤ (rows.takeWhile keep).length) : Unbroken keep cap rows := by
  intro front a later hRows _ hCap
  by_contra hNot
  have hDrop : front.dropWhile keep ≠ [] := fun hNil => hNot (List.dropWhile_eq_nil_iff.mp hNil)
  have hWhile : rows.takeWhile keep = front.takeWhile keep := by
    have hFront : front ≠ [] := fun hNil => hDrop (by rw [hNil]; rfl)
    rw [hRows, List.takeWhile_append, if_neg]
    intro hAll
    have hEmpty := List.takeWhile_append_dropWhile (p := keep) (l := front)
    have hLength := congrArg List.length hEmpty
    rw [List.length_append, hAll] at hLength
    exact hDrop (List.length_eq_zero_iff.mp (by omega))
  have hShort := (List.takeWhile_sublist (l := front) keep).filter keep |>.length_le
  rw [filter_takeWhile, ← hWhile] at hShort
  omega

/-- The kept rows up to the cap are those in front of the first row that is not kept exactly where no such row
stands before one of them. -/
theorem leading_eq_iff : (rows.filter keep).take cap = leading keep cap rows ↔ Unbroken keep cap rows := by
  unfold leading
  rw [filter_eq_takeWhile_append, List.take_append, List.append_right_eq_self, List.take_eq_nil_iff]
  constructor
  · rintro (hCap | hNone)
    · exact unbroken_of_le (by omega)
    · exact unbroken_of_filter hNone
  · intro h
    by_cases hCap : cap ≤ (rows.takeWhile keep).length
    · exact .inl (by omega)
    · exact .inr (h.filter_dropWhile (by omega))

theorem leading_prefix (keep : α → Bool) (cap : Nat) (rows : List α) :
    leading keep cap rows <+: (rows.filter keep).take cap := by
  unfold leading
  rw [filter_eq_takeWhile_append, List.take_append]
  exact List.prefix_append _ _

/-- A window that begins among the leading rows shows the next of them, where it has one row at most or no
kept row is hidden. -/
theorem filter_window {start size : Nat} (hStart : start ≤ (rows.takeWhile keep).length)
    (hCap : start + size ≤ cap) (h : size ≤ 1 ∨ Unbroken keep cap rows) :
    ((rows.drop start).take size).filter keep = ((leading keep cap rows).drop start).take size := by
  have hLeading : ((leading keep cap rows).drop start).take size =
      ((rows.takeWhile keep).drop start).take size := by
    unfold leading
    rw [List.drop_take, List.take_take, Nat.min_eq_left (by omega)]
  have hRows : rows.drop start = (rows.takeWhile keep).drop start ++ rows.dropWhile keep := by
    conv_lhs => rw [← List.takeWhile_append_dropWhile (p := keep) (l := rows)]
    exact List.drop_append_of_le_length hStart
  have hFront : (((rows.takeWhile keep).drop start).take size).filter keep =
      ((rows.takeWhile keep).drop start).take size :=
    List.filter_eq_self.mpr fun a ha =>
      List.mem_takeWhile_imp (List.mem_of_mem_drop (List.mem_of_mem_take ha))
  rw [hLeading, hRows, List.take_append, List.filter_append, hFront, List.append_right_eq_self]
  by_cases hInside : size ≤ ((rows.takeWhile keep).drop start).length
  · rw [Nat.sub_eq_zero_of_le hInside]
    rfl
  · rw [List.length_drop] at hInside ⊢
    rcases h with hOne | hUnbroken
    · -- the window is the first row that is not kept
      rw [show size - ((rows.takeWhile keep).length - start) = 1 by omega]
      cases hRest : rows.dropWhile keep with
      | nil => rfl
      | cons b rest =>
        have hHead := List.head_dropWhile_not keep (l := rows) (by rw [hRest]; exact List.cons_ne_nil _ _)
        simp only [hRest, List.head_cons] at hHead
        simp [hHead]
    · have hNone := hUnbroken.filter_dropWhile (by omega)
      exact List.filter_eq_nil_iff.mpr fun a ha => List.filter_eq_nil_iff.mp hNone a (List.mem_of_mem_take ha)

end Windows
