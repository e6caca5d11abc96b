import Mathlib.Data.List.Basic
import Mathlib.Data.List.Induction
import Mathlib.Data.List.Perm.Basic

/-!
# Buckets

A list is put into buckets by the keys of its elements, one element after the other. The buckets stand in the order
in which their keys first occur, and the bucket of a key has the elements with the key in their order
(`get_buckets`). No element is lost (`flatMap_buckets_perm`).
-/

namespace Buckets

variable {κ α : Type} [DecidableEq κ] (key : α → κ)

/-- Put an element at the end of its bucket, or into a new last bucket. -/
def push : List (κ × List α) → α → List (κ × List α)
  | [], a => [(key a, [a])]
  | (k, as) :: rest, a => if k = key a then (k, as ++ [a]) :: rest else (k, as) :: push rest a

def buckets (l : List α) : List (κ × List α) := l.foldl (push key) []

/-- The bucket of a key. -/
def get (bs : List (κ × List α)) (k : κ) : Option (List α) := (bs.find? (·.1 = k)).map (·.2)

variable {key}

theorem buckets_concat (l : List α) (a : α) : buckets key (l ++ [a]) = push key (buckets key l) a := by
  rw [buckets, List.foldl_append]
  rfl

theorem get_push (bs : List (κ × List α)) (a : α) (k : κ) :
    get (push key bs a) k = if k = key a then some ((get bs k).getD [] ++ [a]) else get bs k := by
  induction bs with
  | nil =>
    by_cases hKey : k = key a
    · simp [push, get, hKey]
    · simp [push, get, hKey, Ne.symm hKey]
  | cons b bs ih =>
    rw [push]
    by_cases hHere : b.1 = key a
    · rw [if_pos hHere]
      by_cases hKey : k = key a
      · simp [get, hHere, hKey]
      · simp [get, hHere, hKey, Ne.symm hKey]
    · rw [if_neg hHere]
      by_cases hFirst : b.1 = k
      · have hKey : ¬ k = key a := fun h => hHere (hFirst.trans h)
        simp [get, hFirst, hKey]
      · have hRest : ∀ bs : List (κ × List α), get (b :: bs) k = get bs k := fun bs => by
          rw [get, List.find?_cons_of_neg (by simpa using hFirst)]
          rfl
        rw [hRest, hRest, ih]

/-- The bucket of a key has the elements with the key. -/
theorem get_buckets (l : List α) (k : κ) :
    get (buckets key l) k = if l.filter (key · = k) = [] then none else some (l.filter (key · = k)) := by
  induction l using List.reverseRecOn with
  | nil => rfl
  | append_singleton l a ih =>
    rw [buckets_concat, get_push, ih, List.filter_append]
    by_cases hKey : k = key a
    · subst hKey
      have hNew : [a].filter (key · = key a) = [a] := by simp
      have hOld : (if l.filter (key · = key a) = [] then none else some (l.filter (key · = key a))).getD [] =
          l.filter (key · = key a) := by
        split
        · next hNone => exact hNone.symm
        · rfl
      rw [if_pos rfl, hOld, hNew, if_neg (by simp)]
    · have hSkip : [a].filter (key · = k) = [] := by simp [Ne.symm hKey]
      rw [if_neg hKey, hSkip, List.append_nil]

theorem count_filter_ite [DecidableEq α] (keep : α → Bool) (l : List α) (a : α) :
    (l.filter keep).count a = if keep a then l.count a else 0 := by
  split
  · next hKeep => exact List.count_filter hKeep
  · next hDrop => exact List.count_eq_zero_of_not_mem fun h => hDrop (List.mem_filter.mp h).2

/-- Buckets of some keys have an element as often as the list when its key is one of them. -/
theorem count_flatMap_filter [DecidableEq α] {keys : List κ} (hKeys : keys.Nodup) (l : List α) (a : α) :
    (keys.flatMap fun k => l.filter (key · = k)).count a = if key a ∈ keys then l.count a else 0 := by
  induction keys with
  | nil => rfl
  | cons k keys ih =>
    obtain ⟨hNew, hRest⟩ := List.nodup_cons.mp hKeys
    rw [List.flatMap_cons, List.count_append, ih hRest]
    simp only [count_filter_ite, decide_eq_true_eq, List.mem_cons]
    by_cases hHere : key a = k
    · have hNot : key a ∉ keys := hHere ▸ hNew
      simp only [hHere, hNew, true_or, if_true, if_false, Nat.add_zero]
    · simp only [hHere, false_or, if_false, Nat.zero_add]

theorem flatMap_push_perm (bs : List (κ × List α)) (a : α) :
    ((push key bs a).flatMap (·.2)).Perm (bs.flatMap (·.2) ++ [a]) := by
  induction bs with
  | nil => exact List.Perm.refl _
  | cons b bs ih =>
    rw [push]
    split
    · rw [List.flatMap_cons, List.flatMap_cons, List.append_assoc, List.append_assoc]
      exact List.perm_append_comm.append_left _
    · rw [List.flatMap_cons, List.flatMap_cons, List.append_assoc]
      exact ih.append_left _

/-- All elements are in the buckets. -/
theorem flatMap_buckets_perm (l : List α) : ((buckets key l).flatMap (·.2)).Perm l := by
  induction l using List.reverseRecOn with
  | nil => exact List.Perm.refl _
  | append_singleton l a ih =>
    rw [buckets_concat]
    exact (flatMap_push_perm _ a).trans (ih.append_right [a])

/-- Elements with one key are in one bucket. -/
theorem buckets_of_key {l : List α} {k : κ} (hKey : ∀ a ∈ l, key a = k) (hSome : l ≠ []) :
    buckets key l = [(k, l)] := by
  induction l using List.reverseRecOn with
  | nil => exact absurd rfl hSome
  | append_singleton l a ih =>
    have hLast : k = key a := (hKey a (List.mem_append_right l (List.mem_singleton_self a))).symm
    rw [buckets_concat]
    by_cases hEmpty : l = []
    · subst hEmpty
      rw [hLast]
      rfl
    · rw [ih (fun b hb => hKey b (List.mem_append_left [a] hb)) hEmpty, push, if_pos hLast]

theorem keys_push (bs : List (κ × List α)) (a : α) :
    (push key bs a).map (·.1) = if key a ∈ bs.map (·.1) then bs.map (·.1) else bs.map (·.1) ++ [key a] := by
  induction bs with
  | nil => simp [push]
  | cons b bs ih =>
    rw [push]
    by_cases hHere : b.1 = key a
    · simp [hHere]
    · rw [if_neg hHere, List.map_cons, ih, List.map_cons]
      by_cases hMem : key a ∈ bs.map (·.1)
      · rw [if_pos hMem, if_pos (List.mem_cons_of_mem _ hMem)]
      · have hNot : key a ∉ b.1 :: bs.map (·.1) := by
          rw [List.mem_cons, not_or]
          exact ⟨Ne.symm hHere, hMem⟩
        rw [if_neg hMem, if_neg hNot, List.cons_append]

theorem mem_keys_push (bs : List (κ × List α)) (a : α) (k : κ) :
    k ∈ (push key bs a).map (·.1) ↔ k ∈ bs.map (·.1) ∨ k = key a := by
  rw [keys_push]
  split
  · next hOld =>
    constructor
    · exact Or.inl
    · rintro (h | rfl)
      · exact h
      · exact hOld
  · rw [List.mem_append, List.mem_singleton]

theorem mem_keys_buckets (l : List α) (k : κ) : k ∈ (buckets key l).map (·.1) ↔ ∃ a ∈ l, key a = k := by
  induction l using List.reverseRecOn with
  | nil => simp [buckets]
  | append_singleton l a ih =>
    rw [buckets_concat, mem_keys_push, ih]
    constructor
    · rintro (⟨b, hb, rfl⟩ | rfl)
      · exact ⟨b, List.mem_append_left _ hb, rfl⟩
      · exact ⟨a, List.mem_append_right _ List.mem_cons_self, rfl⟩
    · rintro ⟨b, hb, rfl⟩
      rcases List.mem_append.mp hb with hb | hb
      · exact Or.inl ⟨b, hb, rfl⟩
      · exact Or.inr (by rw [List.mem_singleton.mp hb])

theorem nodup_keys_buckets (l : List α) : ((buckets key l).map (·.1)).Nodup := by
  induction l using List.reverseRecOn with
  | nil => exact List.nodup_nil
  | append_singleton l a ih =>
    rw [buckets_concat, keys_push]
    split
    · exact ih
    · next hNew =>
      apply List.nodup_append.mpr
      refine ⟨ih, List.nodup_cons.mpr ⟨List.not_mem_nil, List.nodup_nil⟩, fun k hk k' hk' => ?_⟩
      rw [List.mem_singleton.mp hk']
      exact fun hSame => hNew (hSame ▸ hk)

/-- The buckets of all keys, in any order, have all elements. -/
theorem flatMap_get_perm [DecidableEq α] {keys : List κ} {l : List α}
    (hKeys : keys.Perm ((buckets key l).map (·.1))) :
    (keys.flatMap fun k => (get (buckets key l) k).getD []).Perm l := by
  have hGet : ∀ k, (get (buckets key l) k).getD [] = l.filter (key · = k) := fun k => by
    rw [get_buckets]
    split
    · next hNone => exact hNone.symm
    · rfl
  simp only [hGet]
  refine List.perm_iff_count.mpr fun a => ?_
  rw [count_flatMap_filter (hKeys.nodup_iff.mpr (nodup_keys_buckets l))]
  split
  · rfl
  · next hNot =>
    refine (List.count_eq_zero_of_not_mem fun ha => hNot ?_).symm
    exact hKeys.mem_iff.mpr ((mem_keys_buckets l _).mpr ⟨a, ha, rfl⟩)

end Buckets
