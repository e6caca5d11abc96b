import Mathlib.Data.List.AList
import Mathlib.Data.List.Dedup
import Mathlib.Algebra.BigOperators.Group.List.Basic
import Mathlib.Algebra.Order.BigOperators.Group.List
import Mathlib.Algebra.Ring.Int.Defs
import Mathlib.Tactic.Ring

/-!
# Keyed tables

A table with a primary key is an association list without repeated keys (`AList`). This
file adds what SQL updates, deletes and sums need on top of `AList.insert` and
`AList.lookup`, each described by its effect on lookups; sums are described by the change
that one insertion makes.
-/

namespace Table

variable {κ ν : Type} [DecidableEq κ]

/-- Rows `ν` with primary key `κ`. -/
abbrev Rows (κ ν : Type) : Type := AList fun _ : κ => ν

/-- Update the row with the given key, if there is one. -/
def modify (k : κ) (f : ν → ν) (t : Rows κ ν) : Rows κ ν :=
  (t.lookup k).elim t fun v => t.insert k (f v)

/-- Keep the rows that satisfy `p`. -/
def filter (p : κ → ν → Bool) (t : Rows κ ν) : Rows κ ν :=
  ⟨t.entries.filter fun e => p e.1 e.2,
    List.NodupKeys.sublist List.filter_sublist t.nodupKeys⟩

/-- Update every row. -/
def mapRows (f : κ → ν → ν) (t : Rows κ ν) : Rows κ ν :=
  ⟨t.entries.map fun e => ⟨e.1, f e.1 e.2⟩, by
    have h := t.nodupKeys
    unfold List.NodupKeys List.keys at *
    rwa [List.map_map, show (Sigma.fst ∘ fun e : (_ : κ) × ν => (⟨e.1, f e.1 e.2⟩ : (_ : κ) × ν)) =
      Sigma.fst from rfl]⟩

/-- The sum of `f` over all rows. -/
def sum (f : κ → ν → Int) (t : Rows κ ν) : Int :=
  (t.entries.map fun e => f e.1 e.2).sum

/-! ## Lookups -/

theorem lookup_insert_if (k k' : κ) (v : ν) (t : Rows κ ν) :
    (t.insert k v).lookup k' = if k' = k then some v else t.lookup k' := by
  split
  · next h => rw [h, AList.lookup_insert]
  · next h => exact AList.lookup_insert_ne h

theorem lookup_modify (k k' : κ) (f : ν → ν) (t : Rows κ ν) :
    (modify k f t).lookup k' = if k' = k then (t.lookup k').map f else t.lookup k' := by
  unfold modify
  cases h : t.lookup k with
  | none =>
    simp only [Option.elim_none]
    split
    · next hk => rw [hk, h, Option.map_none]
    · rfl
  | some v =>
    simp only [Option.elim_some, lookup_insert_if]
    split
    · next hk => rw [hk, h, Option.map_some]
    · rfl

theorem lookup_eq_some_iff {t : Rows κ ν} {k : κ} {v : ν} :
    t.lookup k = some v ↔ (⟨k, v⟩ : (_ : κ) × ν) ∈ t.entries :=
  AList.mem_lookup_iff

theorem lookup_filter (p : κ → ν → Bool) (t : Rows κ ν) (k : κ) :
    (filter p t).lookup k = (t.lookup k).filter (p k) := by
  apply Option.ext
  intro v
  rw [lookup_eq_some_iff, Option.filter_eq_some_iff, lookup_eq_some_iff]
  exact List.mem_filter

theorem lookup_mapRows (f : κ → ν → ν) (t : Rows κ ν) (k : κ) :
    (mapRows f t).lookup k = (t.lookup k).map (f k) := by
  apply Option.ext
  intro v
  rw [lookup_eq_some_iff, Option.map_eq_some_iff]
  constructor
  · intro h
    obtain ⟨e, he, heq⟩ := List.mem_map.mp h
    obtain ⟨k', v'⟩ := e
    cases heq
    exact ⟨v', lookup_eq_some_iff.mpr he, rfl⟩
  · rintro ⟨v', hv', rfl⟩
    exact List.mem_map.mpr ⟨⟨k, v'⟩, lookup_eq_some_iff.mp hv', rfl⟩

/-! ## Sums -/

omit [DecidableEq κ] in
theorem sum_filter (f : κ → ν → Int) (p : κ → ν → Bool) (t : Rows κ ν) :
    sum f (filter p t) = sum (fun k v => if p k v then f k v else 0) t := by
  unfold sum filter
  simp only
  induction t.entries with
  | nil => rfl
  | cons e es ih =>
    rw [List.filter_cons, List.map_cons, List.sum_cons, ← ih]
    split
    · rw [List.map_cons, List.sum_cons]
    · rw [zero_add]

theorem sum_erase (f : κ → ν → Int) (k : κ) (t : Rows κ ν) :
    sum f t = ((t.lookup k).elim 0 (f k)) + sum f (t.erase k) := by
  cases h : t.lookup k with
  | none =>
    have hk : k ∉ t := AList.lookup_eq_none.mp h
    have : t.erase k = t := AList.ext (List.kerase_of_notMem_keys hk)
    rw [this, Option.elim_none, zero_add]
  | some v =>
    have hperm : t.entries.Perm (⟨k, v⟩ :: (t.erase k).entries) := by
      have hins : (t.erase k).insert k v = t.insert k v := by
        apply AList.ext
        rw [AList.entries_insert, AList.entries_insert]
        show _ :: List.kerase k (List.kerase k t.entries) = _
        rw [List.kerase_of_notMem_keys (List.notMem_keys_kerase k t.nodupKeys)]
      have : (t.insert k v).entries = ⟨k, v⟩ :: (t.erase k).entries := AList.entries_insert
      rw [← this]
      refine (List.perm_ext_iff_of_nodup t.nodupKeys.nodup (t.insert k v).nodupKeys.nodup).mpr ?_
      rintro ⟨k', v'⟩
      rw [← lookup_eq_some_iff, ← lookup_eq_some_iff, lookup_insert_if]
      split
      · next hk => rw [hk, h]
      · rfl
    unfold sum
    rw [(hperm.map fun e => f e.1 e.2).sum_eq, List.map_cons, List.sum_cons, Option.elim_some]

theorem sum_insert (f : κ → ν → Int) (k : κ) (v : ν) (t : Rows κ ν) :
    sum f (t.insert k v) = sum f t + f k v - (t.lookup k).elim 0 (f k) := by
  have h : sum f (t.insert k v) = f k v + sum f (t.erase k) := by
    unfold sum
    rw [AList.entries_insert, List.map_cons, List.sum_cons]
    rfl
  rw [h, sum_erase f k t]
  ring

theorem sum_modify (f : κ → ν → Int) (k : κ) (g : ν → ν) (t : Rows κ ν) :
    sum f (modify k g t) =
      sum f t + (((t.lookup k).map g).elim 0 (f k) - (t.lookup k).elim 0 (f k)) := by
  unfold modify
  cases h : t.lookup k with
  | none => simp
  | some v =>
    rw [Option.elim_some, sum_insert, h]
    simp only [Option.elim_some, Option.map_some]
    ring

/-- Sums depend on the lookups only. -/
theorem sum_congr {f : κ → ν → Int} {t t' : Rows κ ν} (h : ∀ k, t.lookup k = t'.lookup k) :
    sum f t = sum f t' := by
  have hperm : t.entries.Perm t'.entries := by
    refine (List.perm_ext_iff_of_nodup t.nodupKeys.nodup t'.nodupKeys.nodup).mpr ?_
    rintro ⟨k, v⟩
    rw [← lookup_eq_some_iff, ← lookup_eq_some_iff, h]
  exact (hperm.map fun e => f e.1 e.2).sum_eq

/-- Two tables that agree outside the listed keys. -/
theorem sum_apart {f : κ → ν → Int} {ks : List κ} (hNodup : ks.Nodup) {t t' : Rows κ ν}
    (h : ∀ k, k ∉ ks → t'.lookup k = t.lookup k) :
    sum f t' = sum f t + (ks.map fun k => (t'.lookup k).elim 0 (f k) - (t.lookup k).elim 0 (f k)).sum := by
  induction ks generalizing t t' with
  | nil =>
    rw [List.map_nil, List.sum_nil, add_zero]
    exact sum_congr fun k => h k List.not_mem_nil
  | cons k ks ih =>
    rw [List.nodup_cons] at hNodup
    have hApart : ∀ k', k' ∉ ks → (t'.erase k).lookup k' = (t.erase k).lookup k' := by
      intro k' hk'
      by_cases hEq : k' = k
      · rw [hEq, AList.lookup_erase, AList.lookup_erase]
      · rw [AList.lookup_erase_ne hEq, AList.lookup_erase_ne hEq]
        exact h k' (List.not_mem_cons_of_ne_of_not_mem hEq hk')
    have hErased := ih hNodup.2 hApart
    have hSame : (ks.map fun k' => ((t'.erase k).lookup k').elim 0 (f k') -
        ((t.erase k).lookup k').elim 0 (f k')) =
        ks.map fun k' => (t'.lookup k').elim 0 (f k') - (t.lookup k').elim 0 (f k') := by
      refine List.map_congr_left fun k' hk' => ?_
      have hNe : k' ≠ k := fun hEq => hNodup.1 (hEq ▸ hk')
      rw [AList.lookup_erase_ne hNe, AList.lookup_erase_ne hNe]
    rw [hSame] at hErased
    rw [sum_erase f k t', sum_erase f k t, hErased, List.map_cons, List.sum_cons]
    ring

/-- Tables whose rows have the same values have the same sum. -/
theorem sum_eq_of_values {f : κ → ν → Int} {t t' : Rows κ ν}
    (h : ∀ k, (t'.lookup k).elim 0 (f k) = (t.lookup k).elim 0 (f k)) : sum f t' = sum f t := by
  have hApart : ∀ k, k ∉ (t.keys ++ t'.keys).dedup → t'.lookup k = t.lookup k := by
    intro k hk
    rw [List.mem_dedup, List.mem_append, not_or, ← AList.mem_keys, ← AList.mem_keys] at hk
    rw [AList.lookup_eq_none.mpr hk.1, AList.lookup_eq_none.mpr hk.2]
  rw [sum_apart (List.nodup_dedup _) hApart]
  simp [h]

/-- The values under some keys sum to at most those of the table. -/
theorem sum_lookups_le {f : κ → ν → Int} {t : Rows κ ν} (hf : ∀ k v, t.lookup k = some v → 0 ≤ f k v)
    {ks : List κ} (hNodup : ks.Nodup) : (ks.map fun k => (t.lookup k).elim 0 (f k)).sum ≤ sum f t := by
  induction ks generalizing t with
  | nil =>
    refine List.sum_nonneg fun d hd => ?_
    obtain ⟨e, he, rfl⟩ := List.mem_map.mp hd
    exact hf e.1 e.2 (lookup_eq_some_iff.mpr he)
  | cons k ks ih =>
    rw [List.nodup_cons] at hNodup
    have hSame : (ks.map fun k' => ((t.erase k).lookup k').elim 0 (f k')) =
        ks.map fun k' => (t.lookup k').elim 0 (f k') := by
      refine List.map_congr_left fun k' hk' => ?_
      have hNe : k' ≠ k := fun hEq => hNodup.1 (hEq ▸ hk')
      rw [AList.lookup_erase_ne hNe]
    have hErased : ∀ k' v, (t.erase k).lookup k' = some v → 0 ≤ f k' v := by
      intro k' v hv
      by_cases hEq : k' = k
      · rw [hEq, AList.lookup_erase] at hv
        cases hv
      · exact hf k' v (by rwa [AList.lookup_erase_ne hEq] at hv)
    have hRest := ih hErased hNodup.2
    have hFirst : 0 ≤ (t.lookup k).elim 0 (f k) := by
      cases hv : t.lookup k with
      | none => exact le_rfl
      | some v => exact hf k v hv
    rw [hSame] at hRest
    rw [sum_erase f k t, List.map_cons, List.sum_cons]
    omega

end Table
