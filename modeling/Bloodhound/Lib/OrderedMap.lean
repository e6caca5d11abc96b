import Mathlib.Data.List.Nodup
import Mathlib.Data.List.Basic

/-!
# Maps in the order of arrival

A map lists its entries in the order in which their keys came. A new value takes the place of the old
one (`set`), a removed key that comes back comes last. `get?_set`, `get?_erase` and `get?_upsertAll` say
what a change makes of the values, `keys_set` what it makes of the order.
-/

structure OrderedMap (κ ν : Type) where
  entries : List (κ × ν)
  nodup : (entries.map Prod.fst).Nodup

namespace OrderedMap

variable {κ ν δ : Type}

def empty : OrderedMap κ ν := ⟨[], List.nodup_nil⟩

def keys (m : OrderedMap κ ν) : List κ := m.entries.map Prod.fst

def values (m : OrderedMap κ ν) : List ν := m.entries.map Prod.snd

theorem nodup_keys (m : OrderedMap κ ν) : m.keys.Nodup := m.nodup

variable [DecidableEq κ]

def get? (m : OrderedMap κ ν) (k : κ) : Option ν := (m.entries.find? fun e => e.1 = k).map Prod.snd

/-! ## Entries and values -/

/-- A key has the value of its only entry. -/
theorem get?_eq_some_iff {m : OrderedMap κ ν} {k : κ} {v : ν} : m.get? k = some v ↔ (k, v) ∈ m.entries := by
  unfold get?
  constructor
  · intro h
    obtain ⟨e, hFind, rfl⟩ := Option.map_eq_some_iff.mp h
    have hKey : e.1 = k := by simpa using List.find?_some hFind
    rw [← hKey]
    exact List.mem_of_find?_eq_some hFind
  · intro h
    cases hFind : m.entries.find? fun e => e.1 = k with
    | none =>
      have hOther := List.find?_eq_none.mp hFind (k, v) h
      simp at hOther
    | some e =>
      have hKey : e.1 = k := by simpa using List.find?_some hFind
      have hSame : e = (k, v) :=
        List.inj_on_of_nodup_map m.nodup (List.mem_of_find?_eq_some hFind) h hKey
      rw [hSame]
      rfl

theorem mem_keys {m : OrderedMap κ ν} {k : κ} : k ∈ m.keys ↔ ∃ v, m.get? k = some v := by
  unfold keys
  constructor
  · intro h
    obtain ⟨e, hMem, rfl⟩ := List.mem_map.mp h
    exact ⟨e.2, get?_eq_some_iff.mpr hMem⟩
  · rintro ⟨v, h⟩
    exact List.mem_map.mpr ⟨(k, v), get?_eq_some_iff.mp h, rfl⟩

theorem get?_eq_none_iff {m : OrderedMap κ ν} {k : κ} : m.get? k = none ↔ k ∉ m.keys := by
  rw [mem_keys]
  cases m.get? k <;> simp

theorem mem_values {m : OrderedMap κ ν} {v : ν} : v ∈ m.values ↔ ∃ k, m.get? k = some v := by
  unfold values
  constructor
  · intro h
    obtain ⟨e, hMem, rfl⟩ := List.mem_map.mp h
    exact ⟨e.1, get?_eq_some_iff.mpr hMem⟩
  · rintro ⟨k, h⟩
    exact List.mem_map.mpr ⟨(k, v), get?_eq_some_iff.mp h, rfl⟩

@[simp] theorem get?_empty (k : κ) : (empty : OrderedMap κ ν).get? k = none := rfl

/-! ## A new value -/

def setEntry (k : κ) (v : ν) : List (κ × ν) → List (κ × ν)
  | [] => [(k, v)]
  | e :: rest => if e.1 = k then (k, v) :: rest else e :: setEntry k v rest

theorem keys_setEntry (k : κ) (v : ν) (l : List (κ × ν)) : (setEntry k v l).map Prod.fst =
    if k ∈ l.map Prod.fst then l.map Prod.fst else l.map Prod.fst ++ [k] := by
  induction l with
  | nil => rfl
  | cons e rest ih =>
    unfold setEntry
    by_cases h : e.1 = k
    · simp [h]
    · rw [if_neg h, List.map_cons, ih, List.map_cons]
      by_cases hMem : k ∈ rest.map Prod.fst
      · rw [if_pos hMem, if_pos (List.mem_cons_of_mem _ hMem)]
      · rw [if_neg hMem, if_neg (by simpa [Ne.symm h] using hMem)]
        rfl

theorem nodup_setEntry {l : List (κ × ν)} (h : (l.map Prod.fst).Nodup) (k : κ) (v : ν) :
    ((setEntry k v l).map Prod.fst).Nodup := by
  rw [keys_setEntry]
  split
  · exact h
  · next hNew => exact h.append (List.nodup_singleton k) (by simpa using hNew)

/-- `map.set`. -/
def set (m : OrderedMap κ ν) (k : κ) (v : ν) : OrderedMap κ ν where
  entries := setEntry k v m.entries
  nodup := nodup_setEntry m.nodup k v

theorem find?_setEntry (k k' : κ) (v : ν) (l : List (κ × ν)) :
    (setEntry k v l).find? (fun e => e.1 = k') =
      if k' = k then some (k, v) else l.find? fun e => e.1 = k' := by
  induction l with
  | nil => by_cases h : k' = k <;> simp [setEntry, h, eq_comm]
  | cons e rest ih =>
    unfold setEntry
    by_cases h : e.1 = k
    · by_cases hSame : k' = k
      · simp [h, hSame]
      · have hOther : ¬ k = k' := fun hEq => hSame hEq.symm
        simp [h, hSame, hOther]
    · rw [if_neg h, List.find?_cons, ih, List.find?_cons]
      by_cases hHead : e.1 = k'
      · simp [hHead, show k' ≠ k from fun hEq => h (hHead.trans hEq)]
      · simp [hHead]

theorem get?_set (m : OrderedMap κ ν) (k k' : κ) (v : ν) :
    (m.set k v).get? k' = if k' = k then some v else m.get? k' := by
  unfold get? set
  rw [find?_setEntry]
  split <;> rfl

@[simp] theorem get?_set_self (m : OrderedMap κ ν) (k : κ) (v : ν) : (m.set k v).get? k = some v := by
  rw [get?_set, if_pos rfl]

theorem get?_set_of_ne (m : OrderedMap κ ν) {k k' : κ} (h : k' ≠ k) (v : ν) :
    (m.set k v).get? k' = m.get? k' := by
  rw [get?_set, if_neg h]

/-- A key that is there keeps its place, a new one comes last. -/
theorem keys_set (m : OrderedMap κ ν) (k : κ) (v : ν) :
    (m.set k v).keys = if k ∈ m.keys then m.keys else m.keys ++ [k] :=
  keys_setEntry k v m.entries

theorem mem_keys_set {m : OrderedMap κ ν} {k k' : κ} {v : ν} :
    k' ∈ (m.set k v).keys ↔ k' = k ∨ k' ∈ m.keys := by
  rw [keys_set]
  split
  · next h =>
    constructor
    · exact .inr
    · rintro (rfl | hMem)
      · exact h
      · exact hMem
  · rw [List.mem_append, List.mem_singleton, or_comm]

/-! ## Many new values -/

/-- Each item sets one key, to a value that may depend on the one that is there. -/
def upsertAll (key : δ → κ) (value : Option ν → δ → ν) (items : List δ) (m : OrderedMap κ ν) :
    OrderedMap κ ν :=
  items.foldl (fun m d => m.set (key d) (value (m.get? (key d)) d)) m

section Upsert

variable {key : δ → κ} {value : Option ν → δ → ν} {items : List δ} {m : OrderedMap κ ν} {k : κ}

/-- The value of a key is what its own items make of it, one after the other. -/
theorem get?_upsertAll : (upsertAll key value items m).get? k =
    (items.filter fun d => key d = k).foldl (fun o d => some (value o d)) (m.get? k) := by
  induction items generalizing m with
  | nil => rfl
  | cons d rest ih =>
    have hStep : upsertAll key value (d :: rest) m =
        upsertAll key value rest (m.set (key d) (value (m.get? (key d)) d)) := rfl
    rw [hStep, ih, List.filter_cons]
    by_cases h : key d = k
    · subst h
      rw [get?_set_self, if_pos (by simp), List.foldl_cons]
    · rw [get?_set_of_ne m (Ne.symm h), if_neg (by simpa using h)]

theorem mem_keys_upsertAll : k ∈ (upsertAll key value items m).keys ↔ k ∈ m.keys ∨ k ∈ items.map key := by
  induction items generalizing m with
  | nil => simp [upsertAll]
  | cons d rest ih =>
    have hStep : upsertAll key value (d :: rest) m =
        upsertAll key value rest (m.set (key d) (value (m.get? (key d)) d)) := rfl
    rw [hStep, ih, mem_keys_set, List.map_cons, List.mem_cons]
    exact ⟨fun h => h.elim (fun h => h.elim (fun h => .inr (.inl h)) .inl) (fun h => .inr (.inr h)),
      fun h => h.elim (fun h => .inl (.inr h)) fun h => h.elim (fun h => .inl (.inl h)) .inr⟩

end Upsert

/-- The entries of a map under a key. -/
theorem filter_entries (m : OrderedMap κ ν) (k : κ) :
    (m.entries.filter fun e => e.1 = k) = ((m.get? k).map fun v => (k, v)).toList := by
  obtain ⟨l, hNodup⟩ := m
  unfold get?
  induction l with
  | nil => rfl
  | cons e rest ih =>
    obtain ⟨hHead, hRest⟩ := List.nodup_cons.mp hNodup
    rw [List.filter_cons, List.find?_cons]
    by_cases h : e.1 = k
    · have hNone : (rest.filter fun e => e.1 = k) = [] :=
        List.filter_eq_nil_iff.mpr fun e' he' hSame =>
          hHead (List.mem_map.mpr ⟨e', he', (of_decide_eq_true hSame).trans h.symm⟩)
      subst h
      simp [hNone]
    · rw [if_neg (by simpa using h), ih hRest]
      simp [h]

/-- The entries of a map as new values: each key is set once. -/
theorem get?_upsertAll_entries {value : Option ν → κ × δ → ν} (u : OrderedMap κ δ) (m : OrderedMap κ ν) (k : κ) :
    (upsertAll Prod.fst value u.entries m).get? k =
      (u.get? k).elim (m.get? k) fun d => some (value (m.get? k) (k, d)) := by
  rw [get?_upsertAll, filter_entries]
  cases u.get? k <;> rfl

/-- The last item of each key, in the order in which the keys come. -/
def ofList (key : ν → κ) (items : List ν) : OrderedMap κ ν := upsertAll key (fun _ v => v) items empty

theorem get?_ofList (key : ν → κ) (items : List ν) (k : κ) :
    (ofList key items).get? k = (items.filter fun v => key v = k).getLast? := by
  have hLast : ∀ (l : List ν) (o : Option ν), l.foldl (fun _ d => some d) o = (l.getLast? <|> o) := by
    intro l
    induction l with
    | nil => exact fun o => rfl
    | cons v rest ih =>
      intro o
      rw [List.foldl_cons, ih, List.getLast?_cons]
      cases rest.getLast? <;> rfl
  unfold ofList
  rw [get?_upsertAll, hLast, get?_empty]
  cases (items.filter fun v => key v = k).getLast? <;> rfl

theorem of_get?_ofList {key : ν → κ} {items : List ν} {k : κ} {v : ν} (h : (ofList key items).get? k = some v) :
    v ∈ items ∧ key v = k := by
  rw [get?_ofList] at h
  have hMem := List.mem_filter.mp (List.mem_of_getLast? h)
  exact ⟨hMem.1, of_decide_eq_true hMem.2⟩

theorem mem_keys_ofList {key : ν → κ} {items : List ν} {k : κ} :
    k ∈ (ofList key items).keys ↔ k ∈ items.map key := by
  unfold ofList
  rw [mem_keys_upsertAll]
  exact or_iff_right List.not_mem_nil

omit [DecidableEq κ] in
/-- Values that know their keys are listed as the keys are. -/
theorem map_values {f : ν → κ} {m : OrderedMap κ ν} (h : ∀ e ∈ m.entries, f e.2 = e.1) :
    m.values.map f = m.keys := by
  unfold values keys
  rw [List.map_map]
  exact List.map_congr_left h

/-! ## Removal -/

omit [DecidableEq κ] in
theorem nodup_filter {l : List (κ × ν)} (h : (l.map Prod.fst).Nodup) (p : κ × ν → Bool) :
    ((l.filter p).map Prod.fst).Nodup :=
  h.sublist (List.filter_sublist.map _)

/-- `map.delete`. -/
def erase (m : OrderedMap κ ν) (k : κ) : OrderedMap κ ν where
  entries := m.entries.filter fun e => e.1 ≠ k
  nodup := nodup_filter m.nodup _

theorem keys_erase (m : OrderedMap κ ν) (k : κ) : (m.erase k).keys = m.keys.filter (· ≠ k) := by
  unfold keys erase
  rw [List.filter_map]
  rfl

theorem mem_keys_erase {m : OrderedMap κ ν} {k k' : κ} : k' ∈ (m.erase k).keys ↔ k' ∈ m.keys ∧ k' ≠ k := by
  rw [keys_erase, List.mem_filter]
  simp

theorem get?_erase (m : OrderedMap κ ν) (k k' : κ) :
    (m.erase k).get? k' = if k' = k then none else m.get? k' := by
  by_cases h : k' = k
  · rw [if_pos h, get?_eq_none_iff, mem_keys_erase]
    exact fun hMem => hMem.2 h
  · rw [if_neg h]
    apply Option.ext
    intro v
    rw [get?_eq_some_iff, get?_eq_some_iff]
    unfold erase
    simp [h]

/-- A removed key comes back as the last one. -/
theorem entries_erase_set (m : OrderedMap κ ν) (k : κ) (v : ν) :
    ((m.erase k).set k v).entries = m.entries.filter (fun e => e.1 ≠ k) ++ [(k, v)] := by
  have hNew : ∀ l : List (κ × ν), (∀ e ∈ l, e.1 ≠ k) → setEntry k v l = l ++ [(k, v)] := by
    intro l hl
    induction l with
    | nil => rfl
    | cons e rest ih =>
      obtain ⟨hHead, hRest⟩ := List.forall_mem_cons.mp hl
      unfold setEntry
      rw [if_neg hHead, ih hRest]
      rfl
  exact hNew _ fun e he => by simpa using (List.mem_filter.mp he).2

omit [DecidableEq κ] in
theorem nodup_drop {l : List (κ × ν)} (h : (l.map Prod.fst).Nodup) (n : Nat) : ((l.drop n).map Prod.fst).Nodup :=
  h.sublist ((List.drop_sublist n l).map _)

omit [DecidableEq κ] in
/-- The first entries are removed. -/
def dropFirst (m : OrderedMap κ ν) (n : Nat) : OrderedMap κ ν where
  entries := m.entries.drop n
  nodup := nodup_drop m.nodup n

theorem get?_of_get?_dropFirst {m : OrderedMap κ ν} {n : Nat} {k : κ} {v : ν}
    (h : (m.dropFirst n).get? k = some v) : m.get? k = some v :=
  get?_eq_some_iff.mpr (List.mem_of_mem_drop (get?_eq_some_iff.mp h))

end OrderedMap
