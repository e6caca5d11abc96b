import Bloodhound.Scanner.AddressCode

/-!
# Victims

`victim_loader.cpp`: the victims of a scan, from the rows of the other database. Each entry has a lookup key
with its own position as index; the map from texts to positions keeps the last position of a text.
-/

namespace Bloodhound.Scanner

def normalizeBitcoinAddress (raw : Bytes) : Option Bytes :=
  let a := ((raw.dropWhile (· = 32)).reverse.dropWhile (· = 32)).reverse
  if a = [] ∨ 90 < a.length then none
  else if (ascii "bc1").isPrefixOf a ∨ (ascii "BC1").isPrefixOf a then some (a.map toLower)
  else some a

structure VictimEntry where
  address : Bytes
  hash160 : Bytes
  deriving DecidableEq

structure VictimLookupKey where
  key20 : Bytes
  victimIndex : Nat
  family : ScriptFamily
  deriving DecidableEq

structure VictimSet where
  entries : List VictimEntry
  lookupKeys : List VictimLookupKey
  addressIndex : List (Bytes × Nat)

namespace VictimSet

def empty : VictimSet := ⟨[], [], []⟩

def append (v : VictimSet) (normalized : Bytes) (key : ScriptFamily × Bytes) : VictimSet where
  entries := v.entries ++ [⟨normalized, key.2⟩]
  lookupKeys := v.lookupKeys ++ [⟨key.2, v.entries.length, key.1⟩]
  addressIndex := (normalized, v.entries.length) :: v.addressIndex

def loadRow (v : VictimSet) (row : Option Bytes) : VictimSet :=
  match (row.bind normalizeBitcoinAddress).bind fun n => (addressToLookupKey n).map fun key => (n, key) with
  | some (normalized, key) => v.append normalized key
  | none => v

/-- From the rows of `SELECT address FROM addresses WHERE role = 'victim' ORDER BY address`. -/
def loadFromCointraceDb (rows : List (Option Bytes)) : Option VictimSet :=
  let v := rows.foldl loadRow empty
  if v.entries = [] then none else some v

def findByAddress (v : VictimSet) (address : Bytes) : Option VictimEntry :=
  (v.addressIndex.lookup address).bind fun i => v.entries[i]?

def addresses (v : VictimSet) : List Bytes := v.entries.map (·.address)

/-- The keys belong to the entries of their index, and the map finds exactly the texts of the entries. -/
structure Indexed (v : VictimSet) : Prop where
  key : ∀ k ∈ v.lookupKeys, ∃ e, v.entries[k.victimIndex]? = some e ∧ e.hash160 = k.key20 ∧
    addressToLookupKey e.address = some (k.family, k.key20)
  entry : ∀ e ∈ v.entries, ∃ k ∈ v.lookupKeys, addressToLookupKey e.address = some (k.family, k.key20)
  index : ∀ a i, v.addressIndex.lookup a = some i → ∃ e, v.entries[i]? = some e ∧ e.address = a
  address : ∀ e ∈ v.entries, (v.addressIndex.lookup e.address).isSome = true

theorem indexed_empty : empty.Indexed := by
  constructor <;> simp [empty]

theorem Indexed.append {v : VictimSet} (h : v.Indexed) {normalized : Bytes} {key : ScriptFamily × Bytes}
    (hKey : addressToLookupKey normalized = some key) : (v.append normalized key).Indexed := by
  have hOld : ∀ {i : Nat} {e : VictimEntry}, v.entries[i]? = some e → (v.append normalized key).entries[i]? = some e := by
    intro i e he
    obtain ⟨hi, -⟩ := List.getElem?_eq_some_iff.mp he
    exact (List.getElem?_append_left hi).trans he
  have hNew : (v.append normalized key).entries[v.entries.length]? = some ⟨normalized, key.2⟩ :=
    List.getElem?_concat_length
  constructor
  · intro k hk
    rcases List.mem_append.mp hk with hk | hk
    · obtain ⟨e, he, hRest⟩ := h.key k hk
      exact ⟨e, hOld he, hRest⟩
    · rw [List.mem_singleton.mp hk]
      exact ⟨_, hNew, rfl, hKey⟩
  · intro e he
    rcases List.mem_append.mp he with he | he
    · obtain ⟨k, hk, hRest⟩ := h.entry e he
      exact ⟨k, List.mem_append_left _ hk, hRest⟩
    · rw [List.mem_singleton.mp he]
      exact ⟨_, List.mem_append_right _ (List.mem_singleton_self _), hKey⟩
  · intro a i hi
    unfold VictimSet.append at hi
    dsimp only at hi
    rw [List.lookup_cons] at hi
    split at hi
    · next hSame =>
      cases hi
      exact ⟨_, hNew, (eq_of_beq hSame).symm⟩
    · obtain ⟨e, he, hAddress⟩ := h.index a i hi
      exact ⟨e, hOld he, hAddress⟩
  · intro e he
    unfold VictimSet.append
    dsimp only
    rw [List.lookup_cons]
    split
    · rfl
    · next hOther =>
      rcases List.mem_append.mp he with he | he
      · exact h.address e he
      · rw [List.mem_singleton.mp he] at hOther
        simp at hOther

theorem indexed_foldl {rows : List (Option Bytes)} {v : VictimSet} (h : v.Indexed) :
    (rows.foldl loadRow v).Indexed := by
  induction rows generalizing v with
  | nil => exact h
  | cons row rows ih =>
    apply ih
    unfold loadRow
    split
    · next normalized key hRow =>
      obtain ⟨n, -, hn⟩ := Option.bind_eq_some_iff.mp hRow
      obtain ⟨key', hKey, hPair⟩ := Option.map_eq_some_iff.mp hn
      cases hPair
      exact h.append hKey
    · exact h

theorem indexed_of_load {rows : List (Option Bytes)} {v : VictimSet} (h : loadFromCointraceDb rows = some v) :
    v.Indexed := by
  unfold loadFromCointraceDb at h
  dsimp only at h
  split at h
  · cases h
  · cases h
    exact indexed_foldl indexed_empty

theorem Indexed.findByAddress_eq {v : VictimSet} (h : v.Indexed) {a : Bytes} {e : VictimEntry}
    (hFind : v.findByAddress a = some e) : e ∈ v.entries ∧ e.address = a := by
  obtain ⟨i, hi, he⟩ := Option.bind_eq_some_iff.mp hFind
  obtain ⟨e', he', hAddress⟩ := h.index a i hi
  rw [he] at he'
  cases he'
  exact ⟨List.mem_of_getElem? he, hAddress⟩

theorem Indexed.findByAddress_none_iff {v : VictimSet} (h : v.Indexed) {a : Bytes} :
    v.findByAddress a = none ↔ a ∉ v.addresses := by
  constructor
  · intro hNone hMem
    obtain ⟨e, he, rfl⟩ := List.mem_map.mp hMem
    obtain ⟨i, hi⟩ := Option.isSome_iff_exists.mp (h.address e he)
    obtain ⟨e', he', -⟩ := h.index _ i hi
    rw [findByAddress, hi, Option.bind_some, he'] at hNone
    cases hNone
  · intro hNot
    cases hFind : v.findByAddress a with
    | none => rfl
    | some e =>
      obtain ⟨he, rfl⟩ := h.findByAddress_eq hFind
      exact absurd (List.mem_map_of_mem he) hNot

end VictimSet

end Bloodhound.Scanner
