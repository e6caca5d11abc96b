import Mathlib.Data.List.Induction

/-!
# Tables with open addressing

An entry is stored in the first free slot of the probe sequence of its key, and nothing is ever taken out. A
search follows the same sequence and ends at the first free slot. In a table into which every entry of a list
was placed, a search finds an entry of the key exactly when the list has one (`find_isSome_iff`), and what it
finds is an entry of the list with that key (`find_mem`).
-/

namespace ProbeTable

variable {ε κ : Type}

/-- What lies in a slot. -/
def slot (t : List (Option ε)) (s : Nat) : Option ε := t.getD s none

/-- The table with one more entry, unless its probe sequence has no free slot. -/
def place (probes : κ → List Nat) (key : ε → κ) (t : List (Option ε)) (e : ε) : Option (List (Option ε)) :=
  ((probes (key e)).find? fun s => (slot t s).isNone).map fun s => t.set s (some e)

def build (probes : κ → List Nat) (key : ε → κ) (size : Nat) (es : List ε) : Option (List (Option ε)) :=
  es.foldlM (place probes key) (List.replicate size none)

/-- The search for a key along a sequence of slots. -/
def find [DecidableEq κ] (key : ε → κ) (t : List (Option ε)) (k : κ) : List Nat → Option ε
  | [] => none
  | s :: rest =>
    match slot t s with
    | none => none
    | some e => if key e = k then some e else find key t k rest

/-- The table holds the entries of a list: each lies behind occupied slots of its probe sequence. -/
structure Holds (probes : κ → List Nat) (key : ε → κ) (es : List ε) (t : List (Option ε)) : Prop where
  sound : ∀ s e, slot t s = some e → e ∈ es
  reach : ∀ e ∈ es, ∃ before s after, probes (key e) = before ++ s :: after ∧ slot t s = some e ∧
    ∀ s' ∈ before, slot t s' ≠ none

theorem slot_set {t : List (Option ε)} {s : Nat} (hs : s < t.length) (e : ε) (s' : Nat) :
    slot (t.set s (some e)) s' = if s' = s then some e else slot t s' := by
  unfold slot
  rw [List.getD_eq_getElem?_getD, List.getD_eq_getElem?_getD, List.getElem?_set]
  by_cases h : s' = s
  · subst h
    simp [hs]
  · simp [h, Ne.symm h]

section Entries

variable {probes : κ → List Nat} {key : ε → κ} {es : List ε} {t t' : List (Option ε)}

theorem holds_empty (size : Nat) : Holds probes key [] (List.replicate size none) := by
  constructor
  · intro s e h
    unfold slot at h
    rw [List.getD_eq_getElem?_getD, List.getElem?_replicate] at h
    split at h <;> cases h
  · simp

theorem Holds.place {e : ε} (h : Holds probes key es t) (hBound : ∀ s ∈ probes (key e), s < t.length)
    (hPlace : place probes key t e = some t') : Holds probes key (es ++ [e]) t' ∧ t'.length = t.length := by
  obtain ⟨s, hFind, rfl⟩ := Option.map_eq_some_iff.mp hPlace
  obtain ⟨hFree, before, after, hProbes, hBefore⟩ := List.find?_eq_some_iff_append.mp hFind
  have hIn : s ∈ probes (key e) := by simp [hProbes]
  have hSet := slot_set (hBound s hIn) e
  have hNone : slot t s = none := Option.isNone_iff_eq_none.mp hFree
  refine ⟨⟨?_, ?_⟩, List.length_set⟩
  · intro s' e' hSlot
    rw [hSet] at hSlot
    split at hSlot
    · cases hSlot
      simp
    · exact List.mem_append_left _ (h.sound s' e' hSlot)
  · intro e' he'
    rcases List.mem_append.mp he' with hOld | hNew
    · obtain ⟨before', s', after', hProbes', hSlot, hBefore'⟩ := h.reach e' hOld
      have hOther : s' ≠ s := by
        intro hSame
        rw [hSame, hNone] at hSlot
        cases hSlot
      refine ⟨before', s', after', hProbes', ?_, ?_⟩
      · rw [hSet, if_neg hOther, hSlot]
      · intro r hr
        rw [hSet]
        split
        · exact Option.some_ne_none e
        · exact hBefore' r hr
    · rw [List.mem_singleton.mp hNew]
      refine ⟨before, s, after, hProbes, ?_, ?_⟩
      · rw [hSet, if_pos rfl]
      · intro r hr
        rw [hSet]
        split
        · exact Option.some_ne_none e
        · have hOccupied := hBefore r hr
          intro hFreeSlot
          simp [hFreeSlot] at hOccupied

theorem holds_build {size : Nat} (hBound : ∀ k, ∀ s ∈ probes k, s < size)
    (hBuild : build probes key size es = some t) : Holds probes key es t ∧ t.length = size := by
  induction es using List.reverseRecOn generalizing t with
  | nil =>
    cases hBuild
    exact ⟨holds_empty size, List.length_replicate⟩
  | append_singleton es e ih =>
    unfold build at hBuild
    rw [List.foldlM_append] at hBuild
    obtain ⟨first, hFirst, hLast⟩ := Option.bind_eq_some_iff.mp hBuild
    obtain ⟨hHolds, hSize⟩ := ih hFirst
    have hPlace : ProbeTable.place probes key first e = some t := by simpa using hLast
    obtain ⟨hHolds', hSize'⟩ := hHolds.place (fun s hs => hSize ▸ hBound _ s hs) hPlace
    exact ⟨hHolds', hSize'.trans hSize⟩

variable [DecidableEq κ] {k : κ}

theorem find_slot {slots : List Nat} {e : ε} (h : find key t k slots = some e) :
    key e = k ∧ ∃ s, slot t s = some e := by
  induction slots with
  | nil => cases h
  | cons s rest ih =>
    unfold find at h
    split at h
    · cases h
    · next found hFound =>
      split at h
      · next hKey =>
        cases h
        exact ⟨hKey, s, hFound⟩
      · exact ih h

theorem isSome_find {before after : List Nat} {s : Nat} {e : ε} (hSlot : slot t s = some e) (hKey : key e = k)
    (hBefore : ∀ s' ∈ before, slot t s' ≠ none) : (find key t k (before ++ s :: after)).isSome = true := by
  induction before with
  | nil => simp [find, hSlot, hKey]
  | cons s' before ih =>
    obtain ⟨e', he'⟩ := Option.ne_none_iff_exists'.mp (hBefore s' List.mem_cons_self)
    have hRest := ih fun r hr => hBefore r (List.mem_cons_of_mem _ hr)
    rw [List.cons_append, find, he']
    dsimp only
    split
    · rfl
    · exact hRest

theorem Holds.find_mem (h : Holds probes key es t) {slots : List Nat} {e : ε}
    (hFind : find key t k slots = some e) : e ∈ es ∧ key e = k := by
  obtain ⟨hKey, s, hSlot⟩ := find_slot hFind
  exact ⟨h.sound s e hSlot, hKey⟩

theorem Holds.find_isSome_iff (h : Holds probes key es t) :
    (find key t k (probes k)).isSome = true ↔ ∃ e ∈ es, key e = k := by
  constructor
  · intro hSome
    obtain ⟨e, he⟩ := Option.isSome_iff_exists.mp hSome
    exact ⟨e, h.find_mem he⟩
  · rintro ⟨e, he, rfl⟩
    obtain ⟨before, s, after, hProbes, hSlot, hBefore⟩ := h.reach e he
    rw [hProbes]
    exact isSome_find hSlot rfl hBefore

end Entries

end ProbeTable
