import Bloodhound.Scanner.PathDerivation

/-!
# Matches in the database

The tables `seeds` and `matches` of `match_db.cpp`. Reading and writing does not fail. A match is recorded for a
seed, which is known by its run and its fingerprint.
-/

namespace Bloodhound.Scanner

structure SeedRow where
  id : Nat
  runId : Nat
  fingerprint : Text
  pad : Int32
  scanSession : Int32
  encryptedEntropy : Bytes

structure MatchRow where
  seedId : Nat
  victimAddress : Bytes
  derivedAddress : Bytes
  scriptType : Text
  account : Int32
  branch : Int32
  addressIndex : Int32
  deriving DecidableEq

structure MatchDb where
  seedSequence : Nat
  seeds : List SeedRow
  matchRows : List MatchRow

def SeedRow.Keyed (runId : Nat) (fingerprint : Text) (r : SeedRow) : Prop :=
  r.runId = runId ∧ r.fingerprint = fingerprint

instance (runId : Nat) (fingerprint : Text) (r : SeedRow) : Decidable (r.Keyed runId fingerprint) :=
  inferInstanceAs (Decidable (_ ∧ _))

namespace MatchDb

def upsertSeed (db : MatchDb) (runId : Nat) (fingerprint : Text) (pad scanSession : UInt32) (enc : Bytes) :
    Nat × MatchDb :=
  match db.seeds.find? (fun r => r.Keyed runId fingerprint) with
  | some r =>
    (r.id, { db with
      seeds := db.seeds.map fun r =>
        if r.Keyed runId fingerprint then { r with encryptedEntropy := enc } else r })
  | none =>
    (db.seedSequence + 1, { db with
      seedSequence := db.seedSequence + 1
      seeds := db.seeds ++
        [⟨db.seedSequence + 1, runId, fingerprint, pad.toInt32, scanSession.toInt32, enc⟩] })

/-- `INSERT OR IGNORE`: a row of the same seed with the same addresses is kept, whatever its path is. -/
def insertMatch (db : MatchDb) (seedId : Nat) (victimAddress derivedAddress : Bytes) (path : DerivationPath) :
    Bool × MatchDb :=
  if ∃ m ∈ db.matchRows, m.seedId = seedId ∧ m.victimAddress = victimAddress ∧
      m.derivedAddress = derivedAddress then (false, db)
  else
    (true, { db with
      matchRows := db.matchRows ++ [⟨seedId, victimAddress, derivedAddress, path.scriptType,
        path.account.toInt32, path.branch.toInt32, path.index.toInt32⟩] })

end MatchDb

/-! ## What is recorded -/

/-- The path that a row was stored for. -/
def MatchRow.path (m : MatchRow) : DerivationPath :=
  ⟨m.scriptType, m.account.toUInt32, m.branch.toUInt32, m.addressIndex.toUInt32⟩

/-- A recorded match: its seed is known by the fingerprint. -/
structure MatchTuple where
  fingerprint : Text
  victimAddress : Bytes
  derivedAddress : Bytes
  path : DerivationPath

def MatchRow.Shows (m : MatchRow) (t : MatchTuple) : Prop :=
  m.victimAddress = t.victimAddress ∧ m.derivedAddress = t.derivedAddress ∧ m.path = t.path

namespace MatchDb

def recorded (db : MatchDb) (runId : Nat) : Set MatchTuple :=
  {t | ∃ r ∈ db.seeds, r.Keyed runId t.fingerprint ∧ ∃ m ∈ db.matchRows, m.seedId = r.id ∧ m.Shows t}

/-- Ids of seeds are drawn from the sequence, one for each run and fingerprint, and so are those of the matches. -/
structure Sound (db : MatchDb) : Prop where
  ids : ∀ r ∈ db.seeds, r.id ≤ db.seedSequence
  distinct : ∀ r ∈ db.seeds, ∀ r' ∈ db.seeds, r.id = r'.id → r.runId = r'.runId ∧ r.fingerprint = r'.fingerprint
  known : ∀ m ∈ db.matchRows, m.seedId ≤ db.seedSequence

/-- A seed is stored, and nothing that is recorded changes. -/
theorem upsertSeed_spec {db : MatchDb} (h : db.Sound) (runId : Nat) (fingerprint : Text)
    (pad scanSession : UInt32) (enc : Bytes) :
    (db.upsertSeed runId fingerprint pad scanSession enc).2.Sound ∧
      (db.upsertSeed runId fingerprint pad scanSession enc).2.recorded runId = db.recorded runId ∧
      ∃ r ∈ (db.upsertSeed runId fingerprint pad scanSession enc).2.seeds, r.Keyed runId fingerprint ∧
        r.id = (db.upsertSeed runId fingerprint pad scanSession enc).1 := by
  unfold upsertSeed
  split
  · next found hFound =>
    have hMem := List.mem_of_find?_eq_some hFound
    have hKeyed : found.Keyed runId fingerprint := by simpa using List.find?_some hFound
    -- the rows keep what they are told apart by
    let update : SeedRow → SeedRow := fun r =>
      if r.Keyed runId fingerprint then { r with encryptedEntropy := enc } else r
    have hUpdate : ∀ r, (update r).id = r.id ∧ (update r).runId = r.runId ∧
        (update r).fingerprint = r.fingerprint := by
      intro r
      simp only [update]
      split <;> exact ⟨rfl, rfl, rfl⟩
    have hKeep : ∀ r runId fingerprint, (update r).Keyed runId fingerprint ↔ r.Keyed runId fingerprint := by
      intro r runId fingerprint
      simp only [SeedRow.Keyed, (hUpdate r).2.1, (hUpdate r).2.2]
    refine ⟨⟨?_, ?_, h.known⟩, ?_, update found, List.mem_map_of_mem hMem, (hKeep _ _ _).mpr hKeyed,
      (hUpdate found).1⟩
    · intro r' hr'
      obtain ⟨r, hr, rfl⟩ := List.mem_map.mp hr'
      exact (hUpdate r).1.trans_le (h.ids r hr)
    · intro a' ha' b' hb' hSame
      obtain ⟨a, ha, rfl⟩ := List.mem_map.mp ha'
      obtain ⟨b, hb, rfl⟩ := List.mem_map.mp hb'
      change (update a).id = (update b).id at hSame
      change (update a).runId = (update b).runId ∧ (update a).fingerprint = (update b).fingerprint
      rw [(hUpdate a).1, (hUpdate b).1] at hSame
      rw [(hUpdate a).2.1, (hUpdate b).2.1, (hUpdate a).2.2, (hUpdate b).2.2]
      exact h.distinct a ha b hb hSame
    · ext t
      constructor
      · rintro ⟨r', hr', hKey, m, hm, hId, hShows⟩
        obtain ⟨r, hr, rfl⟩ := List.mem_map.mp hr'
        exact ⟨r, hr, (hKeep _ _ _).mp hKey, m, hm, hId.trans (hUpdate r).1, hShows⟩
      · rintro ⟨r, hr, hKey, m, hm, hId, hShows⟩
        exact ⟨update r, List.mem_map_of_mem hr, (hKeep _ _ _).mpr hKey, m, hm,
          hId.trans (hUpdate r).1.symm, hShows⟩
  · next hNone =>
    refine ⟨⟨?_, ?_, ?_⟩, ?_, ⟨db.seedSequence + 1, runId, fingerprint, pad.toInt32, scanSession.toInt32, enc⟩,
      List.mem_append_right _ (List.mem_singleton_self _), ⟨rfl, rfl⟩, rfl⟩
    · intro r hr
      rcases List.mem_append.mp hr with hr | hr
      · exact (h.ids r hr).trans (Nat.le_succ _)
      · rw [List.mem_singleton.mp hr]
    · intro a ha b hb hSame
      rcases List.mem_append.mp ha with ha | ha <;> rcases List.mem_append.mp hb with hb | hb
      · exact h.distinct a ha b hb hSame
      · have := h.ids a ha
        rw [hSame, List.mem_singleton.mp hb] at this
        exact absurd this (Nat.not_succ_le_self _)
      · have := h.ids b hb
        rw [← hSame, List.mem_singleton.mp ha] at this
        exact absurd this (Nat.not_succ_le_self _)
      · rw [List.mem_singleton.mp ha, List.mem_singleton.mp hb]
        exact ⟨rfl, rfl⟩
    · intro m hm
      exact (h.known m hm).trans (Nat.le_succ _)
    · ext t
      constructor
      · rintro ⟨r, hr, hKey, m, hm, hId, hShows⟩
        rcases List.mem_append.mp hr with hr | hr
        · exact ⟨r, hr, hKey, m, hm, hId, hShows⟩
        · have := h.known m hm
          rw [hId, List.mem_singleton.mp hr] at this
          exact absurd this (Nat.not_succ_le_self _)
      · rintro ⟨r, hr, hRest⟩
        exact ⟨r, List.mem_append_left _ hr, hRest⟩

/-- A match is stored for a seed, unless its addresses are recorded along another path. -/
theorem insertMatch_spec {db : MatchDb} (h : db.Sound) {runId : Nat} {r : SeedRow} (hr : r ∈ db.seeds)
    {t : MatchTuple} (hKey : r.Keyed runId t.fingerprint)
    (hSame : ∀ u ∈ db.recorded runId, u.fingerprint = t.fingerprint → u.victimAddress = t.victimAddress →
      u.derivedAddress = t.derivedAddress → u.path = t.path) :
    (db.insertMatch r.id t.victimAddress t.derivedAddress t.path).2.Sound ∧
      (db.insertMatch r.id t.victimAddress t.derivedAddress t.path).2.recorded runId =
        insert t (db.recorded runId) := by
  unfold insertMatch
  split
  · next hOld =>
    obtain ⟨m, hm, hId, hVictim, hDerived⟩ := hOld
    refine ⟨h, (Set.insert_eq_of_mem ?_).symm⟩
    have hRecorded : (⟨t.fingerprint, t.victimAddress, t.derivedAddress, m.path⟩ : MatchTuple) ∈
        db.recorded runId := ⟨r, hr, hKey, m, hm, hId, hVictim, hDerived, rfl⟩
    have hPath : m.path = t.path := hSame _ hRecorded rfl rfl rfl
    exact ⟨r, hr, hKey, m, hm, hId, hVictim, hDerived, hPath⟩
  · refine ⟨⟨h.ids, h.distinct, ?_⟩, ?_⟩
    · intro m hm
      rcases List.mem_append.mp hm with hm | hm
      · exact h.known m hm
      · rw [List.mem_singleton.mp hm]
        exact h.ids r hr
    · have hPath : (⟨t.path.scriptType, t.path.account.toInt32.toUInt32, t.path.branch.toInt32.toUInt32,
          t.path.index.toInt32.toUInt32⟩ : DerivationPath) = t.path := by simp
      ext u
      constructor
      · rintro ⟨r', hr', hKey', m, hm, hId, hShows⟩
        rcases List.mem_append.mp hm with hm | hm
        · exact .inr ⟨r', hr', hKey', m, hm, hId, hShows⟩
        · left
          rw [List.mem_singleton.mp hm] at hId hShows
          obtain ⟨-, hFingerprint⟩ := h.distinct r hr r' hr' hId
          obtain ⟨hVictim, hDerived, hRowPath⟩ := hShows
          have hSeed : u.fingerprint = t.fingerprint := by rw [← hKey'.2, ← hFingerprint, hKey.2]
          have hSamePath : u.path = t.path := hRowPath.symm.trans hPath
          cases u
          cases t
          cases hSeed
          cases hVictim
          cases hDerived
          cases hSamePath
          rfl
      · rintro (rfl | ⟨r', hr', hKey', m, hm, hRest⟩)
        · exact ⟨r, hr, hKey, _, List.mem_append_right _ (List.mem_singleton_self _), rfl, rfl, rfl, hPath⟩
        · exact ⟨r', hr', hKey', m, List.mem_append_left _ hm, hRest⟩

end MatchDb

end Bloodhound.Scanner
