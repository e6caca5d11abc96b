import Bloodhound.Scanner.GpuEngine
import Bloodhound.Scanner.MatchDb

/-!
# Recording matches

`flush_batch` in `orchestrator.cpp` for a batch that is not interrupted: each chunk is processed by the engine,
and each hit is derived again on the host and stored with a victim. Encrypting an entropy may fail.

A batch that fits is recorded exactly when the victims' keys that it reaches have their own addresses among the
victims (`ScanSetup.batch_exact_iff`).
-/

namespace Bloodhound.Scanner

/-! ## The loop -/

def seedFingerprint (entropy : Bytes) : Text :=
  (Sha2.sha256.digest entropy).flatMap fun b => [hexDigit (b.toNat / 16), hexDigit b.toNat]

/-- A list of words as BIP39 asks for it. -/
structure Wordlist where
  lines : List Bytes
  count : (loadWordlist lines).length = 2048
  short : ∀ w ∈ loadWordlist lines, w.length < 9

/-- What a scan is started with: victims of a database, and an engine that was built for them. -/
structure ScanSetup where
  primitives : Primitives
  wordlist : Wordlist
  fuel : Nat
  paths : List DerivationPath
  victims : VictimSet
  engine : GpuEngine
  runRowId : Nat
  encrypt : Bytes → Option Bytes
  loaded : ∃ rows, VictimSet.loadFromCointraceDb rows = some victims
  ready : GpuEngine.init victims paths = .ok engine

namespace ScanSetup

variable (S : ScanSetup)

/-- The table on the device that was filled from the list of words. -/
def table : WordTable := tableOf (loadWordlist S.wordlist.lines)

def seedEntropy (seed : SeedCandidate) : Option Bytes := coldcardSeedEntropy S.fuel seed.pad seed.scanSession

/-- The victim that a hit is stored with. -/
def victimOf (address : Bytes) (victimIndex : Nat) : Option VictimEntry :=
  match S.victims.findByAddress address with
  | some victim => some victim
  | none => S.victims.entries[victimIndex]?

/-- The database and the number of hits of the run. -/
structure Recording where
  db : MatchDb
  hits : UInt64

def recordHit (chunkSeeds : List SeedCandidate) (state : Recording) (hit : GpuHit) : Recording :=
  match chunkSeeds[hit.seedIndex]?, S.paths[hit.pathIndex]? with
  | some seed, some path =>
    match S.seedEntropy seed with
    | none => state
    | some entropy =>
      match derivePrivkeyForPath S.primitives S.wordlist.lines entropy path with
      | none => state
      | some priv =>
        let pub := S.primitives.pubkey33 priv
        let pkHash := hash160 S.primitives pub
        let address := encodeAddress S.primitives (scriptFamilyFromPath path) pkHash
        match S.victimOf address hit.victimIndex, S.encrypt entropy with
        | some victim, some enc =>
          let (seedId, db) := state.db.upsertSeed S.runRowId (seedFingerprint entropy) seed.pad seed.scanSession enc
          let (inserted, db) := db.insertMatch seedId victim.address address path
          ⟨db, if inserted then state.hits + 1 else state.hits⟩
        | _, _ => state
  | _, _ => state

def chunk (seeds : List SeedCandidate) (k : Nat) : List SeedCandidate :=
  (seeds.drop (kInterruptChunkSeeds * k)).take kInterruptChunkSeeds

def flushBatch (order : AtomicOrder) (seeds : List SeedCandidate) (state : Recording) :
    Except BatchFailure Recording :=
  (List.range ((seeds.length + kInterruptChunkSeeds - 1) / kInterruptChunkSeeds)).foldlM (fun state k => do
    let gpuHits ← S.engine.processCandidateBatch S.primitives S.fuel S.table order k (chunk seeds k)
    return gpuHits.foldl (S.recordHit (chunk seeds k)) state) state

end ScanSetup

/-! ## Host and device -/

namespace ScanSetup

variable (S : ScanSetup)

/-- The key that a seed has on a path, as the host derives it. -/
def derivedKey (seed : SeedCandidate) (p : DerivationPath) : Option Bytes :=
  ((S.seedEntropy seed).bind fun entropy =>
    derivePrivkeyForPath S.primitives S.wordlist.lines entropy p).map fun priv =>
      pubkeyKey S.primitives (scriptFamilyFromPath p) (S.primitives.pubkey33 priv)

/-- The address that a seed has on a path. -/
def derivedAddress (seed : SeedCandidate) (p : DerivationPath) : Option Bytes :=
  (S.derivedKey seed p).map (encodeKey (scriptFamilyFromPath p))

def fingerprint (seed : SeedCandidate) : Option Text := (S.seedEntropy seed).map seedFingerprint

/-- The key of a victim. -/
def IsVictimKey (family : ScriptFamily) (key : Bytes) : Prop :=
  ∃ k ∈ S.victims.lookupKeys, k.family = family ∧ k.key20 = key

instance (family : ScriptFamily) (key : Bytes) : Decidable (S.IsVictimKey family key) :=
  inferInstanceAs (Decidable (∃ k ∈ S.victims.lookupKeys, _))

/-- A seed reaches the key of a victim on a path. -/
def Reaches (seed : SeedCandidate) (p : DerivationPath) : Prop :=
  ∃ key ∈ S.derivedKey seed p, S.IsVictimKey (scriptFamilyFromPath p) key

instance (seed : SeedCandidate) (p : DerivationPath) : Decidable (S.Reaches seed p) :=
  inferInstanceAs (Decidable (∃ key ∈ S.derivedKey seed p, _))

variable {S}

theorem length_seedEntropy {seed : SeedCandidate} {entropy : Bytes} (h : S.seedEntropy seed = some entropy) :
    entropy.length = 32 := by
  obtain ⟨raw, -, rfl⟩ := Option.map_eq_some_iff.mp h
  rfl

/-- The private key on the host is the one that the device derives from the master key with exact sums. -/
theorem derivePrivkeyForPath_eq {entropy : Bytes} (h : entropy.length = 32) (p : DerivationPath) :
    derivePrivkeyForPath S.primitives S.wordlist.lines entropy p =
      let master := bip32Master (bip39SeedFromEntropy S.wordlist.lines entropy)
      some (deriveLeafFromPrefix addPrivkeysModOrder (derivePrefixFromMaster S.primitives addPrivkeysModOrder
        (master.priv32 ++ master.chain32) (prefixDesc p)) (leafIndex p)) := by
  have hSeed := length_bip39SeedFromEntropy S.wordlist.count h
  have hNe : bip39SeedFromEntropy S.wordlist.lines entropy ≠ [] := by
    intro hNil
    rw [hNil] at hSeed
    cases hSeed
  have hMaster : (bip32Master (bip39SeedFromEntropy S.wordlist.lines entropy)).Sized := ⟨rfl, rfl⟩
  have hSizes : ¬ ((bip32Master (bip39SeedFromEntropy S.wordlist.lines entropy)).priv32.length ≠ 32 ∨
      (bip32Master (bip39SeedFromEntropy S.wordlist.lines entropy)).chain32.length ≠ 32) := by
    simp [hMaster.priv, hMaster.chain]
  unfold derivePrivkeyForPath
  dsimp only
  rw [if_neg hNe, if_neg hSizes, deriveLeaf_eq S.primitives hMaster]

def masterKey (S : ScanSetup) (seed : SeedCandidate) : Bip32Key :=
  bip32Master (bip39SeedFromEntropy S.wordlist.lines ((S.seedEntropy seed).getD []))

/-- The master key of a seed, as the device stores it. -/
def masterBytes (S : ScanSetup) (seed : SeedCandidate) : Bytes :=
  (S.masterKey seed).priv32 ++ (S.masterKey seed).chain32

/-- On a path the device finds the key that exact sums of keys give. -/
def AddsExactly (S : ScanSetup) (seed : SeedCandidate) (p : DerivationPath) : Prop :=
  deviceKey S.primitives addModN (S.masterBytes seed) p =
    deviceKey S.primitives addPrivkeysModOrder (S.masterBytes seed) p

/-- So it does from a master key below the order of the curve. -/
theorem addsExactly_of_less {seed : SeedCandidate}
    (hLess : keyNumber (S.masterKey seed).priv32 < secp256k1Order) (p : DerivationPath) :
    S.AddsExactly seed p := by
  have hMaster : (S.masterKey seed).Sized := ⟨rfl, rfl⟩
  unfold AddsExactly deviceKey masterBytes
  rw [deriveLeaf_addModN S.primitives hMaster hLess]

theorem masters_eq {seeds : List SeedCandidate} (h : ∀ s ∈ seeds, (S.seedEntropy s).isSome = true) :
    cudaBatchSeedsToMasters S.fuel S.table seeds = some (seeds.map S.masterBytes) := by
  induction seeds with
  | nil => rfl
  | cons seed seeds ih =>
    obtain ⟨entropy, hEntropy⟩ := Option.isSome_iff_exists.mp (h seed List.mem_cons_self)
    have hRest := ih fun s hs => h s (List.mem_cons_of_mem _ hs)
    have hMaster : seedToMasterDevice S.fuel seed.pad seed.scanSession S.table.flat S.table.lens =
        hostMaster S.wordlist.lines S.fuel seed.pad seed.scanSession :=
      seedToMasterDevice_hostMaster S.wordlist.count S.wordlist.short _ _ _
    have hHost : coldcardSeedEntropy S.fuel seed.pad seed.scanSession = some entropy := hEntropy
    unfold cudaBatchSeedsToMasters at hRest ⊢
    rw [List.mapM_cons, hMaster, hostMaster, hHost, hRest, List.map_cons, masterBytes, masterKey, hEntropy]
    rfl

theorem derivedKey_eq {seed : SeedCandidate} (h : (S.seedEntropy seed).isSome = true) {p : DerivationPath}
    (hAdds : S.AddsExactly seed p) :
    S.derivedKey seed p = some (deviceKey S.primitives addModN (S.masterBytes seed) p) := by
  obtain ⟨entropy, hEntropy⟩ := Option.isSome_iff_exists.mp h
  rw [hAdds]
  unfold derivedKey deviceKey masterBytes masterKey
  rw [hEntropy, Option.bind_some, derivePrivkeyForPath_eq (length_seedEntropy hEntropy),
    hash160PubkeyLookup_eq _ _ (S.primitives.length_pubkey33 _)]
  rfl

theorem victimLutFind_isSome (family : ScriptFamily) {key : Bytes} (h : key.length = 20) :
    (victimLutFind S.engine.lut family.toUInt8 key).isSome = true ↔ S.IsVictimKey family key :=
  (GpuEngine.ready_init S.ready).found family key h

/-- The match that a hit stands for: the victim is looked up by the address first. -/
def hitTuple (S : ScanSetup) (seed : SeedCandidate) (p : DerivationPath) : Option MatchTuple :=
  (S.derivedKey seed p).bind fun key =>
    (victimLutFind S.engine.lut (scriptFamilyFromPath p).toUInt8 key).bind fun victimIndex =>
      (S.victimOf (encodeKey (scriptFamilyFromPath p) key) victimIndex).bind fun victim =>
        (S.fingerprint seed).map fun fp => ⟨fp, victim.address, encodeKey (scriptFamilyFromPath p) key, p⟩

/-- The hit of a pair of a chunk is recorded. -/
theorem recordHit_pair {chunkSeeds : List SeedCandidate} {state : Recording} (hSound : state.db.Sound)
    {s i : Nat} {seed : SeedCandidate} {p : DerivationPath} (hs : chunkSeeds[s]? = some seed)
    (hi : S.paths[i]? = some p) (hEncrypt : ∀ entropy, S.seedEntropy seed = some entropy →
      (S.encrypt entropy).isSome = true) {hit : GpuHit} (hSeed : hit.seedIndex = s) (hPath : hit.pathIndex = i)
    (hVictim : (S.derivedKey seed p).bind (victimLutFind S.engine.lut (scriptFamilyFromPath p).toUInt8) =
      some hit.victimIndex) {t : MatchTuple} (ht : S.hitTuple seed p = some t)
    (hSame : ∀ u ∈ state.db.recorded S.runRowId, u.fingerprint = t.fingerprint →
      u.victimAddress = t.victimAddress → u.derivedAddress = t.derivedAddress → u.path = t.path) :
    (S.recordHit chunkSeeds state hit).db.Sound ∧
      (S.recordHit chunkSeeds state hit).db.recorded S.runRowId = insert t (state.db.recorded S.runRowId) := by
  obtain ⟨key, hKey, hRest⟩ := Option.bind_eq_some_iff.mp ht
  obtain ⟨victimIndex, hIndex, hRest⟩ := Option.bind_eq_some_iff.mp hRest
  obtain ⟨victim, hFound, hRest⟩ := Option.bind_eq_some_iff.mp hRest
  obtain ⟨fp, hFp, rfl⟩ := Option.map_eq_some_iff.mp hRest
  rw [hKey, Option.bind_some, hIndex] at hVictim
  cases hVictim
  obtain ⟨entropy, hEntropy, rfl⟩ := Option.map_eq_some_iff.mp hFp
  obtain ⟨priv, hPriv, rfl⟩ := Option.map_eq_some_iff.mp hKey
  rw [hEntropy, Option.bind_some] at hPriv
  obtain ⟨enc, hEnc⟩ := Option.isSome_iff_exists.mp (hEncrypt entropy hEntropy)
  obtain ⟨hSound', hRecorded, r, hr, hRow, hId⟩ := MatchDb.upsertSeed_spec hSound S.runRowId
    (seedFingerprint entropy) seed.pad seed.scanSession enc
  have hStore := MatchDb.insertMatch_spec hSound' hr hRow (by rw [hRecorded]; exact hSame)
  rw [hRecorded, hId] at hStore
  unfold recordHit
  rw [hSeed, hPath, hs, hi]
  dsimp only
  rw [hEntropy]
  dsimp only
  rw [hPriv]
  dsimp only
  rw [encodeAddress_hash160, hFound, hEnc]
  exact hStore

end ScanSetup

/-! ## A batch -/

namespace ScanSetup

/-- Seeds whose keys the device derives as the host does. -/
structure Derives (S : ScanSetup) (seeds : List SeedCandidate) : Prop where
  draws : ∀ s ∈ seeds, (S.seedEntropy s).isSome = true
  adds : ∀ s ∈ seeds, ∀ p ∈ S.paths, S.AddsExactly s p

/-- The conditions under which a batch is recorded as a whole. -/
structure Fits (S : ScanSetup) (seeds : List SeedCandidate) (db : MatchDb) : Prop extends S.Derives seeds where
  paths_ne : S.paths ≠ []
  paths_le : S.paths.length ≤ 65536
  hits_le : ∀ k, ((chunk seeds k).product S.paths).countP (fun e => S.Reaches e.1 e.2) ≤ hitsCap
  encrypts : ∀ s ∈ seeds, ∀ entropy, S.seedEntropy s = some entropy → (S.encrypt entropy).isSome = true
  onePath : ∀ s ∈ seeds, ∀ p ∈ S.paths, ∀ s' ∈ seeds, ∀ p' ∈ S.paths, S.Reaches s p → S.Reaches s' p' →
    S.fingerprint s = S.fingerprint s' → S.derivedAddress s p = S.derivedAddress s' p' → p = p'
  stored : ∀ t ∈ db.recorded S.runRowId, t.victimAddress = t.derivedAddress ∧
    ∀ s ∈ seeds, ∀ p ∈ S.paths, S.Reaches s p → S.fingerprint s = some t.fingerprint →
      S.derivedAddress s p = some t.derivedAddress → t.path = p

/-- The matches of a batch: the address of a seed on a path is the text of a victim. -/
def matchesOf (S : ScanSetup) (seeds : List SeedCandidate) : Set MatchTuple :=
  {t | ∃ s ∈ seeds, ∃ p ∈ S.paths, S.fingerprint s = some t.fingerprint ∧
    S.derivedAddress s p = some t.derivedAddress ∧ t.victimAddress = t.derivedAddress ∧
      t.derivedAddress ∈ S.victims.addresses ∧ t.path = p}

/-- After a batch exactly its matches are recorded in addition. -/
def Exact (S : ScanSetup) (seeds : List SeedCandidate) (db db' : MatchDb) : Prop :=
  db'.recorded S.runRowId = db.recorded S.runRowId ∪ S.matchesOf seeds

/-- Where a victim's key is reached, its own address is the text of a victim. -/
def Canonical (S : ScanSetup) (seeds : List SeedCandidate) : Prop :=
  ∀ s ∈ seeds, ∀ p ∈ S.paths, S.Reaches s p → ∃ a ∈ S.derivedAddress s p, a ∈ S.victims.addresses

variable {S : ScanSetup}

/-- A hit of a launch stands for a match of a seed and a path. -/
structure Stands (S : ScanSetup) (chunkSeeds : List SeedCandidate) (hit : GpuHit) (t : MatchTuple) : Prop where
  seed : ∃ seed, chunkSeeds[hit.seedIndex]? = some seed ∧ ∃ p, S.paths[hit.pathIndex]? = some p ∧
    (S.derivedKey seed p).bind (victimLutFind S.engine.lut (scriptFamilyFromPath p).toUInt8) =
      some hit.victimIndex ∧ S.hitTuple seed p = some t

theorem Stands.unique {chunkSeeds : List SeedCandidate} {hit : GpuHit} {t u : MatchTuple}
    (ht : S.Stands chunkSeeds hit t) (hu : S.Stands chunkSeeds hit u) : t = u := by
  obtain ⟨seed, hSeed, p, hPath, -, hTuple⟩ := ht.seed
  obtain ⟨seed', hSeed', p', hPath', -, hTuple'⟩ := hu.seed
  rw [hSeed] at hSeed'
  cases hSeed'
  rw [hPath] at hPath'
  cases hPath'
  rw [hTuple] at hTuple'
  exact Option.some.inj hTuple'

/-- New matches have the same path as others with the same seed and the same addresses. -/
def Agree (old new : Set MatchTuple) : Prop :=
  ∀ t ∈ new, ∀ u ∈ old ∪ new, u.fingerprint = t.fingerprint → u.victimAddress = t.victimAddress →
    u.derivedAddress = t.derivedAddress → u.path = t.path

theorem recordHits_spec {chunkSeeds : List SeedCandidate} (hEncrypt : ∀ s ∈ chunkSeeds, ∀ entropy,
      S.seedEntropy s = some entropy → (S.encrypt entropy).isSome = true) {hits : List GpuHit}
    (hStands : ∀ hit ∈ hits, ∃ t, S.Stands chunkSeeds hit t) {state : Recording} (hSound : state.db.Sound)
    (hAgree : Agree (state.db.recorded S.runRowId) {t | ∃ hit ∈ hits, S.Stands chunkSeeds hit t}) :
    (hits.foldl (S.recordHit chunkSeeds) state).db.Sound ∧
      (hits.foldl (S.recordHit chunkSeeds) state).db.recorded S.runRowId =
        state.db.recorded S.runRowId ∪ {t | ∃ hit ∈ hits, S.Stands chunkSeeds hit t} := by
  induction hits generalizing state with
  | nil => simpa using hSound
  | cons hit hits ih =>
    obtain ⟨t, ht⟩ := hStands hit List.mem_cons_self
    obtain ⟨seed, hSeed, p, hPath, hIndex, hTuple⟩ := ht.seed
    have hHit : t ∈ {t | ∃ h ∈ hit :: hits, S.Stands chunkSeeds h t} := ⟨hit, List.mem_cons_self, ht⟩
    obtain ⟨hSound', hRecorded⟩ := recordHit_pair hSound hSeed hPath
      (hEncrypt seed (List.mem_of_getElem? hSeed)) rfl rfl hIndex hTuple
      (fun u hu => hAgree t hHit u (.inl hu))
    have hUnion : insert t (state.db.recorded S.runRowId) ∪ {t | ∃ h ∈ hits, S.Stands chunkSeeds h t} =
        state.db.recorded S.runRowId ∪ {t | ∃ h ∈ hit :: hits, S.Stands chunkSeeds h t} := by
      ext u
      constructor
      · rintro ((rfl | hOld) | ⟨h, hh, hu⟩)
        · exact .inr hHit
        · exact .inl hOld
        · exact .inr ⟨h, List.mem_cons_of_mem _ hh, hu⟩
      · rintro (hOld | ⟨h, hh, hu⟩)
        · exact .inl (.inr hOld)
        · rcases List.mem_cons.mp hh with rfl | hh
          · exact .inl (.inl (hu.unique ht))
          · exact .inr ⟨h, hh, hu⟩
    have hRest := ih (fun h hh => hStands h (List.mem_cons_of_mem _ hh)) hSound' (by
      rintro v ⟨h, hh, hv⟩ u hu
      rw [hRecorded, hUnion] at hu
      exact hAgree v ⟨h, List.mem_cons_of_mem _ hh, hv⟩ u hu)
    rw [hRecorded, hUnion] at hRest
    exact hRest

/-- The matches that the hits of some seeds stand for. -/
def hitsOf (S : ScanSetup) (seeds : List SeedCandidate) : Set MatchTuple :=
  {t | ∃ s ∈ seeds, ∃ p ∈ S.paths, S.hitTuple s p = some t}

theorem map_range_getD {α β : Type} (g : α → β) (d : α) (l : List α) :
    (List.range l.length).map (fun i => g (l.getD i d)) = l.map g := by
  apply List.ext_getElem
  · simp
  · intro i _ hi
    simp only [List.length_map] at hi
    simp [List.getElem?_eq_getElem hi]

theorem countP_range_getD {α : Type} (q : α → Bool) (d : α) (l : List α) :
    (List.range l.length).countP (fun i => q (l.getD i d)) = l.countP q := by
  calc _ = ((List.range l.length).map fun i => l.getD i d).countP q := List.countP_map.symm
    _ = l.countP q := by rw [map_range_getD (fun a => a), List.map_id']

theorem length_filterMap_isSome {α β : Type} (f : α → Option β) (l : List α) :
    (l.filterMap f).length = l.countP fun a => (f a).isSome := by
  induction l with
  | nil => rfl
  | cons a l ih =>
    cases h : f a with
    | none => simp [h, ih]
    | some b => simp [h, ih]

theorem Derives.key {seeds : List SeedCandidate} (h : S.Derives seeds) {seed : SeedCandidate} (hs : seed ∈ seeds)
    {p : DerivationPath} (hp : p ∈ S.paths) :
    S.derivedKey seed p = some (deviceKey S.primitives addModN (S.masterBytes seed) p) :=
  derivedKey_eq (h.draws seed hs) (h.adds seed hs p hp)

theorem Derives.subset {seeds seeds' : List SeedCandidate} (h : S.Derives seeds) (hSub : seeds' ⊆ seeds) :
    S.Derives seeds' where
  draws s hs := h.draws s (hSub hs)
  adds s hs := h.adds s (hSub hs)

section Chunk

variable {chunkSeeds : List SeedCandidate} (hDerives : S.Derives chunkSeeds)

include hDerives

theorem reaches_iff {seed : SeedCandidate} (h : seed ∈ chunkSeeds) {p : DerivationPath} (hp : p ∈ S.paths) :
    S.Reaches seed p ↔ (victimLutFind S.engine.lut (scriptFamilyFromPath p).toUInt8
      (deviceKey S.primitives addModN (S.masterBytes seed) p)).isSome = true := by
  have hKey := hDerives.key h hp
  have hLength : (deviceKey S.primitives addModN (S.masterBytes seed) p).length = 20 := by
    rw [deviceKey, hash160PubkeyLookup_eq _ _ (S.primitives.length_pubkey33 _)]
    exact length_pubkeyKey _ _ _
  unfold Reaches
  rw [hKey, victimLutFind_isSome _ hLength]
  simp

/-- There are as many hits as pairs that reach a victim's key. -/
theorem length_leafPipelineKernel (hLayout : S.engine.layout.Describes S.paths) :
    (S.engine.leafPipelineKernel S.primitives (chunkSeeds.map S.masterBytes)).length =
      (chunkSeeds.product S.paths).countP (fun e => S.Reaches e.1 e.2) := by
  let found (master64 : Bytes) (p : DerivationPath) : Bool :=
    (victimLutFind S.engine.lut (scriptFamilyFromPath p).toUInt8
      (deviceKey S.primitives addModN master64 p)).isSome
  have hRow : ∀ s, ((List.range S.paths.length).filterMap fun i => pairHit S.primitives S.engine.lut
      S.paths.length (chunkSeeds.map S.masterBytes) S.paths s i).length =
        S.paths.countP (found ((chunkSeeds.map S.masterBytes).getD s [])) := by
    intro s
    rw [length_filterMap_isSome, ← countP_range_getD _ ⟨[], 0, 0, 0⟩ S.paths]
    apply List.countP_congr
    intro i _
    simp only [pairHit, found, Option.isSome_map]
  have hReaches : ∀ seed ∈ chunkSeeds, S.paths.countP (found (S.masterBytes seed)) =
      (S.paths.map (Prod.mk seed)).countP (fun e => S.Reaches e.1 e.2) := by
    intro seed hSeed
    rw [List.countP_map]
    apply List.countP_congr
    intro p hp
    simp only [found, Function.comp_apply, decide_eq_true_eq, reaches_iff hDerives hSeed hp]
  rw [leafPipelineKernel_eq S.primitives hLayout, List.length_flatMap, List.product, List.countP_flatMap]
  simp only [hRow]
  rw [map_range_getD (fun master64 => S.paths.countP (found master64)), List.map_map]
  exact congrArg List.sum (List.map_congr_left hReaches)

/-- A victim is known for every key that the table finds. -/
theorem hitTuple_isSome {seed : SeedCandidate} (h : seed ∈ chunkSeeds) {p : DerivationPath} (hp : p ∈ S.paths)
    {v : Nat} (hFind : victimLutFind S.engine.lut (scriptFamilyFromPath p).toUInt8
      (deviceKey S.primitives addModN (S.masterBytes seed) p) = some v) : (S.hitTuple seed p).isSome = true := by
  obtain ⟨k, hk, -, -, rfl⟩ := (GpuEngine.ready_init S.ready).index _ _ _ hFind
  obtain ⟨rows, hRows⟩ := S.loaded
  obtain ⟨e, he, -⟩ := (VictimSet.indexed_of_load hRows).key k hk
  have hVictim : ∀ address, (S.victimOf address k.victimIndex).isSome = true := by
    intro address
    unfold victimOf
    split
    · rfl
    · rw [he]
      rfl
  obtain ⟨victim, hFound⟩ := Option.isSome_iff_exists.mp (hVictim (encodeKey (scriptFamilyFromPath p)
    (deviceKey S.primitives addModN (S.masterBytes seed) p)))
  obtain ⟨entropy, hEntropy⟩ := Option.isSome_iff_exists.mp (hDerives.draws seed h)
  unfold hitTuple fingerprint
  rw [hDerives.key h hp, Option.bind_some, hFind, Option.bind_some, hFound, Option.bind_some, hEntropy]
  rfl

/-- A hit of a pair is read back as the positions of the pair, and stands for its match. -/
theorem stands_of_pairHit {s i : Nat} {seed : SeedCandidate} {p : DerivationPath}
    (hs : chunkSeeds[s]? = some seed) (hi : S.paths[i]? = some p) {h : CudaGpuHit}
    (hHit : pairHit S.primitives S.engine.lut S.paths.length (chunkSeeds.map S.masterBytes) S.paths s i = some h) :
    ∃ t, S.hitTuple seed p = some t ∧ S.Stands chunkSeeds (decodeHit S.paths.length h) t := by
  obtain ⟨hBound, -⟩ := List.getElem?_eq_some_iff.mp hi
  have hMem : seed ∈ chunkSeeds := List.mem_of_getElem? hs
  have hMaster : (chunkSeeds.map S.masterBytes).getD s [] = S.masterBytes seed := by
    rw [List.getD_eq_getElem?_getD, List.getElem?_map, hs]
    rfl
  have hPath : S.paths.getD i ⟨[], 0, 0, 0⟩ = p := by
    rw [List.getD_eq_getElem?_getD, hi]
    rfl
  unfold pairHit at hHit
  dsimp only at hHit
  rw [hMaster, hPath] at hHit
  obtain ⟨v, hv, rfl⟩ := Option.map_eq_some_iff.mp hHit
  have hSeed : (s * S.paths.length + i) / S.paths.length = s := by
    rw [Nat.mul_comm, Nat.mul_add_div (by omega), Nat.div_eq_of_lt hBound, Nat.add_zero]
  have hIndex : (s * S.paths.length + i) % S.paths.length = i := by
    rw [Nat.mul_comm, Nat.mul_add_mod, Nat.mod_eq_of_lt hBound]
  obtain ⟨t, ht⟩ := Option.isSome_iff_exists.mp (hitTuple_isSome hDerives hMem (List.mem_of_getElem? hi) hv)
  refine ⟨t, ht, seed, ?_, p, ?_, ?_, ht⟩
  · rw [decodeHit, hSeed, hs]
  · rw [decodeHit, hIndex, hi]
  · rw [hDerives.key hMem (List.mem_of_getElem? hi), Option.bind_some, hv]
    rfl

/-- A match of a pair comes from a hit of the pair. -/
theorem pairHit_of_hitTuple {s i : Nat} {seed : SeedCandidate} {p : DerivationPath}
    (hs : chunkSeeds[s]? = some seed) (hi : S.paths[i]? = some p) {t : MatchTuple}
    (ht : S.hitTuple seed p = some t) :
    (pairHit S.primitives S.engine.lut S.paths.length (chunkSeeds.map S.masterBytes) S.paths s i).isSome = true := by
  have hMem : seed ∈ chunkSeeds := List.mem_of_getElem? hs
  obtain ⟨key, hKey, hRest⟩ := Option.bind_eq_some_iff.mp ht
  obtain ⟨v, hv, -⟩ := Option.bind_eq_some_iff.mp hRest
  rw [hDerives.key hMem (List.mem_of_getElem? hi)] at hKey
  cases hKey
  unfold pairHit
  dsimp only
  rw [Option.isSome_map, List.getD_eq_getElem?_getD, List.getD_eq_getElem?_getD, List.getElem?_map, hs, hi]
  exact Option.isSome_iff_exists.mpr ⟨v, hv⟩

/-- The hits of a launch whose buffer is large enough are those of all pairs. -/
theorem processCandidateBatch_eq (hNe : S.paths ≠ []) (hPaths : S.paths.length ≤ 65536)
    (hHits : (chunkSeeds.product S.paths).countP (fun e => S.Reaches e.1 e.2) ≤ hitsCap)
    (order : AtomicOrder) (launch : Nat) :
    ∃ hits, S.engine.processCandidateBatch S.primitives S.fuel S.table order launch chunkSeeds = .ok hits ∧
      ∀ hit, hit ∈ hits ↔ ∃ s i h, s < chunkSeeds.length ∧ i < S.paths.length ∧
        pairHit S.primitives S.engine.lut S.paths.length (chunkSeeds.map S.masterBytes) S.paths s i = some h ∧
          decodeHit S.paths.length h = hit := by
  have hReady := GpuEngine.ready_init S.ready
  have hLayout : S.engine.layout.Describes S.paths := by
    rw [hReady.layout]
    exact buildPathLayout_describes hPaths
  have hAll : S.engine.processMasters S.primitives order launch (chunkSeeds.map S.masterBytes) =
      order.slots launch (S.engine.leafPipelineKernel S.primitives (chunkSeeds.map S.masterBytes)) := by
    apply List.take_of_length_le
    rw [(order.perm launch _).length_eq, length_leafPipelineKernel hDerives hLayout]
    exact hHits
  have hCount : S.engine.pathCount ≠ 0 := by
    rw [hReady.count]
    exact fun hZero => hNe (List.length_eq_zero_iff.mp hZero)
  refine ⟨(order.slots launch (S.engine.leafPipelineKernel S.primitives (chunkSeeds.map S.masterBytes))).map
    (decodeHit S.paths.length), ?_, ?_⟩
  · unfold GpuEngine.processCandidateBatch
    rw [if_neg hCount, masters_eq hDerives.draws]
    dsimp only
    rw [hAll, hReady.count]
  · intro hit
    simp only [List.mem_map, (order.perm launch _).mem_iff, leafPipelineKernel_eq S.primitives hLayout,
      List.mem_flatMap, List.mem_filterMap, List.mem_range, List.length_map]
    constructor
    · rintro ⟨h, ⟨s, hs, i, hi, hh⟩, rfl⟩
      exact ⟨s, i, h, hs, hi, hh, rfl⟩
    · rintro ⟨s, i, h, hs, hi, hh, rfl⟩
      exact ⟨h, ⟨s, hs, i, hi, hh⟩, rfl⟩

/-- These hits stand for the matches of the chunk. -/
theorem processCandidateBatch_spec (hNe : S.paths ≠ []) (hPaths : S.paths.length ≤ 65536)
    (hHits : (chunkSeeds.product S.paths).countP (fun e => S.Reaches e.1 e.2) ≤ hitsCap)
    (order : AtomicOrder) (launch : Nat) :
    ∃ hits, S.engine.processCandidateBatch S.primitives S.fuel S.table order launch chunkSeeds = .ok hits ∧
      (∀ hit ∈ hits, ∃ t, S.Stands chunkSeeds hit t) ∧
      {t | ∃ hit ∈ hits, S.Stands chunkSeeds hit t} = S.hitsOf chunkSeeds := by
  obtain ⟨hits, hRun, hMem⟩ := processCandidateBatch_eq hDerives hNe hPaths hHits order launch
  refine ⟨hits, hRun, ?_, ?_⟩
  · intro hit hHit
    obtain ⟨s, i, h, hs, hi, hPair, rfl⟩ := (hMem hit).mp hHit
    obtain ⟨t, -, ht⟩ := stands_of_pairHit hDerives (List.getElem?_eq_getElem hs) (List.getElem?_eq_getElem hi) hPair
    exact ⟨t, ht⟩
  · ext t
    constructor
    · rintro ⟨hit, -, ⟨seed, hSeed, p, hPath, -, hTuple⟩⟩
      exact ⟨seed, List.mem_of_getElem? hSeed, p, List.mem_of_getElem? hPath, hTuple⟩
    · rintro ⟨seed, hSeed, p, hPath, hTuple⟩
      obtain ⟨s, hs⟩ := List.mem_iff_getElem?.mp hSeed
      obtain ⟨i, hi⟩ := List.mem_iff_getElem?.mp hPath
      obtain ⟨h, hPair⟩ := Option.isSome_iff_exists.mp (pairHit_of_hitTuple hDerives hs hi hTuple)
      obtain ⟨u, hu, hStands⟩ := stands_of_pairHit hDerives hs hi hPair
      rw [hTuple] at hu
      cases hu
      obtain ⟨hsLt, -⟩ := List.getElem?_eq_some_iff.mp hs
      obtain ⟨hiLt, -⟩ := List.getElem?_eq_some_iff.mp hi
      exact ⟨_, (hMem _).mpr ⟨s, i, h, hsLt, hiLt, hPair, rfl⟩, hStands⟩

end Chunk

theorem chunk_subset (seeds : List SeedCandidate) (k : Nat) : chunk seeds k ⊆ seeds := fun _ h =>
  List.mem_of_mem_drop (List.mem_of_mem_take h)

theorem mem_chunk {seeds : List SeedCandidate} {s : SeedCandidate} (h : s ∈ seeds) :
    ∃ k < (seeds.length + kInterruptChunkSeeds - 1) / kInterruptChunkSeeds, s ∈ chunk seeds k := by
  obtain ⟨i, hi, rfl⟩ := List.mem_iff_getElem.mp h
  refine ⟨i / 32, ?_, ?_⟩
  · unfold kInterruptChunkSeeds
    omega
  · have hAt : (chunk seeds (i / 32))[i % 32]? = some seeds[i] := by
      unfold chunk kInterruptChunkSeeds
      rw [List.getElem?_take_of_lt (Nat.mod_lt i (by decide)), List.getElem?_drop, Nat.div_add_mod,
        List.getElem?_eq_getElem hi]
    exact List.mem_of_getElem? hAt

/-- What the tuple of a pair says. -/
theorem hitTuple_fields {seed : SeedCandidate} {p : DerivationPath} {t : MatchTuple}
    (h : S.hitTuple seed p = some t) : S.Reaches seed p ∧ S.fingerprint seed = some t.fingerprint ∧
      S.derivedAddress seed p = some t.derivedAddress ∧ t.path = p := by
  obtain ⟨key, hKey, hRest⟩ := Option.bind_eq_some_iff.mp h
  obtain ⟨v, hv, hRest⟩ := Option.bind_eq_some_iff.mp hRest
  obtain ⟨victim, -, hRest⟩ := Option.bind_eq_some_iff.mp hRest
  obtain ⟨fp, hFp, rfl⟩ := Option.map_eq_some_iff.mp hRest
  obtain ⟨k, hk, hFamily, hSame, -⟩ := (GpuEngine.ready_init S.ready).index _ _ _ hv
  refine ⟨⟨key, hKey, k, hk, hFamily, hSame⟩, hFp, ?_, rfl⟩
  rw [derivedAddress, hKey]
  rfl

theorem Fits.agree {seeds : List SeedCandidate} {db : MatchDb} (h : S.Fits seeds db) :
    Agree (db.recorded S.runRowId) (S.hitsOf seeds) := by
  rintro t ⟨s, hs, p, hp, ht⟩ u hu hFingerprint hVictim hDerived
  obtain ⟨hReach, hFp, hAddress, hPath⟩ := hitTuple_fields ht
  rw [← hFingerprint] at hFp
  rw [← hDerived] at hAddress
  rcases hu with hOld | ⟨s', hs', p', hp', hu⟩
  · rw [hPath]
    exact (h.stored u hOld).2 s hs p hp hReach hFp hAddress
  · obtain ⟨hReach', hFp', hAddress', hPath'⟩ := hitTuple_fields hu
    rw [hPath, hPath']
    exact h.onePath s' hs' p' hp' s hs p hp hReach' hReach (hFp'.trans hFp.symm) (hAddress'.trans hAddress.symm)

/-- A batch runs to its end and records the matches that its hits stand for. -/
theorem flushBatch_spec {seeds : List SeedCandidate} {state : Recording} (hSound : state.db.Sound)
    (h : S.Fits seeds state.db) (order : AtomicOrder) :
    ∃ state', S.flushBatch order seeds state = .ok state' ∧ state'.db.Sound ∧
      state'.db.recorded S.runRowId = state.db.recorded S.runRowId ∪ S.hitsOf seeds := by
  have hLoop : ∀ n, ∃ state', (List.range n).foldlM (fun state k => do
      let gpuHits ← S.engine.processCandidateBatch S.primitives S.fuel S.table order k (chunk seeds k)
      return gpuHits.foldl (S.recordHit (chunk seeds k)) state) state = Except.ok state' ∧ state'.db.Sound ∧
      state'.db.recorded S.runRowId =
        state.db.recorded S.runRowId ∪ {t | ∃ k < n, t ∈ S.hitsOf (chunk seeds k)} := by
    intro n
    induction n with
    | zero => exact ⟨state, rfl, hSound, by simp⟩
    | succ n ih =>
      obtain ⟨mid, hMid, hMidSound, hMidRecorded⟩ := ih
      have hChunk : ∀ s ∈ chunk seeds n, s ∈ seeds := fun s hs => chunk_subset seeds n hs
      obtain ⟨hits, hRun, hStands, hHits⟩ := processCandidateBatch_spec
        (h.toDerives.subset (chunk_subset seeds n)) h.paths_ne h.paths_le (h.hits_le n) order n
      have hNew : S.hitsOf (chunk seeds n) ⊆ S.hitsOf seeds := by
        rintro t ⟨s, hs, hRest⟩
        exact ⟨s, hChunk s hs, hRest⟩
      have hAgree : Agree (mid.db.recorded S.runRowId) {t | ∃ hit ∈ hits, S.Stands (chunk seeds n) hit t} := by
        rw [hHits, hMidRecorded]
        rintro t ht u hu
        apply h.agree t (hNew ht) u
        rcases hu with (hOld | ⟨k, -, s, hs, hRest⟩) | hu
        · exact .inl hOld
        · exact .inr ⟨s, chunk_subset seeds k hs, hRest⟩
        · exact .inr (hNew hu)
      obtain ⟨hSound', hRecorded⟩ := recordHits_spec (fun s hs => h.encrypts s (hChunk s hs)) hStands hMidSound
        hAgree
      refine ⟨hits.foldl (S.recordHit (chunk seeds n)) mid, ?_, hSound', ?_⟩
      · rw [List.range_succ, List.foldlM_append, hMid]
        dsimp only [bind, Except.bind, List.foldlM]
        rw [hRun]
        rfl
      · rw [hRecorded, hHits, hMidRecorded, Set.union_assoc]
        congr 1
        ext t
        constructor
        · rintro (⟨k, hk, ht⟩ | ht)
          · exact ⟨k, by omega, ht⟩
          · exact ⟨n, by omega, ht⟩
        · rintro ⟨k, hk, ht⟩
          rcases Nat.lt_succ_iff_lt_or_eq.mp hk with hk | rfl
          · exact .inl ⟨k, hk, ht⟩
          · exact .inr ht
  obtain ⟨state', hRun, hSound', hRecorded⟩ := hLoop _
  refine ⟨state', hRun, hSound', ?_⟩
  rw [hRecorded]
  congr 1
  ext t
  constructor
  · rintro ⟨k, -, s, hs, hRest⟩
    exact ⟨s, chunk_subset seeds k hs, hRest⟩
  · rintro ⟨s, hs, hRest⟩
    obtain ⟨k, hk, hMem⟩ := mem_chunk hs
    exact ⟨k, hk, s, hMem, hRest⟩

theorem indexed (S : ScanSetup) : S.victims.Indexed :=
  let ⟨_, hRows⟩ := S.loaded
  VictimSet.indexed_of_load hRows

/-- The victim of a match is the one with the derived address where there is one. -/
theorem hitTuple_victim {seed : SeedCandidate} {p : DerivationPath} {t : MatchTuple}
    (h : S.hitTuple seed p = some t) : t.victimAddress ∈ S.victims.addresses ∧
      (t.derivedAddress ∈ S.victims.addresses → t.victimAddress = t.derivedAddress) := by
  obtain ⟨key, -, hRest⟩ := Option.bind_eq_some_iff.mp h
  obtain ⟨v, -, hRest⟩ := Option.bind_eq_some_iff.mp hRest
  obtain ⟨victim, hVictim, hRest⟩ := Option.bind_eq_some_iff.mp hRest
  obtain ⟨fp, -, rfl⟩ := Option.map_eq_some_iff.mp hRest
  unfold victimOf at hVictim
  split at hVictim
  · next found hFound =>
    cases hVictim
    obtain ⟨hMem, hAddress⟩ := S.indexed.findByAddress_eq hFound
    exact ⟨List.mem_map_of_mem hMem, fun _ => hAddress⟩
  · next hNone =>
    exact ⟨List.mem_map_of_mem (List.mem_of_getElem? hVictim),
      fun hMem => absurd hMem (S.indexed.findByAddress_none_iff.mp hNone)⟩

theorem length_derivedKey {seed : SeedCandidate} {p : DerivationPath} {key : Bytes}
    (h : S.derivedKey seed p = some key) : key.length = 20 := by
  obtain ⟨priv, -, rfl⟩ := Option.map_eq_some_iff.mp h
  exact length_pubkeyKey _ _ _

/-- A derived address that is the text of a victim has the key of that victim. -/
theorem reaches_of_address {seed : SeedCandidate} {p : DerivationPath} {a : Bytes}
    (h : S.derivedAddress seed p = some a) (hMem : a ∈ S.victims.addresses) : S.Reaches seed p := by
  obtain ⟨key, hKey, rfl⟩ := Option.map_eq_some_iff.mp h
  obtain ⟨e, he, hAddress⟩ := List.mem_map.mp hMem
  obtain ⟨k, hk, hLookup⟩ := S.indexed.entry e he
  rw [hAddress] at hLookup
  have hSame := addressToLookupKey_encodeKey (length_derivedKey hKey) hLookup
  obtain ⟨hFamily, hKey20⟩ := Prod.mk.inj hSame
  exact ⟨key, hKey, k, hk, hFamily, hKey20⟩

theorem exists_hitTuple {seeds : List SeedCandidate} (hDerives : S.Derives seeds) {seed : SeedCandidate}
    (hs : seed ∈ seeds) {p : DerivationPath} (hp : p ∈ S.paths) (h : S.Reaches seed p) :
    ∃ t, S.hitTuple seed p = some t := by
  obtain ⟨v, hv⟩ := Option.isSome_iff_exists.mp ((reaches_iff hDerives hs hp).mp h)
  exact Option.isSome_iff_exists.mp (hitTuple_isSome hDerives hs hp hv)

/-- With canonical addresses the hits stand for the matches. -/
theorem hitsOf_eq_matchesOf {seeds : List SeedCandidate} (hDerives : S.Derives seeds)
    (hCanonical : S.Canonical seeds) : S.hitsOf seeds = S.matchesOf seeds := by
  ext t
  constructor
  · rintro ⟨s, hs, p, hp, ht⟩
    obtain ⟨hReach, hFp, hAddress, hPath⟩ := hitTuple_fields ht
    obtain ⟨a, ha, hMem⟩ := hCanonical s hs p hp hReach
    rw [hAddress] at ha
    cases ha
    exact ⟨s, hs, p, hp, hFp, hAddress, (hitTuple_victim ht).2 hMem, hMem, hPath⟩
  · rintro ⟨s, hs, p, hp, hFp, hAddress, hVictim, hMem, hPath⟩
    obtain ⟨u, hu⟩ := exists_hitTuple hDerives hs hp (reaches_of_address hAddress hMem)
    obtain ⟨-, hFp', hAddress', hPath'⟩ := hitTuple_fields hu
    rw [hFp] at hFp'
    rw [hAddress] at hAddress'
    have hDerived : t.derivedAddress = u.derivedAddress := Option.some.inj hAddress'
    have hVictim' : u.victimAddress = t.victimAddress := by
      rw [hVictim, hDerived]
      exact (hitTuple_victim hu).2 (hDerived ▸ hMem)
    have hSame : u = t := by
      cases t
      cases u
      cases hFp'
      cases hDerived
      cases hVictim'
      cases hPath
      cases hPath'
      rfl
    exact ⟨s, hs, p, hp, hSame ▸ hu⟩

theorem exact_of_canonical {seeds : List SeedCandidate} {state : Recording} (hSound : state.db.Sound)
    (hFits : S.Fits seeds state.db) (hCanonical : S.Canonical seeds) {order : AtomicOrder} {state' : Recording}
    (hRun : S.flushBatch order seeds state = .ok state') : S.Exact seeds state.db state'.db := by
  obtain ⟨final, hFinal, -, hRecorded⟩ := flushBatch_spec hSound hFits order
  rw [hRun] at hFinal
  cases hFinal
  unfold Exact
  rw [hRecorded, hitsOf_eq_matchesOf hFits.toDerives hCanonical]

theorem canonical_of_exact {seeds : List SeedCandidate} {state : Recording} (hSound : state.db.Sound)
    (hFits : S.Fits seeds state.db) {order : AtomicOrder} {state' : Recording}
    (hRun : S.flushBatch order seeds state = .ok state') (hExact : S.Exact seeds state.db state'.db) :
    S.Canonical seeds := by
  obtain ⟨final, hFinal, -, hRecorded⟩ := flushBatch_spec hSound hFits order
  rw [hRun] at hFinal
  cases hFinal
  intro s hs p hp hReach
  obtain ⟨t, ht⟩ := exists_hitTuple hFits.toDerives hs hp hReach
  obtain ⟨-, -, hAddress, -⟩ := hitTuple_fields ht
  have hMem : t ∈ state.db.recorded S.runRowId ∪ S.matchesOf seeds := by
    rw [← hExact, hRecorded]
    exact .inr ⟨s, hs, p, hp, ht⟩
  refine ⟨t.derivedAddress, hAddress, ?_⟩
  rcases hMem with hOld | ⟨_, _, _, _, _, _, _, hIn, _⟩
  · rw [← (hFits.stored t hOld).1]
    exact (hitTuple_victim ht).1
  · exact hIn

/-- A batch that fits is recorded exactly when the victims' keys that it reaches have their own addresses among
the victims. -/
theorem batch_exact_iff {seeds : List SeedCandidate} {state : Recording} (hSound : state.db.Sound)
    (hFits : S.Fits seeds state.db) (order : AtomicOrder) :
    ∃ state', S.flushBatch order seeds state = .ok state' ∧
      (S.Exact seeds state.db state'.db ↔ S.Canonical seeds) := by
  obtain ⟨state', hRun, -, -⟩ := flushBatch_spec hSound hFits order
  exact ⟨state', hRun, canonical_of_exact hSound hFits hRun,
    fun hCanonical => exact_of_canonical hSound hFits hCanonical hRun⟩

/-! ## One seed and one path -/

/-- What the functions return for the seed and the path below. -/
def measured : Primitives where
  ripemd160 _ := [113, 80, 3, 88, 114, 111, 17, 48, 203, 96, 125, 67, 248, 220, 76, 239, 19, 36, 47, 129]
  pubkey33 _ := [2, 4, 126, 11, 22, 164, 34, 90, 54, 152, 225, 29, 218, 67, 18, 161, 100, 220, 185, 239, 93, 187,
    179, 81, 2, 203, 126, 169, 236, 182, 145, 247, 215]
  length_ripemd160 _ := rfl
  length_pubkey33 _ := rfl

def oneSeed : List SeedCandidate := [⟨0x00400001, 8⟩]

def onePath : List DerivationPath := [⟨"bip84".toList, 0, 0, 0⟩]

def engineOf (victims : VictimSet) (paths : List DerivationPath) : GpuEngine :=
  match GpuEngine.init victims paths with
  | .ok engine => engine
  | .error _ => ⟨0, ⟨[], []⟩, ⟨[], 0⟩⟩

def victimsOf (text : String) : VictimSet :=
  (VictimSet.loadFromCointraceDb [some (ascii text)]).getD VictimSet.empty

/-- A scan for one victim. -/
def oneVictim (text : String)
    (hLoaded : (VictimSet.loadFromCointraceDb [some (ascii text)]).isSome = true)
    (hReady : (GpuEngine.init (victimsOf text) onePath).toOption.isSome = true) : ScanSetup where
  primitives := measured
  wordlist := ⟨threeLetterLines, by decide +kernel, by decide +kernel⟩
  fuel := 8
  paths := onePath
  victims := victimsOf text
  engine := engineOf (victimsOf text) onePath
  runRowId := 1
  encrypt := some
  loaded := by
    obtain ⟨victims, hVictims⟩ := Option.isSome_iff_exists.mp hLoaded
    refine ⟨[some (ascii text)], ?_⟩
    rw [victimsOf, hVictims, Option.getD_some]
  ready := by
    unfold engineOf
    cases hInit : GpuEngine.init (victimsOf text) onePath with
    | ok engine => rfl
    | error _ =>
      rw [hInit] at hReady
      cases hReady

def emptyRecording : Recording := ⟨⟨0, [], []⟩, 0⟩

theorem sound_emptyRecording : emptyRecording.db.Sound := by
  constructor <;> simp [emptyRecording]

section OneVictim

variable {text : String} {hLoaded : (VictimSet.loadFromCointraceDb [some (ascii text)]).isSome = true}
  {hReady : (GpuEngine.init (victimsOf text) onePath).toOption.isSome = true}

theorem draws_oneVictim : ∀ s ∈ oneSeed, ((oneVictim text hLoaded hReady).seedEntropy s).isSome = true := by
  intro s hs
  rw [List.mem_singleton.mp hs]
  have hDraws : (coldcardSeedEntropy 8 0x00400001 8).isSome = true := by
    unfold coldcardSeedEntropy
    rw [Option.isSome_map]
    decide +kernel
  exact hDraws

/-- The public key is the same for all sums. -/
theorem addsExactly_oneVictim (seed : SeedCandidate) (p : DerivationPath) :
    (oneVictim text hLoaded hReady).AddsExactly seed p := by
  have hSame : ∀ a b : Bytes, measured.pubkey33 a = measured.pubkey33 b := fun _ _ => rfl
  unfold AddsExactly deviceKey
  exact congrArg (fun pub => hash160PubkeyLookup measured pub _) (hSame _ _)

theorem fits_oneVictim : (oneVictim text hLoaded hReady).Fits oneSeed emptyRecording.db := by
  constructor
  · exact ⟨draws_oneVictim, fun s _ p _ => addsExactly_oneVictim s p⟩
  · exact List.cons_ne_nil _ _
  · exact Nat.le_of_ble_eq_true rfl
  · intro k
    calc _ ≤ ((chunk oneSeed k).product onePath).length := List.countP_le_length
      _ = (chunk oneSeed k).length * 1 := List.length_product _ _
      _ ≤ hitsCap := by
        have := (List.take_sublist kInterruptChunkSeeds (oneSeed.drop (kInterruptChunkSeeds * k))).length_le
        have hDrop := (List.drop_sublist (kInterruptChunkSeeds * k) oneSeed).length_le
        have hOne : oneSeed.length = 1 := rfl
        unfold chunk hitsCap
        omega
  · intro s _ entropy _
    rfl
  · intro s _ p hp s' _ p' hp' _ _ _ _
    rw [List.mem_singleton.mp hp, List.mem_singleton.mp hp']
  · rintro t ⟨r, hr, -⟩
    cases hr

theorem derivedKey_oneVictim : (oneVictim text hLoaded hReady).derivedKey ⟨0x00400001, 8⟩
    ⟨"bip84".toList, 0, 0, 0⟩ = some (measured.ripemd160 []) := by
  rw [derivedKey_eq (draws_oneVictim _ (List.mem_singleton_self _)) (addsExactly_oneVictim _ _)]
  rfl

theorem oneVictim_victims : (oneVictim text hLoaded hReady).victims = victimsOf text := rfl

end OneVictim

/-- The victim is the address of the seed on the path. -/
def ownVictim : ScanSetup :=
  oneVictim "bc1qw9gqxkrjdugnpjmq04pl3hzvaufjgtup3j85fv" (by decide +kernel) (by decide +kernel)

/-- The text of the victim has one symbol more than that of its key. -/
def paddedVictim : ScanSetup :=
  oneVictim "bc1qw9gqxkrjdugnpjmq04pl3hzvaufjgtupq6sgy9q" (by decide +kernel) (by decide +kernel)

def slotOrder : AtomicOrder := ⟨fun _ hits => hits, fun _ _ => .refl _⟩

theorem batch_exact_ownVictim : ∃ state',
    ownVictim.flushBatch slotOrder oneSeed emptyRecording = .ok state' ∧
      (ownVictim.Exact oneSeed emptyRecording.db state'.db ↔ ownVictim.Canonical oneSeed) :=
  batch_exact_iff sound_emptyRecording fits_oneVictim slotOrder

theorem paddedVictim_keys : paddedVictim.IsVictimKey .bip84 (measured.ripemd160 []) := by
  have hVictim : ∃ k ∈ (victimsOf "bc1qw9gqxkrjdugnpjmq04pl3hzvaufjgtupq6sgy9q").lookupKeys,
      k.family = .bip84 ∧ k.key20 = measured.ripemd160 [] := by decide +kernel
  exact hVictim

theorem paddedVictim_addresses : encodeKey .bip84 (measured.ripemd160 []) ∉ paddedVictim.victims.addresses := by
  unfold paddedVictim
  rw [oneVictim_victims]
  decide +kernel

theorem padded_victim_recorded : ¬ ∀ (S : ScanSetup) (seeds : List SeedCandidate) (order : AtomicOrder)
    (state state' : Recording), state.db.Sound → S.flushBatch order seeds state = .ok state' →
      S.Exact seeds state.db state'.db := by
  intro hClaim
  obtain ⟨state', hRun, -, -⟩ :=
    flushBatch_spec (S := paddedVictim) sound_emptyRecording fits_oneVictim slotOrder
  have hCanonical : paddedVictim.Canonical oneSeed := canonical_of_exact sound_emptyRecording fits_oneVictim hRun
    (hClaim paddedVictim oneSeed slotOrder emptyRecording state' sound_emptyRecording hRun)
  have hKey : paddedVictim.derivedKey ⟨0x00400001, 8⟩ ⟨"bip84".toList, 0, 0, 0⟩ =
      some (measured.ripemd160 []) := derivedKey_oneVictim
  have hFamily : scriptFamilyFromPath ⟨"bip84".toList, 0, 0, 0⟩ = .bip84 := rfl
  have hReach : paddedVictim.Reaches ⟨0x00400001, 8⟩ ⟨"bip84".toList, 0, 0, 0⟩ :=
    ⟨_, hKey, by rw [hFamily]; exact paddedVictim_keys⟩
  obtain ⟨a, ha, hMem⟩ := hCanonical _ (List.mem_singleton_self _) _ (List.mem_singleton_self _) hReach
  rw [derivedAddress, hKey, Option.map_some, hFamily] at ha
  rw [← Option.some.inj ha] at hMem
  exact paddedVictim_addresses hMem

end ScanSetup

end Bloodhound.Scanner
