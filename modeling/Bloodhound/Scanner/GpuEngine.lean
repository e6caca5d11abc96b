import Bloodhound.Lib.ProbeTable
import Bloodhound.Scanner.PathDerivation
import Bloodhound.Scanner.RunScan

/-!
# Matching on the device

`build_path_layout` in `batch_derive.cpp`, the lookup table and the kernels of `gpu_pipeline.cu`, and
`process_candidate_batch` in `gpu_engine.cpp`. A thread of the leaf kernel derives one seed along one path and
writes a hit when the table has the key. The slots of the hits are drawn from an atomic counter, so their order
is any order; what does not fit into the buffer is dropped.
-/

namespace Bloodhound.Scanner

/-! ## Layout -/

structure CudaLeafDesc where
  prefixId : UInt16
  pathIndex : UInt16
  step4Index : UInt32
  family : UInt8

structure PathLayout where
  prefixes : List CudaPrefixDesc
  leaves : List CudaLeafDesc

def prefixKey (p : DerivationPath) : Text :=
  p.scriptType ++ ':' :: (printNat p.account.toNat ++ ':' :: printNat p.branch.toNat)

/-- The map from the keys of the prefixes to their numbers, and the layout so far. -/
structure LayoutState where
  prefixIds : List (Text × UInt16)
  layout : PathLayout

def layoutPath (s : LayoutState) (p : DerivationPath) (pi : Nat) : LayoutState :=
  let found := s.prefixIds.lookup (prefixKey p)
  let prefixId := found.getD (UInt16.ofNat s.layout.prefixes.length)
  let leaf : CudaLeafDesc :=
    ⟨prefixId, UInt16.ofNat pi, leafIndex p, (scriptFamilyFromPath p).toUInt8⟩
  match found with
  | some _ => ⟨s.prefixIds, s.layout.prefixes, s.layout.leaves ++ [leaf]⟩
  | none =>
    ⟨(prefixKey p, prefixId) :: s.prefixIds, s.layout.prefixes ++ [prefixDesc p], s.layout.leaves ++ [leaf]⟩

def buildPathLayout (paths : List DerivationPath) : PathLayout :=
  (paths.zipIdx.foldl (fun s e => layoutPath s e.1 e.2) ⟨[], [], []⟩).layout

/-! ## Lookup table -/

structure CudaVictimKey where
  key20 : Bytes
  victimIndex : Nat
  family : UInt8
  deriving DecidableEq

def CudaVictimKey.key (v : CudaVictimKey) : UInt8 × Bytes := (v.family, v.key20)

def victimHashKey (family : UInt8) (h20 : Bytes) : UInt32 :=
  h20.foldl (fun v b => (v ^^^ b.toUInt32) * 16777619) (2166136261 ^^^ family.toUInt32)

/-- The loop doubles at most as many times as there are steps. -/
def nextPow2 (v : Nat) : Nat := (List.range v).foldl (fun p _ => if p < v then 2 * p else p) 1

def kMaxLutProbes : Nat := 64

def lutProbes (lutSize : Nat) (key : UInt8 × Bytes) : List Nat :=
  (List.range kMaxLutProbes).map fun probe =>
    ((victimHashKey key.1 key.2 + UInt32.ofNat probe) &&& UInt32.ofNat (lutSize - 1)).toNat

structure VictimLut where
  slots : List (Option CudaVictimKey)
  lutSize : Nat

def buildVictimLut (victims : List CudaVictimKey) : Option VictimLut :=
  let lutSize := max 256 (nextPow2 (victims.length * 2))
  (ProbeTable.build (lutProbes lutSize) CudaVictimKey.key lutSize victims).map fun slots => ⟨slots, lutSize⟩

def victimLutFind (lut : VictimLut) (family : UInt8) (hash20 : Bytes) : Option Nat :=
  (ProbeTable.find CudaVictimKey.key lut.slots (family, hash20) (lutProbes lut.lutSize (family, hash20))).map
    (·.victimIndex)

/-! ## Engine -/

structure GpuEngine where
  pathCount : Nat
  layout : PathLayout
  lut : VictimLut

def GpuEngine.init (victims : VictimSet) (paths : List DerivationPath) : Except String GpuEngine :=
  let cudaVictims := (victims.lookupKeys.filter (·.key20.length = 20)).map
    fun vk : VictimLookupKey => (⟨vk.key20, vk.victimIndex, vk.family.toUInt8⟩ : CudaVictimKey)
  if cudaVictims = [] then .error "no GPU victim lookup keys"
  else
    match buildVictimLut cudaVictims with
    | none => .error "failed to build victim LUT"
    | some lut => .ok ⟨paths.length, buildPathLayout paths, lut⟩

structure CudaGpuHit where
  workIndex : Nat
  victimIndex : Nat
  hash20 : Bytes
  deriving DecidableEq

/-- The order in which the threads of each launch draw their slots. -/
structure AtomicOrder where
  slots : Nat → List CudaGpuHit → List CudaGpuHit
  perm : ∀ launch hits, (slots launch hits).Perm hits

def hitsCap : Nat := 4096

namespace GpuEngine

variable (C : Primitives) (engine : GpuEngine)

def prefixDeriveKernel (masters : List Bytes) : List PrefixState :=
  (List.range (masters.length * engine.layout.prefixes.length)).map fun idx =>
    derivePrefixFromMaster C addModN (masters.getD (idx / engine.layout.prefixes.length) [])
      (engine.layout.prefixes.getD (idx % engine.layout.prefixes.length) ⟨[], [], 0⟩)

/-- A thread of `leaf_pipeline_kernel`. -/
def leafThread (states : List PrefixState) (idx : Nat) : Option CudaGpuHit :=
  let leafCount := engine.layout.leaves.length
  let seedIdx := idx / leafCount
  let leaf := engine.layout.leaves.getD (idx % leafCount) ⟨0, 0, 0, 0⟩
  let state := states.getD (seedIdx * engine.layout.prefixes.length + leaf.prefixId.toNat) default
  let priv32 := deriveLeafFromPrefix addModN state leaf.step4Index
  let lookup := hash160PubkeyLookup C (C.pubkey33 priv32) leaf.family
  (victimLutFind engine.lut leaf.family lookup).map fun victimIdx =>
    ⟨seedIdx * leafCount + leaf.pathIndex.toNat, victimIdx, lookup⟩

def leafPipelineKernel (masters : List Bytes) : List CudaGpuHit :=
  (List.range (masters.length * engine.layout.leaves.length)).filterMap
    (engine.leafThread C (engine.prefixDeriveKernel C masters))

def processMasters (order : AtomicOrder) (launch : Nat) (masters : List Bytes) : List CudaGpuHit :=
  (order.slots launch (engine.leafPipelineKernel C masters)).take hitsCap

end GpuEngine

structure GpuHit where
  seedIndex : Nat
  pathIndex : Nat
  victimIndex : Nat
  hash20 : Bytes

def decodeHit (pathCount : Nat) (hit : CudaGpuHit) : GpuHit :=
  ⟨hit.workIndex / pathCount, hit.workIndex % pathCount, hit.victimIndex, hit.hash20⟩

/-- A batch ends with an error of the engine, or does not end. -/
inductive BatchFailure
  | error (text : String)
  | endless

def cudaBatchSeedsToMasters (fuel : Nat) (table : WordTable) (seeds : List SeedCandidate) :
    Option (List Bytes) :=
  seeds.mapM fun s => seedToMasterDevice fuel s.pad s.scanSession table.flat table.lens

def GpuEngine.processCandidateBatch (C : Primitives) (fuel : Nat) (table : WordTable) (engine : GpuEngine)
    (order : AtomicOrder) (launch : Nat) (seeds : List SeedCandidate) : Except BatchFailure (List GpuHit) :=
  if engine.pathCount = 0 then .error (.error "no derivation paths")
  else
    match cudaBatchSeedsToMasters fuel table seeds with
    | none => .error .endless
    | some masters => .ok ((engine.processMasters C order launch masters).map (decodeHit engine.pathCount))


/-! ## What the layout holds -/

theorem noColon_printNat (n : Nat) : ':' ∉ printNat n := by
  intro hMem
  have := isDigit_of_mem_toDigits n ':' hMem
  cases this

theorem printNat_inj {m n : Nat} (h : printNat m = printNat n) : m = n := by
  calc m = Nat.ofDigitChars 10 (printNat m) 0 := (Nat.ofDigitChars_ten_toDigits).symm
    _ = Nat.ofDigitChars 10 (printNat n) 0 := by rw [h]
    _ = n := Nat.ofDigitChars_ten_toDigits

/-- The key of a prefix tells everything that its description is made of. -/
theorem prefixDesc_of_key {p q : DerivationPath} (h : prefixKey p = prefixKey q) :
    prefixDesc p = prefixDesc q := by
  have hReverse : (printNat p.branch.toNat).reverse ++ ':' ::
      ((printNat p.account.toNat).reverse ++ ':' :: p.scriptType.reverse) =
      (printNat q.branch.toNat).reverse ++ ':' ::
      ((printNat q.account.toNat).reverse ++ ':' :: q.scriptType.reverse) := by
    simpa [prefixKey] using congrArg List.reverse h
  have hNot : ∀ n, ':' ∉ (printNat n).reverse := fun n hMem => noColon_printNat n (List.mem_reverse.mp hMem)
  obtain ⟨hBranch, hRest⟩ := Text.eq_of_separated (hNot _) (hNot _) hReverse
  obtain ⟨hAccount, hScript⟩ := Text.eq_of_separated (hNot _) (hNot _) hRest
  have hBranch' : p.branch = q.branch := UInt32.toNat_inj.mp (printNat_inj (List.reverse_injective hBranch))
  have hAccount' : p.account = q.account := UInt32.toNat_inj.mp (printNat_inj (List.reverse_injective hAccount))
  have hScript' : p.scriptType = q.scriptType := List.reverse_injective hScript
  unfold prefixDesc pathIndices scriptFamilyFromPath
  rw [hBranch', hAccount', hScript']
  split
  · rfl
  · split <;> rfl

/-- Leaf and path stand at the same position, and the prefix of the leaf is that of the path. -/
structure PathLayout.Describes (layout : PathLayout) (paths : List DerivationPath) : Prop where
  length : layout.leaves.length = paths.length
  leaf : ∀ (i : Nat) (p : DerivationPath), paths[i]? = some p → ∃ l : CudaLeafDesc, layout.leaves[i]? = some l ∧ l.pathIndex.toNat = i ∧
    l.step4Index = leafIndex p ∧ l.family = (scriptFamilyFromPath p).toUInt8 ∧
      layout.prefixes[l.prefixId.toNat]? = some (prefixDesc p)

structure LayoutState.Describes (s : LayoutState) (paths : List DerivationPath) : Prop where
  layout : s.layout.Describes paths
  prefixes : s.layout.prefixes.length ≤ paths.length
  ids : ∀ p id, s.prefixIds.lookup (prefixKey p) = some id →
    s.layout.prefixes[id.toNat]? = some (prefixDesc p)

theorem LayoutState.Describes.path {s : LayoutState} {paths : List DerivationPath} (h : s.Describes paths)
    (p : DerivationPath) (hLess : paths.length < 65536) :
    (layoutPath s p paths.length).Describes (paths ++ [p]) := by
  have hIndex : ∀ n, n < 65536 → (UInt16.ofNat n).toNat = n := fun n hn => Nat.mod_eq_of_lt hn
  -- the leaves so far stay where they are, and so do the prefixes that they name
  have hKeep : ∀ (more : List CudaPrefixDesc) (l : CudaLeafDesc), l.pathIndex.toNat = paths.length →
      l.step4Index = leafIndex p → l.family = (scriptFamilyFromPath p).toUInt8 →
      (s.layout.prefixes ++ more)[l.prefixId.toNat]? = some (prefixDesc p) →
      PathLayout.Describes ⟨s.layout.prefixes ++ more, s.layout.leaves ++ [l]⟩ (paths ++ [p]) := by
    intro more l hPath hStep hFamily hPrefix
    constructor
    · simp [h.layout.length]
    · intro i q hq
      rcases Nat.lt_or_ge i paths.length with hi | hi
      · rw [List.getElem?_append_left hi] at hq
        obtain ⟨l', hl', hRest⟩ := h.layout.leaf i q hq
        refine ⟨l', ?_, hRest.1, hRest.2.1, hRest.2.2.1, ?_⟩
        · rw [List.getElem?_append_left (by rw [h.layout.length]; exact hi), hl']
        · obtain ⟨hBound, -⟩ := List.getElem?_eq_some_iff.mp hRest.2.2.2
          rw [List.getElem?_append_left hBound, hRest.2.2.2]
      · obtain ⟨hBound, -⟩ := List.getElem?_eq_some_iff.mp hq
        have hLast : i = paths.length := by
          rw [List.length_append, List.length_singleton] at hBound
          omega
        subst hLast
        rw [List.getElem?_concat_length] at hq
        cases hq
        refine ⟨l, ?_, hPath, hStep, hFamily, hPrefix⟩
        dsimp only
        rw [← h.layout.length, List.getElem?_concat_length]
  unfold layoutPath
  dsimp only
  cases hFound : s.prefixIds.lookup (prefixKey p) with
  | some id =>
    have hPrefix := h.ids p id hFound
    constructor
    · have := hKeep [] ⟨id, UInt16.ofNat paths.length, leafIndex p, (scriptFamilyFromPath p).toUInt8⟩
        (hIndex _ hLess) rfl rfl (by rw [List.append_nil]; exact hPrefix)
      rw [List.append_nil] at this
      exact this
    · rw [List.length_append]
      exact h.prefixes.trans (Nat.le_add_right _ _)
    · exact h.ids
  | none =>
    have hId : (UInt16.ofNat s.layout.prefixes.length).toNat = s.layout.prefixes.length :=
      hIndex _ (h.prefixes.trans_lt hLess)
    have hNew : (s.layout.prefixes ++ [prefixDesc p])[(UInt16.ofNat s.layout.prefixes.length).toNat]? =
        some (prefixDesc p) := by
      rw [hId, List.getElem?_concat_length]
    constructor
    · exact hKeep [prefixDesc p] ⟨UInt16.ofNat s.layout.prefixes.length, UInt16.ofNat paths.length, leafIndex p,
        (scriptFamilyFromPath p).toUInt8⟩ (hIndex _ hLess) rfl rfl hNew
    · rw [List.length_append, List.length_append]
      exact Nat.add_le_add_right h.prefixes 1
    · intro q id hq
      dsimp only at hq
      rw [List.lookup_cons] at hq
      split at hq
      · next hSame =>
        cases hq
        exact hNew.trans (congrArg some (prefixDesc_of_key (eq_of_beq hSame)).symm)
      · have hOld := h.ids q id hq
        obtain ⟨hBound, -⟩ := List.getElem?_eq_some_iff.mp hOld
        dsimp only
        rw [List.getElem?_append_left hBound, hOld]

theorem buildPathLayout_describes {paths : List DerivationPath} (h : paths.length ≤ 65536) :
    (buildPathLayout paths).Describes paths := by
  suffices hAll : LayoutState.Describes (paths.zipIdx.foldl (fun s e => layoutPath s e.1 e.2) ⟨[], [], []⟩) paths
    from hAll.layout
  induction paths using List.reverseRecOn with
  | nil => exact ⟨⟨rfl, by simp⟩, Nat.le_refl 0, by simp⟩
  | append_singleton paths p ih =>
    rw [List.length_append, List.length_singleton] at h
    rw [List.zipIdx_append, List.foldl_append, List.zipIdx_singleton, List.foldl_cons, List.foldl_nil,
      Nat.zero_add]
    exact (ih (by omega)).path p (by omega)

/-! ## What the table finds -/

theorem lutProbes_lt {lutSize : Nat} (h : 0 < lutSize) (key : UInt8 × Bytes) :
    ∀ s ∈ lutProbes lutSize key, s < lutSize := by
  intro s hs
  obtain ⟨probe, -, rfl⟩ := List.mem_map.mp hs
  rw [UInt32.toNat_and]
  calc _ ≤ (UInt32.ofNat (lutSize - 1)).toNat := Nat.and_le_right
    _ ≤ lutSize - 1 := Nat.mod_le _ _
    _ < lutSize := by omega

theorem buildVictimLut_holds {victims : List CudaVictimKey} {lut : VictimLut}
    (h : buildVictimLut victims = some lut) :
    ProbeTable.Holds (lutProbes lut.lutSize) CudaVictimKey.key victims lut.slots := by
  obtain ⟨slots, hBuild, rfl⟩ := Option.map_eq_some_iff.mp h
  have hPos : 0 < max 256 (nextPow2 (victims.length * 2)) := Nat.lt_of_lt_of_le (by decide) (Nat.le_max_left _ _)
  exact (ProbeTable.holds_build (lutProbes_lt hPos) hBuild).1

theorem victimLutFind_isSome_iff {victims : List CudaVictimKey} {lut : VictimLut}
    (h : buildVictimLut victims = some lut) (family : UInt8) (hash20 : Bytes) :
    (victimLutFind lut family hash20).isSome = true ↔ ∃ v ∈ victims, v.key = (family, hash20) := by
  rw [victimLutFind, Option.isSome_map]
  exact (buildVictimLut_holds h).find_isSome_iff

theorem victimLutFind_mem {victims : List CudaVictimKey} {lut : VictimLut}
    (h : buildVictimLut victims = some lut) {family : UInt8} {hash20 : Bytes} {i : Nat}
    (hFind : victimLutFind lut family hash20 = some i) :
    ∃ v ∈ victims, v.key = (family, hash20) ∧ v.victimIndex = i := by
  obtain ⟨v, hv, rfl⟩ := Option.map_eq_some_iff.mp hFind
  obtain ⟨hMem, hKey⟩ := (buildVictimLut_holds h).find_mem hv
  exact ⟨v, hMem, hKey, rfl⟩

/-- An engine that was built for some victims and paths. -/
structure GpuEngine.Ready (victims : VictimSet) (paths : List DerivationPath) (engine : GpuEngine) : Prop where
  count : engine.pathCount = paths.length
  layout : engine.layout = buildPathLayout paths
  found : ∀ family hash20, hash20.length = 20 →
    ((victimLutFind engine.lut (ScriptFamily.toUInt8 family) hash20).isSome = true ↔
      ∃ k ∈ victims.lookupKeys, k.family = family ∧ k.key20 = hash20)
  index : ∀ family hash20 i, victimLutFind engine.lut (ScriptFamily.toUInt8 family) hash20 = some i →
    ∃ k ∈ victims.lookupKeys, k.family = family ∧ k.key20 = hash20 ∧ k.victimIndex = i

theorem GpuEngine.ready_init {victims : VictimSet} {paths : List DerivationPath} {engine : GpuEngine}
    (h : GpuEngine.init victims paths = .ok engine) : engine.Ready victims paths := by
  unfold GpuEngine.init at h
  dsimp only at h
  split at h
  · cases h
  · split at h
    · cases h
    · next lut hLut =>
      cases h
      have hKeys : ∀ v : CudaVictimKey,
          v ∈ (victims.lookupKeys.filter (·.key20.length = 20)).map
            (fun vk => (⟨vk.key20, vk.victimIndex, vk.family.toUInt8⟩ : CudaVictimKey)) ↔
          ∃ k ∈ victims.lookupKeys, k.key20.length = 20 ∧ v = ⟨k.key20, k.victimIndex, k.family.toUInt8⟩ := by
        intro v
        simp only [List.mem_map, List.mem_filter, decide_eq_true_eq, and_assoc, eq_comm (a := v)]
      refine ⟨rfl, rfl, ?_, ?_⟩
      · intro family hash20 hSize
        rw [victimLutFind_isSome_iff hLut]
        constructor
        · rintro ⟨v, hv, hKey⟩
          obtain ⟨k, hk, -, rfl⟩ := (hKeys v).mp hv
          obtain ⟨hFamily, rfl⟩ := Prod.mk.inj hKey
          exact ⟨k, hk, ScriptFamily.toUInt8_inj hFamily, rfl⟩
        · rintro ⟨k, hk, rfl, rfl⟩
          exact ⟨⟨k.key20, k.victimIndex, k.family.toUInt8⟩, (hKeys _).mpr ⟨k, hk, hSize, rfl⟩, rfl⟩
      · intro family hash20 i hFind
        obtain ⟨v, hv, hKey, rfl⟩ := victimLutFind_mem hLut hFind
        obtain ⟨k, hk, -, rfl⟩ := (hKeys v).mp hv
        obtain ⟨hFamily, rfl⟩ := Prod.mk.inj hKey
        exact ⟨k, hk, ScriptFamily.toUInt8_inj hFamily, rfl, rfl⟩

/-! ## What a launch finds -/

/-- The key that the device looks up for a master key and a path, with a function for the sums of keys. -/
def deviceKey (C : Primitives) (add : Bytes → Bytes → Bytes) (master64 : Bytes) (p : DerivationPath) : Bytes :=
  hash160PubkeyLookup C
    (C.pubkey33 (deriveLeafFromPrefix add (derivePrefixFromMaster C add master64 (prefixDesc p)) (leafIndex p)))
    (scriptFamilyFromPath p).toUInt8

/-- The hit of the seed and the path at two positions. -/
def pairHit (C : Primitives) (lut : VictimLut) (pathCount : Nat) (masters : List Bytes)
    (paths : List DerivationPath) (s i : Nat) : Option CudaGpuHit :=
  let p := paths.getD i ⟨[], 0, 0, 0⟩
  let key := deviceKey C addModN (masters.getD s []) p
  (victimLutFind lut (scriptFamilyFromPath p).toUInt8 key).map fun v => ⟨s * pathCount + i, v, key⟩

theorem range_mul (m n : Nat) :
    List.range (m * n) = (List.range m).flatMap fun s => (List.range n).map fun i => s * n + i := by
  induction m with
  | zero => simp
  | succ m ih => rw [Nat.succ_mul, List.range_add, ih, List.range_succ, List.flatMap_append, List.flatMap_singleton]

section Launch

variable (C : Primitives) {engine : GpuEngine} {paths : List DerivationPath}
  (hLayout : engine.layout.Describes paths)

include hLayout

theorem leafThread_eq (masters : List Bytes) {s i : Nat} (hs : s < masters.length) (hi : i < paths.length) :
    engine.leafThread C (engine.prefixDeriveKernel C masters) (s * paths.length + i) =
      pairHit C engine.lut paths.length masters paths s i := by
  obtain ⟨l, hl, hPath, hStep, hFamily, hPrefix⟩ := hLayout.leaf i paths[i] (List.getElem?_eq_getElem hi)
  obtain ⟨hBound, -⟩ := List.getElem?_eq_some_iff.mp hPrefix
  have hPos : 0 < paths.length := Nat.zero_lt_of_lt hi
  have hSeed : (s * paths.length + i) / paths.length = s := by
    rw [Nat.mul_comm, Nat.mul_add_div hPos, Nat.div_eq_of_lt hi, Nat.add_zero]
  have hLeaf : (s * paths.length + i) % paths.length = i := by
    rw [Nat.mul_comm, Nat.mul_add_mod, Nat.mod_eq_of_lt hi]
  have hState : (engine.prefixDeriveKernel C masters).getD
      (s * engine.layout.prefixes.length + l.prefixId.toNat) default =
      derivePrefixFromMaster C addModN (masters.getD s []) (prefixDesc paths[i]) := by
    have hWork : s * engine.layout.prefixes.length + l.prefixId.toNat <
        masters.length * engine.layout.prefixes.length := by
      calc _ < s * engine.layout.prefixes.length + engine.layout.prefixes.length := by omega
        _ = (s + 1) * engine.layout.prefixes.length := by ring
        _ ≤ _ := Nat.mul_le_mul_right _ hs
    have hDiv : (s * engine.layout.prefixes.length + l.prefixId.toNat) / engine.layout.prefixes.length = s := by
      rw [Nat.mul_comm, Nat.mul_add_div (by omega), Nat.div_eq_of_lt hBound, Nat.add_zero]
    have hMod : (s * engine.layout.prefixes.length + l.prefixId.toNat) % engine.layout.prefixes.length =
        l.prefixId.toNat := by
      rw [Nat.mul_comm, Nat.mul_add_mod, Nat.mod_eq_of_lt hBound]
    rw [GpuEngine.prefixDeriveKernel, getD_map_range _ _ hWork, hDiv, hMod,
      List.getD_eq_getElem?_getD (l := engine.layout.prefixes), hPrefix]
    rfl
  unfold GpuEngine.leafThread pairHit deviceKey
  dsimp only
  rw [hLayout.length, hSeed, hLeaf, List.getD_eq_getElem?_getD (l := engine.layout.leaves), hl, Option.getD_some, hState,
    hPath, hStep, hFamily, List.getD_eq_getElem?_getD (l := paths), List.getElem?_eq_getElem hi, Option.getD_some]

/-- The threads go through the pairs of a seed and a path. -/
theorem leafPipelineKernel_eq (masters : List Bytes) :
    engine.leafPipelineKernel C masters =
      (List.range masters.length).flatMap fun s =>
        (List.range paths.length).filterMap fun i => pairHit C engine.lut paths.length masters paths s i := by
  unfold GpuEngine.leafPipelineKernel
  rw [hLayout.length, range_mul, List.filterMap_flatMap]
  apply List.flatMap_congr
  intro s hs
  rw [List.filterMap_map]
  apply List.filterMap_congr
  intro i hi
  exact leafThread_eq C hLayout masters (List.mem_range.mp hs) (List.mem_range.mp hi)

end Launch

end Bloodhound.Scanner
