import Bloodhound.Scanner.GpuEngine
import Bloodhound.Scanner.ScanRanges

/-!
# Paths that share their first steps

The derivations of `bip32_device.cuh`, and `build_cuda_path_descs` in `batch_derive.cpp`. The
device reaches the key of a path in five steps from the master key, or in one step from the prefix that
`build_path_layout` has for it. HMAC-SHA512 and the creation of public keys are parameters that the host and the
device share.

The sum of two keys on the device is exact when it stays below 2²⁵⁶ + n, which it does unless the master key is
above the order n. The layout has room for 65536 paths: beyond that the index of a leaf is not that of its path
(`prefix_sharing_iff`).
-/

namespace Bloodhound.Scanner

open Radix

/-! ## Derivations -/

/-- HMAC-SHA512 and the creation of public keys. -/
structure KeyFunctions where
  hmac : Bytes → Bytes → Bytes
  pubkey33 : Bytes → Bytes
  length_hmac : ∀ key data, (hmac key data).length = 64
  length_pubkey33 : ∀ priv, (pubkey33 priv).length = 33

structure CudaPathDesc where
  stepIndex : List UInt32
  stepHardened : List UInt8
  family : UInt8

/-- The description of one path. -/
def cudaPathDesc (p : DerivationPath) : CudaPathDesc where
  stepIndex := (List.range 5).map fun i => (pathIndices p).1.getD i 0
  stepHardened := (List.range 5).map fun i => if (pathIndices p).2.getD i false then 1 else 0
  family := (scriptFamilyFromPath p).toUInt8

def buildCudaPathDescs (paths : List DerivationPath) : List CudaPathDesc := paths.map cudaPathDesc

namespace KeyFunctions

variable (F : KeyFunctions)

/-- `derive_child` of the host. -/
def deriveChildHost (parent : Bip32Key) (index : UInt32) (hardened : Bool) : Option Bip32Key :=
  if parent.priv32.length ≠ 32 ∨ parent.chain32.length ≠ 32 then none
  else if hardened = false ∧ (F.pubkey33 parent.priv32).length ≠ 33 then none
  else
    let data := (if hardened then 0 :: parent.priv32 else F.pubkey33 parent.priv32) ++
      indexBytes (childIndex index hardened)
    let mac := F.hmac parent.chain32 data
    some ⟨addPrivkeysModOrder (mac.take 32) parent.priv32, mac.drop 32⟩

def derivePathHost (master : Bip32Key) (path : List UInt32 × List Bool) : Option Bip32Key :=
  (path.1.zip path.2).foldlM (fun cur step => F.deriveChildHost cur step.1 step.2) master

/-- `derive_privkey_for_path` behind the master key. -/
def derivePrivkeyForPath (master : Bip32Key) (path : DerivationPath) : Option Bytes :=
  if master.priv32.length ≠ 32 ∨ master.chain32.length ≠ 32 then none
  else (F.derivePathHost master (pathIndices path)).map (·.priv32)

/-- `derive_child` of the device. -/
def deriveChild (k : Bip32Key) (index : UInt32) (hardened : Bool) : Bip32Key :=
  let data := (if hardened then 0 :: k.priv32 else F.pubkey33 k.priv32) ++
    indexBytes (childIndex index hardened)
  let mac := F.hmac k.chain32 data
  ⟨addModN (mac.take 32) k.priv32, (mac.drop 32).take 32⟩

def deriveChildWithPub (k : Bip32Key) (parentPub33 : Bytes) (index : UInt32) : Bip32Key :=
  let mac := F.hmac k.chain32 (parentPub33 ++ indexBytes index)
  ⟨addModN (mac.take 32) k.priv32, (mac.drop 32).take 32⟩

/-- The first steps from a master key. -/
def deriveSteps (master64 : Bytes) (stepIndex : List UInt32) (stepHardened : List UInt8) (steps : Nat) : Bip32Key :=
  (List.range steps).foldl
    (fun k step => F.deriveChild k (stepIndex.getD step 0) (stepHardened.getD step 0 ≠ 0))
    ⟨master64.take 32, (master64.drop 32).take 32⟩

def derivePrefixFromMaster (master64 : Bytes) (desc : CudaPrefixDesc) : PrefixState :=
  let k := F.deriveSteps master64 desc.stepIndex desc.stepHardened 4
  ⟨k.priv32, k.chain32, F.pubkey33 k.priv32⟩

def deriveLeafFromPrefix (state : PrefixState) (step4Index : UInt32) : Bytes :=
  (F.deriveChildWithPub ⟨state.priv32, state.chain32⟩ state.pub33 step4Index).priv32

def derivePathFromMaster (master64 : Bytes) (desc : CudaPathDesc) : Bytes :=
  (F.deriveSteps master64 desc.stepIndex desc.stepHardened 5).priv32

/-- The functions that the host and the device really share. -/
def standard (C : Primitives) : KeyFunctions where
  hmac := hmacSha512
  pubkey33 := C.pubkey33
  length_hmac _ _ := rfl
  length_pubkey33 := C.length_pubkey33

theorem derivePathHost_standard (C : Primitives) : (standard C).derivePathHost = derivePath C := rfl

/-! ### Steps -/

/-- The left half of the code of a child. -/
def tweak (k : Bip32Key) (index : UInt32) (hardened : Bool) : Bytes :=
  (F.hmac k.chain32 ((if hardened then 0 :: k.priv32 else F.pubkey33 k.priv32) ++
    indexBytes (childIndex index hardened))).take 32

variable {F}

theorem length_tweak (k : Bip32Key) (index : UInt32) (hardened : Bool) : (F.tweak k index hardened).length = 32 := by
  rw [tweak, List.length_take, F.length_hmac]
  rfl

theorem deriveChild_sized (k : Bip32Key) (index : UInt32) (hardened : Bool) (hk : k.Sized)
    (hFits : keyNumber (F.tweak k index hardened) + keyNumber k.priv32 < 2 ^ 256 + secp256k1Order) :
    F.deriveChildHost k index hardened = some (F.deriveChild k index hardened) ∧
      (F.deriveChild k index hardened).Sized ∧
        keyNumber (F.deriveChild k index hardened).priv32 < secp256k1Order := by
  have hSum : (F.deriveChild k index hardened).priv32 = addPrivkeysModOrder (F.tweak k index hardened) k.priv32 :=
    addModN_eq (length_tweak k index hardened) hk.priv hFits
  have hSizes : ¬ (k.priv32.length ≠ 32 ∨ k.chain32.length ≠ 32) := by simp [hk.priv, hk.chain]
  have hPub : ¬ (hardened = false ∧ (F.pubkey33 k.priv32).length ≠ 33) := by simp [F.length_pubkey33]
  have hChain : ∀ data, ((F.hmac k.chain32 data).drop 32).length = 32 := by
    intro data
    rw [List.length_drop, F.length_hmac]
  refine ⟨?_, ⟨by rw [hSum]; rfl, ?_⟩, ?_⟩
  · have hKey : F.deriveChild k index hardened =
        ⟨addPrivkeysModOrder (F.tweak k index hardened) k.priv32, (F.deriveChild k index hardened).chain32⟩ := by
      rw [← hSum]
    unfold deriveChildHost
    dsimp only
    rw [if_neg hSizes, if_neg hPub, hKey, deriveChild]
    dsimp only
    rw [List.take_of_length_le (Nat.le_of_eq (hChain _)), tweak]
  · unfold deriveChild
    dsimp only
    rw [List.take_of_length_le (Nat.le_of_eq (hChain _))]
    exact hChain _
  · rw [hSum, addPrivkeysModOrder, keyNumber_bigEndian]
    exact (Nat.mod_le _ _).trans_lt (Nat.mod_lt _ (by decide))

theorem fits_of_less {k : Bip32Key} (hLess : keyNumber k.priv32 < secp256k1Order) (index : UInt32)
    (hardened : Bool) : keyNumber (F.tweak k index hardened) + keyNumber k.priv32 < 2 ^ 256 + secp256k1Order :=
  Nat.add_lt_add (keyNumber_lt (length_tweak k index hardened)) hLess

theorem derivePath_reduced {k : Bip32Key} (hk : k.Sized) (hLess : keyNumber k.priv32 < secp256k1Order)
    (steps : List (UInt32 × Bool)) :
    steps.foldlM (fun cur step => F.deriveChildHost cur step.1 step.2) k =
      some (steps.foldl (fun cur step => F.deriveChild cur step.1 step.2) k) := by
  induction steps generalizing k with
  | nil => rfl
  | cons step steps ih =>
    obtain ⟨hChild, hSized, hChildLess⟩ := deriveChild_sized k step.1 step.2 hk (fits_of_less hLess _ _)
    rw [List.foldlM_cons, hChild]
    exact ih hSized hChildLess

variable (F) in
/-- The first sum from the master key stays below 2²⁵⁶ + n. -/
def FirstSumFits (master : Bip32Key) (p : DerivationPath) : Prop :=
  keyNumber (F.tweak master ((pathIndices p).1.headD 0) true) + keyNumber master.priv32 <
    2 ^ 256 + secp256k1Order

/-- The steps behind the first one. -/
def laterSteps (b c d leaf : UInt32) : List (UInt32 × Bool) := [(b, true), (c, true), (d, false), (leaf, false)]

theorem derivePrivkeyForPath_steps {master k : Bip32Key} (hMaster : master.Sized) {p : DerivationPath}
    {a b c d : UInt32}
    (hSteps : pathIndices p = ([a, b, c, d, leafIndex p], [true, true, true, false, false]))
    (hChild : F.deriveChildHost master a true = some k) (hLess : keyNumber k.priv32 < secp256k1Order)
    (hk : k.Sized) :
    F.derivePrivkeyForPath master p =
      some ((laterSteps b c d (leafIndex p)).foldl (fun cur step => F.deriveChild cur step.1 step.2) k).priv32 := by
  have hSizes : ¬ (master.priv32.length ≠ 32 ∨ master.chain32.length ≠ 32) := by
    simp [hMaster.priv, hMaster.chain]
  have hHost : F.derivePathHost master (pathIndices p) =
      some ((laterSteps b c d (leafIndex p)).foldl (fun cur step => F.deriveChild cur step.1 step.2) k) := by
    rw [hSteps, ← derivePath_reduced hk hLess, derivePathHost, List.zip_cons_cons, List.foldlM_cons, hChild]
    rfl
  rw [derivePrivkeyForPath, if_neg hSizes, hHost]
  rfl

theorem derivePathFromMaster_steps {master : Bip32Key} (hMaster : master.Sized) {p : DerivationPath}
    {a b c d : UInt32}
    (hSteps : pathIndices p = ([a, b, c, d, leafIndex p], [true, true, true, false, false])) :
    F.derivePathFromMaster (master.priv32 ++ master.chain32) (cudaPathDesc p) =
      ((laterSteps b c d (leafIndex p)).foldl (fun cur step => F.deriveChild cur step.1 step.2)
        (F.deriveChild master a true)).priv32 := by
  have hPriv : (master.priv32 ++ master.chain32).take 32 = master.priv32 := by
    rw [← hMaster.priv, List.take_left]
  have hChain : ((master.priv32 ++ master.chain32).drop 32).take 32 = master.chain32 := by
    rw [← hMaster.priv, List.drop_left, hMaster.priv, ← hMaster.chain, List.take_length]
  unfold derivePathFromMaster deriveSteps cudaPathDesc
  rw [hPriv, hChain, hSteps]
  rfl

theorem derivePrivkeyForPath_eq {master : Bip32Key} (hMaster : master.Sized) {p : DerivationPath}
    (hFits : F.FirstSumFits master p) :
    F.derivePrivkeyForPath master p =
      some (F.derivePathFromMaster (master.priv32 ++ master.chain32) (cudaPathDesc p)) := by
  obtain ⟨a, b, c, d, hSteps⟩ := pathIndices_steps p
  unfold FirstSumFits at hFits
  rw [hSteps] at hFits
  obtain ⟨hChild, hSized, hLess⟩ := deriveChild_sized (F := F) master a true hMaster hFits
  rw [derivePrivkeyForPath_steps hMaster hSteps hChild hLess hSized, derivePathFromMaster_steps hMaster hSteps]

/-- The last step from the prefix is the last step from the master key. -/
theorem deriveLeafFromPrefix_eq (master64 : Bytes) (p : DerivationPath) :
    F.deriveLeafFromPrefix (F.derivePrefixFromMaster master64 (prefixDesc p)) (leafIndex p) =
      F.derivePathFromMaster master64 (cudaPathDesc p) := by
  obtain ⟨a, b, c, d, hSteps⟩ := pathIndices_steps p
  unfold derivePrefixFromMaster derivePathFromMaster deriveSteps cudaPathDesc prefixDesc
  rw [hSteps]
  rfl

end KeyFunctions

/-! ## The layout -/

theorem pathIndex_layout (paths : List DerivationPath) :
    (buildPathLayout paths).leaves.map CudaLeafDesc.pathIndex = (List.range paths.length).map UInt16.ofNat := by
  induction paths using List.reverseRecOn with
  | nil => rfl
  | append_singleton paths p ih =>
    have hStep : ∀ s pi, (layoutPath s p pi).layout.leaves.map CudaLeafDesc.pathIndex =
        s.layout.leaves.map CudaLeafDesc.pathIndex ++ [UInt16.ofNat pi] := by
      intro s pi
      unfold layoutPath
      dsimp only
      cases s.prefixIds.lookup (prefixKey p) <;> rw [List.map_append, List.map_singleton]
    unfold buildPathLayout at ih ⊢
    rw [List.zipIdx_append, List.foldl_append, List.zipIdx_singleton, List.foldl_cons, List.foldl_nil, hStep, ih,
      Nat.zero_add, List.length_append, List.length_singleton, List.range_succ, List.map_append, List.map_singleton]

/-- For every path, its leaf has its index, and the three ways to its key agree. -/
def PathsAlike (F : KeyFunctions) (master : Bip32Key) (paths : List DerivationPath) : Prop :=
  ∀ (i : Nat) (p : DerivationPath), paths[i]? = some p →
    ∃ leaf pre desc, (buildPathLayout paths).leaves[i]? = some leaf ∧ leaf.pathIndex.toNat = i ∧
      (buildPathLayout paths).prefixes[leaf.prefixId.toNat]? = some pre ∧
      (buildCudaPathDescs paths)[i]? = some desc ∧
      F.deriveLeafFromPrefix (F.derivePrefixFromMaster (master.priv32 ++ master.chain32) pre) leaf.step4Index =
        F.derivePathFromMaster (master.priv32 ++ master.chain32) desc ∧
      F.derivePrivkeyForPath master p = some (F.derivePathFromMaster (master.priv32 ++ master.chain32) desc)

theorem not_alike_of_many (F : KeyFunctions) (master : Bip32Key) {paths : List DerivationPath}
    (h : 65536 < paths.length) : ¬ PathsAlike F master paths := by
  intro hAlike
  obtain ⟨leaf, -, -, hLeaf, hIndex, -⟩ := hAlike 65536 _ (List.getElem?_eq_getElem h)
  have hLayout := congrArg (fun l : List UInt16 => l[65536]?) (pathIndex_layout paths)
  rw [List.getElem?_map, List.getElem?_map, hLeaf, List.getElem?_range h, Option.map_some, Option.map_some,
    Option.some_inj] at hLayout
  rw [hLayout] at hIndex
  exact absurd hIndex (by decide)

theorem alike_of_fits (F : KeyFunctions) {master : Bip32Key} (hMaster : master.Sized)
    {paths : List DerivationPath} (hFits : ∀ p ∈ paths, F.FirstSumFits master p) (hLength : paths.length ≤ 65536) :
    PathsAlike F master paths := by
  intro i p hp
  obtain ⟨leaf, hLeaf, hIndex, hStep, -, hPrefix⟩ := (buildPathLayout_describes hLength).leaf i p hp
  have hDesc : (buildCudaPathDescs paths)[i]? = some (cudaPathDesc p) := by
    rw [buildCudaPathDescs, List.getElem?_map, hp]
    rfl
  refine ⟨leaf, _, _, hLeaf, hIndex, hPrefix, hDesc, ?_, ?_⟩
  · rw [hStep]
    exact KeyFunctions.deriveLeafFromPrefix_eq _ p
  · exact KeyFunctions.derivePrivkeyForPath_eq hMaster (hFits p (List.mem_of_getElem? hp))

/-! ### Master keys above the order -/

section Unreduced

variable (master : Bip32Key)

/-- A chain code that is not that of the master key. -/
def otherChain : Bytes :=
  if master.chain32 = List.replicate 32 0 then List.replicate 32 1 else List.replicate 32 0

theorem length_otherChain : (otherChain master).length = 32 := by
  unfold otherChain
  split <;> exact List.length_replicate

theorem otherChain_ne : otherChain master ≠ master.chain32 := by
  unfold otherChain
  split
  · next h =>
    rw [h]
    decide
  · next h => exact fun hSame => h hSame.symm

/-- Codes whose left half is largest for the first step and zero for every later one. -/
def largestFirst : KeyFunctions where
  hmac key _ := List.replicate 32 (if key = master.chain32 then 255 else 0) ++ otherChain master
  pubkey33 _ := List.replicate 33 0
  length_hmac key _ := by rw [List.length_append, List.length_replicate, length_otherChain]
  length_pubkey33 _ := List.length_replicate

variable {master}

theorem deriveChild_zero {k : Bip32Key} (hk : k.Sized) (hChain : k.chain32 = otherChain master)
    (hLess : keyNumber k.priv32 < secp256k1Order) (index : UInt32) (hardened : Bool) :
    (largestFirst master).deriveChild k index hardened = k := by
  have hMac : ∀ data, (largestFirst master).hmac k.chain32 data = List.replicate 32 0 ++ otherChain master := by
    intro data
    rw [hChain, largestFirst]
    dsimp only
    rw [if_neg (otherChain_ne master)]
  have hZero : keyNumber (List.replicate 32 0) = 0 := by decide
  have hSum : addModN (List.replicate 32 0) k.priv32 = k.priv32 := by
    have hFits : keyNumber (List.replicate 32 0) + keyNumber k.priv32 < 2 ^ 256 + secp256k1Order := by omega
    have hHost := addModN_eq List.length_replicate hk.priv hFits
    have hSame : keyNumber (addPrivkeysModOrder (List.replicate 32 0) k.priv32) = keyNumber k.priv32 := by
      rw [addPrivkeysModOrder, keyNumber_bigEndian, ← keyNumber, ← keyNumber, hZero, Nat.zero_add,
        Nat.mod_eq_of_lt hLess]
      exact Nat.mod_eq_of_lt (hLess.trans (by decide))
    rw [hHost]
    exact keyNumber_inj (by rw [hk.priv]; rfl) hSame
  unfold KeyFunctions.deriveChild
  dsimp only
  rw [hMac]
  have hLeft : (List.replicate 32 (0 : UInt8) ++ otherChain master).take 32 = List.replicate 32 0 := by
    simp
  have hRight : ((List.replicate 32 (0 : UInt8) ++ otherChain master).drop 32).take 32 = k.chain32 := by
    rw [hChain, List.drop_left' List.length_replicate, ← length_otherChain master, List.take_length]
  rw [hLeft, hRight, hSum]

theorem largestFirst_first (hMaster : master.Sized) (index : UInt32) :
    (largestFirst master).deriveChild master index true =
        ⟨addModN (List.replicate 32 255) master.priv32, otherChain master⟩ ∧
      (largestFirst master).deriveChildHost master index true =
        some ⟨addPrivkeysModOrder (List.replicate 32 255) master.priv32, otherChain master⟩ := by
  have hMac : ∀ data, (largestFirst master).hmac master.chain32 data =
      List.replicate 32 255 ++ otherChain master := by
    intro data
    rw [largestFirst]
    dsimp only
    rw [if_pos rfl]
  have hLeft : (List.replicate 32 (255 : UInt8) ++ otherChain master).take 32 = List.replicate 32 255 := by
    simp
  have hRight : (List.replicate 32 (255 : UInt8) ++ otherChain master).drop 32 = otherChain master :=
    List.drop_left' List.length_replicate
  have hWhole : (otherChain master).take 32 = otherChain master :=
    List.take_of_length_le (length_otherChain master).le
  constructor
  · unfold KeyFunctions.deriveChild
    dsimp only
    rw [hMac, hLeft, hRight, hWhole]
  · have hSizes : ¬ (master.priv32.length ≠ 32 ∨ master.chain32.length ≠ 32) := by
      simp [hMaster.priv, hMaster.chain]
    unfold KeyFunctions.deriveChildHost
    dsimp only
    rw [if_neg hSizes, if_neg (by simp), hMac, hLeft, hRight]

end Unreduced

/-- The sum of the largest number and a key above the order: the device loses its second carry. -/
theorem addModN_ones {k : Bytes} (hLength : k.length = 32) (hMore : secp256k1Order < keyNumber k) :
    (addModN (List.replicate 32 255) k).length = 32 ∧
      keyNumber (addModN (List.replicate 32 255) k) < secp256k1Order ∧
      addModN (List.replicate 32 255) k ≠ addPrivkeysModOrder (List.replicate 32 255) k := by
  let ones : Bytes := List.replicate 32 255
  let first := Limbs.addCarry 256 0 (limbsOf ones) (limbsOf k)
  let second := Limbs.addCarry 256 0 first.1 (limbsOf two256ModN)
  have hOnes : keyNumber ones + 1 = 2 ^ 256 := by decide
  have hBelow := keyNumber_lt hLength
  have hSame : (limbsOf ones).length = (limbsOf k).length := by rw [length_limbsOf, length_limbsOf, hLength]; rfl
  have hFirstLength : first.1.length = 32 := by
    rw [Limbs.length_addCarry 0 hSame, length_limbsOf]
    rfl
  have hTwoLength : first.1.length = (limbsOf two256ModN).length := by rw [hFirstLength]; rfl
  have hFirst : Limbs.value 256 first.1 + 256 ^ 32 * first.2 = keyNumber ones + keyNumber k := by
    have hValue := Limbs.value_addCarry (b := 256) 0 hSame
    rw [length_limbsOf, value_limbsOf, value_limbsOf, Nat.add_zero] at hValue
    exact hValue
  have hSecond : Limbs.value 256 second.1 + 256 ^ 32 * second.2 =
      Limbs.value 256 first.1 + keyNumber two256ModN := by
    have hValue := Limbs.value_addCarry (b := 256) 0 hTwoLength
    rw [hFirstLength, value_limbsOf, Nat.add_zero] at hValue
    exact hValue
  have hModulus : keyNumber two256ModN + secp256k1Order = 2 ^ 256 := by decide
  have hFirstLess : Limbs.value 256 first.1 < 256 ^ 32 := by
    rw [← hFirstLength]
    exact Limbs.value_lt (by decide) fun d => Limbs.lt_of_mem_addCarry (by decide) 0
  have hSecondLength : second.1.length = 32 := by rw [Limbs.length_addCarry 0 hTwoLength, hFirstLength]
  have hSecondLimbs : ∀ d ∈ second.1, d < 256 := fun d => Limbs.lt_of_mem_addCarry (by decide) 0
  have hSecondLess : Limbs.value 256 second.1 < 256 ^ 32 := by
    rw [← hSecondLength]
    exact Limbs.value_lt (by decide) hSecondLimbs
  have hFirstCarry : first.2 = 1 := by
    norm_num at *
    omega
  have hSecondCarry : second.2 = 1 := by
    rw [hFirstCarry] at hFirst
    have hOrder : secp256k1Order < 2 ^ 256 := by decide
    norm_num at *
    omega
  have hNumber : Limbs.value 256 second.1 + 1 + secp256k1Order = keyNumber k := by
    rw [hFirstCarry] at hFirst
    rw [hSecondCarry] at hSecond
    norm_num at *
    omega
  have hCode : addModN ones k = subOrderOnce second.1 := by
    unfold addModN
    dsimp only
    rw [if_pos]
    exact ne_of_eq_of_ne hFirstCarry Nat.one_ne_zero
  obtain ⟨hSize, hResult⟩ := subOrderOnce_spec hSecondLength hSecondLimbs
  rw [← hCode] at hResult
  refine ⟨by rw [hCode]; exact hSize, hResult ▸ Nat.mod_lt _ (by decide), fun hEqual => ?_⟩
  have hHost : keyNumber (addPrivkeysModOrder ones k) = (keyNumber ones + keyNumber k) % secp256k1Order := by
    rw [addPrivkeysModOrder, keyNumber_bigEndian]
    exact Nat.mod_eq_of_lt ((Nat.mod_lt _ (by decide)).trans (by decide))
  rw [hEqual, hHost, ← hNumber] at hResult
  -- the two sums differ by 2²⁵⁶ and the order
  have hOrder : secp256k1Order = 0xFFFFFFFFFFFFFFFFFFFFFFFFFFFFFFFEBAAEDCE6AF48A03BBFD25E8CD0364141 := by decide
  rw [hOrder] at hResult
  omega

theorem not_alike_of_large {master : Bip32Key} (hMaster : master.Sized)
    (hMore : secp256k1Order < keyNumber master.priv32) {paths : List DerivationPath} (hPaths : paths ≠ []) :
    ¬ PathsAlike (largestFirst master) master paths := by
  intro hAlike
  obtain ⟨p, rest, rfl⟩ := List.exists_cons_of_ne_nil hPaths
  obtain ⟨-, -, desc, -, -, -, hDesc, -, hKeys⟩ := hAlike 0 p rfl
  obtain rfl : cudaPathDesc p = desc := Option.some.inj hDesc
  obtain ⟨a, b, c, d, hSteps⟩ := pathIndices_steps p
  have hStay : ∀ {k : Bip32Key}, k.Sized → k.chain32 = otherChain master → keyNumber k.priv32 < secp256k1Order →
      (KeyFunctions.laterSteps b c d (leafIndex p)).foldl
        (fun cur step => (largestFirst master).deriveChild cur step.1 step.2) k = k := by
    intro k hk hChain hLess
    simp only [KeyFunctions.laterSteps, List.foldl_cons, List.foldl_nil, deriveChild_zero hk hChain hLess]
  obtain ⟨hDevice, hHost⟩ := largestFirst_first hMaster a
  obtain ⟨hSize, hBelow, hOther⟩ := addModN_ones hMaster.priv hMore
  have hChain := length_otherChain master
  have hLess : keyNumber (addPrivkeysModOrder (List.replicate 32 255) master.priv32) < secp256k1Order := by
    rw [addPrivkeysModOrder, keyNumber_bigEndian]
    exact (Nat.mod_le _ _).trans_lt (Nat.mod_lt _ (by decide))
  have hSum := length_addPrivkeysModOrder (List.replicate 32 255) master.priv32
  have hDeviceStay := @hStay ⟨addModN (List.replicate 32 255) master.priv32, otherChain master⟩
    ⟨hSize, hChain⟩ rfl hBelow
  have hHostStay := @hStay ⟨addPrivkeysModOrder (List.replicate 32 255) master.priv32, otherChain master⟩
    ⟨hSum, hChain⟩ rfl hLess
  rw [KeyFunctions.derivePrivkeyForPath_steps hMaster hSteps hHost hLess ⟨hSum, hChain⟩,
    KeyFunctions.derivePathFromMaster_steps hMaster hSteps, hDevice, hHostStay, hDeviceStay] at hKeys
  exact hOther (Option.some.inj hKeys).symm

/-- The three ways to a key agree for all functions exactly if there are at most 65536 paths and the master key is
not above the order. -/
theorem prefix_sharing_iff {master : Bip32Key} (hMaster : master.Sized) (paths : List DerivationPath) :
    (∀ F, PathsAlike F master paths) ↔
      paths.length ≤ 65536 ∧ (paths = [] ∨ keyNumber master.priv32 ≤ secp256k1Order) := by
  constructor
  · intro hAlike
    constructor
    · by_contra hMany
      exact not_alike_of_many (largestFirst master) master (Nat.lt_of_not_le hMany) (hAlike _)
    · by_contra hLarge
      obtain ⟨hPaths, hMore⟩ := not_or.mp hLarge
      exact not_alike_of_large hMaster (Nat.lt_of_not_le hMore) hPaths (hAlike _)
  · rintro ⟨hLength, hMaster'⟩ F
    refine alike_of_fits F hMaster (fun p hp => ?_) hLength
    obtain rfl | hLess := hMaster'
    · exact absurd hp List.not_mem_nil
    · have := keyNumber_lt (KeyFunctions.length_tweak (F := F) master ((pathIndices p).1.headD 0) true)
      exact Nat.add_lt_add_of_lt_of_le this hLess

/-- With the smallest master key, all three ways to the default paths agree. -/
theorem prefix_sharing_default : ∃ paths,
    buildDerivationPaths ({ etaSmoothingAlpha := () } : FileConfig Unit) enoughFuel = some paths ∧ paths ≠ [] ∧
      ∀ F, PathsAlike F ⟨List.replicate 31 0 ++ [1], List.replicate 32 0⟩ paths :=
  ⟨_, buildDerivationPaths_eq (by unfold PathsEnd; decide), by decide,
    (prefix_sharing_iff ⟨rfl, rfl⟩ _).mpr ⟨by decide +kernel, .inr (by decide)⟩⟩

/-- One index more than 16 bits have. -/
def manyFile : Text := "[bip44]\nreceive_max = 65536".toList

theorem prefix_sharing_many : ∃ (cfg : FileConfig Unit) (paths : List DerivationPath),
    loadScanConfig (fun _ => none) (some manyFile) { etaSmoothingAlpha := () } = some cfg ∧
      buildDerivationPaths cfg enoughFuel = some paths ∧ ∀ F master, ¬ PathsAlike F master paths := by
  have hBounds : ∀ cfg : FileConfig Unit,
      loadScanConfig (fun _ => none) (some manyFile) { etaSmoothingAlpha := () } = some cfg →
        PathsEnd cfg ∧ cfg.bip44ReceiveMin = 0 ∧ cfg.bip44ReceiveMax = 65536 := by
    rintro cfg h
    cases h
    unfold PathsEnd
    decide
  obtain ⟨hEnd, hMin, hMax⟩ := hBounds _ rfl
  refine ⟨_, _, rfl, buildDerivationPaths_eq hEnd, fun F master => not_alike_of_many F master ?_⟩
  have hCount : (65536 : UInt32).toNat + 1 - (0 : UInt32).toNat = 65537 := by decide
  rw [configuredPaths, List.length_append, List.length_map, length_range, hMin, hMax, hCount]
  omega

end Bloodhound.Scanner
