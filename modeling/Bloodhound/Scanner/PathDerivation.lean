import Bloodhound.Scanner.KeySum
import Bloodhound.Scanner.VictimSet
import Bloodhound.Scanner.Setup

/-!
# Derivation of paths

`bip32_internal.cpp` and `batch_derive.cpp` on the host, `bip32_device.cuh` and `hash160_pubkey_lookup` on the
device. The host walks the five steps of a path; the device walks the first four once for all paths that share
them and the last one for each leaf. Both reach the same key (`deriveLeaf_eq`) with exact sums of keys, which
those of the device are from a master key below the order (`deriveLeaf_addModN`).
-/

namespace Bloodhound.Scanner

open Radix

structure DerivationPath where
  scriptType : Text
  account : UInt32
  branch : UInt32
  index : UInt32
  deriving DecidableEq

def scriptFamilyFromPath (path : DerivationPath) : ScriptFamily :=
  if path.scriptType = "bip49".toList then .bip49
  else if path.scriptType = "bip44".toList then .bip44
  else .bip84

def pathIndices (p : DerivationPath) : List UInt32 × List Bool :=
  if p.scriptType = "bip84".toList then
    ([84, 0, p.account, p.branch, p.index], [true, true, true, false, false])
  else if p.scriptType = "bip49".toList then
    ([49, 0, p.account, 0, p.index], [true, true, true, false, false])
  else ([44, 0, 0, 0, p.index], [true, true, true, false, false])

/-! ## Host -/

def childIndex (index : UInt32) (hardened : Bool) : UInt32 :=
  if hardened then index ||| 0x80000000 else index

def indexBytes (idx : UInt32) : Bytes :=
  [(idx >>> 24).toUInt8, (idx >>> 16).toUInt8, (idx >>> 8).toUInt8, idx.toUInt8]

variable (C : Primitives)

def deriveChild (parent : Bip32Key) (index : UInt32) (hardened : Bool) : Option Bip32Key :=
  if parent.priv32.length ≠ 32 ∨ parent.chain32.length ≠ 32 then none
  else if hardened = false ∧ (C.pubkey33 parent.priv32).length ≠ 33 then none
  else
    let data := (if hardened then 0 :: parent.priv32 else C.pubkey33 parent.priv32) ++
      indexBytes (childIndex index hardened)
    let mac := hmacSha512 parent.chain32 data
    some ⟨addPrivkeysModOrder (mac.take 32) parent.priv32, mac.drop 32⟩

def derivePath (master : Bip32Key) (path : List UInt32 × List Bool) : Option Bip32Key :=
  (path.1.zip path.2).foldlM (fun cur step => deriveChild C cur step.1 step.2) master

def derivePrivkeyForPath (lines : List Bytes) (entropy : Bytes) (path : DerivationPath) : Option Bytes :=
  let seed := bip39SeedFromEntropy lines entropy
  if seed = [] then none
  else
    let master := bip32Master seed
    if master.priv32.length ≠ 32 ∨ master.chain32.length ≠ 32 then none
    else (derivePath C master (pathIndices path)).map (·.priv32)

/-! ## Device -/

-- `add_mod_n` on the device; the sum of the host in its place gives what the device is to compute
variable (add : Bytes → Bytes → Bytes)

def deriveChildDevice (k : Bip32Key) (index : UInt32) (hardened : Bool) : Bip32Key :=
  let data := (if hardened then 0 :: k.priv32 else C.pubkey33 k.priv32) ++
    indexBytes (childIndex index hardened)
  let mac := hmacSha512Device k.chain32 32 data 37
  ⟨add (mac.take 32) k.priv32, (mac.drop 32).take 32⟩

structure CudaPrefixDesc where
  stepIndex : List UInt32
  stepHardened : List UInt8
  family : UInt8
  deriving DecidableEq

structure PrefixState where
  priv32 : Bytes
  chain32 : Bytes
  pub33 : Bytes
  deriving Inhabited

def derivePrefixFromMaster (master64 : Bytes) (desc : CudaPrefixDesc) : PrefixState :=
  let k := (List.range 4).foldl
    (fun k step => deriveChildDevice C add k (desc.stepIndex.getD step 0) (desc.stepHardened.getD step 0 ≠ 0))
    ⟨master64.take 32, (master64.drop 32).take 32⟩
  ⟨k.priv32, k.chain32, C.pubkey33 k.priv32⟩

def deriveLeafFromPrefix (state : PrefixState) (step4Index : UInt32) : Bytes :=
  let mac := hmacSha512Device state.chain32 32 (state.pub33 ++ indexBytes step4Index) 37
  add (mac.take 32) state.priv32

def hash160PubkeyLookup (pub33 : Bytes) (family : UInt8) : Bytes :=
  let pkHash := C.ripemd160 (hash160Sha256Bytes pub33 33)
  if family = 1 then C.ripemd160 (hash160Sha256Bytes ([0x00, 0x14] ++ pkHash) 22) else pkHash

/-! ## The same keys -/

def ScriptFamily.toUInt8 : ScriptFamily → UInt8
  | .bip84 => 0
  | .bip49 => 1
  | .bip44 => 2

theorem ScriptFamily.toUInt8_inj {f g : ScriptFamily} (h : f.toUInt8 = g.toUInt8) : f = g := by
  cases f <;> cases g <;> first | rfl | cases h

theorem hash160PubkeyLookup_eq (family : ScriptFamily) {pub : Bytes} (hPub : pub.length = 33) :
    hash160PubkeyLookup C pub family.toUInt8 = pubkeyKey C family pub := by
  have hHash : C.ripemd160 (hash160Sha256Bytes pub 33) = hash160 C pub := by
    rw [← hPub, hash160Sha256Bytes_eq (show pub.length < 56 by omega), hash160]
  have hRedeem : ([0x00, 0x14] ++ hash160 C pub : Bytes).length = 22 := by
    rw [List.length_append, hash160, C.length_ripemd160]
    rfl
  have hScript : C.ripemd160 (hash160Sha256Bytes ([0x00, 0x14] ++ hash160 C pub) 22) =
      hash160 C ([0x00, 0x14] ++ hash160 C pub) := by
    apply congrArg C.ripemd160
    rw [← hash160Sha256Bytes_eq (show ([0x00, 0x14] ++ hash160 C pub : Bytes).length < 56 by omega), hRedeem]
  unfold hash160PubkeyLookup pubkeyKey
  dsimp only
  rw [hHash, hScript]
  cases family <;> rfl

/-- A private key and a chain code of 32 bytes each. -/
structure Bip32Key.Sized (k : Bip32Key) : Prop where
  priv : k.priv32.length = 32
  chain : k.chain32.length = 32

theorem length_childData (k : Bip32Key) (hk : k.Sized) (index : UInt32) (hardened : Bool) :
    ((if hardened then 0 :: k.priv32 else C.pubkey33 k.priv32) ++
      indexBytes (childIndex index hardened)).length = 37 := by
  cases hardened
  · rw [List.length_append, if_neg Bool.false_ne_true, C.length_pubkey33]
    rfl
  · rw [List.length_append, if_pos rfl, List.length_cons, hk.priv]
    rfl

theorem hmacSha512Device_whole {chain data : Bytes} (hChain : chain.length = 32) (hData : data.length = 37) :
    hmacSha512Device chain 32 data 37 = hmacSha512 chain data := by
  rw [hmacSha512Device_eq (by omega) (by decide) (by omega) (by decide), List.take_of_length_le (by omega),
    List.take_of_length_le (by omega)]
  rfl

theorem deriveChildDevice_sized (k : Bip32Key) (hk : k.Sized) (index : UInt32) (hardened : Bool) :
    (deriveChildDevice C addPrivkeysModOrder k index hardened).Sized := by
  constructor
  · rfl
  · unfold deriveChildDevice
    dsimp only
    rw [hmacSha512Device_whole hk.chain (length_childData C k hk index hardened)]
    rfl

theorem deriveChild_eq (k : Bip32Key) (hk : k.Sized) (index : UInt32) (hardened : Bool) :
    deriveChild C k index hardened = some (deriveChildDevice C addPrivkeysModOrder k index hardened) := by
  have hSizes : ¬ (k.priv32.length ≠ 32 ∨ k.chain32.length ≠ 32) := by simp [hk.priv, hk.chain]
  have hPub : ¬ (hardened = false ∧ (C.pubkey33 k.priv32).length ≠ 33) := by simp [C.length_pubkey33]
  have hChain : ∀ data, ((hmacSha512 k.chain32 data).drop 32).take 32 = (hmacSha512 k.chain32 data).drop 32 :=
    fun data => List.take_of_length_le (Nat.le_of_eq rfl)
  unfold deriveChild deriveChildDevice
  dsimp only
  rw [if_neg hSizes, if_neg hPub, hmacSha512Device_whole hk.chain (length_childData C k hk index hardened),
    hChain]

theorem derivePath_eq {master : Bip32Key} (hMaster : master.Sized) (path : List UInt32 × List Bool) :
    derivePath C master path =
      some ((path.1.zip path.2).foldl
        (fun k step => deriveChildDevice C addPrivkeysModOrder k step.1 step.2) master) := by
  unfold derivePath
  induction path.1.zip path.2 generalizing master with
  | nil => rfl
  | cons step steps ih =>
    rw [List.foldlM_cons, deriveChild_eq C master hMaster]
    exact ih (deriveChildDevice_sized C master hMaster _ _)

/-- A key below the order is added as on the host, and so are the keys that are derived from it. -/
theorem deriveChildDevice_addModN (k : Bip32Key) (hk : k.Sized) (hLess : keyNumber k.priv32 < secp256k1Order)
    (index : UInt32) (hardened : Bool) :
    deriveChildDevice C addModN k index hardened = deriveChildDevice C addPrivkeysModOrder k index hardened ∧
      keyNumber (deriveChildDevice C addPrivkeysModOrder k index hardened).priv32 < secp256k1Order := by
  have hTweak : ∀ mac : Bytes, mac.length = 64 → addModN (mac.take 32) k.priv32 =
      addPrivkeysModOrder (mac.take 32) k.priv32 := by
    intro mac hMac
    have hHalf : (mac.take 32).length = 32 := by
      rw [List.length_take]
      omega
    apply addModN_eq hHalf hk.priv
    exact Nat.add_lt_add (keyNumber_lt hHalf) hLess
  constructor
  · unfold deriveChildDevice
    dsimp only
    rw [hmacSha512Device_whole hk.chain (length_childData C k hk index hardened), hTweak _ rfl]
  · show keyNumber (addPrivkeysModOrder _ _) < _
    rw [addPrivkeysModOrder, keyNumber_bigEndian]
    exact (Nat.mod_le _ _).trans_lt (Nat.mod_lt _ (by decide))

theorem deriveSteps_addModN {master : Bip32Key} (hMaster : master.Sized)
    (hLess : keyNumber master.priv32 < secp256k1Order) (steps : List (UInt32 × Bool)) :
    steps.foldl (fun k step => deriveChildDevice C addModN k step.1 step.2) master =
      steps.foldl (fun k step => deriveChildDevice C addPrivkeysModOrder k step.1 step.2) master := by
  induction steps generalizing master with
  | nil => rfl
  | cons step steps ih =>
    obtain ⟨hSame, hBelow⟩ := deriveChildDevice_addModN C master hMaster hLess step.1 step.2
    rw [List.foldl_cons, List.foldl_cons, hSame]
    exact ih (deriveChildDevice_sized C master hMaster step.1 step.2) hBelow

/-! ## Prefixes and leaves -/

/-- The first four steps of a path, as `build_path_layout` stores them. -/
def prefixDesc (p : DerivationPath) : CudaPrefixDesc where
  stepIndex := (List.range 4).map fun i => (pathIndices p).1.getD i 0
  stepHardened := (List.range 4).map fun i => if (pathIndices p).2.getD i false then 1 else 0
  family := (scriptFamilyFromPath p).toUInt8

/-- The last step of a path. -/
def leafIndex (p : DerivationPath) : UInt32 := (pathIndices p).1.getD 4 0

theorem pathIndices_steps (p : DerivationPath) :
    ∃ a b c d, pathIndices p = ([a, b, c, d, leafIndex p], [true, true, true, false, false]) := by
  unfold leafIndex pathIndices
  split
  · exact ⟨_, _, _, _, rfl⟩
  · split <;> exact ⟨_, _, _, _, rfl⟩

/-- A leaf is derived with the public key of the prefix instead of its own. -/
theorem deriveLeafFromPrefix_eq (k : Bip32Key) (index : UInt32) :
    deriveLeafFromPrefix add ⟨k.priv32, k.chain32, C.pubkey33 k.priv32⟩ index =
      (deriveChildDevice C add k index false).priv32 := rfl

/-- Prefix and leaf are the five steps of the path. -/
theorem deriveLeaf_steps {master : Bip32Key} (hMaster : master.Sized) (p : DerivationPath) :
    deriveLeafFromPrefix add (derivePrefixFromMaster C add (master.priv32 ++ master.chain32) (prefixDesc p))
        (leafIndex p) =
      (((pathIndices p).1.zip (pathIndices p).2).foldl
        (fun k step => deriveChildDevice C add k step.1 step.2) master).priv32 := by
  obtain ⟨a, b, c, d, hSteps⟩ := pathIndices_steps p
  have hPriv : (master.priv32 ++ master.chain32).take 32 = master.priv32 := by
    rw [← hMaster.priv, List.take_left]
  have hChain : ((master.priv32 ++ master.chain32).drop 32).take 32 = master.chain32 := by
    rw [← hMaster.priv, List.drop_left, hMaster.priv, ← hMaster.chain, List.take_length]
  have hPrefix : derivePrefixFromMaster C add (master.priv32 ++ master.chain32) (prefixDesc p) =
      let k := deriveChildDevice C add (deriveChildDevice C add (deriveChildDevice C add
        (deriveChildDevice C add master a true) b true) c true) d false
      ⟨k.priv32, k.chain32, C.pubkey33 k.priv32⟩ := by
    unfold derivePrefixFromMaster prefixDesc
    rw [hPriv, hChain, hSteps]
    rfl
  rw [hPrefix, deriveLeafFromPrefix_eq, hSteps]
  rfl

theorem deriveLeaf_eq {master : Bip32Key} (hMaster : master.Sized) (p : DerivationPath) :
    (derivePath C master (pathIndices p)).map (·.priv32) =
      some (deriveLeafFromPrefix addPrivkeysModOrder (derivePrefixFromMaster C addPrivkeysModOrder
        (master.priv32 ++ master.chain32) (prefixDesc p)) (leafIndex p)) := by
  rw [derivePath_eq C hMaster, deriveLeaf_steps C addPrivkeysModOrder hMaster, Option.map_some]

/-- The device reaches the key of the host from a master key below the order. -/
theorem deriveLeaf_addModN {master : Bip32Key} (hMaster : master.Sized)
    (hLess : keyNumber master.priv32 < secp256k1Order) (p : DerivationPath) :
    deriveLeafFromPrefix addModN (derivePrefixFromMaster C addModN (master.priv32 ++ master.chain32)
        (prefixDesc p)) (leafIndex p) =
      deriveLeafFromPrefix addPrivkeysModOrder (derivePrefixFromMaster C addPrivkeysModOrder
        (master.priv32 ++ master.chain32) (prefixDesc p)) (leafIndex p) := by
  rw [deriveLeaf_steps C addModN hMaster, deriveLeaf_steps C addPrivkeysModOrder hMaster,
    deriveSteps_addModN C hMaster hLess]

end Bloodhound.Scanner
