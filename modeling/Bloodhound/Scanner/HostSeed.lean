import Bloodhound.Lib.Sha2

/-!
# Seeds on the host

`yasmarang.cpp`, `coldcard_seed.cpp`, `bip39.cpp` and `bip32_master`: the generator, the entropy that a
wallet draws from it, its mnemonic and the master key. The hash functions of the library are the standard
ones. The loop that draws words until one differs from the last is bounded by fuel.
-/

namespace Bloodhound.Scanner

abbrev Bytes := List UInt8

/-! ## The generator -/

structure YasmarangState where
  pad : UInt32
  n : UInt32
  d : UInt32
  dat : UInt8
  deriving DecidableEq

def yasmarangStep (st : YasmarangState) : UInt32 × YasmarangState :=
  let pad := st.pad + (st.dat.toUInt32 + st.d * st.n)
  let pad := (pad <<< 3) + (pad >>> 29)
  let n := pad ||| 2
  let d := st.d ^^^ ((pad <<< 31) + (pad >>> 1))
  let dat := st.dat ^^^ (pad.toUInt8 ^^^ (d >>> 8).toUInt8 ^^^ 1)
  (pad ^^^ (d <<< 5) ^^^ (pad >>> 18) ^^^ (dat.toUInt32 <<< 1), { pad, n, d, dat })

structure YasmarangRng where
  seeded : Bool
  st : YasmarangState

def YasmarangRng.resetColdStart (pad : UInt32) : YasmarangRng := ⟨true, ⟨pad, 0, 0, 0⟩⟩

def YasmarangRng.rngGet (rng : YasmarangRng) : UInt32 × YasmarangRng :=
  let st := if rng.seeded then rng.st else ⟨0, 0, 0, 0⟩
  ((yasmarangStep st).1, ⟨true, (yasmarangStep st).2⟩)

def libnguYasmarang : YasmarangState := ⟨0x0a8ce26f, 69, 233, 0⟩

/-! ## Entropy -/

/-- A word as it lies in memory. -/
def littleEndian (x : UInt32) : Bytes := [x.toUInt8, (x >>> 8).toUInt8, (x >>> 16).toUInt8, (x >>> 24).toUInt8]

/-- The loop of `my_random_bytes` from an offset on; a word that is the last one again is skipped. -/
def myRandomBytes (count : Nat) :
    Nat → YasmarangRng → YasmarangState → UInt32 → Bytes → Option Bytes
  | fuel, mp, lib, last, dest =>
    if dest.length < count then
      match fuel with
      | 0 => none
      | fuel + 1 =>
        let (chip, mp) := mp.rngGet
        if chip = last then myRandomBytes count fuel mp lib last dest
        else
          let (word, lib) := yasmarangStep lib
          let here := min 4 (count - dest.length)
          myRandomBytes count fuel mp lib chip (dest ++ (littleEndian (chip ^^^ word)).take here)
    else some dest

def sha256d (data : Bytes) : Bytes := Sha2.sha256.digest (Sha2.sha256.digest data)

theorem length_digest256 (msg : Bytes) : (Sha2.sha256.digest msg).length = 32 := rfl

theorem length_sha256d (data : Bytes) : (sha256d data).length = 32 := length_digest256 _

def coldcardSeedEntropy (fuel : Nat) (pad priorDraws : UInt32) : Option Bytes :=
  let drawn := (List.range priorDraws.toNat).foldl (fun s _ => (s.1.rngGet.2, (yasmarangStep s.2).2))
    (YasmarangRng.resetColdStart pad, libnguYasmarang)
  (myRandomBytes 32 fuel drawn.1 drawn.2 0 []).map sha256d

/-! ## Mnemonic -/

/-- A line without the carriage return at its end. -/
def stripReturn (line : Bytes) : Bytes := if line.getLast? = some 13 then line.dropLast else line

/-- `load_wordlist`, from the lines of the file. -/
def loadWordlist (lines : List Bytes) : List Bytes := (lines.map stripReturn).filter (· ≠ [])

def entropyToMnemonic (lines : List Bytes) (entropy : Bytes) : Bytes :=
  let words := loadWordlist lines
  if words.length ≠ 2048 ∨ entropy.length ≠ 32 then []
  else
    let hash := Sha2.sha256.digest entropy
    let bits : Bytes :=
      (entropy.flatMap fun b => (List.range 8).map fun i => (b >>> UInt8.ofNat (7 - i)) &&& 1) ++
        (List.range 8).map fun i => (hash.getD 0 0 >>> UInt8.ofNat (7 - i)) &&& 1
    (List.range (bits.length / 11)).foldl (fun (mnemonic : Bytes) k =>
      let idx := (List.range 11).foldl
        (fun (idx : UInt32) (j : Nat) => (idx <<< 1) ||| (bits.getD (11 * k + j) 0).toUInt32) (0 : UInt32)
      let mnemonic := if mnemonic ≠ [] then mnemonic ++ [32] else mnemonic
      mnemonic ++ words.getD idx.toNat []) []

/-- The bytes of `mnemonic`. -/
def mnemonicSalt : Bytes := [109, 110, 101, 109, 111, 110, 105, 99]

def hmacSha512 (key data : Bytes) : Bytes := Sha2.hmac Sha2.sha512.digest 128 key data

def bip39SeedFromEntropy (lines : List Bytes) (entropy : Bytes) : Bytes :=
  let mnemonic := entropyToMnemonic lines entropy
  if mnemonic = [] then [] else Sha2.pbkdf2 (hmacSha512 mnemonic) 64 mnemonicSalt 2048 64

/-! ## Master key -/

structure Bip32Key where
  priv32 : Bytes
  chain32 : Bytes

/-- The bytes of `Bitcoin seed`. -/
def bitcoinSeed : Bytes := [66, 105, 116, 99, 111, 105, 110, 32, 115, 101, 101, 100]

def bip32Master (seed : Bytes) : Bip32Key :=
  let mac := hmacSha512 bitcoinSeed seed
  ⟨mac.take 32, mac.drop 32⟩

/-- The master key of a seed, as its private key and its chain code; nothing where the fuel runs out. -/
def hostMaster (lines : List Bytes) (fuel : Nat) (pad priorDraws : UInt32) : Option Bytes :=
  (coldcardSeedEntropy fuel pad priorDraws).map fun entropy =>
    let master := bip32Master (bip39SeedFromEntropy lines entropy)
    master.priv32 ++ master.chain32

end Bloodhound.Scanner
