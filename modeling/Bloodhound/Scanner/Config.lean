import Bloodhound.Lib.CountedLoop
import Bloodhound.Scanner.PathDerivation

/-!
# The configuration file

`config.cpp` and `ScanConfig` in `types.hpp`. A line that cannot be read leaves the configuration as it is, so
every file that can be opened is accepted, with any bounds of 32 bits. A negative bound is taken modulo 2⁶⁴ and
then cut off, as any larger one is.
-/

namespace Bloodhound.Scanner

/-- The whole configuration; `δ` are the values of type `double`. -/
structure FileConfig (δ : Type) extends ScanConfig where
  bip84AccountsMin : UInt32 := 0
  bip84AccountsMax : UInt32 := 2
  bip84ReceiveMin : UInt32 := 0
  bip84ReceiveMax : UInt32 := 100
  bip84ChangeMin : UInt32 := 0
  bip84ChangeMax : UInt32 := 50
  bip49ReceiveMin : UInt32 := 0
  bip49ReceiveMax : UInt32 := 40
  bip44ReceiveMin : UInt32 := 0
  bip44ReceiveMax : UInt32 := 20
  gpuDeviceIndex : Int := 0
  maxCudaStreams : Int := 3
  progressIntervalSec : Int := 60
  showLiveMatches : Bool := true
  abbrevLen : Int := 6
  colorEnabled : Bool := true
  etaSmoothingAlpha : δ
  showEta : Bool := true
  cointraceDbPath : Text := "../../data/cointrace.db".toList
  cointraceDbMaxAgeHours : Int := 48

namespace ConfigFile

def isBlank (c : Char) : Bool := c = ' ' || c = '\t' || c = '\r'

def trim (s : Text) : Text := ((s.dropWhile isBlank).reverse.dropWhile isBlank).reverse

def parseU32 (v : Text) : Option UInt32 := (stoull v).map UInt64.toUInt32

/-- `std::stoi`. -/
def parseInt (v : Text) : Option Int :=
  let signed := readSign (v.dropWhile isSpace)
  let digits := signed.2.takeWhile Char.isDigit
  let value : Int := Nat.ofDigitChars 10 digits 0
  let n := if signed.1 then -value else value
  if digits = [] ∨ n < -2 ^ 31 ∨ 2 ^ 31 ≤ n then none else some n

def parseBool (v : Text) : Option Bool :=
  if v = "true".toList ∨ v = "1".toList then some true
  else if v = "false".toList ∨ v = "0".toList then some false
  else none

section Fields

variable {δ : Type}

abbrev Setter (δ α : Type) : Type := α → FileConfig δ → FileConfig δ

/-- The bound that a key of a section stands for. -/
def u32Field (sec key : String) : Option (Setter δ UInt32) :=
  match sec, key with
  | "scan", "pad_high_min" => some fun v cfg => { cfg with padHighMin := v }
  | "scan", "pad_high_max" => some fun v cfg => { cfg with padHighMax := v }
  | "scan", "pad_high_filter_min" => some fun v cfg => { cfg with padHighFilterMin := v }
  | "scan", "pad_high_filter_max" => some fun v cfg => { cfg with padHighFilterMax := v }
  | "scan", "scan_session_min" => some fun v cfg => { cfg with scanSessionMin := v }
  | "scan", "scan_session_max" => some fun v cfg => { cfg with scanSessionMax := v }
  | "bip84", "accounts_min" => some fun v cfg => { cfg with bip84AccountsMin := v }
  | "bip84", "accounts_max" => some fun v cfg => { cfg with bip84AccountsMax := v }
  | "bip84", "receive_min" => some fun v cfg => { cfg with bip84ReceiveMin := v }
  | "bip84", "receive_max" => some fun v cfg => { cfg with bip84ReceiveMax := v }
  | "bip84", "change_min" => some fun v cfg => { cfg with bip84ChangeMin := v }
  | "bip84", "change_max" => some fun v cfg => { cfg with bip84ChangeMax := v }
  | "bip49", "receive_min" => some fun v cfg => { cfg with bip49ReceiveMin := v }
  | "bip49", "receive_max" => some fun v cfg => { cfg with bip49ReceiveMax := v }
  | "bip44", "receive_min" => some fun v cfg => { cfg with bip44ReceiveMin := v }
  | "bip44", "receive_max" => some fun v cfg => { cfg with bip44ReceiveMax := v }
  | _, _ => none

def intField (sec key : String) : Option (Setter δ Int) :=
  match sec, key with
  | "gpu", "device_index" => some fun v cfg => { cfg with gpuDeviceIndex := v }
  | "gpu", "gpu_util_pct" => some fun v cfg => { cfg with gpuUtilPct := v }
  | "gpu", "base_batch_seeds" => some fun v cfg => { cfg with baseBatchSeeds := v }
  | "gpu", "max_cuda_streams" => some fun v cfg => { cfg with maxCudaStreams := v }
  | "logging", "progress_interval_sec" => some fun v cfg => { cfg with progressIntervalSec := v }
  | "logging", "abbrev_len" => some fun v cfg => { cfg with abbrevLen := v }
  | "cointrace", "db_max_age_hours" => some fun v cfg => { cfg with cointraceDbMaxAgeHours := v }
  | _, _ => none

def boolField (sec key : String) : Option (Setter δ Bool) :=
  match sec, key with
  | "logging", "show_live_matches" => some fun v cfg => { cfg with showLiveMatches := v }
  | "logging", "color_enabled" => some fun v cfg => { cfg with colorEnabled := v }
  | _, _ => none

/-- The field of a key, set to a value that can be read. -/
def assign {α : Type} (field : Option (Setter δ α)) (value : Option α) (cfg : FileConfig δ) : FileConfig δ :=
  match field, value with
  | some set, some v => set v cfg
  | _, _ => cfg

/-- A pair of a section; no key belongs to two kinds of fields. -/
def setField (stod : Text → Option δ) (sec key val : Text) (cfg : FileConfig δ) : FileConfig δ :=
  let s := String.ofList sec
  let k := String.ofList key
  let cfg := assign (u32Field s k) (parseU32 val) cfg
  let cfg := assign (intField s k) (parseInt val) cfg
  let cfg := assign (boolField s k) (parseBool val) cfg
  if s = "logging" ∧ k = "eta_smoothing_alpha" then
    (stod val).elim cfg fun v => { cfg with etaSmoothingAlpha := v }
  else if s = "cointrace" ∧ k = "db_path" then { cfg with cointraceDbPath := val }
  else cfg

/-- A line of the file, with the section that it stands in. -/
def readLine (stod : Text → Option δ) (state : Text × FileConfig δ) (raw : Text) : Text × FileConfig δ :=
  let line := trim raw
  if line = [] ∨ line.head? = some '#' then state
  else if line.head? = some '[' ∧ line.getLast? = some ']' then ((line.drop 1).take (line.length - 2), state.2)
  else if '=' ∉ line then state
  else
    let key := trim (line.takeWhile (· ≠ '='))
    let val := trim ((line.dropWhile (· ≠ '=')).drop 1)
    (state.1, setField stod state.1 key val state.2)

end Fields

end ConfigFile

/-- `load_scan_config`; nothing where the file cannot be opened. -/
def loadScanConfig {δ : Type} (stod : Text → Option δ) (file : Option Text) (cfg : FileConfig δ) :
    Option (FileConfig δ) :=
  file.map fun text => ((text.splitOn '\n').foldl (ConfigFile.readLine stod) ([], cfg)).2

/-- The pads that the configuration selects. -/
def FileConfig.pads {δ : Type} (cfg : FileConfig δ) : PadEnumerator :=
  ({ config := cfg.toScanConfig } : OrchestratorOptions).pads

end Bloodhound.Scanner
