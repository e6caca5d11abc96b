import Bloodhound.Scanner.Checkpoint
import Bloodhound.Scanner.VictimSet

/-!
# The start of a scan

`pad_enumerator.cpp`, and the part of `run_scan` in `orchestrator.cpp` in front of its loops: the options
select a run and the pads that are left of it, and a checkpoint of this run is loaded where there is one.

The digest of SHA-256 is a parameter. What comes from outside of the checkpoints is `Surroundings`: the
victims, the rows of the matches database and the clock. A start whose key file, database or device does not
open ends before it has a run, and is not among those here.
-/

namespace Bloodhound.Scanner

/-! ## Pads -/

structure PadEnumerator where
  highMin : UInt32
  highMax : UInt32
  filterHighMin : UInt32
  filterHighMax : UInt32
  deriving DecidableEq

namespace PadEnumerator

def total (pads : PadEnumerator) : UInt64 :=
  if pads.highMax < pads.highMin then 0 else (pads.highMax - pads.highMin + 1).toUInt64 * 65536

def highWord (pad : UInt32) : UInt32 := pad >>> 16

def passesFilter (pads : PadEnumerator) (pad : UInt32) : Bool :=
  pads.filterHighMin ≤ highWord pad && highWord pad ≤ pads.filterHighMax

def «at» (pads : PadEnumerator) (index : UInt64) : UInt32 :=
  let span := (pads.highMax - pads.highMin + 1).toUInt64
  let low := index % 65536
  let highOffset := index / 65536 % span
  let high := pads.highMin + highOffset.toUInt32
  high <<< 16 ||| low.toUInt32

end PadEnumerator

/-! ## Options -/

/-- The part of the configuration that decides which seeds are tested. -/
structure ScanConfig where
  padHighMin : UInt32 := 0
  padHighMax : UInt32 := 67
  padHighFilterMin : UInt32 := 0
  padHighFilterMax : UInt32 := 67
  scanSessionMin : UInt32 := 0
  scanSessionMax : UInt32 := 3000
  gpuUtilPct : Int := 100
  baseBatchSeeds : Int := 512
  deriving DecidableEq

structure OrchestratorOptions where
  config : ScanConfig := {}
  runId : Text := []
  resume : Bool := false
  fresh : Bool := false
  backfill : Bool := false
  backfillFromRunId : Text := []
  backfillTo : UInt64 := 0
  gpuUtilOverride : Int := -1
  padStart : UInt64 := 0
  padEnd : UInt64 := 0

def clampGpuUtil (v : Int) : Int := if v < 10 then 10 else if 100 < v then 100 else v

namespace OrchestratorOptions

variable (opts : OrchestratorOptions)

def gpuUtil : Int :=
  clampGpuUtil (if 0 ≤ opts.gpuUtilOverride then opts.gpuUtilOverride else opts.config.gpuUtilPct)

def pads : PadEnumerator where
  highMin := opts.config.padHighMin
  highMax := opts.config.padHighMax
  filterHighMin := opts.config.padHighFilterMin
  filterHighMax := opts.config.padHighFilterMax

/-- The end of the pads of a scan that is no backfill. -/
def rangeEnd : UInt64 := if opts.padEnd > 0 then opts.padEnd else opts.pads.total

def baseBatch : Int := max 1 ((opts.config.baseBatchSeeds * opts.gpuUtil).tdiv 100)

end OrchestratorOptions

/-! ## Hashes of texts -/

def hexDigit (n : Nat) : Char := Nat.digitChar (n % 16)

/-- `sha256_hex`: two digits for each byte of the digest. -/
def sha256Hex (sha256 : Text → Fin 32 → UInt8) (data : Text) : Text :=
  (List.finRange 32).flatMap fun i =>
    let byte := (sha256 data i).toNat
    [hexDigit (byte / 16), hexDigit byte]

theorem clean_hexDigit (n : Nat) : hexDigit n ≠ '"' ∧ hexDigit n ≠ '\\' := by
  have hAll : ∀ m < 16, Nat.digitChar m ≠ '"' ∧ Nat.digitChar m ≠ '\\' := by decide
  exact hAll _ (Nat.mod_lt n (by decide))

variable (sha256 : Text → Fin 32 → UInt8)

theorem clean_sha256Hex (data : Text) : Clean (sha256Hex sha256 data) := by
  have hChars : ∀ c ∈ sha256Hex sha256 data, c ≠ '"' ∧ c ≠ '\\' := by
    intro c hc
    obtain ⟨i, _, hi⟩ := List.mem_flatMap.mp hc
    simp only [List.mem_cons, List.not_mem_nil, or_false] at hi
    rcases hi with rfl | rfl <;> exact clean_hexDigit _
  exact ⟨fun h => (hChars _ h).1 rfl, fun h => (hChars _ h).2 rfl⟩

@[simp] theorem length_sha256Hex (data : Text) : (sha256Hex sha256 data).length = 64 := by
  simp [sha256Hex, List.length_flatMap]

theorem sha256Hex_ne_nil (data : Text) : sha256Hex sha256 data ≠ [] := by
  intro h
  have hLength := length_sha256Hex sha256 data
  rw [h] at hLength
  cases hLength

/-- What `VictimSet::snapshot_hash` digests: the addresses, a line each. -/
def VictimSet.snapshotText (victims : VictimSet) : Text :=
  victims.addresses.flatMap fun address => address.map (fun byte => Char.ofNat byte.toNat) ++ ['\n']

/-! ## The start -/

/-- What a start finds outside of the checkpoints. -/
structure Surroundings where
  /-- the addresses of the victims, as the query of the other database lists them -/
  victimRows : List (Option Bytes)
  latestMainResumable : Option Text
  latestBackfillResumable : Option Text
  newRunId : Text
  /-- the answer where a resumable run is to be abandoned -/
  confirmed : Bool

/-- What is printed about a checkpoint that is resumed. -/
inductive Warning
  | victimSnapshotChanged
  | configHashMismatch
  deriving DecidableEq

section Start

variable {δ : Type} [Zero δ] (io : DoubleIo δ)

/-- A `CheckpointState` without values. -/
def emptyCheckpoint : CheckpointState δ where
  runId := []
  configHash := []
  nextPadIndex := 0
  padsTotal := 0
  seedsTested := 0
  hits := 0
  elapsedSec := 0
  victimSnapshotHash := []
  gpuUtilPct := 100

/-- The run that is selected, and its checkpoint where one was loaded. -/
structure Selected (δ : Type) where
  runId : Text
  ck : CheckpointState δ
  resuming : Bool
  backfillSourceRunId : Text
  padStart : UInt64
  padEnd : UInt64

def backfillRunId (source : Text) : Text := "backfill-for-".toList ++ source

def isBackfillRunId (runId : Text) : Bool := "backfill-for-".toList.isPrefixOf runId

/-- A run that was found in the database, where it has a checkpoint. -/
def withCheckpoint (files : Text → Option Text) (found : Option Text) : Text :=
  (found.filter fun runId => (files runId).isSome).getD []

/-- The checkpoint of the run, and whether it was loaded; nothing where the scan ends because it has to
be there, or because the load throws. -/
def loadSelected (opts : OrchestratorOptions) (files : Text → Option Text) (runId : Text) :
    Option (CheckpointState δ × Bool) :=
  if opts.fresh ∨ runId = [] then some (emptyCheckpoint, false)
  else
    match loadCheckpoint io (files runId) runId emptyCheckpoint with
    | .ok ck => some (ck, true)
    | .error .threw => none
    | .error _ => if opts.runId ≠ [] ∨ opts.resume then none else some (emptyCheckpoint, false)

def backfillSource (opts : OrchestratorOptions) (env : Surroundings) : Option Text :=
  if opts.backfillFromRunId = [] then env.latestMainResumable else some opts.backfillFromRunId

def backfillPadEnd (opts : OrchestratorOptions) (sourcePadEnd : UInt64) : UInt64 :=
  if opts.backfillTo > 0 then min sourcePadEnd opts.backfillTo else sourcePadEnd

/-- The run that a backfill belongs to. -/
def backfillTarget (opts : OrchestratorOptions) (env : Surroundings) (files : Text → Option Text)
    (source : Text) : Text :=
  let chosen :=
    if opts.runId ≠ [] then opts.runId
    else if opts.backfillFromRunId ≠ [] then backfillRunId source
    else if opts.fresh then []
    else withCheckpoint files env.latestBackfillResumable
  if chosen = [] then backfillRunId source else chosen

def selectBackfill (opts : OrchestratorOptions) (env : Surroundings) (files : Text → Option Text) :
    Option (Selected δ) := do
  let source ← backfillSource opts env
  let sourceCk ← (loadCheckpoint io (files source) source emptyCheckpoint).toOption
  let padEnd := backfillPadEnd opts sourceCk.nextPadIndex
  if padEnd = 0 then none
  else
    let runId := backfillTarget opts env files source
    let (ck, resuming) ← loadSelected io opts files runId
    some { runId, ck, resuming, backfillSourceRunId := source, padStart := 0, padEnd }

def selectMain (opts : OrchestratorOptions) (env : Surroundings) (files : Text → Option Text) :
    Option (Selected δ) := do
  let runId :=
    if opts.fresh ∨ opts.runId ≠ [] then opts.runId else withCheckpoint files env.latestMainResumable
  let (ck, resuming) ← loadSelected io opts files runId
  some
    { runId, ck, resuming
      backfillSourceRunId := []
      padStart := opts.padStart
      padEnd := opts.rangeEnd }

/-- Whether a new run may take the place of one that could be resumed. -/
def mayAbandon (opts : OrchestratorOptions) (env : Surroundings) (files : Text → Option Text) :
    Bool :=
  if opts.fresh ∧ !opts.backfill then
    match env.latestMainResumable with
    | none => true
    | some runId =>
      match loadCheckpoint io (files runId) runId (emptyCheckpoint : CheckpointState δ) with
      | .ok _ => env.confirmed
      | .error e => e ≠ .threw
  else true

def select (opts : OrchestratorOptions) (env : Surroundings) (files : Text → Option Text) :
    Option (Selected δ) :=
  if !mayAbandon io opts env files then none
  else if opts.backfill then selectBackfill io opts env files
  else selectMain io opts env files

/-- The checkpoint that `--resume` loads where it has not been loaded before. -/
def reload (files : Text → Option Text) (runId : Text) (again : Bool) (ck : CheckpointState δ) :
    Option (CheckpointState δ) :=
  if again then (loadCheckpoint io (files runId) runId ck).toOption else some ck

/-- A run that is about to enter the loops. -/
structure Started (δ : Type) where
  runId : Text
  ck : CheckpointState δ
  /-- the checkpoint of the run was loaded -/
  resumed : Bool
  padStart : UInt64
  padEnd : UInt64
  seedsTested : UInt64
  hits : UInt64
  victimHash : Text
  configHash : Text
  warnings : List Warning

def printNat (n : Nat) : Text := Nat.toDigits 10 n

def configJson (opts : OrchestratorOptions) (backfillSourceRunId : Text) (padEnd : UInt64) : Text :=
  let sessions := printNat opts.config.scanSessionMin.toNat ++ ['-'] ++
    printNat opts.config.scanSessionMax.toNat ++ " gpu_util=".toList ++ printNat opts.gpuUtil.toNat
  if opts.backfill then
    "backfill_for=".toList ++ backfillSourceRunId ++ " pads=0-".toList ++ printUInt64 padEnd ++
      " victim_fix=bech32 seed_model=mk3_v1 sessions=".toList ++ sessions
  else
    "seed_model=mk3_v1 pads=".toList ++ printNat opts.config.padHighMin.toNat ++ ['-'] ++
      printNat opts.config.padHighMax.toNat ++ " sessions=".toList ++ sessions

/-- Without a victim that can be decoded there is no start. The hashes are set in the checkpoint before it
is read on: what was loaded is compared with itself, and so is the number of pads. -/
def start (opts : OrchestratorOptions) (env : Surroundings) (files : Text → Option Text) :
    Option (Started δ) := do
  let victims ← VictimSet.loadFromCointraceDb env.victimRows
  let s ← select io opts env files
  let runId := if s.runId = [] then env.newRunId else s.runId
  let source :=
    if opts.backfill ∧ isBackfillRunId runId then runId.drop 13 else s.backfillSourceRunId
  let victimHash := sha256Hex sha256 victims.snapshotText
  let ck : CheckpointState δ :=
    { s.ck with
      runId := runId
      padsTotal := s.padEnd
      victimSnapshotHash := victimHash
      gpuUtilPct := Int32.ofInt opts.gpuUtil }
  let again := !s.resuming && opts.resume && opts.runId ≠ []
  let ck ← reload io files runId again ck
  let resumed := s.resuming || again
  let padStart := if resumed then ck.nextPadIndex else s.padStart
  let padEnd := if resumed ∧ ck.padsTotal > 0 then ck.padsTotal else s.padEnd
  let configHash := sha256Hex sha256 (configJson opts source padEnd)
  let snapshotChanged :=
    if s.resuming ∧ ck.victimSnapshotHash ≠ victimHash then [Warning.victimSnapshotChanged] else []
  let configMismatch :=
    if s.resuming ∧ ck.configHash ≠ [] ∧ ck.configHash ≠ configHash then [Warning.configHashMismatch]
    else []
  some
    { runId, ck, resumed, padStart, padEnd
      seedsTested := if resumed then ck.seedsTested else 0
      hits := if resumed then ck.hits else 0
      victimHash, configHash
      warnings := snapshotChanged ++ configMismatch }

/-! ## What a start takes from a checkpoint -/

variable {sha256 io} {opts : OrchestratorOptions} {env : Surroundings} {files : Text → Option Text}

/-- What is read of the strings. -/
structure LoadedFields (file : Option Text) (runId : Text) (init loaded : CheckpointState δ) : Prop where
  runId : loaded.runId = runId
  strings : ∃ content, file = some content ∧
    findStr content "config_hash" = some loaded.configHash ∧
    loaded.victimSnapshotHash =
      (findStr content "victim_snapshot_hash").getD init.victimSnapshotHash

omit [Zero δ] in
theorem loadCheckpoint_fields {file : Option Text} {runId : Text} {init loaded : CheckpointState δ}
    (h : loadCheckpoint io file runId init = .ok loaded) : LoadedFields file runId init loaded := by
  obtain ⟨content, hContent, h⟩ := bind_eq_ok h
  obtain ⟨config, hConfig, h⟩ := bind_eq_ok h
  obtain ⟨nextPad, _, h⟩ := bind_eq_ok h
  obtain ⟨pads, _, h⟩ := bind_eq_ok h
  obtain ⟨seeds, _, h⟩ := bind_eq_ok h
  obtain ⟨hits, _, h⟩ := bind_eq_ok h
  obtain ⟨elapsed, _, h⟩ := bind_eq_ok h
  obtain ⟨gpu, _, h⟩ := bind_eq_ok h
  cases h
  refine ⟨rfl, content, ?_, ?_, rfl⟩
  · cases file with
    | none => cases hContent
    | some c =>
      cases hContent
      rfl
  · cases hFound : findStr content "config_hash" with
    | none =>
      rw [hFound] at hConfig
      cases hConfig
    | some c =>
      rw [hFound] at hConfig
      cases hConfig
      rfl

theorem loadSelected_spec {runId : Text} {ck : CheckpointState δ} {resuming : Bool}
    (h : loadSelected io opts files runId = some (ck, resuming)) :
    (resuming = true → opts.fresh = false ∧ runId ≠ [] ∧
      loadCheckpoint io (files runId) runId emptyCheckpoint = .ok ck) ∧
    (resuming = false → ck = emptyCheckpoint ∧ (opts.fresh = true ∨ runId = [] ∨ opts.runId = [])) := by
  unfold loadSelected at h
  split at h
  · next hNew =>
    cases h
    simp only [Bool.false_eq_true, false_implies, true_and, forall_const]
    exact hNew.imp_right .inl
  · next hLoads =>
    push Not at hLoads
    split at h
    · next hLoad =>
      cases h
      exact ⟨fun _ => ⟨by simpa using hLoads.1, hLoads.2, hLoad⟩, fun hNo => by cases hNo⟩
    · cases h
    · split at h
      · cases h
      · next hOptional =>
        cases h
        push Not at hOptional
        simp [hOptional.1]

/-- What is known of the run that is selected. -/
structure Selected.Spec (io : DoubleIo δ) (opts : OrchestratorOptions) (files : Text → Option Text)
    (s : Selected δ) : Prop where
  resuming : s.resuming = true → opts.fresh = false ∧ s.runId ≠ [] ∧
    loadCheckpoint io (files s.runId) s.runId emptyCheckpoint = .ok s.ck
  begins : s.resuming = false → s.ck = emptyCheckpoint ∧ (opts.fresh = true ∨ opts.runId = [])
  main : opts.backfill = false → s.padEnd = opts.rangeEnd

theorem selectBackfill_spec {s : Selected δ} (hBackfill : opts.backfill = true)
    (h : selectBackfill io opts env files = some s) : s.Spec io opts files := by
  unfold selectBackfill at h
  obtain ⟨source, _, h⟩ := Option.bind_eq_some_iff.mp h
  obtain ⟨sourceCk, _, h⟩ := Option.bind_eq_some_iff.mp h
  dsimp only at h
  split at h
  · cases h
  · obtain ⟨⟨ck, resuming⟩, hLoad, h⟩ := Option.bind_eq_some_iff.mp h
    cases h
    obtain ⟨hResuming, hBegins⟩ := loadSelected_spec hLoad
    refine ⟨hResuming, fun hNew => ?_, fun hMain => by rw [hBackfill] at hMain; cases hMain⟩
    obtain ⟨hEmpty, hFresh | hNil | hNil⟩ := hBegins hNew
    · exact ⟨hEmpty, .inl hFresh⟩
    · refine ⟨hEmpty, .inr ?_⟩
      by_contra hSome
      simp [backfillTarget, hSome] at hNil
    · exact ⟨hEmpty, .inr hNil⟩

theorem selectMain_spec {s : Selected δ} (h : selectMain io opts env files = some s) :
    s.Spec io opts files := by
  unfold selectMain at h
  obtain ⟨⟨ck, resuming⟩, hLoad, h⟩ := Option.bind_eq_some_iff.mp h
  cases h
  obtain ⟨hResuming, hBegins⟩ := loadSelected_spec hLoad
  refine ⟨hResuming, fun hNew => ?_, fun _ => rfl⟩
  obtain ⟨hEmpty, hFresh | hNil | hNil⟩ := hBegins hNew
  · exact ⟨hEmpty, .inl hFresh⟩
  · refine ⟨hEmpty, .inr ?_⟩
    by_contra hSome
    simp [hSome] at hNil
  · exact ⟨hEmpty, .inr hNil⟩

theorem select_spec {s : Selected δ} (h : select io opts env files = some s) : s.Spec io opts files := by
  unfold select at h
  split at h
  · cases h
  · split at h
    · next hBackfill => exact selectBackfill_spec hBackfill h
    · exact selectMain_spec h

omit [Zero δ] in
theorem reload_spec {runId : Text} {again : Bool} {init ck : CheckpointState δ}
    (h : reload io files runId again init = some ck) :
    (again = true → loadCheckpoint io (files runId) runId init = .ok ck) ∧ (again = false → ck = init) := by
  unfold reload at h
  split at h
  · next hAgain =>
    refine ⟨fun _ => ?_, fun hNot => by rw [hAgain] at hNot; cases hNot⟩
    cases hLoad : loadCheckpoint io (files runId) runId init with
    | error e =>
      rw [hLoad] at h
      cases h
    | ok loaded =>
      rw [hLoad] at h
      cases h
      rfl
  · next hAgain => exact ⟨fun hYes => absurd hYes hAgain, fun _ => (Option.some.inj h).symm⟩

/-- A run that begins. -/
structure Started.Begins (opts : OrchestratorOptions) (s : Started δ) : Prop where
  nextPadIndex : s.ck.nextPadIndex = 0
  configHash : s.ck.configHash = []
  victimHash : s.ck.victimSnapshotHash = s.victimHash
  padsTotal : s.ck.padsTotal = s.padEnd
  padEnd : opts.backfill = false → s.padEnd = opts.rangeEnd

/-- A run that goes on from the checkpoint that was loaded into some state. -/
structure Started.Resumes (io : DoubleIo δ) (opts : OrchestratorOptions) (files : Text → Option Text)
    (s : Started δ) (init loaded : CheckpointState δ) : Prop where
  load : loadCheckpoint io (files s.runId) s.runId init = .ok loaded
  padStart : s.padStart = loaded.nextPadIndex
  nextPadIndex : s.ck.nextPadIndex = loaded.nextPadIndex
  configHash : s.ck.configHash = loaded.configHash
  padEnd : opts.backfill = false → s.padEnd = opts.rangeEnd ∨ s.padEnd = loaded.padsTotal
  padsTotal : opts.backfill = false → s.ck.padsTotal = opts.rangeEnd ∨ s.ck.padsTotal = loaded.padsTotal
  victimHash : s.ck.victimSnapshotHash = s.victimHash ∨
    s.ck.victimSnapshotHash = loaded.victimSnapshotHash ∧ init.victimSnapshotHash = s.victimHash
  compared : opts.fresh = false → loaded.configHash ≠ [] → loaded.configHash ≠ s.configHash →
    s.warnings ≠ []

/-- What is known of the run that is started. -/
structure Started.Spec (sha256 : Text → Fin 32 → UInt8) (io : DoubleIo δ) (opts : OrchestratorOptions)
    (files : Text → Option Text) (s : Started δ) : Prop where
  runId : s.ck.runId = s.runId
  victimHash : ∃ data, s.victimHash = sha256Hex sha256 data
  configHash : ∃ data, s.configHash = sha256Hex sha256 data
  begins : s.resumed = false → s.Begins opts
  resumes : s.resumed = true → ∃ init loaded, s.Resumes io opts files init loaded

theorem start_spec {s : Started δ} (h : start sha256 io opts env files = some s) :
    s.Spec sha256 io opts files := by
  unfold start at h
  obtain ⟨victims, _, h⟩ := Option.bind_eq_some_iff.mp h
  obtain ⟨sel, hSelect, h⟩ := Option.bind_eq_some_iff.mp h
  obtain ⟨hResuming, hBegins, hMain⟩ := select_spec hSelect
  obtain ⟨ck, hReload, h⟩ := Option.bind_eq_some_iff.mp h
  obtain ⟨hAgain, hOnce⟩ := reload_spec hReload
  cases h
  cases hSel : sel.resuming with
  | true =>
    -- the checkpoint is loaded once; what it says of the victims and the pads is overwritten
    obtain ⟨hFresh, hRunId, hLoad⟩ := hResuming hSel
    rw [hSel] at hOnce
    obtain rfl := hOnce rfl
    refine ⟨rfl, ⟨_, rfl⟩, ⟨_, rfl⟩, (fun hNew => by cases hNew), fun _ => ?_⟩
    refine ⟨emptyCheckpoint, sel.ck, ?_, ?_, rfl, rfl, ?_, ?_, .inl rfl, ?_⟩
    · simpa [hRunId] using hLoad
    · simp
    · intro hNoBackfill
      exact .inl ((ite_self sel.padEnd).trans (hMain hNoBackfill))
    · exact fun hNoBackfill => .inl (hMain hNoBackfill)
    · intro _ hSome hOther hNone
      have hMismatch := (List.append_eq_nil_iff.mp hNone).2
      rw [if_pos ⟨rfl, hSome, hOther⟩] at hMismatch
      cases hMismatch
  | false =>
    obtain ⟨hEmpty, hFresh⟩ := hBegins hSel
    simp only [hSel, Bool.not_false, Bool.true_and] at hAgain hOnce
    cases hResume : opts.resume && decide (opts.runId ≠ []) with
    | true =>
      -- `--fresh --resume`: the checkpoint is loaded into the new state, and not compared
      have hLoad := hAgain hResume
      have hRunId := (loadCheckpoint_fields hLoad).runId
      refine ⟨hRunId, ⟨_, rfl⟩, ⟨_, rfl⟩, fun hNew => ?_, fun _ => ?_⟩
      · simp only [Bool.not_false, Bool.true_and, Bool.false_or, hResume] at hNew
        cases hNew
      refine ⟨_, ck, hLoad, ?_, rfl, rfl, ?_, fun _ => .inr rfl, .inr ⟨rfl, rfl⟩, ?_⟩
      · simp only [Bool.not_false, Bool.true_and, Bool.false_or, hResume, if_true]
      · intro hNoBackfill
        simp only [Bool.not_false, Bool.true_and, Bool.false_or, hResume, true_and]
        split
        · exact .inr rfl
        · exact .inl (hMain hNoBackfill)
      · intro hNotFresh
        have hRunId : opts.runId = [] := hFresh.resolve_left (by simp [hNotFresh])
        simp [hRunId] at hResume
    | false =>
      obtain rfl := hOnce hResume
      refine ⟨rfl, ⟨_, rfl⟩, ⟨_, rfl⟩, fun _ => ?_, fun hOld => ?_⟩
      rotate_left
      · simp only [Bool.not_false, Bool.true_and, Bool.false_or, hResume] at hOld
        cases hOld
      refine ⟨?_, ?_, rfl, ?_, ?_⟩
      · simp [hEmpty, emptyCheckpoint]
      · simp [hEmpty, emptyCheckpoint]
      · simp
      · intro hNoBackfill
        exact (ite_self sel.padEnd).trans (hMain hNoBackfill)

end Start

end Bloodhound.Scanner
