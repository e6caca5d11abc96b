import Bloodhound.Lib.Machine
import Bloodhound.Scanner.Setup

/-!
# The loops of a scan

`run_scan` in `orchestrator.cpp`, from its loops on, as a machine: the pads and the sessions of each pad
are enumerated into a batch, which is flushed in chunks when it is full and after the last pad. The
interrupt flag may be set between any two steps and is never reset in a process; a process may die at
any point, also when a part of a checkpoint is written. Checkpoints are the files that the next process
starts from.
-/

namespace Bloodhound.Scanner

structure SeedCandidate where
  pad : UInt32
  scanSession : UInt32
  deriving DecidableEq

def kInterruptChunkSeeds : Nat := 32

inductive RunStatus
  | running
  | interrupted
  | completed
  deriving DecidableEq

/-- Where a scan is: a flush returns to the session that filled the batch, or to the end of the scan. -/
inductive Location
  | pad
  | session (scanSession : UInt32)
  | flush (off : Nat) (caller : Option UInt32)
  | afterPads
  | final
  deriving DecidableEq

/-- Where a flush returns to. -/
def afterFlush : Option UInt32 → Location
  | some s => .session (s + 1)
  | none => .final

structure Process (δ : Type) where
  runId : Text
  pads : PadEnumerator
  scanMin : UInt32
  scanMax : UInt32
  baseBatch : Int
  gpuUtil : Int
  victimHash : Text
  configHash : Text
  padStart : UInt64
  padEnd : UInt64
  padIndex : UInt64
  seedBatch : List SeedCandidate
  ck : CheckpointState δ
  seedsTested : UInt64
  hits : UInt64
  /-- `g_interrupt` -/
  interrupt : Bool
  location : Location

/-- What a step does outside of the process. -/
inductive Action (δ : Type) where
  | none
  | test (seeds : List SeedCandidate)
  | save (ck : CheckpointState δ) (status : RunStatus)

section Process

variable {δ : Type}

def Started.process (s : Started δ) (opts : OrchestratorOptions) : Process δ where
  runId := s.runId
  pads := opts.pads
  scanMin := opts.config.scanSessionMin
  scanMax := opts.config.scanSessionMax
  baseBatch := opts.baseBatch
  gpuUtil := opts.gpuUtil
  victimHash := s.victimHash
  configHash := s.configHash
  padStart := s.padStart
  padEnd := s.padEnd
  padIndex := s.padStart
  seedBatch := []
  ck := s.ck
  seedsTested := s.seedsTested
  hits := s.hits
  interrupt := false
  location := .pad

namespace Process

variable (p : Process δ)

/-- The state that `save_checkpoint_now` saves and keeps. -/
def checkpointAt (nextPad : UInt64) (elapsed : δ) : CheckpointState δ :=
  { p.ck with
    runId := p.runId
    configHash := p.configHash
    nextPadIndex := nextPad
    padsTotal := p.padEnd
    seedsTested := p.seedsTested
    hits := p.hits
    elapsedSec := elapsed
    victimSnapshotHash := p.victimHash
    gpuUtilPct := Int32.ofInt p.gpuUtil }

def nextPad : Process δ := { p with padIndex := p.padIndex + 1, location := .pad }

def lastPad : UInt64 := if p.padEnd > 0 then p.padEnd - 1 else 0

/-- `current_pad_index` of a flush. -/
def flushPad : Option UInt32 → UInt64
  | some _ => p.padIndex
  | none => p.lastPad

/-- The head of the pad loop. -/
def stepPad (elapsed : δ) : Action δ × Option (Process δ) :=
  if p.padIndex < p.padEnd then
    if p.interrupt then
      let ck := p.checkpointAt p.padIndex elapsed
      (.save ck .interrupted, some { p with ck, location := .afterPads })
    else if p.pads.passesFilter (p.pads.at p.padIndex) then
      (.none, some { p with location := .session p.scanMin })
    else (.none, some p.nextPad)
  else (.none, some { p with location := .afterPads })

/-- The head and the body of the session loop, up to a flush. -/
def stepSession (s : UInt32) : Option (Process δ) :=
  if s ≤ p.scanMax then
    if p.interrupt then some p.nextPad
    else
      let seedBatch := p.seedBatch ++ [⟨p.pads.at p.padIndex, s⟩]
      let location :=
        if p.baseBatch ≤ seedBatch.length then .flush 0 (some s) else .session (s + 1)
      some { p with seedBatch, location }
  else some p.nextPad

/-- A flush that is interrupted leaves the session loop, or sets the flag at the end of the scan. -/
def stepFlush (off : Nat) (caller : Option UInt32) (elapsed : δ) (newHits : UInt64) :
    Action δ × Option (Process δ) :=
  let current := p.flushPad caller
  if off < p.seedBatch.length then
    if p.interrupt then
      let ck := p.checkpointAt current elapsed
      let cleared := { p with ck, seedBatch := [] }
      match caller with
      | some _ => (.save ck .interrupted, some cleared.nextPad)
      | none => (.save ck .interrupted, some { cleared with interrupt := true, location := .final })
    else
      let seeds := (p.seedBatch.drop off).take kInterruptChunkSeeds
      (.test seeds, some
        { p with
          seedsTested := p.seedsTested + UInt64.ofNat seeds.length
          hits := p.hits + newHits
          location := .flush (off + seeds.length) caller })
  else
    let location := afterFlush caller
    if (current + 1) % 1000 = 0 then
      let ck := p.checkpointAt (current + 1) elapsed
      (.save ck .running, some { p with ck, seedBatch := [], location })
    else (.none, some { p with seedBatch := [], location })

/-- The checkpoint after the last flush, which ends the process. -/
def stepFinal (elapsed : δ) : Action δ :=
  if p.interrupt then
    let nextPad := if p.ck.nextPadIndex > 0 then p.ck.nextPadIndex else p.padStart
    .save (p.checkpointAt nextPad elapsed) .interrupted
  else
    .save { p.ck with nextPadIndex := p.padEnd, seedsTested := p.seedsTested, hits := p.hits }
      .completed

/-- What the process does next, and its state after it; none where it returns. -/
def step (elapsed : δ) (newHits : UInt64) : Action δ × Option (Process δ) :=
  match p.location with
  | .pad => p.stepPad elapsed
  | .session s => (.none, p.stepSession s)
  | .flush off caller => p.stepFlush off caller elapsed newHits
  | .afterPads =>
    let location := if p.interrupt ∨ p.seedBatch = [] then .final else .flush 0 none
    (.none, some { p with location })
  | .final => (p.stepFinal elapsed, none)

/-- A checkpoint of the run, whose hashes are those of the process or of its checkpoint. -/
structure Signed (ck : CheckpointState δ) : Prop where
  runId : ck.runId = p.runId
  victimHash : ck.victimSnapshotHash = p.victimHash ∨ ck.victimSnapshotHash = p.ck.victimSnapshotHash
  configHash : ck.configHash = p.configHash ∨ ck.configHash = p.ck.configHash

theorem signed_checkpointAt (nextPad : UInt64) (elapsed : δ) : p.Signed (p.checkpointAt nextPad elapsed) :=
  ⟨rfl, .inl rfl, .inl rfl⟩

/-- The process goes on as the same one. -/
structure Follows (p' : Process δ) : Prop where
  runId : p'.runId = p.runId
  victimHash : p'.victimHash = p.victimHash
  configHash : p'.configHash = p.configHash
  ck : p.Signed p'.ck

/-- A step saves a checkpoint of the run, and keeps what the process is. -/
structure SameRun (out : Action δ × Option (Process δ)) : Prop where
  saves : ∀ ck status, out.1 = .save ck status → p.Signed ck
  next : ∀ p', out.2 = some p' → p.Follows p'

variable {p}

theorem SameRun.of_none (hCk : p.Signed p.ck) {next : Option (Process δ)}
    (h : ∀ p', next = some p' → p.Signed p.ck → p.Follows p') : p.SameRun (.none, next) :=
  ⟨fun _ _ hSave => (by cases hSave), fun p' hp' => h p' hp' hCk⟩

theorem SameRun.of_save {ck : CheckpointState δ} {status : RunStatus} {next : Option (Process δ)}
    (hCk : p.Signed ck) (h : ∀ p', next = some p' → p.Signed ck → p.Follows p') :
    p.SameRun (.save ck status, next) :=
  ⟨fun _ _ hSave => (by cases hSave; exact hCk), fun p' hp' => h p' hp' hCk⟩

theorem sameRun_stepFlush (hCk : p.Signed p.ck) (off : Nat) (caller : Option UInt32) (elapsed : δ)
    (newHits : UInt64) : p.SameRun (p.stepFlush off caller elapsed newHits) := by
  unfold stepFlush
  simp only
  split
  · split
    · cases caller with
      | some s =>
        refine .of_save (p.signed_checkpointAt _ elapsed) ?_
        rintro _ ⟨⟩ hSigned
        exact ⟨rfl, rfl, rfl, hSigned⟩
      | none =>
        refine .of_save (p.signed_checkpointAt _ elapsed) ?_
        rintro _ ⟨⟩ hSigned
        exact ⟨rfl, rfl, rfl, hSigned⟩
    · refine ⟨fun _ _ hSave => (by cases hSave), ?_⟩
      rintro _ ⟨⟩
      exact ⟨rfl, rfl, rfl, hCk⟩
  · split
    · refine .of_save (p.signed_checkpointAt _ elapsed) ?_
      rintro _ ⟨⟩ hSigned
      exact ⟨rfl, rfl, rfl, hSigned⟩
    · refine .of_none hCk ?_
      rintro _ ⟨⟩ hSigned
      exact ⟨rfl, rfl, rfl, hSigned⟩

theorem sameRun_stepPad (hCk : p.Signed p.ck) (elapsed : δ) : p.SameRun (p.stepPad elapsed) := by
  unfold stepPad
  split
  · split
    · refine .of_save (p.signed_checkpointAt _ elapsed) ?_
      rintro _ ⟨⟩ hSigned
      exact ⟨rfl, rfl, rfl, hSigned⟩
    · split
      · refine .of_none hCk ?_
        rintro _ ⟨⟩ hSigned
        exact ⟨rfl, rfl, rfl, hSigned⟩
      · refine .of_none hCk ?_
        rintro _ ⟨⟩ hSigned
        exact ⟨rfl, rfl, rfl, hSigned⟩
  · refine .of_none hCk ?_
    rintro _ ⟨⟩ hSigned
    exact ⟨rfl, rfl, rfl, hSigned⟩

theorem sameRun_stepSession (hCk : p.Signed p.ck) (s : UInt32) :
    p.SameRun (.none, p.stepSession s) := by
  refine .of_none hCk ?_
  unfold stepSession
  intro p' hp' hSigned
  split at hp'
  · split at hp'
    · cases hp'
      exact ⟨rfl, rfl, rfl, hSigned⟩
    · cases hp'
      exact ⟨rfl, rfl, rfl, hSigned⟩
  · cases hp'
    exact ⟨rfl, rfl, rfl, hSigned⟩

theorem sameRun_step (hCk : p.ck.runId = p.runId) (elapsed : δ) (newHits : UInt64) :
    p.SameRun (p.step elapsed newHits) := by
  have hSigned : p.Signed p.ck := ⟨hCk, .inr rfl, .inr rfl⟩
  unfold step
  split
  · exact sameRun_stepPad hSigned elapsed
  · exact sameRun_stepSession hSigned _
  · exact sameRun_stepFlush hSigned _ _ elapsed newHits
  · refine .of_none hSigned ?_
    rintro _ ⟨⟩ hSame
    exact ⟨rfl, rfl, rfl, hSame⟩
  · unfold stepFinal
    split
    · exact .of_save (p.signed_checkpointAt _ elapsed) fun p' hp' => (by cases hp')
    · exact .of_save ⟨hCk, .inr rfl, .inr rfl⟩ fun p' hp' => (by cases hp')

end Process

end Process

/-! ## The world -/

/-- A seed that the GPU has processed for a run, with the victims and the configuration it was tested
against. -/
structure Test where
  runId : Text
  seed : SeedCandidate
  victimHash : Text
  configHash : Text
  deriving DecidableEq

/-- What a process has reported to the database, and the end of its pads. -/
structure Report where
  runId : Text
  padsDone : UInt64
  status : RunStatus
  padEnd : UInt64
  deriving DecidableEq

structure World (δ : Type) where
  /-- the checkpoints, by run id -/
  files : Text → Option Text
  process : Option (Process δ)
  tests : List Test
  warnings : List (Text × Warning)
  reports : List Report

inductive Event (δ : Type) where
  | start (opts : OrchestratorOptions) (env : Surroundings)
  /-- the signal handler sets the flag -/
  | signal
  | advance (elapsed : δ) (newHits : UInt64)
  /-- the process dies, or returns because the GPU fails -/
  | crash
  /-- the process dies while it writes a checkpoint -/
  | cut (elapsed : δ) (written : Nat)

section World

variable {δ : Type} (io : DoubleIo δ)

namespace World

/-- The effect of a step of the process. -/
def act (w : World δ) (p : Process δ) : Action δ → World δ
  | .none => w
  | .test seeds =>
    { w with tests := seeds.map (⟨p.runId, ·, p.victimHash, p.configHash⟩) ++ w.tests }
  | .save ck status =>
    { w with
      files := Function.update w.files ck.runId (some (saveCheckpoint io ck))
      reports := ⟨p.runId, ck.nextPadIndex, status, p.padEnd⟩ :: w.reports }

def begin (w : World δ) (s : Started δ) (opts : OrchestratorOptions) : World δ :=
  { w with
    process := some (s.process opts)
    warnings := s.warnings.map (Prod.mk s.runId) ++ w.warnings }

variable [Zero δ] (sha256 : Text → Fin 32 → UInt8)

def perform : Event δ → World δ → Option (World δ)
  | .start opts env, w =>
    match w.process with
    | some _ => none
    | none => (start sha256 io opts env w.files).map fun s => w.begin s opts
  | .signal, w => w.process.map fun p => { w with process := some { p with interrupt := true } }
  | .advance elapsed newHits, w => w.process.map fun p =>
      let (action, next) := p.step elapsed newHits
      { w.act io p action with process := next }
  | .crash, w => w.process.map fun _ => { w with process := none }
  | .cut elapsed written, w => w.process.bind fun p =>
      match (p.step elapsed 0).1 with
      | .save ck _ =>
        some
          { w with
            files := Function.update w.files ck.runId (some ((saveCheckpoint io ck).take written))
            process := none }
      | _ => none

/-- Nothing is running, and nothing is known of the run. -/
structure Unstarted (w : World δ) (runId : Text) : Prop where
  idle : w.process = none
  noFile : w.files runId = none
  noTests : ∀ t ∈ w.tests, t.runId ≠ runId
  noWarnings : ∀ x ∈ w.warnings, x.1 ≠ runId
  noReports : ∀ r ∈ w.reports, r.runId ≠ runId

end World

end World

end Bloodhound.Scanner
