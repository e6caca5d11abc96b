import Bloodhound.Lib.Batches
import Bloodhound.Chain.Types

/-!
# Scheduled maintenance

`runScheduledMaintenance` fills in missing completion times, and when a prune is due it
deletes old done jobs, stale rate limits and the sync rows of addresses that are gone, in
batches that share one budget of batches and writes.

A batch may overshoot what is left of the budget; the probe that asks whether rows remain
deletes one, which only the prune of jobs reports; and a table that is skipped because the
budget is used up does not keep the prune from being marked finished. The run stays in its
budget and reports what it did exactly where none of these happens.
-/

namespace Bloodhound.Ops.Maintenance

open Batches (Work Outcome batchLoop removeFirst changeFirst admitted batchesFor)

/-! ## Settings and tables -/

structure MaintenanceConfig where
  jobPruneEnabled : Bool := true
  jobPruneIntervalDays : Nat := 3
  jobDoneRetentionDays : Nat := 3
  jobPruneBatchSize : Nat := 500
  jobPruneMaxBatchesPerRun : Nat := 20
  jobPruneMaxDeletesPerRun : Nat := 10000
  jobCompletedAtBackfillBatchSize : Nat := 500
  jobCompletedAtBackfillMaxBatchesPerTick : Nat := 5
  rateLimitPruneInactiveDays : Nat := 7
  rateLimitPruneBatchSize : Nat := 200
  rateLimitPruneMaxBatchesPerRun : Nat := 10
  syncStateOrphanPruneBatchSize : Nat := 500
  syncStateOrphanPruneMaxBatchesPerRun : Nat := 10
  maintenanceMaxBatchesPerTick : Nat := 25
  maintenanceMaxWritesPerTick : Nat := 12000

inductive Phase where
  | backfillCompletedAt
  | pruneDoneJobs
  | rateLimits
  | syncStateOrphans
  deriving DecidableEq

/-- `ScheduledMaintenanceOpts`, and what else a run reads: whether writes are over their quota,
whether the seed of the job cache was written, the time, and the readings of the clock that
the loops compare with the deadline, by phase and batch. Times are in milliseconds. -/
structure MaintenanceInput where
  deadlineMs : Option Nat := none
  skipNonCritical : Bool := false
  forceDue : Bool := false
  quotaBlocked : Bool := false
  seedCache : Bool := false
  nowMs : Nat
  clock : Phase → Nat → Nat := fun _ _ => nowMs

structure DoneJob where
  done : Bool
  createdAt : Nat
  completedAt : Option Nat
  deriving DecidableEq

/-- The tables that are pruned, with the addresses; rows are in the order in which the queries select
them. -/
structure Tables where
  jobs : List DoneJob
  rateLimits : List (String × Nat)
  syncState : List Address
  addresses : List Address

structure MaintenanceRunProgress where
  phase : Option Phase := none
  jobsDeleted : Nat := 0
  rateLimitsDeleted : Nat := 0
  syncStateOrphansDeleted : Nat := 0
  completedAtBackfillUpdated : Nat := 0
  startedAt : Option Nat := none
  deriving DecidableEq

/-- The columns of the scheduler row that a run reads. -/
structure MaintenanceState where
  tables : Tables
  maintenancePrunePending : Bool := false
  maintenanceRun : Option MaintenanceRunProgress := none
  lastDoneJobsPrunedAt : Option Nat := none

structure ScheduledMaintenanceResult where
  backfillUpdated : Nat := 0
  seedCache : Bool := false
  jobsDeleted : Nat := 0
  rateLimitsDeleted : Nat := 0
  syncStateOrphansDeleted : Nat := 0
  batchesTotal : Nat := 0
  prunePending : Bool := false

/-- What a run writes into the scheduler row. -/
inductive SchedulerWrite where
  | pending (progress : MaintenanceRunProgress)
  | finished (lastDoneJobsPrunedAt : Nat)
  deriving DecidableEq

structure MaintenanceRun where
  tables : Tables
  result : ScheduledMaintenanceResult
  writes : List SchedulerWrite

/-! ## Batches of the store -/

def msPerDay : Nat := 24 * 60 * 60 * 1000

structure MaintenanceBatchOpts where
  batchSize : Nat
  maxBatchesPerRun : Int
  maxPerRun : Int
  deadlineMs : Option Nat
  remainingBatches : Int
  remainingWrites : Int

structure MaintenanceBatchRunResult where
  affected : Nat
  batches : Nat
  complete : Bool

/-- `maintenanceShouldStop`, asked after a number of batches. -/
def maintenanceShouldStop (opts : MaintenanceBatchOpts) (now batches : Nat) : Bool :=
  opts.deadlineMs.any (· ≤ now) || opts.remainingBatches - batches ≤ 0 || opts.remainingWrites ≤ 0

/-- A done job without a completion time. -/
def lacksCompletedAt (job : DoneJob) : Bool := job.done && job.completedAt.isNone

def fillCompletedAt (job : DoneJob) : DoneJob := { job with completedAt := some job.createdAt }

/-- A time before `retentionCutoffIso`. -/
def isBeforeCutoff (retentionDays nowMs t : Nat) : Bool := t + max 1 retentionDays * msPerDay < nowMs

/-- A done job that was completed before the cutoff. -/
def isPruneable (retentionDays nowMs : Nat) (job : DoneJob) : Bool :=
  job.done && job.completedAt.any (isBeforeCutoff retentionDays nowMs)

def isStale (inactiveSec nowMs : Nat) (row : String × Nat) : Bool :=
  (inactiveSec : Int) < (nowMs / 1000 : Nat) - (row.2 / 1000 : Nat)

def isOrphan (addresses : List Address) (address : Address) : Bool := address ∉ addresses

def backfillWork : Work (List DoneJob) where
  left jobs := jobs.countP lacksCompletedAt
  batch n jobs := changeFirst lacksCompletedAt fillCompletedAt n jobs
  left_batch := Batches.countP_changeFirst fun _ => by simp [lacksCompletedAt, fillCompletedAt]

/-- A batch statement that deletes rows with a property. -/
def deleteWork {α : Type} (p : α → Bool) : Work (List α) where
  left rows := rows.countP p
  batch n rows := removeFirst p n rows
  left_batch := Batches.countP_removeFirst p

/-- The limits of `backfillDoneJobCompletedAt`, whose `maxPerRun` defaults to the writes that
remain. -/
def backfillStop (opts : MaintenanceBatchOpts) (clock : Nat → Nat) (batches affected : Nat) : Bool :=
  maintenanceShouldStop opts (clock batches) batches || opts.maxPerRun ≤ affected

/-- The limits of `pruneDoneJobs`. -/
def jobsStop (opts : MaintenanceBatchOpts) (clock : Nat → Nat) (batches affected : Nat) : Bool :=
  opts.maxPerRun ≤ affected || maintenanceShouldStop opts (clock batches) batches ||
    opts.remainingWrites - affected ≤ 0

/-- The limits of `pruneStaleRateLimits` and `pruneOrphanSyncState`. -/
def pruneStop (opts : MaintenanceBatchOpts) (clock : Nat → Nat) (batches affected : Nat) : Bool :=
  opts.maxPerRun ≤ affected || maintenanceShouldStop opts (clock batches) batches

def backfillDoneJobCompletedAt (opts : MaintenanceBatchOpts) (clock : Nat → Nat) (jobs : List DoneJob) :
    MaintenanceBatchRunResult × List DoneJob :=
  let run := batchLoop backfillWork (max 1 opts.batchSize) (backfillStop opts clock)
    opts.maxBatchesPerRun.toNat 0 0 jobs
  (⟨run.affected, run.batches, run.complete || backfillWork.left run.table = 0⟩, run.table)

/-- The loop of a prune. -/
def pruneLoop {α : Type} (p : α → Bool) (opts : MaintenanceBatchOpts) (stop : Nat → Nat → Bool)
    (rows : List α) : Outcome (List α) :=
  batchLoop (deleteWork p) (max 1 opts.batchSize) stop opts.maxBatchesPerRun.toNat 0 0 rows

/-- `pruneDoneJobs`: the row that the last statement deletes is reported. -/
def pruneDoneJobs (opts : MaintenanceBatchOpts) (clock : Nat → Nat) (retentionDays nowMs : Nat)
    (jobs : List DoneJob) : MaintenanceBatchRunResult × List DoneJob :=
  let work := deleteWork (isPruneable retentionDays nowMs)
  let run := pruneLoop (isPruneable retentionDays nowMs) opts (jobsStop opts clock) jobs
  if run.complete then (⟨run.affected, run.batches, true⟩, run.table)
  else
    let tail := min 1 (work.left run.table)
    (⟨run.affected + tail, run.batches + (if 0 < tail then 1 else 0), tail = 0⟩,
      work.batch 1 run.table)

/-- The other two prunes: the row that the probe deletes is not reported. -/
def pruneProbed {α : Type} (p : α → Bool) (opts : MaintenanceBatchOpts) (clock : Nat → Nat)
    (rows : List α) : MaintenanceBatchRunResult × List α :=
  let work := deleteWork p
  let run := pruneLoop p opts (pruneStop opts clock) rows
  if run.complete then (⟨run.affected, run.batches, true⟩, run.table)
  else
    let probe := min 1 (work.left run.table)
    (⟨run.affected, run.batches, probe = 0⟩, work.batch 1 run.table)

def pruneStaleRateLimits (opts : MaintenanceBatchOpts) (clock : Nat → Nat) (inactiveSec nowMs : Nat)
    (rows : List (String × Nat)) : MaintenanceBatchRunResult × List (String × Nat) :=
  pruneProbed (isStale inactiveSec nowMs) opts clock rows

def pruneOrphanSyncState (opts : MaintenanceBatchOpts) (clock : Nat → Nat) (addresses : List Address)
    (rows : List Address) : MaintenanceBatchRunResult × List Address :=
  pruneProbed (isOrphan addresses) opts clock rows

/-! ## The run -/

/-- `mergeProgress`: counts add up, and the phase is replaced. -/
def mergeProgress (base patch : MaintenanceRunProgress) : MaintenanceRunProgress where
  phase := patch.phase.or base.phase
  jobsDeleted := base.jobsDeleted + patch.jobsDeleted
  rateLimitsDeleted := base.rateLimitsDeleted + patch.rateLimitsDeleted
  syncStateOrphansDeleted := base.syncStateOrphansDeleted + patch.syncStateOrphansDeleted
  completedAtBackfillUpdated := base.completedAtBackfillUpdated + patch.completedAtBackfillUpdated
  startedAt := patch.startedAt.or base.startedAt

def isPruneDue (lastPrunedAt : Option Nat) (intervalDays nowMs : Nat) : Bool :=
  0 < intervalDays && lastPrunedAt.all fun last => last + intervalDays * msPerDay ≤ nowMs

def pruneIsDue (cfg : MaintenanceConfig) (inp : MaintenanceInput) (st : MaintenanceState) : Bool :=
  cfg.jobPruneEnabled && (inp.forceDue || st.maintenancePrunePending ||
    isPruneDue st.lastDoneJobsPrunedAt cfg.jobPruneIntervalDays inp.nowMs)

/-- The variables of the prune: the budget that is left, and whether the tables so far are done. -/
structure PruneState where
  tables : Tables
  result : ScheduledMaintenanceResult
  progress : MaintenanceRunProgress
  batchesLeft : Int
  writesLeft : Int
  housekeepingComplete : Bool

def inactiveSec (cfg : MaintenanceConfig) : Nat := cfg.rateLimitPruneInactiveDays * 24 * 60 * 60

def jobsOpts (cfg : MaintenanceConfig) (inp : MaintenanceInput) (batchesLeft writesLeft : Int) :
    MaintenanceBatchOpts where
  batchSize := cfg.jobPruneBatchSize
  maxBatchesPerRun := min cfg.jobPruneMaxBatchesPerRun batchesLeft
  maxPerRun := min cfg.jobPruneMaxDeletesPerRun writesLeft
  deadlineMs := inp.deadlineMs
  remainingBatches := batchesLeft
  remainingWrites := writesLeft

def rateLimitsOpts (cfg : MaintenanceConfig) (inp : MaintenanceInput) (batchesLeft writesLeft : Int) :
    MaintenanceBatchOpts where
  batchSize := cfg.rateLimitPruneBatchSize
  maxBatchesPerRun := min cfg.rateLimitPruneMaxBatchesPerRun batchesLeft
  maxPerRun := writesLeft
  deadlineMs := inp.deadlineMs
  remainingBatches := batchesLeft
  remainingWrites := writesLeft

def syncStateOpts (cfg : MaintenanceConfig) (inp : MaintenanceInput) (batchesLeft writesLeft : Int) :
    MaintenanceBatchOpts where
  batchSize := cfg.syncStateOrphanPruneBatchSize
  maxBatchesPerRun := min cfg.syncStateOrphanPruneMaxBatchesPerRun batchesLeft
  maxPerRun := writesLeft
  deadlineMs := inp.deadlineMs
  remainingBatches := batchesLeft
  remainingWrites := writesLeft

def PruneState.afterJobs (s : PruneState) (prune : MaintenanceBatchRunResult × List DoneJob) :
    PruneState where
  tables := { s.tables with jobs := prune.2 }
  result := { s.result with
    jobsDeleted := prune.1.affected
    batchesTotal := s.result.batchesTotal + prune.1.batches }
  progress := mergeProgress s.progress { phase := some .pruneDoneJobs, jobsDeleted := prune.1.affected }
  batchesLeft := s.batchesLeft - prune.1.batches
  writesLeft := s.writesLeft - prune.1.affected
  housekeepingComplete := prune.1.complete

def PruneState.afterRateLimits (s : PruneState)
    (prune : MaintenanceBatchRunResult × List (String × Nat)) : PruneState where
  tables := { s.tables with rateLimits := prune.2 }
  result := { s.result with
    rateLimitsDeleted := prune.1.affected
    batchesTotal := s.result.batchesTotal + prune.1.batches }
  progress := mergeProgress (mergeProgress s.progress { phase := some .rateLimits })
    { phase := some .rateLimits, rateLimitsDeleted := prune.1.affected }
  batchesLeft := s.batchesLeft - prune.1.batches
  writesLeft := s.writesLeft - prune.1.affected
  housekeepingComplete := prune.1.complete

def PruneState.afterSyncState (s : PruneState) (prune : MaintenanceBatchRunResult × List Address) :
    PruneState where
  tables := { s.tables with syncState := prune.2 }
  result := { s.result with
    syncStateOrphansDeleted := prune.1.affected
    batchesTotal := s.result.batchesTotal + prune.1.batches }
  progress := mergeProgress (mergeProgress s.progress { phase := some .syncStateOrphans })
    { phase := some .syncStateOrphans, syncStateOrphansDeleted := prune.1.affected }
  batchesLeft := s.batchesLeft - prune.1.batches
  writesLeft := s.writesLeft - prune.1.affected
  housekeepingComplete := prune.1.complete

def pruneJobsPhase (cfg : MaintenanceConfig) (inp : MaintenanceInput) (s : PruneState) : PruneState :=
  s.afterJobs (pruneDoneJobs (jobsOpts cfg inp s.batchesLeft s.writesLeft) (inp.clock .pruneDoneJobs)
    cfg.jobDoneRetentionDays inp.nowMs s.tables.jobs)

/-- The budget that is left admits another table. -/
def PruneState.goesOn (s : PruneState) : Prop :=
  s.housekeepingComplete = true ∧ 0 < s.batchesLeft ∧ 0 < s.writesLeft

instance (s : PruneState) : Decidable s.goesOn :=
  inferInstanceAs (Decidable (_ ∧ _ ∧ _))

def pruneRateLimitsPhase (cfg : MaintenanceConfig) (inp : MaintenanceInput) (s : PruneState) :
    PruneState :=
  if s.goesOn then
    s.afterRateLimits (pruneStaleRateLimits (rateLimitsOpts cfg inp s.batchesLeft s.writesLeft)
      (inp.clock .rateLimits) (inactiveSec cfg) inp.nowMs s.tables.rateLimits)
  else s

def pruneSyncStatePhase (cfg : MaintenanceConfig) (inp : MaintenanceInput) (s : PruneState) :
    PruneState :=
  if s.goesOn then
    s.afterSyncState (pruneOrphanSyncState (syncStateOpts cfg inp s.batchesLeft s.writesLeft)
      (inp.clock .syncStateOrphans) s.tables.addresses s.tables.syncState)
  else s

/-- The prune of the three tables, from the budget that the backfill leaves. -/
def pruneTables (cfg : MaintenanceConfig) (inp : MaintenanceInput) (s : PruneState) : MaintenanceRun :=
  let progress := mergeProgress s.progress
    { phase := some .pruneDoneJobs, startedAt := s.progress.startedAt.or (some inp.nowMs) }
  let last := pruneSyncStatePhase cfg inp (pruneRateLimitsPhase cfg inp
    (pruneJobsPhase cfg inp { s with progress }))
  { tables := last.tables
    result := { last.result with prunePending := !last.housekeepingComplete }
    writes := [.pending progress,
      if last.housekeepingComplete then .finished inp.nowMs else .pending last.progress] }

def backfillOpts (cfg : MaintenanceConfig) (inp : MaintenanceInput) : MaintenanceBatchOpts where
  batchSize := cfg.jobCompletedAtBackfillBatchSize
  maxBatchesPerRun := cfg.jobCompletedAtBackfillMaxBatchesPerTick
  maxPerRun := cfg.maintenanceMaxWritesPerTick
  deadlineMs := inp.deadlineMs
  remainingBatches := cfg.maintenanceMaxBatchesPerTick
  remainingWrites := cfg.maintenanceMaxWritesPerTick

/-- `runScheduledMaintenance`. The counters that it reconciles are no rows of the pruned tables. -/
def runScheduledMaintenance (cfg : MaintenanceConfig) (inp : MaintenanceInput) (st : MaintenanceState) :
    MaintenanceRun :=
  if inp.quotaBlocked then ⟨st.tables, {}, []⟩
  else
    let due := pruneIsDue cfg inp st
    let fresh : MaintenanceRunProgress := { startedAt := some inp.nowMs }
    let progress := if st.maintenancePrunePending then st.maintenanceRun.getD fresh else fresh
    if inp.skipNonCritical then
      ⟨st.tables, { prunePending := due },
        if due && !st.maintenancePrunePending then [.pending progress] else []⟩
    else
      let (backfill, jobs) := backfillDoneJobCompletedAt (backfillOpts cfg inp)
        (inp.clock .backfillCompletedAt) st.tables.jobs
      let result : ScheduledMaintenanceResult :=
        { backfillUpdated := backfill.affected
          batchesTotal := backfill.batches
          seedCache := inp.seedCache }
      let progress := if 0 < backfill.affected then
          mergeProgress progress
            { phase := some .backfillCompletedAt, completedAtBackfillUpdated := backfill.affected }
        else progress
      let tables := { st.tables with jobs }
      let nullCompletedAt := jobs.countP lacksCompletedAt
      if due && nullCompletedAt = 0 then
        pruneTables cfg inp
          { tables, result, progress
            batchesLeft := cfg.maintenanceMaxBatchesPerTick - backfill.batches
            writesLeft := cfg.maintenanceMaxWritesPerTick - backfill.affected
            housekeepingComplete := true }
      else if due then
        ⟨tables, { result with prunePending := true },
          [.pending (mergeProgress progress { phase := some .backfillCompletedAt })]⟩
      else ⟨tables, result, []⟩

/-! ## What a prune does -/

/-- The rows of the full batches that the limits of a prune admit. -/
def admittedRows (opts : MaintenanceBatchOpts) (stop : Nat → Nat → Bool) : Nat :=
  admitted (max 1 opts.batchSize) stop opts.maxBatchesPerRun.toNat * max 1 opts.batchSize

/-- The batches that a prune takes for a number of rows. -/
def batchesOf (opts : MaintenanceBatchOpts) (stop : Nat → Nat → Bool) (rows : Nat) : Nat :=
  batchesFor (max 1 opts.batchSize) stop opts.maxBatchesPerRun.toNat rows

theorem length_batch {α : Type} (p : α → Bool) (n : Nat) (rows : List α) :
    ((deleteWork p).batch n rows).length + min n ((deleteWork p).left rows) = rows.length :=
  Batches.length_removeFirst p n rows

section Prune
variable {α : Type} (p : α → Bool) (opts : MaintenanceBatchOpts) (stop : Nat → Nat → Bool)
  (clock : Nat → Nat) (rows : List α)

/-- Where the batches cover the rows, a last statement finds none. -/
theorem pruneLoop_covered (h : rows.countP p ≤ admittedRows opts stop) :
    (pruneLoop p opts stop rows).affected = rows.countP p ∧
      (pruneLoop p opts stop rows).batches = batchesOf opts stop (rows.countP p) ∧
      (deleteWork p).left (pruneLoop p opts stop rows).table = 0 ∧
      (pruneLoop p opts stop rows).table.length + rows.countP p = rows.length ∧
      ((deleteWork p).batch 1 (pruneLoop p opts stop rows).table).countP p = 0 ∧
      ((deleteWork p).batch 1 (pruneLoop p opts stop rows).table).length + rows.countP p =
        rows.length := by
  have hSize : 0 < max 1 opts.batchSize := by omega
  obtain ⟨hAffected, hLeft, hBatches⟩ := Batches.batchLoop_covered (deleteWork p) _ stop hSize h
  have hLength := Batches.batchLoop_lowers (deleteWork p) (max 1 opts.batchSize) stop
    (length_batch p) opts.maxBatchesPerRun.toNat 0 0 rows
  change _ + (pruneLoop p opts stop rows).affected = _ at hLength
  change (pruneLoop p opts stop rows).affected = _ at hAffected
  change (deleteWork p).left (pruneLoop p opts stop rows).table = 0 at hLeft
  have hRest := (deleteWork p).left_batch 1 (pruneLoop p opts stop rows).table
  have hBatch := length_batch p 1 (pruneLoop p opts stop rows).table
  rw [hLeft] at hRest hBatch
  rw [hAffected] at hLength
  rw [Nat.min_zero, Nat.add_zero] at hBatch
  refine ⟨hAffected, hBatches, hLeft, hLength, hRest, ?_⟩
  rw [hBatch]
  exact hLength

/-- Where they do not, every batch is full and a last statement finds a row. -/
theorem pruneLoop_left (h : admittedRows opts stop < rows.countP p) :
    (pruneLoop p opts stop rows).affected = admittedRows opts stop ∧
      (pruneLoop p opts stop rows).complete = false ∧
      min 1 ((deleteWork p).left (pruneLoop p opts stop rows).table) = 1 ∧
      ((deleteWork p).batch 1 (pruneLoop p opts stop rows).table).length +
        (admittedRows opts stop + 1) = rows.length := by
  have hSize : 0 < max 1 opts.batchSize := by omega
  obtain ⟨hAffected, -, hComplete, hLeft⟩ := Batches.batchLoop_left (deleteWork p) _ stop hSize h
  have hLength := Batches.batchLoop_lowers (deleteWork p) (max 1 opts.batchSize) stop
    (length_batch p) opts.maxBatchesPerRun.toNat 0 0 rows
  change _ + (pruneLoop p opts stop rows).affected = _ at hLength
  change (pruneLoop p opts stop rows).affected = admittedRows opts stop at hAffected
  change (deleteWork p).left (pruneLoop p opts stop rows).table =
    rows.countP p - admittedRows opts stop at hLeft
  have hBatch := length_batch p 1 (pruneLoop p opts stop rows).table
  have hOne : min 1 ((deleteWork p).left (pruneLoop p opts stop rows).table) = 1 := by omega
  rw [hOne] at hBatch
  rw [hAffected] at hLength
  refine ⟨hAffected, hComplete, hOne, ?_⟩
  change (pruneLoop p opts stop rows).table.length + _ = rows.length at hLength
  omega

/-- A prune whose batches cover the rows deletes them, reports them and is complete. -/
theorem pruneProbed_covered (h : rows.countP p ≤ admittedRows opts (pruneStop opts clock)) :
    ∃ rest, pruneProbed p opts clock rows =
        (⟨rows.countP p, batchesOf opts (pruneStop opts clock) (rows.countP p), true⟩, rest) ∧
      rest.countP p = 0 ∧ rest.length + rows.countP p = rows.length := by
  obtain ⟨hAffected, hBatches, hLeft, hLength, hLast, hLastLength⟩ :=
    pruneLoop_covered p opts (pruneStop opts clock) rows h
  rw [pruneProbed]
  dsimp only
  split
  · exact ⟨_, by rw [hAffected, hBatches], hLeft, hLength⟩
  · exact ⟨_, by rw [hAffected, hBatches, hLeft]; rfl, hLast, hLastLength⟩

/-- A prune whose batches do not cover the rows deletes one more than it reports. -/
theorem pruneProbed_left (h : admittedRows opts (pruneStop opts clock) < rows.countP p) :
    ∃ rest batches, pruneProbed p opts clock rows =
        (⟨admittedRows opts (pruneStop opts clock), batches, false⟩, rest) ∧
      rest.length + (admittedRows opts (pruneStop opts clock) + 1) = rows.length := by
  obtain ⟨hAffected, hComplete, hOne, hLength⟩ :=
    pruneLoop_left p opts (pruneStop opts clock) rows h
  rw [pruneProbed]
  dsimp only
  rw [hComplete, if_neg Bool.false_ne_true]
  exact ⟨_, _, by rw [hOne, hAffected]; rfl, hLength⟩

end Prune

section Jobs
variable (opts : MaintenanceBatchOpts) (clock : Nat → Nat) (retentionDays nowMs : Nat)
  (jobs : List DoneJob)

/-- A job that is deleted has a completion time. -/
theorem lacksCompletedAt_of_isPruneable {job : DoneJob}
    (h : isPruneable retentionDays nowMs job = true) : lacksCompletedAt job = false := by
  rw [isPruneable, Bool.and_eq_true] at h
  cases hTime : job.completedAt with
  | none => simp [hTime] at h
  | some t => simp [lacksCompletedAt, hTime]

theorem lacking_batch (n : Nat) (jobs : List DoneJob) :
    ((deleteWork (isPruneable retentionDays nowMs)).batch n jobs).countP lacksCompletedAt =
      jobs.countP lacksCompletedAt :=
  Batches.countP_removeFirst_of
    (fun _ h => lacksCompletedAt_of_isPruneable retentionDays nowMs h) n jobs

/-- A prune of jobs deletes no job that lacks a completion time. -/
theorem lacking_pruneDoneJobs :
    (pruneDoneJobs opts clock retentionDays nowMs jobs).2.countP lacksCompletedAt =
      jobs.countP lacksCompletedAt := by
  have hLoop := Batches.batchLoop_keeps (deleteWork (isPruneable retentionDays nowMs))
    (max 1 opts.batchSize) (jobsStop opts clock) (lacking_batch retentionDays nowMs)
    opts.maxBatchesPerRun.toNat 0 0 jobs
  rw [pruneDoneJobs]
  dsimp only
  split
  · exact hLoop
  · exact (lacking_batch retentionDays nowMs 1 _).trans hLoop

theorem pruneDoneJobs_covered
    (h : jobs.countP (isPruneable retentionDays nowMs) ≤ admittedRows opts (jobsStop opts clock)) :
    ∃ rest, pruneDoneJobs opts clock retentionDays nowMs jobs =
        (⟨jobs.countP (isPruneable retentionDays nowMs),
          batchesOf opts (jobsStop opts clock) (jobs.countP (isPruneable retentionDays nowMs)), true⟩,
          rest) ∧
      rest.countP (isPruneable retentionDays nowMs) = 0 ∧
      rest.length + jobs.countP (isPruneable retentionDays nowMs) = jobs.length := by
  obtain ⟨hAffected, hBatches, hLeft, hLength, hLast, hLastLength⟩ :=
    pruneLoop_covered _ opts (jobsStop opts clock) jobs h
  rw [pruneDoneJobs]
  dsimp only
  split
  · exact ⟨_, by rw [hAffected, hBatches], hLeft, hLength⟩
  · exact ⟨_, by rw [hAffected, hBatches, hLeft]; rfl, hLast, hLastLength⟩

/-- The prune of jobs reports its last row. -/
theorem pruneDoneJobs_left
    (h : admittedRows opts (jobsStop opts clock) < jobs.countP (isPruneable retentionDays nowMs)) :
    ∃ rest batches, pruneDoneJobs opts clock retentionDays nowMs jobs =
        (⟨admittedRows opts (jobsStop opts clock) + 1, batches, false⟩, rest) ∧
      rest.length + (admittedRows opts (jobsStop opts clock) + 1) = jobs.length := by
  obtain ⟨hAffected, hComplete, hOne, hLength⟩ := pruneLoop_left _ opts (jobsStop opts clock) jobs h
  rw [pruneDoneJobs]
  dsimp only
  rw [hComplete, if_neg Bool.false_ne_true]
  exact ⟨_, _, by rw [hOne, hAffected]; rfl, hLength⟩

end Jobs

/-! ## The backfill -/

section Backfill
variable (opts : MaintenanceBatchOpts) (clock : Nat → Nat) (jobs : List DoneJob)

/-- The limits of the backfill decide how many rows it fills in; it never changes how many jobs
there are. -/
theorem backfillDoneJobCompletedAt_affected :
    (backfillDoneJobCompletedAt opts clock jobs).1.affected =
        min (jobs.countP lacksCompletedAt) (admittedRows opts (backfillStop opts clock)) ∧
      (backfillDoneJobCompletedAt opts clock jobs).2.countP lacksCompletedAt =
        jobs.countP lacksCompletedAt - admittedRows opts (backfillStop opts clock) := by
  have hSize : 0 < max 1 opts.batchSize := by omega
  rcases Nat.lt_or_ge (admittedRows opts (backfillStop opts clock))
      (jobs.countP lacksCompletedAt) with hMore | hCovered
  · obtain ⟨hAffected, -, -, hLeft⟩ := Batches.batchLoop_left backfillWork _
      (backfillStop opts clock) hSize hMore
    refine ⟨?_, hLeft⟩
    rw [Nat.min_eq_right hMore.le]
    exact hAffected
  · obtain ⟨hAffected, hLeft, -⟩ := Batches.batchLoop_covered backfillWork _
      (backfillStop opts clock) hSize hCovered
    rw [Nat.min_eq_left hCovered, Nat.sub_eq_zero_of_le hCovered]
    exact ⟨hAffected, hLeft⟩

theorem backfillDoneJobCompletedAt_batches
    (h : jobs.countP lacksCompletedAt ≤ admittedRows opts (backfillStop opts clock)) :
    (backfillDoneJobCompletedAt opts clock jobs).1.batches =
      batchesOf opts (backfillStop opts clock) (jobs.countP lacksCompletedAt) :=
  (Batches.batchLoop_covered backfillWork _ (backfillStop opts clock) (by omega) h).2.2

theorem length_backfillDoneJobCompletedAt :
    (backfillDoneJobCompletedAt opts clock jobs).2.length = jobs.length :=
  Batches.batchLoop_keeps backfillWork _ _
    (fun n l => Batches.length_changeFirst lacksCompletedAt fillCompletedAt n l) _ 0 0 jobs

/-- A done job that was completed, or else created, before the cutoff. -/
def isOldDone (retentionDays nowMs : Nat) (job : DoneJob) : Bool :=
  job.done && isBeforeCutoff retentionDays nowMs (job.completedAt.getD job.createdAt)

theorem isOldDone_fillCompletedAt (retentionDays nowMs : Nat) {job : DoneJob}
    (h : lacksCompletedAt job = true) :
    isOldDone retentionDays nowMs (fillCompletedAt job) = isOldDone retentionDays nowMs job := by
  rw [lacksCompletedAt, Bool.and_eq_true, Option.isNone_iff_eq_none] at h
  rw [isOldDone, isOldDone, h.2]
  rfl

theorem countP_isOldDone_backfill (retentionDays nowMs : Nat) :
    (backfillDoneJobCompletedAt opts clock jobs).2.countP (isOldDone retentionDays nowMs) =
      jobs.countP (isOldDone retentionDays nowMs) :=
  Batches.batchLoop_keeps backfillWork _ _
    (Batches.countP_changeFirst_of
      fun _ hJob => isOldDone_fillCompletedAt retentionDays nowMs hJob) _ 0 0 jobs

theorem isPruneable_eq_isOldDone (retentionDays nowMs : Nat) {job : DoneJob}
    (h : lacksCompletedAt job = false) :
    isPruneable retentionDays nowMs job = isOldDone retentionDays nowMs job := by
  rw [isPruneable, isOldDone]
  cases hDone : job.done with
  | false => rw [Bool.false_and, Bool.false_and]
  | true =>
    cases hTime : job.completedAt with
    | none => simp [lacksCompletedAt, hDone, hTime] at h
    | some t => rw [Option.any_some, Option.getD_some]

/-- After a full backfill, the jobs to delete are the old done jobs. -/
theorem countP_isPruneable_backfill (retentionDays nowMs : Nat)
    (h : jobs.countP lacksCompletedAt ≤ admittedRows opts (backfillStop opts clock)) :
    (backfillDoneJobCompletedAt opts clock jobs).2.countP (isPruneable retentionDays nowMs) =
      jobs.countP (isOldDone retentionDays nowMs) := by
  have hNone : (backfillDoneJobCompletedAt opts clock jobs).2.countP lacksCompletedAt = 0 := by
    rw [(backfillDoneJobCompletedAt_affected opts clock jobs).2]
    exact Nat.sub_eq_zero_of_le h
  rw [← countP_isOldDone_backfill opts clock jobs]
  refine List.countP_congr fun job hJob => ?_
  have hFilled := List.countP_eq_zero.mp hNone job hJob
  rw [isPruneable_eq_isOldDone retentionDays nowMs (Bool.eq_false_of_not_eq_true hFilled)]

end Backfill

/-! ## Accounts of the phases -/

def Tables.rowCount (tables : Tables) : Nat :=
  tables.jobs.length + tables.rateLimits.length + tables.syncState.length

def deletedRows (before after : Tables) : Int := before.rowCount - after.rowCount

def backfilledRows (before after : Tables) : Int :=
  before.jobs.countP lacksCompletedAt - after.jobs.countP lacksCompletedAt

section Phases
variable (cfg : MaintenanceConfig) (inp : MaintenanceInput)

/-- None of the three tables has a row that a prune would delete. -/
structure Pruned (nowMs : Nat) (tables : Tables) : Prop where
  jobs : tables.jobs.countP (isPruneable cfg.jobDoneRetentionDays nowMs) = 0
  rateLimits : tables.rateLimits.countP (isStale (inactiveSec cfg) nowMs) = 0
  syncState : tables.syncState.countP (isOrphan tables.addresses) = 0

/-- From one state of the prune to its end: the deletes fit into the writes that were left, every
table's deletes are reported, and the prune ends complete only with nothing left to delete. -/
structure Accounted (nowMs : Nat) (s last : PruneState) : Prop where
  budget : deletedRows s.tables last.tables ≤ s.writesLeft
  jobs : last.result.jobsDeleted + last.tables.jobs.length =
    s.result.jobsDeleted + s.tables.jobs.length
  rateLimits : last.result.rateLimitsDeleted + last.tables.rateLimits.length =
    s.result.rateLimitsDeleted + s.tables.rateLimits.length
  syncState : last.result.syncStateOrphansDeleted + last.tables.syncState.length =
    s.result.syncStateOrphansDeleted + s.tables.syncState.length
  pruned : last.housekeepingComplete = true → Pruned cfg nowMs last.tables

/-- A phase that reports its deletes and takes them from the budget leaves the accounts open. -/
theorem accounted_iff_of_reported {nowMs : Nat} {s next last : PruneState}
    (hWrites : next.writesLeft = s.writesLeft - deletedRows s.tables next.tables)
    (hJobs : next.result.jobsDeleted + next.tables.jobs.length =
      s.result.jobsDeleted + s.tables.jobs.length)
    (hRateLimits : next.result.rateLimitsDeleted + next.tables.rateLimits.length =
      s.result.rateLimitsDeleted + s.tables.rateLimits.length)
    (hSyncState : next.result.syncStateOrphansDeleted + next.tables.syncState.length =
      s.result.syncStateOrphansDeleted + s.tables.syncState.length) :
    Accounted cfg nowMs s last ↔ Accounted cfg nowMs next last := by
  have hBudget : deletedRows s.tables last.tables ≤ s.writesLeft ↔
      deletedRows next.tables last.tables ≤ next.writesLeft := by
    rw [hWrites]
    unfold deletedRows
    omega
  constructor
  · intro h
    exact ⟨hBudget.mp h.budget, h.jobs.trans hJobs.symm, h.rateLimits.trans hRateLimits.symm,
      h.syncState.trans hSyncState.symm, h.pruned⟩
  · intro h
    exact ⟨hBudget.mpr h.budget, h.jobs.trans hJobs, h.rateLimits.trans hRateLimits,
      h.syncState.trans hSyncState, h.pruned⟩

def syncStateStop (batchesLeft writesLeft : Int) : Nat → Nat → Bool :=
  pruneStop (syncStateOpts cfg inp batchesLeft writesLeft) (inp.clock .syncStateOrphans)

def rateLimitsStop (batchesLeft writesLeft : Int) : Nat → Nat → Bool :=
  pruneStop (rateLimitsOpts cfg inp batchesLeft writesLeft) (inp.clock .rateLimits)

def doneJobsStop (batchesLeft writesLeft : Int) : Nat → Nat → Bool :=
  jobsStop (jobsOpts cfg inp batchesLeft writesLeft) (inp.clock .pruneDoneJobs)

/-- The orphans fit into the batches and the writes that are left; without either there are none. -/
def SyncStateFits (orphans : Nat) (batchesLeft writesLeft : Int) : Prop :=
  if 0 < batchesLeft ∧ 0 < writesLeft then
    orphans ≤ admittedRows (syncStateOpts cfg inp batchesLeft writesLeft)
        (syncStateStop cfg inp batchesLeft writesLeft) ∧
      orphans ≤ writesLeft
  else orphans = 0 ∧ 0 ≤ writesLeft

def RateLimitsFit (stale orphans : Nat) (batchesLeft writesLeft : Int) : Prop :=
  if 0 < batchesLeft ∧ 0 < writesLeft then
    stale ≤ admittedRows (rateLimitsOpts cfg inp batchesLeft writesLeft)
        (rateLimitsStop cfg inp batchesLeft writesLeft) ∧
      SyncStateFits cfg inp orphans
        (batchesLeft - batchesOf (rateLimitsOpts cfg inp batchesLeft writesLeft)
          (rateLimitsStop cfg inp batchesLeft writesLeft) stale)
        (writesLeft - stale)
  else stale = 0 ∧ orphans = 0 ∧ 0 ≤ writesLeft

/-- Where the batches do not cover the jobs, the prune deletes one more than they hold. -/
def JobsFit (oldJobs stale orphans : Nat) (batchesLeft writesLeft : Int) : Prop :=
  if oldJobs ≤ admittedRows (jobsOpts cfg inp batchesLeft writesLeft)
      (doneJobsStop cfg inp batchesLeft writesLeft) then
    RateLimitsFit cfg inp stale orphans
      (batchesLeft - batchesOf (jobsOpts cfg inp batchesLeft writesLeft)
        (doneJobsStop cfg inp batchesLeft writesLeft) oldJobs)
      (writesLeft - oldJobs)
  else (admittedRows (jobsOpts cfg inp batchesLeft writesLeft)
    (doneJobsStop cfg inp batchesLeft writesLeft) + 1 : Nat) ≤ writesLeft

variable {cfg inp}

theorem pruneSyncStatePhase_stays {s : PruneState} (h : ¬ s.goesOn) :
    pruneSyncStatePhase cfg inp s = s := if_neg h

theorem pruneRateLimitsPhase_stays {s : PruneState} (h : ¬ s.goesOn) :
    pruneRateLimitsPhase cfg inp s = s := if_neg h

theorem deletedRows_self (tables : Tables) : deletedRows tables tables = 0 := Int.sub_self _

/-- A prune that ends here. -/
theorem accounted_self_iff {nowMs : Nat} {s : PruneState} :
    Accounted cfg nowMs s s ↔ 0 ≤ s.writesLeft ∧
      (s.housekeepingComplete = true → Pruned cfg nowMs s.tables) := by
  constructor
  · intro h
    have hBudget := h.budget
    rw [deletedRows_self] at hBudget
    exact ⟨hBudget, h.pruned⟩
  · rintro ⟨hBudget, hPruned⟩
    exact ⟨(deletedRows_self _).trans_le hBudget, rfl, rfl, rfl, hPruned⟩

/-- A table that is skipped: the prune ends here, complete. -/
theorem accounted_self_iff_of_complete {nowMs : Nat} {s : PruneState}
    (hComplete : s.housekeepingComplete = true) :
    Accounted cfg nowMs s s ↔ Pruned cfg nowMs s.tables ∧ 0 ≤ s.writesLeft := by
  rw [accounted_self_iff, and_comm, hComplete]
  exact and_congr_left' ⟨fun h => h rfl, fun h _ => h⟩

theorem accounted_afterSyncState_iff {nowMs affected batches : Nat} {complete : Bool}
    {s last : PruneState} {rest : List Address} (hNew : s.result.syncStateOrphansDeleted = 0)
    (hLength : rest.length + affected = s.tables.syncState.length) :
    Accounted cfg nowMs s last ↔
      Accounted cfg nowMs (s.afterSyncState (⟨affected, batches, complete⟩, rest)) last := by
  refine accounted_iff_of_reported cfg ?_ rfl rfl ?_
  · simp only [deletedRows, Tables.rowCount, PruneState.afterSyncState]
    omega
  · simp only [PruneState.afterSyncState]
    omega

theorem accounted_afterRateLimits_iff {nowMs affected batches : Nat} {complete : Bool}
    {s last : PruneState} {rest : List (String × Nat)} (hNew : s.result.rateLimitsDeleted = 0)
    (hLength : rest.length + affected = s.tables.rateLimits.length) :
    Accounted cfg nowMs s last ↔
      Accounted cfg nowMs (s.afterRateLimits (⟨affected, batches, complete⟩, rest)) last := by
  refine accounted_iff_of_reported cfg ?_ rfl ?_ rfl
  · simp only [deletedRows, Tables.rowCount, PruneState.afterRateLimits]
    omega
  · simp only [PruneState.afterRateLimits]
    omega

theorem accounted_afterJobs_iff {nowMs affected batches : Nat} {complete : Bool}
    {s last : PruneState} {rest : List DoneJob} (hNew : s.result.jobsDeleted = 0)
    (hLength : rest.length + affected = s.tables.jobs.length) :
    Accounted cfg nowMs s last ↔
      Accounted cfg nowMs (s.afterJobs (⟨affected, batches, complete⟩, rest)) last := by
  refine accounted_iff_of_reported cfg ?_ ?_ rfl rfl
  · simp only [deletedRows, Tables.rowCount, PruneState.afterJobs]
    omega
  · simp only [PruneState.afterJobs]
    omega

theorem accounted_syncState_iff {s : PruneState} (hComplete : s.housekeepingComplete = true)
    (hNew : s.result.syncStateOrphansDeleted = 0)
    (hJobs : s.tables.jobs.countP (isPruneable cfg.jobDoneRetentionDays inp.nowMs) = 0)
    (hRateLimits : s.tables.rateLimits.countP (isStale (inactiveSec cfg) inp.nowMs) = 0) :
    Accounted cfg inp.nowMs s (pruneSyncStatePhase cfg inp s) ↔
      SyncStateFits cfg inp (s.tables.syncState.countP (isOrphan s.tables.addresses))
        s.batchesLeft s.writesLeft := by
  rw [SyncStateFits]
  by_cases hGoesOn : s.goesOn
  · rw [if_pos hGoesOn.2, pruneSyncStatePhase, if_pos hGoesOn, pruneOrphanSyncState]
    rcases Nat.lt_or_ge (admittedRows (syncStateOpts cfg inp s.batchesLeft s.writesLeft)
        (syncStateStop cfg inp s.batchesLeft s.writesLeft))
      (s.tables.syncState.countP (isOrphan s.tables.addresses)) with hMore | hCovered
    · obtain ⟨rest, batches, hPrune, hLength⟩ := pruneProbed_left _ _ _ _ hMore
      rw [hPrune]
      -- the probe deletes a row that the report leaves out
      refine iff_of_false (fun h => ?_) fun h => absurd h.1 (Nat.not_le.mpr hMore)
      have hSum := h.syncState
      simp only [PruneState.afterSyncState, hNew] at hSum
      omega
    · obtain ⟨rest, hPrune, hNone, hLength⟩ := pruneProbed_covered _ _ _ _ hCovered
      rw [hPrune, accounted_afterSyncState_iff hNew hLength, accounted_self_iff_of_complete rfl]
      constructor
      · rintro ⟨-, hWrites⟩
        exact ⟨hCovered, Int.sub_nonneg.mp hWrites⟩
      · rintro ⟨-, hWrites⟩
        exact ⟨⟨hJobs, hRateLimits, hNone⟩, Int.sub_nonneg.mpr hWrites⟩
  · rw [if_neg fun h => hGoesOn ⟨hComplete, h⟩, pruneSyncStatePhase_stays hGoesOn,
      accounted_self_iff_of_complete hComplete]
    exact and_congr_left' ⟨fun h => h.syncState, fun hNone => ⟨hJobs, hRateLimits, hNone⟩⟩

/-- A phase that ends incomplete ends the prune. -/
theorem pruneSyncStatePhase_of_incomplete {s : PruneState} (h : s.housekeepingComplete = false) :
    pruneSyncStatePhase cfg inp s = s :=
  pruneSyncStatePhase_stays fun hGoesOn => by simp [hGoesOn.1] at h

theorem pruneRateLimitsPhase_of_incomplete {s : PruneState} (h : s.housekeepingComplete = false) :
    pruneRateLimitsPhase cfg inp s = s :=
  pruneRateLimitsPhase_stays fun hGoesOn => by simp [hGoesOn.1] at h

theorem accounted_rateLimits_iff {s : PruneState} (hComplete : s.housekeepingComplete = true)
    (hNewRateLimits : s.result.rateLimitsDeleted = 0)
    (hNewSyncState : s.result.syncStateOrphansDeleted = 0)
    (hJobs : s.tables.jobs.countP (isPruneable cfg.jobDoneRetentionDays inp.nowMs) = 0) :
    Accounted cfg inp.nowMs s (pruneSyncStatePhase cfg inp (pruneRateLimitsPhase cfg inp s)) ↔
      RateLimitsFit cfg inp (s.tables.rateLimits.countP (isStale (inactiveSec cfg) inp.nowMs))
        (s.tables.syncState.countP (isOrphan s.tables.addresses)) s.batchesLeft s.writesLeft := by
  rw [RateLimitsFit]
  by_cases hGoesOn : s.goesOn
  · rw [if_pos hGoesOn.2, pruneRateLimitsPhase, if_pos hGoesOn, pruneStaleRateLimits]
    rcases Nat.lt_or_ge (admittedRows (rateLimitsOpts cfg inp s.batchesLeft s.writesLeft)
        (rateLimitsStop cfg inp s.batchesLeft s.writesLeft))
      (s.tables.rateLimits.countP (isStale (inactiveSec cfg) inp.nowMs)) with hMore | hCovered
    · obtain ⟨rest, batches, hPrune, hLength⟩ := pruneProbed_left _ _ _ _ hMore
      rw [hPrune, pruneSyncStatePhase_of_incomplete rfl]
      refine iff_of_false (fun h => ?_) fun h => absurd h.1 (Nat.not_le.mpr hMore)
      have hSum := h.rateLimits
      simp only [PruneState.afterRateLimits, hNewRateLimits] at hSum
      omega
    · obtain ⟨rest, hPrune, hNone, hLength⟩ := pruneProbed_covered _ _ _ _ hCovered
      rw [hPrune, accounted_afterRateLimits_iff hNewRateLimits hLength]
      refine Iff.trans ?_ ⟨fun h => ⟨hCovered, h⟩, fun h => h.2⟩
      exact accounted_syncState_iff rfl hNewSyncState hJobs hNone
  · rw [if_neg fun h => hGoesOn ⟨hComplete, h⟩, pruneRateLimitsPhase_stays hGoesOn,
      pruneSyncStatePhase_stays hGoesOn, accounted_self_iff_of_complete hComplete, ← and_assoc]
    exact and_congr_left' ⟨fun h => ⟨h.rateLimits, h.syncState⟩,
      fun hNone => ⟨hJobs, hNone.1, hNone.2⟩⟩

theorem accounted_jobs_iff {s : PruneState} (hNewJobs : s.result.jobsDeleted = 0)
    (hNewRateLimits : s.result.rateLimitsDeleted = 0)
    (hNewSyncState : s.result.syncStateOrphansDeleted = 0) :
    Accounted cfg inp.nowMs s (pruneSyncStatePhase cfg inp (pruneRateLimitsPhase cfg inp
        (pruneJobsPhase cfg inp s))) ↔
      JobsFit cfg inp (s.tables.jobs.countP (isPruneable cfg.jobDoneRetentionDays inp.nowMs))
        (s.tables.rateLimits.countP (isStale (inactiveSec cfg) inp.nowMs))
        (s.tables.syncState.countP (isOrphan s.tables.addresses)) s.batchesLeft s.writesLeft := by
  rw [JobsFit, pruneJobsPhase]
  rcases Nat.lt_or_ge (admittedRows (jobsOpts cfg inp s.batchesLeft s.writesLeft)
      (doneJobsStop cfg inp s.batchesLeft s.writesLeft))
    (s.tables.jobs.countP (isPruneable cfg.jobDoneRetentionDays inp.nowMs)) with hMore | hCovered
  · obtain ⟨rest, batches, hPrune, hLength⟩ := pruneDoneJobs_left _ _ _ _ _ hMore
    rw [if_neg (Nat.not_le.mpr hMore), hPrune, pruneRateLimitsPhase_of_incomplete rfl,
      pruneSyncStatePhase_of_incomplete rfl, accounted_afterJobs_iff hNewJobs hLength,
      accounted_self_iff]
    exact ⟨fun h => Int.sub_nonneg.mp h.1, fun h => ⟨Int.sub_nonneg.mpr h, fun h => nomatch h⟩⟩
  · obtain ⟨rest, hPrune, hNone, hLength⟩ := pruneDoneJobs_covered _ _ _ _ _ hCovered
    rw [if_pos hCovered, hPrune, accounted_afterJobs_iff hNewJobs hLength]
    exact accounted_rateLimits_iff rfl hNewRateLimits hNewSyncState hNone

theorem nonneg_of_rateLimitsFit {stale orphans : Nat} {batchesLeft writesLeft : Int}
    (h : RateLimitsFit cfg inp stale orphans batchesLeft writesLeft) : 0 ≤ writesLeft := by
  rw [RateLimitsFit] at h
  split at h
  next hLeft => exact hLeft.2.le
  next => exact h.2.2

theorem nonneg_of_jobsFit {oldJobs stale orphans : Nat} {batchesLeft writesLeft : Int}
    (h : JobsFit cfg inp oldJobs stale orphans batchesLeft writesLeft) : 0 ≤ writesLeft := by
  rw [JobsFit] at h
  split at h
  next =>
    have hRest := nonneg_of_rateLimitsFit h
    omega
  next => omega

/-- No phase touches the backfill: the jobs that lack a completion time stay. -/
theorem lacking_phases (s : PruneState) :
    (pruneSyncStatePhase cfg inp (pruneRateLimitsPhase cfg inp
        (pruneJobsPhase cfg inp s))).tables.jobs.countP lacksCompletedAt =
      s.tables.jobs.countP lacksCompletedAt := by
  have hRateLimits (s : PruneState) : (pruneRateLimitsPhase cfg inp s).tables.jobs = s.tables.jobs := by
    rw [pruneRateLimitsPhase]
    split <;> rfl
  have hSyncState (s : PruneState) : (pruneSyncStatePhase cfg inp s).tables.jobs = s.tables.jobs := by
    rw [pruneSyncStatePhase]
    split <;> rfl
  rw [hSyncState, hRateLimits]
  exact lacking_pruneDoneJobs _ _ _ _ _

end Phases

/-! ## The whole run -/

section Run
variable (cfg : MaintenanceConfig) (inp : MaintenanceInput)

/-- The accounts of a run: it deletes no more rows than the writes of a tick less the rows it
filled in, it reports for every table the rows it deleted, and it marks the prune finished
only when the tables have no row to delete. -/
structure Accounts (nowMs : Nat) (before : Tables) (run : MaintenanceRun) : Prop where
  budget : deletedRows before run.tables ≤
    cfg.maintenanceMaxWritesPerTick - backfilledRows before run.tables
  jobs : run.result.jobsDeleted + run.tables.jobs.length = before.jobs.length
  rateLimits : run.result.rateLimitsDeleted + run.tables.rateLimits.length = before.rateLimits.length
  syncState : run.result.syncStateOrphansDeleted + run.tables.syncState.length =
    before.syncState.length
  finished : ∀ t, .finished t ∈ run.writes → Pruned cfg nowMs run.tables

/-- The rows that the limits of the backfill admit. -/
def backfillRows : Nat :=
  admittedRows (backfillOpts cfg inp) (backfillStop (backfillOpts cfg inp) (inp.clock .backfillCompletedAt))

/-- The rows that the backfill fills in fit into the writes of a tick; where the prune follows,
its rows fit into what the backfill leaves. -/
structure TickFits (st : MaintenanceState) : Prop where
  backfill : min (st.tables.jobs.countP lacksCompletedAt) (backfillRows cfg inp) ≤
    cfg.maintenanceMaxWritesPerTick
  prune : pruneIsDue cfg inp st = true → st.tables.jobs.countP lacksCompletedAt ≤ backfillRows cfg inp →
    JobsFit cfg inp (st.tables.jobs.countP (isOldDone cfg.jobDoneRetentionDays inp.nowMs))
      (st.tables.rateLimits.countP (isStale (inactiveSec cfg) inp.nowMs))
      (st.tables.syncState.countP (isOrphan st.tables.addresses))
      (cfg.maintenanceMaxBatchesPerTick - batchesOf (backfillOpts cfg inp)
        (backfillStop (backfillOpts cfg inp) (inp.clock .backfillCompletedAt))
        (st.tables.jobs.countP lacksCompletedAt))
      (cfg.maintenanceMaxWritesPerTick - st.tables.jobs.countP lacksCompletedAt)

variable {cfg inp}

/-- A run that deletes nothing and does not finish a prune. -/
theorem accounts_iff_of_kept {nowMs : Nat} {before : Tables} {jobs : List DoneJob}
    {result : ScheduledMaintenanceResult} {writes : List SchedulerWrite}
    (hLength : jobs.length = before.jobs.length) (hJobs : result.jobsDeleted = 0)
    (hRateLimits : result.rateLimitsDeleted = 0) (hSyncState : result.syncStateOrphansDeleted = 0)
    (hWrites : ∀ t, SchedulerWrite.finished t ∉ writes) :
    Accounts cfg nowMs before ⟨{ before with jobs }, result, writes⟩ ↔
      (before.jobs.countP lacksCompletedAt : Int) - jobs.countP lacksCompletedAt ≤
        cfg.maintenanceMaxWritesPerTick := by
  have hDeleted : deletedRows before { before with jobs } = 0 := by
    simp only [deletedRows, Tables.rowCount, hLength]
    omega
  constructor
  · intro h
    have hBudget := h.budget
    rw [hDeleted, backfilledRows] at hBudget
    exact Int.sub_nonneg.mp hBudget
  · intro h
    refine ⟨?_, by simp [hJobs, hLength], by simp [hRateLimits], by simp [hSyncState],
      fun t hMem => absurd hMem (hWrites t)⟩
    rw [hDeleted, backfilledRows]
    exact Int.sub_nonneg.mpr h

/-- The run of a prune accounts for what it did exactly if its phases do. -/
theorem accounts_pruneTables_iff {before : Tables} {s : PruneState}
    (hLength : s.tables.jobs.length = before.jobs.length)
    (hRateLimits : s.tables.rateLimits = before.rateLimits)
    (hSyncState : s.tables.syncState = before.syncState)
    (hNewJobs : s.result.jobsDeleted = 0) (hNewRateLimits : s.result.rateLimitsDeleted = 0)
    (hNewSyncState : s.result.syncStateOrphansDeleted = 0)
    (hWrites : s.writesLeft =
      cfg.maintenanceMaxWritesPerTick - backfilledRows before s.tables) :
    Accounts cfg inp.nowMs before (pruneTables cfg inp s) ↔
      JobsFit cfg inp (s.tables.jobs.countP (isPruneable cfg.jobDoneRetentionDays inp.nowMs))
        (s.tables.rateLimits.countP (isStale (inactiveSec cfg) inp.nowMs))
        (s.tables.syncState.countP (isOrphan s.tables.addresses)) s.batchesLeft s.writesLeft := by
  generalize hStart : { s with
    progress := mergeProgress s.progress
      { phase := some .pruneDoneJobs, startedAt := s.progress.startedAt.or (some inp.nowMs) } } = start
  have hTables : start.tables = s.tables := by rw [← hStart]
  have hResult : start.result = s.result := by rw [← hStart]
  have hBatchesLeft : start.batchesLeft = s.batchesLeft := by rw [← hStart]
  have hWritesLeft : start.writesLeft = s.writesLeft := by rw [← hStart]
  have hPhases := @accounted_jobs_iff cfg inp start (by rw [hResult, hNewJobs])
    (by rw [hResult, hNewRateLimits]) (by rw [hResult, hNewSyncState])
  have hLacking := @lacking_phases cfg inp start
  rw [hTables, hBatchesLeft, hWritesLeft] at hPhases
  rw [← hPhases, pruneTables]
  dsimp only
  rw [hStart]
  generalize pruneSyncStatePhase cfg inp (pruneRateLimitsPhase cfg inp
    (pruneJobsPhase cfg inp start)) = last at hLacking ⊢
  have hDeleted : deletedRows before last.tables = deletedRows start.tables last.tables := by
    rw [deletedRows, deletedRows, Tables.rowCount, hTables, Tables.rowCount, Tables.rowCount, hLength,
      hRateLimits, hSyncState]
  have hBackfilled : backfilledRows before last.tables = backfilledRows before s.tables := by
    rw [backfilledRows, backfilledRows, hLacking, hTables]
  constructor
  · intro h
    refine ⟨?_, ?_, ?_, ?_, fun hComplete => h.finished inp.nowMs (by simp [hComplete])⟩
    · rw [← hDeleted, hWritesLeft, hWrites, ← hBackfilled]
      exact h.budget
    · rw [hResult, hNewJobs, hTables, hLength, Nat.zero_add]
      exact h.jobs
    · rw [hResult, hNewRateLimits, hTables, hRateLimits, Nat.zero_add]
      exact h.rateLimits
    · rw [hResult, hNewSyncState, hTables, hSyncState, Nat.zero_add]
      exact h.syncState
  · intro h
    have hJobs := h.jobs
    have hRates := h.rateLimits
    have hSync := h.syncState
    rw [hResult, hNewJobs, hTables, hLength, Nat.zero_add] at hJobs
    rw [hResult, hNewRateLimits, hTables, hRateLimits, Nat.zero_add] at hRates
    rw [hResult, hNewSyncState, hTables, hSyncState, Nat.zero_add] at hSync
    refine ⟨?_, hJobs, hRates, hSync, fun t hMem => h.pruned ?_⟩
    · change deletedRows before last.tables ≤ _ - backfilledRows before last.tables
      rw [hDeleted, hBackfilled, ← hWrites, ← hWritesLeft]
      exact h.budget
    · by_contra hIncomplete
      simp [hIncomplete] at hMem

/-- A run stays in its budget and reports what it did exactly where writes are blocked, where
it only looks whether a prune is due, and where the rows of every table fit into what the
tables before leave of the batches and the writes. -/
theorem runScheduledMaintenance_accounts_iff (cfg : MaintenanceConfig) (inp : MaintenanceInput)
    (st : MaintenanceState) :
    Accounts cfg inp.nowMs st.tables (runScheduledMaintenance cfg inp st) ↔
      inp.quotaBlocked = true ∨ inp.skipNonCritical = true ∨ TickFits cfg inp st := by
  have hNothing (result : ScheduledMaintenanceResult) (writes : List SchedulerWrite)
      (hJobs : result.jobsDeleted = 0) (hRateLimits : result.rateLimitsDeleted = 0)
      (hSyncState : result.syncStateOrphansDeleted = 0)
      (hWrites : ∀ t, SchedulerWrite.finished t ∉ writes) :
      Accounts cfg inp.nowMs st.tables ⟨st.tables, result, writes⟩ :=
    (accounts_iff_of_kept rfl hJobs hRateLimits hSyncState hWrites).mpr (by omega)
  rw [runScheduledMaintenance]
  cases hBlocked : inp.quotaBlocked with
  | true =>
    refine iff_of_true (hNothing _ _ rfl rfl rfl ?_) (Or.inl rfl)
    simp
  | false =>
    cases hSkip : inp.skipNonCritical with
    | true =>
      refine iff_of_true (hNothing _ _ rfl rfl rfl ?_) (Or.inr (Or.inl rfl))
      intro t hMem
      split at hMem <;> simp at hMem
    | false =>
      simp only [Bool.false_eq_true, if_false, false_or]
      obtain ⟨hAffected, hLacking⟩ := backfillDoneJobCompletedAt_affected (backfillOpts cfg inp)
        (inp.clock .backfillCompletedAt) st.tables.jobs
      have hLength := length_backfillDoneJobCompletedAt (backfillOpts cfg inp)
        (inp.clock .backfillCompletedAt) st.tables.jobs
      have hBatches := backfillDoneJobCompletedAt_batches (backfillOpts cfg inp)
        (inp.clock .backfillCompletedAt) st.tables.jobs
      have hOld := countP_isPruneable_backfill (backfillOpts cfg inp)
        (inp.clock .backfillCompletedAt) st.tables.jobs cfg.jobDoneRetentionDays inp.nowMs
      change _ = min _ (backfillRows cfg inp) at hAffected
      change _ = _ - backfillRows cfg inp at hLacking
      change _ ≤ backfillRows cfg inp → _ at hBatches
      change _ ≤ backfillRows cfg inp → _ at hOld
      generalize backfillDoneJobCompletedAt (backfillOpts cfg inp) (inp.clock .backfillCompletedAt)
        st.tables.jobs = backfill at *
      have hWritesLeft : (cfg.maintenanceMaxWritesPerTick : Int) - backfill.1.affected =
          cfg.maintenanceMaxWritesPerTick -
            backfilledRows st.tables { st.tables with jobs := backfill.2 } := by
        rw [backfilledRows, hAffected]
        dsimp only
        rw [hLacking]
        omega
      split
      next hPrunes =>
        -- the prune follows: the backfill covers the jobs that lack a completion time
        rw [Bool.and_eq_true, decide_eq_true_eq, hLacking] at hPrunes
        have hCovered : st.tables.jobs.countP lacksCompletedAt ≤ backfillRows cfg inp := by omega
        refine Iff.trans (accounts_pruneTables_iff hLength rfl rfl rfl rfl rfl hWritesLeft) ?_
        dsimp only
        rw [hOld hCovered, hBatches hCovered, hAffected, Nat.min_eq_left hCovered]
        constructor
        · intro hFits
          have hNonneg := nonneg_of_jobsFit hFits
          exact ⟨by omega, fun _ _ => hFits⟩
        · exact fun hFits => hFits.prune hPrunes.1 hCovered
      next hStays =>
        -- no prune: only the backfill has to fit
        have hFits : TickFits cfg inp st ↔
            min (st.tables.jobs.countP lacksCompletedAt) (backfillRows cfg inp) ≤
              cfg.maintenanceMaxWritesPerTick := by
          refine ⟨fun h => h.backfill, fun h => ⟨h, fun hDue hCovered => absurd ?_ hStays⟩⟩
          simp [hDue, hLacking, hCovered]
        rw [hFits]
        split
        · refine Iff.trans (accounts_iff_of_kept hLength rfl rfl rfl (by simp)) ?_
          omega
        · refine Iff.trans (accounts_iff_of_kept hLength rfl rfl rfl (by simp)) ?_
          omega

end Run

/-- Ten days after the start, in one tick each: with one write, a batch deletes two jobs; with one
batch of one row, two rate limits are deleted and one is reported; with one write, a job is
deleted, and the prune is finished with a stale rate limit left. -/
theorem runScheduledMaintenance_not_accounted :
    let old : DoneJob := ⟨true, 0, some 0⟩
    let inp : MaintenanceInput := { nowMs := 10 * msPerDay }
    let jobs : Tables := ⟨[old, old], [], [], []⟩
    let rateLimits : Tables := ⟨[], [("a", 0), ("b", 0)], [], []⟩
    let both : Tables := ⟨[old], [("a", 0)], [], []⟩
    let oneWrite : MaintenanceConfig := { maintenanceMaxWritesPerTick := 1 }
    let oneRow : MaintenanceConfig :=
      { rateLimitPruneBatchSize := 1, rateLimitPruneMaxBatchesPerRun := 1 }
    ¬ Accounts oneWrite inp.nowMs jobs (runScheduledMaintenance oneWrite inp { tables := jobs }) ∧
      ¬ Accounts oneRow inp.nowMs rateLimits
        (runScheduledMaintenance oneRow inp { tables := rateLimits }) ∧
      ¬ Accounts oneWrite inp.nowMs both
        (runScheduledMaintenance oneWrite inp { tables := both }) := by
  refine ⟨fun h => ?_, fun h => ?_, fun h => ?_⟩
  · exact absurd h.budget (by decide)
  · exact absurd h.rateLimits (by decide +kernel)
  · exact absurd (h.finished (10 * msPerDay) (by decide)).rateLimits (by decide)

end Bloodhound.Ops.Maintenance
