import Bloodhound.Lib.Memory
import Bloodhound.Store.Counters

/-!
# The scheduler row and its cached copy

The methods of `store.ts` that write the row of `scheduler_state`, with all its columns, and the copy
of the row that a store keeps in memory. The clock, and what the queries of other tables return, are
arguments of the methods; a JSON text is one value. The numbers of the row are natural numbers, and
`btc_usd_price` and `last_completed_job_duration_ms` are rational numbers or null.
-/

namespace Bloodhound.SchedulerCache

open Indexer Store
open Journal (Statement exec)
open Journal.Op (run query mem step when)

/-! ## The row -/

inductive IntColumn where
  | apiThresholdCount | esploraThresholdCount | mempoolThresholdCount
  | esploraStrikeCount | mempoolStrikeCount
  | queueSchedulingPaused | backfillHealAuditIndex | hackerPollIndex | maintenanceCronCounter
  | rateLimitMs | cronIndexerPaused
  | d1RowsReadTotal | d1RowsWrittenTotal | workersRequestsTotal
  | d1RowsReadCron | d1RowsWrittenCron | workersRequestsCron
  | d1RowsReadOverhead | d1RowsWrittenOverhead
  | maintenancePrunePending
  | crawlPendingCount | pendingJobCount
  | activeExpandCount | activeBackfillCount | activeAuditCount | activeProcessTxCount
  | syncSnapshotDirty | monitorSnapshotDirty
  | downstreamPollDueCount | downstreamPollMaxDepth | downstreamPollIntervalSec
  | downstreamPollMinExpandSats
  | totalInSats | totalOutSats
  | victimCount | hackerActiveCount | crawlExpandedCount | crawlMaxHopReached
  | downstreamTreeCount | downstreamTreeMaxDepth
  deriving DecidableEq

inductive RealColumn where
  | btcUsdPrice | lastCompletedJobDurationMs
  deriving DecidableEq

inductive TextColumn where
  | nextProviderCallAt | lastProviderUsed | lastProviderSuccessAt
  | lastApiThresholdAt | apiThresholdDayUtc | lastEsploraThresholdAt | lastMempoolThresholdAt
  | esploraRetryAfterAt | mempoolRetryAfterAt
  | btcUsdPriceAt | btcUsdRefreshAttemptAt | tickLeaseUntil
  | d1ReadRetryAfterAt | d1WriteRetryAfterAt
  | recentHackersJson | quotaDayUtc | flaggedHackersCacheJson | flaggedHackersCacheAt
  | syncSnapshotJson | syncSnapshotAt
  | lastCompletedJobAt | lastCompletedJobType | lastDoneJobsPrunedAt | lastHousekeepingAt
  | maintenanceRunJson | downstreamPollDueAt | hackStatsJson | hackStatsDayUtc
  deriving DecidableEq

/-- A row of `scheduler_state`. -/
structure SchedulerRow where
  int : IntColumn → Nat
  real : RealColumn → Option Rat
  text : TextColumn → Option String

inductive ChainApiProviderId where
  | esplora | mempool
  deriving DecidableEq

/-- A value for a column. -/
inductive Assignment where
  | int (column : IntColumn) (value : Nat)
  | real (column : RealColumn) (value : Option Rat)
  | text (column : TextColumn) (value : Option String)

def SchedulerRow.set (row : SchedulerRow) : Assignment → SchedulerRow
  | .int column value => { row with int := Function.update row.int column value }
  | .real column value => { row with real := Function.update row.real column value }
  | .text column value => { row with text := Function.update row.text column value }

def SchedulerRow.assign (row : SchedulerRow) (data : List Assignment) : SchedulerRow :=
  data.foldl SchedulerRow.set row

/-- `UPDATE scheduler_state SET … WHERE id = 1 AND …`: the values are those of the row before. -/
structure Update where
  set : SchedulerRow → List Assignment
  matching : SchedulerRow → Bool := fun _ => true

def Update.apply (u : Update) (row : SchedulerRow) : SchedulerRow :=
  if u.matching row then row.assign (u.set row) else row

instance : Statement Update (Option SchedulerRow) := ⟨fun u row => row.map u.apply⟩

/-- `MAX(0, column + delta)`, and `Math.max(0, current + delta)`. -/
def clampedSum (n : Nat) (delta : Int) : Nat := (max 0 (n + delta)).toNat

/-! ## The copy -/

/-- The memory of a store: `undefined` is nothing, `null` is `some none`. -/
structure Memory where
  schedulerStateCache : Option (Option SchedulerRow) := none

abbrev CacheM : Type → Type := Journal.Op Update (Option SchedulerRow) Memory Err

/-- Change the copy, where there is a row in it. -/
def Memory.change (f : SchedulerRow → SchedulerRow) (m : Memory) : Memory :=
  match m.schedulerStateCache with
  | some (some row) => { m with schedulerStateCache := some (some (f row)) }
  | _ => m

def clearSchedulerStateCache : CacheM Unit := mem fun m => ((), { m with schedulerStateCache := none })

def getSchedulerState : CacheM (Option SchedulerRow) := do
  let cached ← mem fun m => (m.schedulerStateCache, m)
  match cached with
  | some row => pure row
  | none => do
    let row ← query fun row => row
    mem fun m => (row, { m with schedulerStateCache := some row })

def patchSchedulerCache (data : List Assignment) : CacheM Unit :=
  mem fun m => ((), m.change fun row => row.assign data)

def bumpSchedulerCache (field : IntColumn) (delta : Int) : CacheM Unit :=
  when (delta ≠ 0) (mem fun m => ((), m.change fun row =>
    row.assign [.int field (clampedSum (row.int field) delta)]))

structure QuotaAmounts where
  d1RowsReadTotal : Nat := 0
  d1RowsWrittenTotal : Nat := 0
  workersRequestsTotal : Nat := 0
  d1RowsReadCron : Nat := 0
  d1RowsWrittenCron : Nat := 0
  workersRequestsCron : Nat := 0
  d1RowsReadOverhead : Nat := 0
  d1RowsWrittenOverhead : Nat := 0

def QuotaAmounts.assignments (amounts : QuotaAmounts) (row : SchedulerRow) : List Assignment := [
  .int .d1RowsReadTotal (row.int .d1RowsReadTotal + amounts.d1RowsReadTotal),
  .int .d1RowsWrittenTotal (row.int .d1RowsWrittenTotal + amounts.d1RowsWrittenTotal),
  .int .workersRequestsTotal (row.int .workersRequestsTotal + amounts.workersRequestsTotal),
  .int .d1RowsReadCron (row.int .d1RowsReadCron + amounts.d1RowsReadCron),
  .int .d1RowsWrittenCron (row.int .d1RowsWrittenCron + amounts.d1RowsWrittenCron),
  .int .workersRequestsCron (row.int .workersRequestsCron + amounts.workersRequestsCron),
  .int .d1RowsReadOverhead (row.int .d1RowsReadOverhead + amounts.d1RowsReadOverhead),
  .int .d1RowsWrittenOverhead (row.int .d1RowsWrittenOverhead + amounts.d1RowsWrittenOverhead)]

def addSchedulerQuotaCache (amounts : QuotaAmounts) : CacheM Unit :=
  mem fun m => ((), m.change fun row => row.assign (amounts.assignments row))

/-- `state?.column ?? 0`. -/
def intOf (state : Option SchedulerRow) (column : IntColumn) : Nat := state.elim 0 (·.int column)

/-- `state?.column`. -/
def textOf (state : Option SchedulerRow) (column : TextColumn) : Option String := state.bind (·.text column)

/-! ## Absolute writes -/

def updateSchedulerState (data : List Assignment) : CacheM Unit := do
  run { set := fun _ => data }
  patchSchedulerCache data

def setBtcUsdPrice (usd : Rat) (at_ : String) : CacheM Unit :=
  updateSchedulerState [.real .btcUsdPrice (some usd), .text .btcUsdPriceAt (some at_)]

def setBtcUsdRefreshAttemptAt (at_ : String) : CacheM Unit :=
  updateSchedulerState [.text .btcUsdRefreshAttemptAt (some at_)]

def setCronIndexerPaused (paused : Bool) : CacheM Unit :=
  updateSchedulerState [.int .cronIndexerPaused paused.toNat]

def setQueueSchedulingPaused (paused : Bool) : CacheM Unit :=
  updateSchedulerState [.int .queueSchedulingPaused paused.toNat]

def invalidateFlaggedHackersCache : CacheM Unit :=
  updateSchedulerState [.text .flaggedHackersCacheJson none, .text .flaggedHackersCacheAt none]

def refreshFlaggedHackersCache (rowsJson at_ : String) : CacheM Unit :=
  updateSchedulerState [.text .flaggedHackersCacheJson (some rowsJson), .text .flaggedHackersCacheAt (some at_)]

def setD1QuotaPaused (kind : D1QuotaKind) (retryAt : String) : CacheM Unit :=
  match kind with
  | .read => updateSchedulerState [.text .d1ReadRetryAfterAt (some retryAt)]
  | .write => updateSchedulerState [.text .d1WriteRetryAfterAt (some retryAt)]

def setBackfillHealAuditIndex (index : Nat) : CacheM Unit :=
  updateSchedulerState [.int .backfillHealAuditIndex index]

def setHackerPollIndex (index : Nat) : CacheM Unit := updateSchedulerState [.int .hackerPollIndex index]

def clearProviderStrike (provider : ChainApiProviderId) : CacheM Unit :=
  match provider with
  | .esplora => updateSchedulerState [.int .esploraStrikeCount 0, .text .esploraRetryAfterAt none]
  | .mempool => updateSchedulerState [.int .mempoolStrikeCount 0, .text .mempoolRetryAfterAt none]

def deleteActiveJobs : CacheM Unit :=
  updateSchedulerState [.int .pendingJobCount 0, .int .activeExpandCount 0, .int .activeBackfillCount 0,
    .int .activeAuditCount 0, .int .activeProcessTxCount 0]

/-- `markJobSnapshotDirty` and `markMonitorSnapshotDirty`. -/
def markDirty (column : IntColumn) : CacheM Unit := do
  run { set := fun _ => [.int column 1] }
  patchSchedulerCache [.int column 1]

def markJobSnapshotDirty : CacheM Unit := markDirty .syncSnapshotDirty

def markMonitorSnapshotDirty : CacheM Unit := markDirty .monitorSnapshotDirty

def markSyncSnapshotDirty : CacheM Unit := do
  markJobSnapshotDirty
  markMonitorSnapshotDirty

/-! ## Relative writes -/

/-- The body of the adjustments of one counter. -/
def adjustCount (column : IntColumn) (delta : Int) : CacheM Unit :=
  when (delta ≠ 0) do
    run { set := fun row => [.int column (clampedSum (row.int column) delta)] }
    bumpSchedulerCache column delta

def adjustCrawlPendingCount (delta : Int) : CacheM Unit := adjustCount .crawlPendingCount delta

def adjustPendingJobCount (delta : Int) : CacheM Unit := adjustCount .pendingJobCount delta

def cachedActiveJobCountField : JobType → Option IntColumn
  | .expandDownstream => some .activeExpandCount
  | .backfillHackerAddress => some .activeBackfillCount
  | .auditHackerBackfill => some .activeAuditCount
  | .processTx => some .activeProcessTxCount
  | _ => none

def adjustActiveJobCount (type : JobType) (delta : Int) : CacheM Unit :=
  match cachedActiveJobCountField type with
  | none => pure ()
  | some column => adjustCount column delta

def afterJobInserted (type : JobType) : CacheM Unit := do
  adjustPendingJobCount 1
  adjustActiveJobCount type 1

inductive SchedulerCounter where
  | victimCount | hackerActiveCount | crawlExpandedCount | downstreamTreeCount
  deriving DecidableEq

def SchedulerCounter.column : SchedulerCounter → IntColumn
  | .victimCount => .victimCount
  | .hackerActiveCount => .hackerActiveCount
  | .crawlExpandedCount => .crawlExpandedCount
  | .downstreamTreeCount => .downstreamTreeCount

def adjustSchedulerCounter (field : SchedulerCounter) (delta : Int) : CacheM Unit :=
  adjustCount field.column delta

def adjustEdgeTotalsCounters (totalInDelta totalOutDelta : Int) : CacheM Unit :=
  when (totalInDelta ≠ 0 ∨ totalOutDelta ≠ 0) do
    run { set := fun row => [
      .int .totalInSats (clampedSum (row.int .totalInSats) totalInDelta),
      .int .totalOutSats (clampedSum (row.int .totalOutSats) totalOutDelta)] }
    bumpSchedulerCache .totalInSats totalInDelta
    bumpSchedulerCache .totalOutSats totalOutDelta

def incrementMaintenanceCronCounter : CacheM Nat := do
  run { set := fun row => [.int .maintenanceCronCounter (row.int .maintenanceCronCounter + 1)] }
  mem fun m => ((), m.change fun row =>
    row.assign [.int .maintenanceCronCounter (row.int .maintenanceCronCounter + 1)])
  let state ← getSchedulerState
  pure (intOf state .maintenanceCronCounter)

/-- The next index of the rotation, as `claimNextHackerPollIndex` writes it. -/
def advanceHackerPoll (hackerCount : Nat) : Update where
  set row := [.int .hackerPollIndex ((row.int .hackerPollIndex + 1) % hackerCount)]

/-- `RETURNING` reads the row that the update has left. -/
def claimNextHackerPollIndex (hackerCount : Nat) : CacheM Nat :=
  if hackerCount = 0 then pure 0
  else do
    let used ← step [advanceHackerPoll hackerCount] fun row => (row.map (advanceHackerPoll hackerCount).apply).map
      fun row => (row.int .hackerPollIndex + hackerCount - 1) % hackerCount
    match used with
    | some used => do
      patchSchedulerCache [.int .hackerPollIndex ((used + 1) % hackerCount)]
      pure used
    | none => do
      clearSchedulerStateCache
      let state ← getSchedulerState
      pure (intOf state .hackerPollIndex % hackerCount)

/-! ## Conditional writes -/

/-- A conditional update: whether it changed the row. -/
def runChanged (u : Update) : CacheM Bool := step [u] fun row => row.any u.matching

def tryAcquireTickLease (nowIso untilIso : String) : CacheM Bool := do
  let acquired ← runChanged {
    set := fun _ => [.text .tickLeaseUntil (some untilIso)]
    matching := fun row => (row.text .tickLeaseUntil).all (· < nowIso) }
  when (acquired = true) (patchSchedulerCache [.text .tickLeaseUntil (some untilIso)])
  pure acquired

def clearTickLease : CacheM Unit := do
  run { set := fun _ => [.text .tickLeaseUntil none] }
  patchSchedulerCache [.text .tickLeaseUntil none]

def tryClaimHackStatsDay (today : String) : CacheM Bool := do
  let claimed ← runChanged {
    set := fun _ => [.text .hackStatsDayUtc (some today)]
    matching := fun row => (row.text .hackStatsDayUtc).all (· ≠ today) }
  when (claimed = true) (patchSchedulerCache [.text .hackStatsDayUtc (some today)])
  pure claimed

def rollbackHackStatsDayClaim (previousDay : Option String) : CacheM Unit :=
  updateSchedulerState [.text .hackStatsDayUtc previousDay]

/-- The `try` block of `maybeRefreshHackStatsDaily`. -/
def refreshHackStatsDaily (today hacksJson : String) : CacheM Bool := do
  let state ← getSchedulerState
  if textOf state .hackStatsDayUtc = some today then pure false
  else do
    let claimed ← tryClaimHackStatsDay today
    if claimed then
      Journal.Op.tryCatch (do
          query fun _ => ()
          updateSchedulerState [.text .hackStatsJson (some hacksJson)]
          pure true) fun e => do
        rollbackHackStatsDayClaim (textOf state .hackStatsDayUtc)
        Journal.Op.throw e
    else pure false

def maybeRefreshHackStatsDaily (today hacksJson : String) : CacheM Bool :=
  (refreshHackStatsDaily today hacksJson).tryCatch fun _ => pure false

/-! ## Quota -/

def getQuotaSnapshot (today : String) : CacheM Unit := do
  let state ← getSchedulerState
  when (state.isSome ∧ textOf state .quotaDayUtc ≠ some today)
    (updateSchedulerState [.text .quotaDayUtc (some today),
      .int .d1RowsReadTotal 0, .int .d1RowsWrittenTotal 0, .int .workersRequestsTotal 0,
      .int .d1RowsReadCron 0, .int .d1RowsWrittenCron 0, .int .workersRequestsCron 0,
      .int .d1RowsReadOverhead 0, .int .d1RowsWrittenOverhead 0])

def applyOverheadToSchedulerState (overheadReads overheadWrites : Nat) : CacheM Unit :=
  when (overheadReads ≠ 0 ∨ overheadWrites ≠ 0) do
    run { set := fun row => [
      .int .d1RowsReadTotal (row.int .d1RowsReadTotal + overheadReads),
      .int .d1RowsWrittenTotal (row.int .d1RowsWrittenTotal + overheadWrites),
      .int .d1RowsReadOverhead (row.int .d1RowsReadOverhead + overheadReads),
      .int .d1RowsWrittenOverhead (row.int .d1RowsWrittenOverhead + overheadWrites)] }
    addSchedulerQuotaCache {
      d1RowsReadTotal := overheadReads
      d1RowsWrittenTotal := overheadWrites
      d1RowsReadOverhead := overheadReads
      d1RowsWrittenOverhead := overheadWrites }

inductive UsageSource where
  | cron | api
  deriving DecidableEq

/-- What a meter has counted. -/
structure MeteredRows where
  reads : Nat := 0
  writes : Nat := 0

/-- The two updates of `flushQuotaUsage`. -/
def addQuotaUsage (source : UsageSource) (delta overhead : MeteredRows) (requests : Nat) : CacheM Unit :=
  let totalReads := delta.reads + overhead.reads
  let totalWrites := delta.writes + overhead.writes
  match source with
  | .cron => do
    run { set := fun row => [
      .int .d1RowsReadTotal (row.int .d1RowsReadTotal + totalReads),
      .int .d1RowsWrittenTotal (row.int .d1RowsWrittenTotal + totalWrites),
      .int .workersRequestsTotal (row.int .workersRequestsTotal + requests),
      .int .d1RowsReadCron (row.int .d1RowsReadCron + delta.reads),
      .int .d1RowsWrittenCron (row.int .d1RowsWrittenCron + delta.writes),
      .int .workersRequestsCron (row.int .workersRequestsCron + requests),
      .int .d1RowsReadOverhead (row.int .d1RowsReadOverhead + overhead.reads),
      .int .d1RowsWrittenOverhead (row.int .d1RowsWrittenOverhead + overhead.writes)] }
    addSchedulerQuotaCache {
      d1RowsReadTotal := totalReads
      d1RowsWrittenTotal := totalWrites
      workersRequestsTotal := requests
      d1RowsReadCron := delta.reads
      d1RowsWrittenCron := delta.writes
      workersRequestsCron := requests
      d1RowsReadOverhead := overhead.reads
      d1RowsWrittenOverhead := overhead.writes }
  | .api => do
    run { set := fun row => [
      .int .d1RowsReadTotal (row.int .d1RowsReadTotal + totalReads),
      .int .d1RowsWrittenTotal (row.int .d1RowsWrittenTotal + totalWrites),
      .int .workersRequestsTotal (row.int .workersRequestsTotal + requests),
      .int .d1RowsReadOverhead (row.int .d1RowsReadOverhead + overhead.reads),
      .int .d1RowsWrittenOverhead (row.int .d1RowsWrittenOverhead + overhead.writes)] }
    addSchedulerQuotaCache {
      d1RowsReadTotal := totalReads
      d1RowsWrittenTotal := totalWrites
      workersRequestsTotal := requests
      d1RowsReadOverhead := overhead.reads
      d1RowsWrittenOverhead := overhead.writes }

/-- The meter is drained before the update and after it. -/
def flushQuotaUsage (source : UsageSource) (delta : MeteredRows) (requests : Nat) (today : String)
    (overhead tailOverhead : MeteredRows) : CacheM Unit :=
  when (delta.reads ≠ 0 ∨ delta.writes ≠ 0 ∨ requests ≠ 0) do
    getQuotaSnapshot today
    addQuotaUsage source delta overhead requests
    when (0 < tailOverhead.reads ∨ 0 < tailOverhead.writes)
      (applyOverheadToSchedulerState tailOverhead.reads tailOverhead.writes)

/-! ## Dates -/

section Dates

-- `new Date(text).getTime()`; nothing where the text is not a date.
variable (getTime : String → Option Int)

def isCacheFresh (cacheAt : Option String) (maxAgeSec : Nat) (nowMs : Int) : Bool :=
  (cacheAt.bind getTime).any fun atMs => nowMs - atMs ≤ maxAgeSec * 1000

def isExpired (retryAfterAt : Option String) (nowMs : Int) : Bool :=
  (retryAfterAt.bind getTime).any (· ≤ nowMs)

def clearExpiredD1QuotaPause (nowMs : Int) : CacheM Unit := do
  let state ← getSchedulerState
  let updates : List Assignment :=
    (if isExpired getTime (textOf state .d1ReadRetryAfterAt) nowMs then [.text .d1ReadRetryAfterAt none]
      else []) ++
    (if isExpired getTime (textOf state .d1WriteRetryAfterAt) nowMs then [.text .d1WriteRetryAfterAt none]
      else [])
  when (updates ≠ []) (updateSchedulerState updates)

def jobDurationMs (startedAt : Option String) (completedAt : String) : Option Rat :=
  match startedAt.bind getTime, getTime completedAt with
  | some startMs, some endMs => if endMs < startMs then none else some (endMs - startMs)
  | _, _ => none

/-- A job that is done, as far as `scheduler_state` remembers it. -/
structure CompletedJob where
  type : String
  at_ : String
  startedAt : Option String

def CompletedJob.assignments (job : CompletedJob) : List Assignment :=
  [.text .lastCompletedJobAt (some job.at_), .text .lastCompletedJobType (some job.type),
    .real .lastCompletedJobDurationMs (jobDurationMs getTime job.startedAt job.at_)]

def maybeUpdateLastCompletedJobCache (job : CompletedJob) : CacheM Unit := do
  let state ← getSchedulerState
  let later : Bool := match (textOf state .lastCompletedJobAt).bind getTime, getTime job.at_ with
    | some cachedMs, some atMs => atMs ≤ cachedMs
    | _, _ => false
  when (later = false) (updateSchedulerState (job.assignments getTime))

/-- What the query of the last done job returns is an argument. -/
def seedLastCompletedJobCache (lastDoneJob : Option CompletedJob) : CacheM Bool := do
  let state ← getSchedulerState
  match textOf state .lastCompletedJobAt, lastDoneJob with
  | none, some job => do
    updateSchedulerState (job.assignments getTime)
    pure true
  | _, _ => pure false

/-! ## Rate limits -/

/-- `ensureApiThresholdDay` without a preloaded row. -/
def ensureApiThresholdDay (today : String) : CacheM (Option SchedulerRow) := do
  let state ← getSchedulerState
  match state with
  | none => pure none
  | some row =>
    if row.text .apiThresholdDayUtc = some today then pure (some row)
    else do
      let zeroed : List Assignment := [.text .apiThresholdDayUtc (some today), .int .apiThresholdCount 0,
        .int .esploraThresholdCount 0, .int .mempoolThresholdCount 0]
      updateSchedulerState zeroed
      pure (some (row.assign zeroed))

def recordApiThreshold (provider : ChainApiProviderId) (retryAfterAt : String) (strikeCount : Nat)
    (today ts : String) : CacheM Unit := do
  let state ← ensureApiThresholdDay today
  let updates : List Assignment :=
    [.text .lastApiThresholdAt (some ts), .int .apiThresholdCount (intOf state .apiThresholdCount + 1)]
  match provider with
  | .esplora => updateSchedulerState (updates ++ [.text .lastEsploraThresholdAt (some ts),
      .int .esploraThresholdCount (intOf state .esploraThresholdCount + 1),
      .int .esploraStrikeCount strikeCount, .text .esploraRetryAfterAt (some retryAfterAt)])
  | .mempool => updateSchedulerState (updates ++ [.text .lastMempoolThresholdAt (some ts),
      .int .mempoolThresholdCount (intOf state .mempoolThresholdCount + 1),
      .int .mempoolStrikeCount strikeCount, .text .mempoolRetryAfterAt (some retryAfterAt)])

/-! ## The monitor -/

/-- The parameters for which the due polls are counted. -/
structure PollParams where
  maxDepth : Nat
  minIntervalSec : Nat
  minExpandSats : Nat

def PollParams.cached (params : PollParams) (state : Option SchedulerRow) : Bool :=
  state.any fun row => row.int .downstreamPollMaxDepth = params.maxDepth &&
    row.int .downstreamPollIntervalSec = params.minIntervalSec &&
    row.int .downstreamPollMinExpandSats = params.minExpandSats

/-- The count of due polls in the row is for these parameters and up to date. -/
def PollParams.fresh (params : PollParams) (state : Option SchedulerRow) (nowMs : Int) : Bool :=
  params.cached state &&
    isCacheFresh getTime (textOf state .downstreamPollDueAt) params.minIntervalSec nowMs &&
    intOf state .monitorSnapshotDirty = 0

def adjustPollDueCountDelta (delta : Int) (params : PollParams) (nowMs : Int) (polledAt : String) :
    CacheM Bool :=
  if delta = 0 then pure true
  else do
    let state ← getSchedulerState
    if params.fresh getTime state nowMs then do
      run { set := fun row => [
        .int .downstreamPollDueCount (clampedSum (row.int .downstreamPollDueCount) delta),
        .text .downstreamPollDueAt (some polledAt)] }
      bumpSchedulerCache .downstreamPollDueCount delta
      patchSchedulerCache [.text .downstreamPollDueAt (some polledAt)]
      pure true
    else pure false

def maybeMarkMonitorSnapshotDirty (before after : Option AddressRow) (nowMs : Int) (polledAt : String) :
    CacheM Unit := do
  let state ← getSchedulerState
  let maxDepth := intOf state .downstreamTreeMaxDepth
  let minIntervalSec := intOf state .downstreamPollIntervalSec
  let minExpandSats := intOf state .downstreamPollMinExpandSats
  let wasPoll := before.any (·.pollEligible maxDepth minExpandSats)
  let isPoll := after.any (·.pollEligible maxDepth minExpandSats)
  when (0 < maxDepth ∧ wasPoll ≠ isPoll ∧ 0 < minIntervalSec) do
    let pollAdjusted ← adjustPollDueCountDelta getTime (if isPoll then 1 else -1)
      { maxDepth, minIntervalSec, minExpandSats } nowMs polledAt
    when (pollAdjusted = false) markMonitorSnapshotDirty

def reconcileDownstreamTreeCount (maxDepth count : Nat) : CacheM Unit :=
  updateSchedulerState [.int .downstreamTreeCount count, .int .downstreamTreeMaxDepth maxDepth]

def ensureDownstreamTreeDepth (maxDepth count : Nat) : CacheM Unit := do
  let state ← getSchedulerState
  when (state.all (·.int .downstreamTreeMaxDepth ≠ maxDepth) = true)
    (reconcileDownstreamTreeCount maxDepth count)

def countDownstreamTreeNodes (maxDepth count : Nat) : CacheM Unit :=
  ensureDownstreamTreeDepth maxDepth count

def ensurePollDueCacheParams (params : PollParams) : CacheM Unit := do
  let state ← getSchedulerState
  when (¬ (intOf state .downstreamPollMaxDepth = params.maxDepth ∧
      intOf state .downstreamPollIntervalSec = params.minIntervalSec ∧
      intOf state .downstreamPollMinExpandSats = params.minExpandSats)) do
    updateSchedulerState [.int .downstreamPollMaxDepth params.maxDepth,
      .int .downstreamPollIntervalSec params.minIntervalSec,
      .int .downstreamPollMinExpandSats params.minExpandSats]
    markMonitorSnapshotDirty

/-- What the two queries of the monitor count, and the times of the check and of the write. -/
structure MonitorInputs where
  treeNodeCount : Nat
  downstreamPollDueCount : Nat
  nowMs : Int
  at_ : String

def getDownstreamMonitorStatsCached (params : PollParams) (forceRefresh : Bool) (inputs : MonitorInputs) :
    CacheM Unit := do
  countDownstreamTreeNodes params.maxDepth inputs.treeNodeCount
  let state ← getSchedulerState
  when ((params.fresh getTime state inputs.nowMs && !forceRefresh) = false)
    (updateSchedulerState [.int .downstreamPollDueCount inputs.downstreamPollDueCount,
      .text .downstreamPollDueAt (some inputs.at_), .int .downstreamPollMaxDepth params.maxDepth,
      .int .downstreamPollIntervalSec params.minIntervalSec,
      .int .downstreamPollMinExpandSats params.minExpandSats, .int .monitorSnapshotDirty 0])

/-! ## The snapshot -/

/-- The text of the new snapshot, which holds more than the row does, and its time. -/
structure SnapshotInputs where
  monitor : MonitorInputs
  snapshotJson : String
  at_ : String

/-- `parseSyncSnapshot`: the time of the snapshot in a text, and whether it has the same parameters. -/
structure ParsedSnapshot where
  at_ : String
  paramsMatch : Bool

def refreshSyncSnapshot (params : PollParams) (inputs : SnapshotInputs) : CacheM Unit := do
  let state ← getSchedulerState
  let _ ← getSchedulerState
  getDownstreamMonitorStatsCached getTime params (intOf state .monitorSnapshotDirty ≠ 0) inputs.monitor
  let _ ← getSchedulerState
  updateSchedulerState [.text .syncSnapshotJson (some inputs.snapshotJson),
    .text .syncSnapshotAt (some inputs.at_), .int .syncSnapshotDirty 0, .int .monitorSnapshotDirty 0]

def maybeRefreshSyncSnapshot (parse : String → Option ParsedSnapshot) (params : PollParams)
    (maxAgeSec : Nat) (nowMs : Int) (inputs : SnapshotInputs) : CacheM Unit := do
  let state ← getSchedulerState
  let parsed := (textOf state .syncSnapshotJson).bind parse
  let upToDate : Bool := parsed.any fun snapshot =>
    isCacheFresh getTime ((textOf state .syncSnapshotAt).or (some snapshot.at_)) maxAgeSec nowMs &&
      snapshot.paramsMatch && intOf state .syncSnapshotDirty = 0 && intOf state .monitorSnapshotDirty = 0
  when (upToDate = false) (refreshSyncSnapshot getTime params inputs)

end Dates

/-! ## Statistics -/

/-- The part of `applyAddressStatsDelta` on the row. -/
def applyAddressStatsDelta (before : Option AddressRow) (after : AddressRow) : CacheM Unit := do
  let state ← getSchedulerState
  let maxDepth := intOf state .downstreamTreeMaxDepth
  let adjustOn (field : SchedulerCounter) (was is : Bool) : CacheM Unit :=
    when (was ≠ is) (adjustSchedulerCounter field (if is then 1 else -1))
  adjustOn .victimCount (before.any (·.role = .victim)) (after.role = .victim)
  adjustOn .crawlExpandedCount (before.any (isExpandedStatus ·.expandStatus))
    (isExpandedStatus after.expandStatus)
  when (0 < maxDepth) (adjustOn .downstreamTreeCount
    (before.any fun row => isDownstreamTreeNode row.role row.hopFromHacker maxDepth)
    (isDownstreamTreeNode after.role after.hopFromHacker maxDepth))
  adjustOn .hackerActiveCount
    (before.any fun row => isHackerActive row.isFlaggedHacker row.totalReceivedSats)
    (isHackerActive after.isFlaggedHacker after.totalReceivedSats)
  when (after.role = .downstream ∧ after.hopFromHacker.any (intOf state .crawlMaxHopReached < ·) = true)
    (updateSchedulerState [.int .crawlMaxHopReached (after.hopFromHacker.getD 0)])

def reconcileCrawlPendingCount (count : Nat) : CacheM Unit :=
  updateSchedulerState [.int .crawlPendingCount count]

def reconcilePendingJobCount (count : Nat) : CacheM Unit :=
  updateSchedulerState [.int .pendingJobCount count]

/-- The active jobs of the types that are counted. -/
structure ActiveJobCounts where
  expand : Nat
  backfill : Nat
  audit : Nat
  processTx : Nat

def reconcileActiveJobCounts (counts : ActiveJobCounts) : CacheM Unit := do
  run { set := fun _ => [.int .activeExpandCount counts.expand, .int .activeBackfillCount counts.backfill,
    .int .activeAuditCount counts.audit, .int .activeProcessTxCount counts.processTx] }
  clearSchedulerStateCache

def reconcileCheapCounters (crawlPending pendingJob : Nat) (counts : ActiveJobCounts) : CacheM Unit := do
  reconcileCrawlPendingCount crawlPending
  reconcilePendingJobCount pendingJob
  reconcileActiveJobCounts counts

/-- What the queries of `reconcileStatsCounters` count. -/
structure StatsCounts where
  victims : Nat
  hackers : Nat
  expanded : Nat
  maxHop : Option Nat
  tree : Nat → Nat

def reconcileStatsCounters (crawlPending pendingJob : Nat) (active : ActiveJobCounts)
    (counts : StatsCounts) : CacheM Unit := do
  reconcileCheapCounters crawlPending pendingJob active
  let state ← getSchedulerState
  let maxDepth := (state.map (·.int .downstreamTreeMaxDepth)).getD 10
  updateSchedulerState [.int .victimCount counts.victims, .int .hackerActiveCount counts.hackers,
    .int .crawlExpandedCount counts.expanded, .int .crawlMaxHopReached (counts.maxHop.getD 0),
    .int .downstreamTreeCount (counts.tree maxDepth), .int .downstreamTreeMaxDepth maxDepth]

/-! ## Recent hackers -/

/-- `getRecentHackersActivity`, without the parsing. -/
def getRecentHackersActivity : CacheM (Option String) := do
  let cached ← mem fun m => (m.schedulerStateCache, m)
  match cached with
  | some row => pure (textOf row .recentHackersJson)
  | none => query fun row => textOf row .recentHackersJson

/-- `flushRecentHackerActivity`; `merge` gives the text that a buffer makes of the one in the row, and
nothing where it is the same. -/
def flushRecentHackerActivity (merge : Option String → Option String) : CacheM Bool := do
  let existing ← getRecentHackersActivity
  match merge existing with
  | none => pure false
  | some recentHackersJson => do
    run { set := fun _ => [.text .recentHackersJson (some recentHackersJson)] }
    patchSchedulerCache [.text .recentHackersJson (some recentHackersJson)]
    pure true

end Bloodhound.SchedulerCache
