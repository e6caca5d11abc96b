import Bloodhound.Indexer.CronRequests

/-!
# The preview of the next cron pass

`previewNextCronEnqueue` of `ops/queue.ts` against `scheduleDownstreamCrawl`. The preview lists what is
due and has no active job. The pass makes fewer requests of some kinds and others of other kinds, and
the queue may refuse them. `previewNextCron_iff` says when the two agree nevertheless.
-/

namespace Bloodhound.Ops

open Indexer Store Journal
open Indexer.Cron (tick status needsBackfill isComplete backfillPayload backfillRequest auditRequest
  refreshRequest pollRequest expandRequest pollDownstreamRequest queue expanded)

/-! ## The preview -/

structure NextCronPreview where
  expandDownstream : List (Address × Option ExpandStatus) := []
  pollDownstream : List Address := []
  syncColdcardwatch : Bool := false
  syncVercelTrackers : Bool := false
  syncBitqueryColdcard : Bool := false
  hackerMaintenance : Option (Address × List JobType) := none

/-- The jobs that a preview lists, in the order in which a pass enqueues jobs of their types. -/
def NextCronPreview.jobs (preview : NextCronPreview) : List JobKey :=
  (if preview.syncColdcardwatch then [(.syncColdcardwatch, none)] else []) ++
  (if preview.syncVercelTrackers then [(.syncVercelTrackers, none)] else []) ++
  (if preview.syncBitqueryColdcard then [(.syncBitqueryColdcard, none)] else []) ++
  preview.hackerMaintenance.toList.flatMap (fun m => m.2.map fun type => (type, some m.1)) ++
  preview.expandDownstream.map (fun e => (.expandDownstream, some e.1)) ++
  preview.pollDownstream.map fun address => (.pollDownstreamAddress, some address)

section Preview

variable (k : Cron) (lastSeenAt : Address → Nat) (db : Db)

def hasPendingJob (type : JobType) (address : Option Address) : Bool := db.jobs.hasActive [type] address

/-- `getDownstreamFrontier`: the pending addresses, those of few hops and not seen for long first. -/
def getDownstreamFrontier : List Address :=
  let config := k.env.config
  (((db.addresses.entries.filter fun e =>
    (e.2.role = .downstream || e.2.role = .hacker) && e.2.expandStatus = .pending &&
      (e.2.hopFromHacker.any fun hop => hop < config.maxCrawlDepth) &&
      (config.minExpandSats ≤ 0 || config.minExpandSats ≤ e.2.inboundSats)).insertionSort fun e e' =>
        toLex (e.2.hopFromHacker.getD 0, lastSeenAt e.1) ≤
          toLex (e'.2.hopFromHacker.getD 0, lastSeenAt e'.1)).take config.crawlEnqueuePerCron).map (·.1)

section Hacker

variable (h : FlaggedHacker)

/-- The local variables of `previewMaintainOneHacker`. -/
def backfillDue : Bool :=
  !hasPendingJob db .backfillHackerAddress (some h.address) &&
    !hasPendingJob db .auditHackerBackfill (some h.address) && needsBackfill db h

def auditDue : Bool :=
  !hasPendingJob db .backfillHackerAddress (some h.address) &&
    !hasPendingJob db .auditHackerBackfill (some h.address) && k.auditDue db h &&
    db.scheduler.counter .activeAudit < k.env.store.maxPendingAuditGlobal

def pollDue : Bool := k.pollDue db h && !hasPendingJob db .pollHackerAddress (some h.address)

def balanceStale : Bool := k.balanceStale h && !hasPendingJob db .refreshLiveBalance (some h.address)

/-- `shouldEnqueueRefreshLiveBalance`. -/
def refreshDue : Bool := balanceStale k db h && !pollDue k db h && !auditDue k db h

def previewMaintainOneHacker (throttled : Bool) : List JobType :=
  (if backfillDue db h then [.backfillHackerAddress] else []) ++
  (if auditDue k db h && !throttled then [.auditHackerBackfill] else []) ++
  if throttled then []
  else (if refreshDue k db h then [.refreshLiveBalance] else []) ++
    if pollDue k db h then [.pollHackerAddress] else []

end Hacker

/-- A synchronization is due and has no active job. -/
def previewSync (sync : Job × List SyncSource × Nat) : Bool :=
  k.syncDue db sync && !hasPendingJob db sync.1.type none

/-- The hacker whose maintenance a preview lists. -/
def previewHacker : Option FlaggedHacker :=
  if everyNCrons k.env.config.hackerMaintenanceEveryNCrons (tick db) then k.hackerAt db 0 else none

def previewNextCronEnqueue : NextCronPreview :=
  let config := k.env.config
  if k.rebuildActive db then {}
  else
    { syncColdcardwatch := previewSync k db
        (.syncColdcardwatch, [.coldcardwatch], config.coldcardwatchSyncIntervalSec)
      syncVercelTrackers := previewSync k db (.syncVercelTrackers,
        [.coldcardHackTracker, .coldcardSweepWatch], config.vercelTrackersSyncIntervalSec)
      syncBitqueryColdcard := previewSync k db
        (.syncBitqueryColdcard, [.bitqueryColdcard], config.bitqueryColdcardSyncIntervalSec)
      hackerMaintenance := (previewHacker k db).map fun h =>
        (h.address, previewMaintainOneHacker k db h (k.throttled db))
      expandDownstream := ((getDownstreamFrontier k lastSeenAt db).filter fun address =>
        !hasPendingJob db .expandDownstream (some address)).map fun address =>
          (address, (db.addresses.lookup address).map (·.expandStatus))
      pollDownstream := (listDownstreamForPoll config k.polls k.nowMs db).filter fun address =>
        !hasPendingJob db .pollDownstreamAddress (some address) }

end Preview

/-! ## When the preview holds -/

section Condition

variable (k : Cron) (low : BudgetLow) (lastSeenAt : Address → Nat) (db : Db)

/-- The number of jobs for which the queue has room, after some were inserted. -/
def room (n : Nat) : Nat :=
  if db.latched then 0 else (k.env.store.maxQueueDepth - (max (-1) db.depth + n)).toNat

/-- The number of expansions that the queue takes, after some jobs of other types were inserted. -/
def expandRoom (n : Nat) : Nat :=
  if k.env.store.maxPendingExpandPerAddress = 0 then 0
  else min (room k db n)
    (k.env.store.maxPendingExpandGlobal - max (-1) (db.scheduler.counter .activeExpand)).toNat

/-- The synchronizations that are due and have no active job. -/
def dueSyncs : List JobKey := (k.syncs.filter (previewSync k db)).map fun sync => (sync.1.type, none)

/-- The maintenance that is due and has no active job. -/
def dueMaintenance : List JobKey :=
  (previewHacker k db).toList.flatMap fun h =>
    (previewMaintainOneHacker k db h (k.throttled db)).map (·, some h.address)

def unqueued (type : JobType) (addresses : List Address) : List Address :=
  addresses.filter fun address => !hasPendingJob db type (some address)

/-- The queue takes the backfill of a hacker without an active job. -/
def backfillTaken (n : Nat) (h : FlaggedHacker) : Bool :=
  isIngestContinuation (.backfillHackerAddress (backfillPayload db h.address)) ||
    0 < room k db n && db.scheduler.counter .activeBackfill < k.env.store.maxPendingBackfillGlobal

/-- The tick makes the requests that the preview lists of a hacker, and the queue takes them. -/
structure MaintenanceFits (n : Nat) (h : FlaggedHacker) : Prop where
  runs : previewMaintainOneHacker k db h (k.throttled db) ≠ [] → low.maintenance = false
  backfill : backfillDue db h = true →
    (backfillPayload db h.address).address = h.address ∧ backfillTaken k db n h = true
  audit : auditDue k db h = true → k.throttled db = false → 0 < room k db n
  refresh : refreshDue k db h = true → k.throttled db = false → k.pollDue db h = false ∧
    k.auditDue db h = false ∧ (if backfillDue db h then 1 else 0) < room k db n
  poll : pollDue k db h = true → k.throttled db = false →
    (if backfillDue db h || auditDue k db h then 1 else 0) < room k db n

/-- The tick enqueues the OP_RETURN backfill. -/
def backfillsOpReturn (n : Nat) : Bool :=
  k.free low db && everyNCrons k.env.config.opReturnBackfillEveryNCrons (tick db) && k.accepts db &&
    !low.opReturn && (db.transactions.entries.any fun e => e.2.opReturnDisplay.isNone) &&
    !hasPendingJob db .backfillOpReturn none && 0 < room k db n

/-- The address of the backfill that the crawl step resumes after some jobs. -/
def resumed (keys : List JobKey) : Option Address :=
  if k.free low db then (k.crawled low db).bind fun h =>
    if k.resumes db keys h && takes k.env db keys (backfillRequest db h.address) then
      some (backfillPayload db h.address).address
    else none
  else none

/-- What the crawl step expands, of the addresses that it selects. -/
def expansions (n : Nat) : List Address :=
  if k.free low db then (unqueued db .expandDownstream ((k.crawled low db).toList.flatMap fun h =>
    k.candidates db h.address)).take (expandRoom k db n)
  else []

/-- What the tick polls, after the expansion of some addresses was queued. -/
def downstreamPolls (n : Nat) (addresses : List Address) : List Address :=
  if k.free low db then (unqueued db .pollDownstreamAddress
    (listDownstreamForPoll k.env.config k.polls k.nowMs (queue db addresses))).take (room k db n)
  else []

/-- The maintenance is as the preview lists it, and nothing is enqueued that it does not list; or the
crawl step resumes the one backfill that is listed, in place of the maintenance. -/
def MaintenanceMatches : Prop :=
  let syncs := dueSyncs k db
  let keys := syncs ++ dueMaintenance k db
  ((∀ h, previewHacker k db = some h → MaintenanceFits k low db syncs.length h) ∧
    backfillsOpReturn k low db keys.length = false ∧ resumed k low db keys = none) ∨
  ∃ h, previewHacker k db = some h ∧
    dueMaintenance k db = [(.backfillHackerAddress, some h.address)] ∧
    (low.maintenance = true ∨ backfillTaken k db syncs.length h = false) ∧
    backfillsOpReturn k low db syncs.length = false ∧ resumed k low db syncs = some h.address

/-- When a tick that is not blocked enqueues what the preview lists. -/
structure PassMatches : Prop where
  syncs : dueSyncs k db = [] ∨
    low.nonCritical = false ∧ k.accepts db = true ∧ (dueSyncs k db).length ≤ room k db 0
  maintenance : MaintenanceMatches k low db
  frontier : unqueued db .expandDownstream (getDownstreamFrontier k lastSeenAt db) =
    expansions k low db (dueSyncs k db ++ dueMaintenance k db).length
  polls : unqueued db .pollDownstreamAddress
      (listDownstreamForPoll k.env.config k.polls k.nowMs db) =
    downstreamPolls k low db ((dueSyncs k db ++ dueMaintenance k db).length +
      (unqueued db .expandDownstream (getDownstreamFrontier k lastSeenAt db)).length)
      (unqueued db .expandDownstream (getDownstreamFrontier k lastSeenAt db))

/-- Nothing is due that the preview lists. -/
structure NothingDue : Prop where
  syncs : dueSyncs k db = []
  maintenance : dueMaintenance k db = []
  frontier : unqueued db .expandDownstream (getDownstreamFrontier k lastSeenAt db) = []
  polls : unqueued db .pollDownstreamAddress
    (listDownstreamForPoll k.env.config k.polls k.nowMs db) = []

/-- When the preview lists what the next tick enqueues. -/
def PreviewHolds : Prop :=
  k.rebuildActive db = true ∨
    if k.writeBlocked db then NothingDue k lastSeenAt db else PassMatches k low lastSeenAt db

end Condition

end Bloodhound.Ops
