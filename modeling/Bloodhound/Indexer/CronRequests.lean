import Bloodhound.Lib.Gate
import Bloodhound.Indexer.Crawl
import Bloodhound.Store.Admission

/-!
# The requests of a cron pass

`scheduleDownstreamCrawl` with its downstream polls (`scheduleTick`), the refresh of the price before it
(`runSchedulePhase`), and the jobs that a pass of the crawl asks the queue for. Whether the queue takes a request follows from the state before the pass and the jobs that
the pass has inserted so far (`takes`), so a pass is a list of requests that come to a gate:
`Cron.scheduled` collects them from the state before.
-/

namespace Bloodhound.Indexer

open Store
open Journal.Op (query when forEach)

/-! ## Downstream polls -/

/-- The configuration of the downstream polls. -/
structure PollSchedule where
  downstreamPollEnqueuePerCron : Nat := 2
  downstreamPollIntervalSec : Nat := 600

/-- `listDownstreamForPoll`: the addresses that were never polled, then those that were not polled
since the cutoff, the longest ago first. -/
def listDownstreamForPoll (config : AppConfig) (polls : PollSchedule) (nowMs : Nat) (db : Db) :
    List Address :=
  let cap := polls.downstreamPollEnqueuePerCron
  let hop (e : (_ : Address) × AddressRow) := e.2.hopFromHacker.getD 0
  let polledAt (e : (_ : Address) × AddressRow) := (db.syncState.lookup e.1).bind (·.lastPolledAt)
  let eligible := db.addresses.entries.filter fun e =>
    e.2.pollEligible config.maxCrawlDepth config.minExpandSats
  let neverPolled := ((eligible.filter fun e => (polledAt e).isNone).insertionSort fun e e' =>
    hop e ≤ hop e').take cap
  let stale := ((eligible.filter fun e => (polledAt e).any fun at_ =>
    at_ + polls.downstreamPollIntervalSec * 1000 ≤ nowMs).insertionSort fun e e' =>
      toLex ((polledAt e).getD 0, hop e) ≤ toLex ((polledAt e').getD 0, hop e')).take
        (cap - neverPolled.length)
  (neverPolled ++ stale).map (·.1)

/-- Enqueue a poll of each address. -/
def enqueuePolls (env : Env) (addresses : List Address) : StoreM Unit :=
  forEach addresses fun address => do
    let _ ← enqueueForTick env (.pollDownstreamAddress { address }) JobPriority.pollDownstream
      { address := some address }
    pure ()

def scheduleDownstreamPolls (env : Env) (polls : PollSchedule) : StoreM Unit := do
  let nowMs ← now
  let pollCandidates ← query (listDownstreamForPoll env.config polls nowMs)
  enqueuePolls env pollCandidates

/-- `scheduleDownstreamCrawl` with the polls that follow its crawl step. -/
def scheduleTick (env : Env) (polls : PollSchedule) (hackers : List FlaggedHacker) (low : BudgetLow) :
    StoreM ScheduleTickStats := do
  let stats ← scheduleDownstreamCrawl env hackers low
  when (stats.picks.isSome ∧ stats.skipNonCritical = false ∧ stats.throttled = false)
    (scheduleDownstreamPolls env polls)
  pure stats

/-! ## The price of a bitcoin -/

/-- `BtcScheduleMode`. -/
inductive BtcScheduleMode where
  | fresh
  | skip
  | queued
  | inline
  deriving DecidableEq

/-- What the refresh of the price finds: its columns of the scheduler row, which nothing else of a pass
reads or writes, and whether the price can be fetched. -/
structure PriceRefresh where
  intervalSec : Nat := 900
  priceAt : Option Nat := none
  attemptAt : Option Nat := none
  fetched : Bool := true

/-- The fetch of the price in the pass; a failure of the fetch or of the write is only logged. -/
def refreshInline (price : PriceRefresh) : StoreM BtcScheduleMode :=
  (if price.fetched then do
    query fun _ => ()
    pure .inline
  else pure .skip : StoreM BtcScheduleMode).tryCatch fun _ => pure .skip

def scheduleBtcUsdPriceRefresh (env : Env) (price : PriceRefresh) (low : BudgetLow) :
    StoreM BtcScheduleMode := do
  let blocked ← isD1WriteBlocked
  if blocked then pure .skip
  else do
    let ts ← now
    query fun _ => ()
    if price.priceAt.any fun at_ => ts < at_ + price.intervalSec * 1000 then pure .fresh
    else do
      query fun _ => ()
      if price.attemptAt.any fun at_ => 0 < at_ && ts < at_ + price.intervalSec * 1000 then pure .skip
      else if low.price then do
        let _ ← enqueueForTick env .refreshBtcUsdPrice JobPriority.refreshBtcUsd {}
        pure .queued
      else do
        -- the write of the time of the attempt
        query fun _ => ()
        refreshInline price

/-- `runSchedulePhase`: the price, then the crawl. -/
def runSchedulePhase (env : Env) (polls : PollSchedule) (price : PriceRefresh)
    (hackers : List FlaggedHacker) (low : BudgetLow) : StoreM ScheduleTickStats := do
  -- the reserve of the budget depends on the counter of the maintenance
  query fun _ => ()
  let _ ← scheduleBtcUsdPriceRefresh env price low
  scheduleTick env polls hackers low

/-! ## Requests -/

/-- The type of a job and its address. -/
abbrev JobKey : Type := JobType × Option Address

/-- A job, and what its enqueue compares with the active jobs. -/
structure Request where
  job : Job
  types : List JobType
  address : Option Address

/-- The request of `enqueueJobIfAbsent`. -/
def request (job : Job) (opts : EnqueueIfAbsentOptions) : Request :=
  ⟨job, opts.dedupeTypes.getD [job.type], opts.address.or job.address⟩

def Request.key (r : Request) : JobKey := (r.job.type, r.job.address)

/-- The jobs that were inserted since, in the order of their ids. -/
def insertedSince (db db' : Db) : List JobKey :=
  (List.range' db.jobs.nextId (db'.jobs.nextId - db.jobs.nextId)).filterMap fun id =>
    (db'.jobs.lookup id).map fun row => (row.job.type, row.job.address)

section Takes

variable (env : Env) (db : Db) (inserted : List JobKey)

/-- A counter after some jobs were inserted; one that is negative counts as the next smaller than zero. -/
def level (c : Counter) : Int :=
  max (-1) (db.scheduler.counter c) +
    inserted.countP fun key => c = .pendingJob || cachedActiveJobCountField key.1 = some c

/-- An active job stands for the request. -/
def isDuplicate (r : Request) : Bool :=
  db.jobs.hasActive r.types r.address ||
    inserted.any fun key => r.types.contains key.1 && r.address.all fun a => key.2 = some a

/-- A cap refuses the job. -/
def isCapped (job : Job) : Bool :=
  match job.type with
  | .expandDownstream => env.store.maxPendingExpandGlobal ≤ level db inserted .activeExpand ||
      job.address.any fun a => env.store.maxPendingExpandPerAddress ≤
        db.jobs.activeCount (ofAddress .expandDownstream a) + inserted.count (.expandDownstream, some a)
  | .backfillHackerAddress => !isIngestContinuation job &&
      env.store.maxPendingBackfillGlobal ≤ level db inserted .activeBackfill
  | .auditHackerBackfill => env.store.maxPendingAuditGlobal ≤ level db inserted .activeAudit
  | _ => false

/-- The queue takes the request, after it has taken the others from this state. -/
def takes (r : Request) : Bool :=
  !isDuplicate db inserted r &&
    (isIngestContinuation r.job || !db.latched && !isCapped env db inserted r.job &&
      level db inserted .pendingJob < env.store.maxQueueDepth)

end Takes

/-! ## The requests of a pass -/

/-- The keys of the jobs that are inserted for the requests, after those of the jobs before them. -/
abbrev after (env : Env) (db : Db) (keys : List JobKey) (rs : List Request) : List JobKey :=
  keys ++ Gate.admitted (takes env db) Request.key keys rs

theorem after_append (env : Env) (db : Db) (keys : List JobKey) (rs rs' : List Request) :
    after env db keys (rs ++ rs') = after env db (after env db keys rs) rs' := by
  unfold after
  rw [Gate.admitted_append, List.append_assoc]

/-- A request that is made under a condition. -/
def ask (cond : Bool) (r : Request) : List Request := if cond then [r] else []

/-- What a tick and its preview have in common: the configuration, the flagged hackers and the time. -/
structure Cron where
  env : Env
  polls : PollSchedule := {}
  hackers : List FlaggedHacker
  nowMs : Nat

namespace Cron

/-- A store without hackers, at a time. -/
def withoutHackers (nowMs : Nat) : Cron where
  env := { provider := .ofTxs [] }
  hackers := []
  nowMs := nowMs

variable (k : Cron) (low : BudgetLow) (db : Db)

def rebuildActive : Bool := k.env.config.indexerRebuildMode || db.jobs.hasActive [.processTx] none

def writeBlocked : Bool := isAfter db.scheduler.d1WriteRetryAfterAt k.nowMs

def throttled : Bool := (k.env.config.queueSoftThrottleDepth : Int) ≤ db.depth

def accepts : Bool := !db.latched && db.depth < k.env.store.maxQueueDepth

def tick : Nat := db.scheduler.maintenanceCronCounter + 1

/-- The synchronizations, each with its sources and its interval. -/
def syncs : List (Job × List SyncSource × Nat) :=
  [(.syncColdcardwatch, [.coldcardwatch], k.env.config.coldcardwatchSyncIntervalSec),
    (.syncVercelTrackers, [.coldcardHackTracker, .coldcardSweepWatch],
      k.env.config.vercelTrackersSyncIntervalSec),
    (.syncBitqueryColdcard, [.bitqueryColdcard], k.env.config.bitqueryColdcardSyncIntervalSec)]

def syncDue (sync : Job × List SyncSource × Nat) : Bool :=
  isDue (sync.2.1.filterMap db.lastSyncAt).max? sync.2.2 k.nowMs

def syncRequests : List Request :=
  if !low.nonCritical && k.accepts db then
    (k.syncs.filter fun sync => k.syncDue db sync).map fun sync => request sync.1 {}
  else []

section Maintenance

variable (h : FlaggedHacker)

def status (address : Address) : ExpandStatus :=
  ((db.addresses.lookup address).map (·.expandStatus)).getD .pending

def isComplete : Bool := (db.syncState.lookup h.address).any (·.backfillComplete)

def needsBackfill : Bool :=
  status db h.address = .pending || status db h.address = .backfilling ||
    status db h.address = .expanded && !isComplete db h

def auditDue : Bool :=
  isAuditDue k.env.config (status db h.address) (db.syncState.lookup h.address) k.nowMs

def pollDue : Bool :=
  isComplete db h && isDue ((db.syncState.lookup h.address).bind (·.lastPolledAt))
    k.env.config.cronIntervalSec k.nowMs

def balanceStale : Bool := isDue h.liveBalanceAt k.env.config.balanceRefreshIntervalSec k.nowMs

/-- The payload with which the backfill of an address goes on. -/
def backfillPayload (address : Address) : BackfillPayload :=
  ((db.syncState.lookup address).bind (·.backfillState)).getD { address }

def backfillRequest (address : Address) : Request :=
  request (.backfillHackerAddress (backfillPayload db address))
    { dedupeTypes := some backfillDedupeTypes, address := some address }

def auditRequest (address : Address) : Request :=
  request (.auditHackerBackfill address)
    { dedupeTypes := some backfillDedupeTypes, address := some address }

def refreshRequest (address : Address) : Request :=
  request (.refreshLiveBalance address) { address := some address }

def pollRequest (address : Address) : Request :=
  request (.pollHackerAddress { address }) { address := some address }

/-- The requests of `maintainOneHacker`. -/
def maintenanceRequests : List Request :=
  (if needsBackfill db h then [backfillRequest db h.address]
    else ask (k.auditDue db h && !k.throttled db) (auditRequest h.address)) ++
  if k.throttled db then []
  else ask (k.balanceStale h && !k.pollDue db h && !k.auditDue db h) (refreshRequest h.address) ++
    ask (k.pollDue db h) (pollRequest h.address)

end Maintenance

/-- The tick maintains a hacker. -/
def maintains : Bool :=
  everyNCrons k.env.config.hackerMaintenanceEveryNCrons (tick db) && !low.maintenance &&
    !k.hackers.isEmpty

def hackerAt (claimed : Nat) : Option FlaggedHacker :=
  k.hackers[(db.scheduler.hackerPollIndex + claimed) % k.hackers.length]?

/-- The hacker that is maintained, and the one whose crawl goes on. -/
def maintained : Option FlaggedHacker := if k.maintains low db then k.hackerAt db 0 else none

def crawled : Option FlaggedHacker := k.hackerAt db (if k.maintains low db then 1 else 0)

def opReturnRequests : List Request :=
  ask (everyNCrons k.env.config.opReturnBackfillEveryNCrons (tick db) && k.accepts db &&
      !low.opReturn && db.transactions.entries.any fun e => e.2.opReturnDisplay.isNone)
    (request .backfillOpReturn { dedupeTypes := some [.backfillOpReturn] })

/-- The crawl step resumes the backfill of the hacker that it picks. -/
def resumes (keys : List JobKey) (h : FlaggedHacker) : Bool :=
  !db.latched && level db keys .activeBackfill < k.env.store.maxPendingBackfillGlobal &&
    (db.addresses.lookup h.address).any fun row =>
      row.expandStatus = .pending || row.expandStatus = .backfilling

def resumeRequests (keys : List JobKey) : List Request :=
  (k.crawled low db).toList.flatMap fun h =>
    ask (k.resumes db keys h) (backfillRequest db h.address)

/-- The addresses that `getCrawlEnqueueCandidates` selects in a state. -/
def candidates (hacker : Address) : List Address :=
  (getCrawlEnqueueCandidates k.env hacker db ⟨{}, []⟩).res.toOption.getD []

def expandRequest (address : Address) : Request :=
  request (.expandDownstream { address, cron := true }) { address := some address }

def expandRequests : List Request :=
  (k.crawled low db).toList.flatMap fun h => (k.candidates db h.address).map expandRequest

def pollDownstreamRequest (address : Address) : Request :=
  request (.pollDownstreamAddress { address }) { address := some address }

/-- The state with the expansion of some addresses queued. -/
def queue (addresses : List Address) : Db :=
  { db with
    addresses := addresses.foldl (fun t a => (AddressStmt.setExpandStatus a .queued).exec t) db.addresses }

/-- The addresses of the expansions among some jobs. -/
def expanded (keys : List JobKey) : List Address :=
  keys.filterMap fun key => if key.1 = .expandDownstream then key.2 else none

/-- The requests of polls, after the expansion of some addresses was queued. -/
def pollRequests (addresses : List Address) : List Request :=
  (listDownstreamForPoll k.env.config k.polls k.nowMs (queue db addresses)).map pollDownstreamRequest

/-- The tick crawls and polls. -/
def free : Bool := !low.nonCritical && !k.throttled db

/-- The jobs that a tick inserts before its crawl step. -/
def maintainedJobs : List JobKey :=
  after k.env db [] (k.syncRequests low db ++
    (k.maintained low db).toList.flatMap (k.maintenanceRequests db))

/-- The jobs that a tick inserts after that. -/
def crawledJobs (keys : List JobKey) : List JobKey :=
  let resumable := after k.env db keys (k.opReturnRequests low db)
  let crawlable := after k.env db resumable (k.resumeRequests low db resumable)
  let expands := Gate.admitted (takes k.env db) Request.key crawlable (k.expandRequests low db)
  after k.env db (crawlable ++ expands) (k.pollRequests db (expanded expands))

/-- What a tick enqueues. -/
def scheduled : List JobKey :=
  if k.rebuildActive db || k.writeBlocked db then []
  else if k.free low db then k.crawledJobs low db (k.maintainedJobs low db)
  else k.maintainedJobs low db

end Cron

end Bloodhound.Indexer
