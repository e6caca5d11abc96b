import Bloodhound.Lib.Rotation
import Bloodhound.Lib.Triple
import Bloodhound.Store.Addresses
import Bloodhound.Store.Queue

/-!
# Cron ticks

`scheduleDownstreamCrawl` up to its crawl step, with `maintainOneHacker`: what a cron tick
enqueues for one hacker of the list, and which. The maintenance of a tick and its crawl step
claim their hackers from one index of the scheduler row, the maintenance in every
`hackerMaintenanceEveryNCrons`-th tick only.

The downstream polls, the scheduled maintenance and the snapshots that end a tick read and write
neither the index nor the tick counter; in a run of ticks they belong to what happens in between.

Every hacker is maintained and crawled in a long enough run of ticks exactly when the period plus
one and the number of hackers are coprime (`everyHacker_reached_iff`).
-/

namespace Bloodhound.Indexer

open Store
open Journal.Op (query run when forEach)

/-! ## Priorities -/

namespace JobPriority

def backfillHacker : Int := 10

def auditHackerBackfill : Int := 7

def pollHacker : Int := 6

def cronExpand : Int := 5

def pollDownstream : Int := 5

def syncColdcardwatch : Int := 3

def syncVercelTrackers : Int := 3

def syncBitqueryColdcard : Int := 3

def refreshBalance : Int := 2

def refreshBtcUsd : Int := 1

end JobPriority

/-- `BACKFILL_DEDUPE_TYPES`. -/
def backfillDedupeTypes : List JobType := [.backfillHackerAddress, .auditHackerBackfill]

/-- What `listHackersCached` returns of a hacker. -/
structure FlaggedHacker where
  address : Address
  liveBalanceAt : Option Nat := none

/-- A time has passed since something that may never have happened. -/
def isDue (last : Option Nat) (intervalSec ts : Nat) : Bool :=
  last.getD 0 + intervalSec * 1000 ≤ ts

/-! ## The maintenance of one hacker -/

def buildBackfillJobPayload (address : Address) : StoreM BackfillPayload := do
  let saved ← getSyncState address
  pure ((saved.bind (·.backfillState)).getD { address })

/-- `enqueueJobIfAbsent` as a tick calls it: with the given priority and no time to run after. -/
def enqueueForTick (env : Env) (job : Job) (priority : Int) (opts : EnqueueIfAbsentOptions) :
    StoreM (Option Nat) := enqueueJobIfAbsent env job priority none opts

def enqueueBackfillResume (env : Env) (address : Address) : StoreM Unit := do
  let payload ← buildBackfillJobPayload address
  let _ ← enqueueForTick env (.backfillHackerAddress payload) JobPriority.backfillHacker
    { dedupeTypes := some backfillDedupeTypes, address := some address }
  pure ()

/-- The audit of a hacker whose backfill is complete is due. -/
def isAuditDue (config : AppConfig) (status : ExpandStatus) (backfill : Option SyncStateRow)
    (ts : Nat) : Bool :=
  status = .expanded && backfill.any (·.backfillComplete) &&
    isDue (backfill.bind (·.lastBackfillAuditAt)) config.backfillHealAuditIntervalSec ts

/-- The first half of `maintainOneHacker`. -/
def maintainBackfill (env : Env) (address : Address) (status : ExpandStatus)
    (backfill : Option SyncStateRow) (auditDue throttled : Bool) : StoreM Unit :=
  if status = .pending ∨ status = .backfilling ∨
      (status = .expanded ∧ backfill.any (·.backfillComplete) = false) then
    enqueueBackfillResume env address
  else when (auditDue ∧ throttled = false) do
    let _ ← enqueueForTick env (.auditHackerBackfill address) JobPriority.auditHackerBackfill
      { dedupeTypes := some backfillDedupeTypes, address := some address }
    pure ()

/-- The second half, which a throttled tick leaves out. -/
def maintainPoll (env : Env) (h : FlaggedHacker) (ts : Nat) (auditDue : Bool) : StoreM Unit := do
  let backfillState ← getSyncState h.address
  let complete := backfillState.any (·.backfillComplete)
  let sync ← if complete then getSyncState h.address else pure none
  let pollDue := complete && isDue (sync.bind (·.lastPolledAt)) env.config.cronIntervalSec ts
  let balanceStale := isDue h.liveBalanceAt env.config.balanceRefreshIntervalSec ts
  when (balanceStale ∧ pollDue = false ∧ auditDue = false) do
    let _ ← enqueueForTick env (.refreshLiveBalance h.address) JobPriority.refreshBalance
      { address := some h.address }
    pure ()
  when (pollDue = true) do
    let _ ← enqueueForTick env (.pollHackerAddress { address := h.address }) JobPriority.pollHacker
      { address := some h.address }
    pure ()

def maintainOneHacker (env : Env) (h : FlaggedHacker) (ts : Nat) (throttled : Bool) :
    StoreM Unit := do
  let addr ← getAddress h.address
  let status := (addr.map (·.expandStatus)).getD .pending
  let backfill ← getSyncState h.address
  let auditDue := isAuditDue env.config status backfill ts
  maintainBackfill env h.address status backfill auditDue throttled
  when (throttled = false) (maintainPoll env h ts auditDue)

/-! ## The tick -/

def hasActiveJob (type : JobType) : StoreM Bool := query fun db => db.jobs.hasActive [type] none

def isRebuildActive (config : AppConfig) : StoreM Bool :=
  if config.indexerRebuildMode then pure true else hasActiveJob .processTx

/-- `isD1QuotaBlocked("write")`. -/
def isD1WriteBlocked : StoreM Bool := do
  let state ← getSchedulerState
  let nowMs ← now
  pure (isAfter state.d1WriteRetryAfterAt nowMs)

structure ScheduleEnqueueCache where
  queueSchedulingPaused : Bool
  queueDepth : Int

def loadScheduleEnqueueCache : StoreM ScheduleEnqueueCache := do
  let state ← getSchedulerState
  pure ⟨state.queueSchedulingPaused, state.counter .pendingJob⟩

/-- The queue takes jobs. -/
def ScheduleEnqueueCache.accepts (cache : ScheduleEnqueueCache) (env : Env) : Bool :=
  !cache.queueSchedulingPaused && cache.queueDepth < env.store.maxQueueDepth

/-- What `scheduleBudgetLow` answers in one tick: before the refresh of the price, for the work that is
not critical, before the maintenance and before the OP_RETURN backfill. -/
structure BudgetLow where
  price : Bool := false
  nonCritical : Bool := false
  maintenance : Bool := false
  opReturn : Bool := false

/-- One of the synchronizations that a tick schedules. -/
def scheduleSync (env : Env) (cache : ScheduleEnqueueCache) (skipNonCritical : Bool)
    (sources : List SyncSource) (intervalSec ts : Nat) (job : Job) (priority : Int) : StoreM Unit := do
  let last ← query fun db => (sources.filterMap db.lastSyncAt).max?
  when (skipNonCritical = false ∧ isDue last intervalSec ts ∧ cache.accepts env) do
    let _ ← enqueueForTick env job priority {}
    pure ()

def incrementMaintenanceCronCounter : StoreM Nat := do
  run (.scheduler .incrementMaintenanceCron)
  let state ← getSchedulerState
  pure state.maintenanceCronCounter

/-- `claimNextHackerPollIndex`: one statement advances the index and returns the one before. -/
def claimNextHackerPollIndex (hackerCount : Nat) : StoreM Nat :=
  if hackerCount = 0 then pure 0
  else Journal.Op.step [.scheduler (.advanceHackerPoll hackerCount)] fun db =>
    ((db.scheduler.hackerPollIndex + 1) % hackerCount + hackerCount - 1) % hackerCount

def everyNCrons (n tick : Nat) : Bool := 0 < n && tick % n = 0

/-- The maintenance of a tick, and the index it claims. -/
def maintenanceStep (env : Env) (hackers : List FlaggedHacker) (low : BudgetLow) (tick ts : Nat)
    (throttled : Bool) : StoreM (Option Nat) :=
  if everyNCrons env.config.hackerMaintenanceEveryNCrons tick && !low.maintenance &&
      !hackers.isEmpty then do
    let idx ← claimNextHackerPollIndex hackers.length
    forEach (hackers[idx]?).toList fun h => maintainOneHacker env h ts throttled
    pure (some idx)
  else pure none

def hasTransactionsMissingOpReturn : StoreM Bool :=
  query fun db => db.transactions.entries.any fun e => e.2.opReturnDisplay.isNone

def scheduleOpReturnBackfill (env : Env) (cache : ScheduleEnqueueCache) (low : BudgetLow)
    (tick : Nat) : StoreM Unit :=
  when (everyNCrons env.config.opReturnBackfillEveryNCrons tick ∧ cache.accepts env ∧
      low.opReturn = false) do
    let missingOpReturn ← hasTransactionsMissingOpReturn
    when (missingOpReturn = true) do
      let _ ← enqueueForTick env .backfillOpReturn JobPriority.refreshBalance
        { dedupeTypes := some [.backfillOpReturn] }
      pure ()

/-- `getCrawlEnqueueCandidates`: pending addresses one hop from the hacker, the largest first. -/
def getCrawlEnqueueCandidates (env : Env) (hacker : Address) : StoreM (List Address) :=
  if env.config.maxCrawlDepth ≤ 1 then pure []
  else query fun db =>
    ((((db.addresses.entries.filter fun e =>
      (db.edges.entries.any fun edge => edge.1.fromAddress = hacker && edge.1.toAddress = e.1 &&
        edge.2.direction = .outFromHacker) &&
      e.2.expandStatus = .pending && e.2.hopFromHacker = some 1 &&
      decide (max 0 env.config.minExpandSats ≤ e.2.inboundSats)).insertionSort fun e e' =>
        e'.2.inboundSats ≤ e.2.inboundSats).take env.config.crawlEnqueuePerCron).map (·.1))

/-- Enqueue an expansion for each address; the number of new jobs. -/
def enqueueFrontier (env : Env) : List Address → StoreM Nat
  | [] => pure 0
  | address :: rest => do
    let jobId ← enqueueForTick env (.expandDownstream { address, cron := true }) JobPriority.cronExpand
      { address := some address }
    when jobId.isSome (setExpandStatus address .queued)
    let enqueued ← enqueueFrontier env rest
    pure (enqueued + if jobId.isSome then 1 else 0)

/-- A pending hacker resumes its backfill, under the cap of backfills. -/
def resumePickedBackfill (env : Env) (address : Address) : StoreM Unit := do
  let state ← getSchedulerState
  when (state.counter .activeBackfill < env.store.maxPendingBackfillGlobal) do
    let addr ← getAddress address
    when (addr.any fun row => row.expandStatus = .pending || row.expandStatus = .backfilling)
      (enqueueBackfillResume env address)

/-- What the crawl step does for the hacker that it picks. -/
def crawlOneHacker (env : Env) (cache : ScheduleEnqueueCache) (picked : FlaggedHacker) :
    StoreM Nat := do
  when (cache.queueSchedulingPaused = false) (resumePickedBackfill env picked.address)
  let frontier ← getCrawlEnqueueCandidates env picked.address
  enqueueFrontier env frontier

/-- The crawl step of a tick: the index it claims and the number of expansions it enqueues. -/
def crawlStep (env : Env) (hackers : List FlaggedHacker) (cache : ScheduleEnqueueCache) :
    StoreM (Option Nat × Nat) :=
  if hackers.isEmpty then pure (none, 0)
  else do
    let idx ← claimNextHackerPollIndex hackers.length
    let enqueued ← (hackers[idx]?).elim (pure 0) (crawlOneHacker env cache)
    pure (some idx, enqueued)

/-- The indices that one tick claims. -/
structure HackerPicks where
  maintained : Option Nat
  crawled : Option Nat
  deriving DecidableEq

/-- The statistics of a tick, with the indices that it has claimed, if it came that far. -/
structure ScheduleTickStats where
  skipNonCritical : Bool := false
  crawlEnqueued : Nat := 0
  maintTick : Bool := false
  throttled : Bool := false
  picks : Option HackerPicks := none
  deriving DecidableEq

/-- The `try` block of the tick, up to the crawl step. -/
def crawlUnlessThrottled (env : Env) (hackers : List FlaggedHacker) (low : BudgetLow)
    (cache : ScheduleEnqueueCache) (tick : Nat) (stats : ScheduleTickStats)
    (maintained : Option Nat) : StoreM ScheduleTickStats :=
  if stats.skipNonCritical || stats.throttled then
    pure { stats with picks := some ⟨maintained, none⟩ }
  else do
    scheduleOpReturnBackfill env cache low tick
    let crawled ← crawlStep env hackers cache
    pure { stats with crawlEnqueued := crawled.2, picks := some ⟨maintained, crawled.1⟩ }

/-- The tick after its guards. -/
def scheduleHackers (env : Env) (hackers : List FlaggedHacker) (low : BudgetLow) :
    StoreM ScheduleTickStats := do
  let ts ← now
  let cache ← loadScheduleEnqueueCache
  let throttled := (env.config.queueSoftThrottleDepth : Int) ≤ cache.queueDepth
  scheduleSync env cache low.nonCritical [.coldcardwatch] env.config.coldcardwatchSyncIntervalSec ts
    .syncColdcardwatch JobPriority.syncColdcardwatch
  scheduleSync env cache low.nonCritical [.coldcardHackTracker, .coldcardSweepWatch]
    env.config.vercelTrackersSyncIntervalSec ts .syncVercelTrackers JobPriority.syncVercelTrackers
  scheduleSync env cache low.nonCritical [.bitqueryColdcard] env.config.bitqueryColdcardSyncIntervalSec
    ts .syncBitqueryColdcard JobPriority.syncBitqueryColdcard
  let tick ← incrementMaintenanceCronCounter
  let maintained ← maintenanceStep env hackers low tick ts throttled
  crawlUnlessThrottled env hackers low cache tick
    { skipNonCritical := low.nonCritical
      maintTick := everyNCrons env.config.hackerMaintenanceEveryNCrons tick
      throttled } maintained

/-- `scheduleDownstreamCrawl`, for the list that `listHackersCached` returns. -/
def scheduleDownstreamCrawl (env : Env) (hackers : List FlaggedHacker) (low : BudgetLow) :
    StoreM ScheduleTickStats := do
  let rebuild ← isRebuildActive env.config
  if rebuild then pure {}
  else do
    let blocked ← isD1WriteBlocked
    if blocked then pure { skipNonCritical := true } else scheduleHackers env hackers low

/-! ## What a tick claims -/

/-- The index and the tick counter. -/
def rotation (db : Db) : Nat × Nat :=
  (db.scheduler.hackerPollIndex, db.scheduler.maintenanceCronCounter)

/-- A statement that writes one of them. -/
def rotates : Stmt → Bool
  | .scheduler .incrementMaintenanceCron | .scheduler (.advanceHackerPoll _) => true
  | _ => false

theorem rotation_exec {i : Stmt} (h : rotates i = false) (db : Db) :
    rotation (Journal.exec i db) = rotation db := by
  cases i with
  | scheduler s =>
    cases s with
    | incrementMaintenanceCron => cases h
    | advanceHackerPoll => cases h
    | _ => rfl
  | _ => rfl

/-- The operation writes neither. -/
abbrev KeepsRotation {α : Type} (p : StoreM α) : Prop := p.Emits fun i => rotates i = false

section Frame

open Journal.Op (Emits emits_query emits_run emits_when emits_forEach emits_pure emits_mem emits_step)

variable {α : Type}

theorem KeepsRotation.triple {p : StoreM α} (h : KeepsRotation p) (r : Nat × Nat) :
    Journal.Op.Triple (fun db => rotation db = r) p (fun _ db => rotation db = r)
      fun _ _ => True :=
  (Journal.Op.triple_of_emits h fun _ hi db hdb => (rotation_exec hi db).trans hdb).conseq
    (fun _ hdb => hdb) (fun _ _ hdb => hdb) fun _ _ _ => trivial

theorem keepsRotation_now : KeepsRotation now := emits_mem _

theorem rotates_of_isCounter (i : Stmt) (h : i.isCounter) : rotates i = false := by
  cases i with
  | scheduler s => cases s <;> first | rfl | cases h
  | _ => rfl

theorem keepsRotation_enqueueJobIfAbsent (env : Env) (job : Job) (priority : Int)
    (opts : EnqueueIfAbsentOptions) : KeepsRotation (enqueueJobIfAbsent env job priority none opts) :=
  emits_enqueueJobIfAbsent (queueCounters rotates_of_isCounter) rfl env (fun _ _ _ _ => rfl) none opts

theorem keepsRotation_enqueueForTick {env : Env} {job : Job} {priority : Int}
    {opts : EnqueueIfAbsentOptions} {a : α} :
    KeepsRotation (do
      let _ ← enqueueForTick env job priority opts
      pure a) :=
  (keepsRotation_enqueueJobIfAbsent env job priority opts).bind fun _ => emits_pure a

theorem keepsRotation_enqueueBackfillResume (env : Env) (address : Address) :
    KeepsRotation (enqueueBackfillResume env address) := by
  have hPayload : KeepsRotation (buildBackfillJobPayload address) :=
    Emits.bind (emits_query _) fun _ => emits_pure _
  exact hPayload.bind fun _ => keepsRotation_enqueueForTick

theorem keepsRotation_maintainOneHacker (env : Env) (h : FlaggedHacker) (ts : Nat) (throttled : Bool) :
    KeepsRotation (maintainOneHacker env h ts throttled) := by
  have hBackfill : ∀ status backfill auditDue,
      KeepsRotation (maintainBackfill env h.address status backfill auditDue throttled) := by
    intro status backfill auditDue
    unfold maintainBackfill
    split
    · exact keepsRotation_enqueueBackfillResume env h.address
    · exact emits_when fun _ => keepsRotation_enqueueForTick
  have hPoll : ∀ auditDue, KeepsRotation (maintainPoll env h ts auditDue) := by
    intro auditDue
    refine Emits.bind (emits_query _) fun backfillState => ?_
    have hRest : ∀ sync : Option SyncStateRow, KeepsRotation (do
        when (isDue h.liveBalanceAt env.config.balanceRefreshIntervalSec ts ∧
            (backfillState.any (·.backfillComplete) &&
              isDue (sync.bind (·.lastPolledAt)) env.config.cronIntervalSec ts) = false ∧
            auditDue = false) do
          let _ ← enqueueForTick env (.refreshLiveBalance h.address) JobPriority.refreshBalance
            { address := some h.address }
          pure ()
        when ((backfillState.any (·.backfillComplete) &&
            isDue (sync.bind (·.lastPolledAt)) env.config.cronIntervalSec ts) = true) do
          let _ ← enqueueForTick env (.pollHackerAddress { address := h.address })
            JobPriority.pollHacker { address := some h.address }
          pure ()) := fun sync =>
      (emits_when fun _ => keepsRotation_enqueueForTick).bind fun _ =>
        emits_when fun _ => keepsRotation_enqueueForTick
    dsimp only
    split
    · exact Emits.bind (emits_query _) hRest
    · exact Emits.bind (emits_pure _) hRest
  refine Emits.bind (emits_query _) fun addr => Emits.bind (emits_query _) fun backfill => ?_
  exact (hBackfill _ _ _).bind fun _ => emits_when fun _ => hPoll _

theorem keepsRotation_scheduleSync (env : Env) (cache : ScheduleEnqueueCache) (skip : Bool)
    (sources : List SyncSource) (intervalSec ts : Nat) (job : Job) (priority : Int) :
    KeepsRotation (scheduleSync env cache skip sources intervalSec ts job priority) :=
  (emits_query _).bind fun _ => emits_when fun _ => keepsRotation_enqueueForTick

theorem keepsRotation_scheduleOpReturnBackfill (env : Env) (cache : ScheduleEnqueueCache)
    (low : BudgetLow) (tick : Nat) : KeepsRotation (scheduleOpReturnBackfill env cache low tick) :=
  emits_when fun _ => (emits_query _).bind fun _ => emits_when fun _ => keepsRotation_enqueueForTick

theorem keepsRotation_setExpandStatus (address : Address) (status : ExpandStatus) :
    KeepsRotation (setExpandStatus address status) := by
  refine Emits.bind (emits_query _) fun existing => Emits.bind (emits_run rfl) fun _ => ?_
  refine emits_forEach fun row _ => Emits.bind (emits_adjustCounter rotates_of_isCounter _ _) fun _ => ?_
  refine Emits.bind (emits_adjustOnChange (emits_adjustCounter rotates_of_isCounter _) _ _) fun _ => ?_
  exact Emits.bind (emits_query _) fun updated => emits_forEach fun _ _ =>
    emits_maybeMarkMonitorSnapshotDirty rotates_of_isCounter _ _

theorem keepsRotation_crawlOneHacker (env : Env) (cache : ScheduleEnqueueCache)
    (picked : FlaggedHacker) : KeepsRotation (crawlOneHacker env cache picked) := by
  have hResume : KeepsRotation (resumePickedBackfill env picked.address) :=
    (emits_query _).bind fun _ => emits_when fun _ => (emits_query _).bind fun _ =>
      emits_when fun _ => keepsRotation_enqueueBackfillResume env picked.address
  have hCandidates : KeepsRotation (getCrawlEnqueueCandidates env picked.address) := by
    unfold getCrawlEnqueueCandidates
    split
    · exact emits_pure _
    · exact emits_query _
  have hFrontier : ∀ addresses, KeepsRotation (enqueueFrontier env addresses) := by
    intro addresses
    induction addresses with
    | nil => exact emits_pure _
    | cons address rest ih =>
      refine (keepsRotation_enqueueJobIfAbsent env _ _ _).bind fun jobId => ?_
      exact (emits_when fun _ => keepsRotation_setExpandStatus address .queued).bind fun _ =>
        ih.bind fun _ => emits_pure _
  exact (emits_when fun _ => hResume).bind fun _ => hCandidates.bind hFrontier

end Frame

section Claims

open Journal.Op (Triple triple_pure triple_step triple_run triple_query triple_mem)

variable {env : Env} {hackers : List FlaggedHacker}

theorem triple_claimNextHackerPollIndex {n : Nat} (hn : 0 < n) (r : Nat × Nat) :
    Triple (fun db => rotation db = r) (claimNextHackerPollIndex n)
      (fun idx db => idx = r.1 % n ∧ rotation db = ((r.1 + 1) % n, r.2)) fun _ _ => True := by
  unfold claimNextHackerPollIndex
  rw [if_neg hn.ne']
  refine triple_step (fun db hdb => ?_) fun _ _ _ => trivial
  subst hdb
  refine ⟨?_, rfl⟩
  show ((db.scheduler.hackerPollIndex + 1) % n + n - 1) % n = db.scheduler.hackerPollIndex % n
  rw [Nat.add_sub_assoc hn, Nat.mod_add_mod]
  have hBack : db.scheduler.hackerPollIndex + 1 + (n - 1) = db.scheduler.hackerPollIndex + n := by omega
  rw [hBack, Nat.add_mod_right]

/-- The maintenance claims in every `k`-th tick. -/
theorem triple_maintenanceStep {low : BudgetLow} (hLow : low.maintenance = false)
    (hHackers : hackers ≠ []) (tick ts : Nat) (throttled : Bool) (r : Nat × Nat)
    (hk : 0 < env.config.hackerMaintenanceEveryNCrons) :
    Triple (fun db => rotation db = r) (maintenanceStep env hackers low tick ts throttled)
      (fun maintained db => if env.config.hackerMaintenanceEveryNCrons ∣ tick then
        maintained = some (r.1 % hackers.length) ∧ rotation db = ((r.1 + 1) % hackers.length, r.2)
        else maintained = none ∧ rotation db = r) fun _ _ => True := by
  have hEvery : everyNCrons env.config.hackerMaintenanceEveryNCrons tick = true ↔
      env.config.hackerMaintenanceEveryNCrons ∣ tick := by
    simp [everyNCrons, hk, Nat.dvd_iff_mod_eq_zero]
  have hSome : hackers.isEmpty = false := by simpa using hHackers
  unfold maintenanceStep
  rw [hLow, hSome, Bool.not_false, Bool.and_true, Bool.and_true]
  by_cases hTick : env.config.hackerMaintenanceEveryNCrons ∣ tick
  · simp only [if_pos hTick, if_pos (hEvery.mpr hTick)]
    refine (triple_claimNextHackerPollIndex (List.length_pos_of_ne_nil hHackers) r).bind fun idx => ?_
    refine Journal.Op.triple_of_state fun db hdb => ?_
    obtain ⟨hIdx, hRotation⟩ := hdb
    have hMaintain : KeepsRotation (forEach (hackers[idx]?).toList fun h =>
        maintainOneHacker env h ts throttled) :=
      Journal.Op.emits_forEach fun h _ => keepsRotation_maintainOneHacker env h ts throttled
    refine ((hMaintain.triple _).pre fun s hs => by rw [hs, hRotation]).bind fun _ => ?_
    exact triple_pure _ fun s hs => ⟨by rw [hIdx], hs⟩
  · simp only [if_neg hTick, if_neg fun h => hTick (hEvery.mp h)]
    exact triple_pure none fun db hdb => ⟨rfl, hdb⟩

theorem triple_crawlStep (hHackers : hackers ≠ []) (cache : ScheduleEnqueueCache) (r : Nat × Nat) :
    Triple (fun db => rotation db = r) (crawlStep env hackers cache)
      (fun out db => out.1 = some (r.1 % hackers.length) ∧
        rotation db = ((r.1 + 1) % hackers.length, r.2)) fun _ _ => True := by
  have hSome : hackers.isEmpty = false := by simpa using hHackers
  unfold crawlStep
  rw [hSome, if_neg Bool.false_ne_true]
  refine (triple_claimNextHackerPollIndex (List.length_pos_of_ne_nil hHackers) r).bind fun idx => ?_
  refine Journal.Op.triple_of_state fun db hdb => ?_
  obtain ⟨hIdx, hRotation⟩ := hdb
  have hCrawl : KeepsRotation ((hackers[idx]?).elim (pure 0) (crawlOneHacker env cache)) := by
    cases hackers[idx]? with
    | none => exact Journal.Op.emits_pure 0
    | some picked => exact keepsRotation_crawlOneHacker env cache picked
  refine ((hCrawl.triple _).pre fun s hs => by rw [hs, hRotation]).bind fun enqueued => ?_
  exact triple_pure _ fun s hs => ⟨by rw [hIdx], hs⟩

/-- The crawl step of a tick that is not throttled follows its maintenance. -/
theorem triple_crawlUnlessThrottled (hHackers : hackers ≠ []) {low : BudgetLow}
    (cache : ScheduleEnqueueCache) (tick : Nat) {stats : ScheduleTickStats}
    (hSkip : stats.skipNonCritical = false) (maintained : Option Nat) (r : Nat × Nat) :
    Triple (fun db => rotation db = r)
      (crawlUnlessThrottled env hackers low cache tick stats maintained)
      (fun out db => out.throttled = false → out.picks = some ⟨maintained, some (r.1 % hackers.length)⟩ ∧
        rotation db = ((r.1 + 1) % hackers.length, r.2)) fun _ _ => True := by
  unfold crawlUnlessThrottled
  rw [hSkip, Bool.false_or]
  split
  · next hThrottled =>
    refine triple_pure _ fun _ _ hNot => ?_
    rw [show stats.throttled = false from hNot] at hThrottled
    cases hThrottled
  · refine ((keepsRotation_scheduleOpReturnBackfill env cache low tick).triple r).bind fun _ => ?_
    refine (triple_crawlStep hHackers cache r).bind fun crawled => triple_pure _ fun db hdb _ => ?_
    exact ⟨by rw [hdb.1], hdb.2⟩

/-- What a tick claims that is neither throttled nor out of budget, and comes to its end. -/
def ClaimsRound (env : Env) (hackers : List FlaggedHacker) (r : Nat × Nat) (stats : ScheduleTickStats)
    (db : Db) : Prop :=
  ∀ picks, stats.picks = some picks → stats.throttled = false →
    let round := Rotation.round env.config.hackerMaintenanceEveryNCrons hackers.length r.1 r.2
    picks = ⟨round.1.rare, some round.1.common⟩ ∧ rotation db = (round.2 % hackers.length, r.2 + 1)

theorem triple_incrementMaintenanceCronCounter (r : Nat × Nat) :
    Triple (fun db => rotation db = r) incrementMaintenanceCronCounter
      (fun tick db => tick = r.2 + 1 ∧ rotation db = (r.1, r.2 + 1)) fun _ _ => True := by
  refine (triple_run (Q := fun _ db => rotation db = (r.1, r.2 + 1)) (fun db hdb => ?_)
    fun _ _ _ => trivial).bind fun _ => ?_
  · subst hdb
    rfl
  · refine (triple_query (Q := fun state db => state.maintenanceCronCounter = r.2 + 1 ∧
      rotation db = (r.1, r.2 + 1)) (fun db hdb => ?_) fun _ _ _ => trivial).bind fun state => ?_
    · exact ⟨congrArg Prod.snd hdb, hdb⟩
    · exact triple_pure _ fun db hdb => hdb

theorem triple_scheduleHackers (hHackers : hackers ≠ [])
    (hk : 0 < env.config.hackerMaintenanceEveryNCrons) (r : Nat × Nat) :
    Triple (fun db => rotation db = r) (scheduleHackers env hackers {}) (ClaimsRound env hackers r)
      fun _ _ => True := by
  have hSync : ∀ cache sources intervalSec ts job priority, Triple (fun db => rotation db = r)
      (scheduleSync env cache false sources intervalSec ts job priority)
      (fun _ db => rotation db = r) fun _ _ => True := fun _ _ _ _ _ _ =>
    KeepsRotation.triple (keepsRotation_scheduleSync env _ _ _ _ _ _ _) r
  have hCache : KeepsRotation loadScheduleEnqueueCache :=
    (Journal.Op.emits_query _).bind fun _ => Journal.Op.emits_pure _
  refine (KeepsRotation.triple keepsRotation_now r).bind fun ts => ?_
  refine (hCache.triple r).bind fun cache => ?_
  dsimp only
  refine (hSync cache _ _ ts _ _).bind fun _ => (hSync cache _ _ ts _ _).bind fun _ =>
    (hSync cache _ _ ts _ _).bind fun _ => ?_
  refine (triple_incrementMaintenanceCronCounter r).bind fun tick => ?_
  refine Journal.Op.triple_of_state fun db hdb => ?_
  obtain ⟨rfl, hRotation⟩ := hdb
  refine ((triple_maintenanceStep rfl hHackers (r.2 + 1) ts _ (r.1, r.2 + 1) hk).pre fun s hs => by
    rw [hs, hRotation]).bind fun maintained => ?_
  refine Journal.Op.triple_of_state fun db hdb => ?_
  by_cases hTick : env.config.hackerMaintenanceEveryNCrons ∣ r.2 + 1
  · rw [if_pos hTick] at hdb
    obtain ⟨rfl, hClaimed⟩ := hdb
    refine ((triple_crawlUnlessThrottled hHackers cache _ rfl _ _).pre fun s hs => by
      rw [hs, hClaimed]).post fun stats s hs picks hPicks hNot => ?_
    obtain ⟨hSome, hRest⟩ := hs hNot
    rw [hPicks] at hSome
    simp only [Rotation.round, if_pos hTick, Nat.mod_add_mod, Nat.mod_mod] at hSome hRest ⊢
    exact ⟨Option.some.inj hSome, hRest⟩
  · rw [if_neg hTick] at hdb
    obtain ⟨rfl, hWaited⟩ := hdb
    refine ((triple_crawlUnlessThrottled hHackers cache _ rfl _ _).pre fun s hs => by
      rw [hs, hWaited]).post fun stats s hs picks hPicks hNot => ?_
    obtain ⟨hSome, hRest⟩ := hs hNot
    rw [hPicks] at hSome
    simp only [Rotation.round, if_neg hTick] at hSome hRest ⊢
    exact ⟨Option.some.inj hSome, hRest⟩

theorem triple_scheduleDownstreamCrawl (hHackers : hackers ≠ [])
    (hk : 0 < env.config.hackerMaintenanceEveryNCrons) (r : Nat × Nat) :
    Triple (fun db => rotation db = r) (scheduleDownstreamCrawl env hackers {})
      (ClaimsRound env hackers r) fun _ _ => True := by
  have hRebuild : KeepsRotation (isRebuildActive env.config) := by
    unfold isRebuildActive
    split
    · exact Journal.Op.emits_pure true
    · exact Journal.Op.emits_query _
  have hBlocked : KeepsRotation isD1WriteBlocked :=
    (Journal.Op.emits_query _).bind fun _ => keepsRotation_now.bind fun _ => Journal.Op.emits_pure _
  refine (hRebuild.triple r).bind fun rebuild => ?_
  split
  · exact triple_pure _ fun _ _ _ hNone => nomatch hNone
  refine (hBlocked.triple r).bind fun blocked => ?_
  split
  · exact triple_pure _ fun _ _ _ hNone => nomatch hNone
  · exact triple_scheduleHackers hHackers hk r

/-! ## Runs of ticks -/

/-- A run of ticks that are neither throttled nor out of budget and come to their end, for one list
of hackers, with what they claim. Between two ticks anything may happen that leaves the index and
the tick counter as they are: other jobs, the rest of the ticks, ticks that stop at their guards. -/
inductive CronRun (env : Env) (hackers : List FlaggedHacker) : Db → List HackerPicks → Db → Prop where
  | refl (db : Db) : CronRun env hackers db [] db
  | between {db db₁ db' : Db} {picks : List HackerPicks} (h : rotation db₁ = rotation db)
      (rest : CronRun env hackers db₁ picks db') : CronRun env hackers db picks db'
  | tick {db db' : Db} {c : Journal.Ctl Mem Err} {stats : ScheduleTickStats} {claimed : HackerPicks}
      {picks : List HackerPicks} (hOk : (scheduleDownstreamCrawl env hackers {} db c).res = .ok stats)
      (hNot : stats.throttled = false) (hClaimed : stats.picks = some claimed)
      (rest : CronRun env hackers ((scheduleDownstreamCrawl env hackers {}).final db c) picks db') :
      CronRun env hackers db (claimed :: picks) db'

/-- A run claims like a rotation that two users share. -/
theorem CronRun.picks_eq (hHackers : hackers ≠ [])
    (hk : 0 < env.config.hackerMaintenanceEveryNCrons) {db db' : Db} {picks : List HackerPicks}
    (h : CronRun env hackers db picks db') :
    picks = (Rotation.rounds env.config.hackerMaintenanceEveryNCrons hackers.length picks.length
      (rotation db).1 (rotation db).2).map fun round => ⟨round.rare, some round.common⟩ := by
  induction h with
  | refl => rfl
  | between h _ ih => rwa [h] at ih
  | @tick db db' c stats claimed picks hOk hNot hClaimed rest ih =>
    have hTick := (triple_scheduleDownstreamCrawl hHackers hk (rotation db)).ok rfl hOk claimed hClaimed
      hNot
    dsimp only at hTick
    obtain ⟨rfl, hAfter⟩ := hTick
    rw [hAfter, Rotation.rounds_mod] at ih
    rw [List.length_cons, Rotation.rounds, List.map_cons, ← ih]

/-- Every hacker is maintained in a run with as many maintenance ticks as there are hackers, and
every hacker is maintained and crawled in a long enough run, exactly when the period plus one and
the number of hackers are coprime. -/
theorem everyHacker_reached_iff (hHackers : hackers ≠ [])
    (hk : 0 < env.config.hackerMaintenanceEveryNCrons) {db db' : Db} {picks : List HackerPicks}
    (h : CronRun env hackers db picks db') :
    (hackers.length ≤ (picks.filterMap (·.maintained)).length →
      ((∀ i < hackers.length, i ∈ picks.filterMap (·.maintained)) ↔
        (env.config.hackerMaintenanceEveryNCrons + 1).Coprime hackers.length)) ∧
    ((env.config.hackerMaintenanceEveryNCrons + 1) * hackers.length ≤ picks.length →
      (((∀ i < hackers.length, i ∈ picks.filterMap (·.maintained)) ∧
        ∀ i < hackers.length, i ∈ picks.filterMap (·.crawled)) ↔
        (env.config.hackerMaintenanceEveryNCrons + 1).Coprime hackers.length)) := by
  have hN : 0 < hackers.length := List.length_pos_of_ne_nil hHackers
  have hPicks := h.picks_eq hHackers hk
  have hMaintained : picks.filterMap (·.maintained) =
      (Rotation.rounds env.config.hackerMaintenanceEveryNCrons hackers.length picks.length
        (rotation db).1 (rotation db).2).filterMap (·.rare) := by
    conv_lhs => rw [hPicks]
    rw [List.filterMap_map]
    rfl
  have hCrawled : picks.filterMap (·.crawled) =
      (Rotation.rounds env.config.hackerMaintenanceEveryNCrons hackers.length picks.length
        (rotation db).1 (rotation db).2).map (·.common) := by
    conv_lhs => rw [hPicks]
    rw [List.filterMap_map, ← List.filterMap_eq_map]
    rfl
  rw [hMaintained, hCrawled]
  refine ⟨fun hMany => Rotation.rare_iff hk hN hMany, fun hMany => ?_⟩
  have hRounds : env.config.hackerMaintenanceEveryNCrons * hackers.length ≤ picks.length :=
    (Nat.mul_le_mul_right _ (Nat.le_succ _)).trans hMany
  have hTwice : 2 * hackers.length ≤ picks.length := (Nat.mul_le_mul_right _ (by omega)).trans hMany
  have hIff := Rotation.rare_iff hk hN (Rotation.le_length_rare hk hRounds (rotation db).1 (rotation db).2)
  constructor
  · exact fun hBoth => hIff.mp hBoth.1
  · exact fun hCoprime => ⟨hIff.mpr hCoprime, fun i hi => Rotation.mem_common hk hN hCoprime hTwice hi⟩

end Claims

/-! ### Two hackers, maintained in every tick -/

/-- Some ticks without faults, one after another. -/
def cron (env : Env) (hackers : List FlaggedHacker) : Nat → Db → Option (List HackerPicks)
  | 0, _ => some []
  | n + 1, db => do
    let tick := scheduleDownstreamCrawl env hackers {}
    let stats ← (tick db ⟨{}, []⟩).res.toOption
    let claimed ← stats.picks.filter fun _ => !stats.throttled
    let rest ← cron env hackers n (tick.final db ⟨{}, []⟩)
    pure (claimed :: rest)

theorem cronRun_cron {env : Env} {hackers : List FlaggedHacker} {n : Nat} {db : Db}
    {picks : List HackerPicks} (h : cron env hackers n db = some picks) :
    ∃ db', CronRun env hackers db picks db' := by
  induction n generalizing db picks with
  | zero =>
    cases h
    exact ⟨db, .refl db⟩
  | succ n ih =>
    obtain ⟨stats, hStats, h⟩ := Option.bind_eq_some_iff.mp h
    obtain ⟨claimed, hClaimed, h⟩ := Option.bind_eq_some_iff.mp h
    obtain ⟨rest, hRest, h⟩ := Option.bind_eq_some_iff.mp h
    cases h
    obtain ⟨db', hRun⟩ := ih hRest
    obtain ⟨stats', hOk, rfl⟩ := Journal.Op.exists_ok (f := id) (by rwa [Option.map_id, id])
    obtain ⟨hPicks, hNot⟩ := Option.filter_eq_some_iff.mp hClaimed
    exact ⟨db', .tick hOk (by simpa using hNot) hPicks hRun⟩

def everyTickEnv : Env :=
  { provider := .ofTxs [], config := { hackerMaintenanceEveryNCrons := 1 } }

def threeHackers : List FlaggedHacker := [⟨name "a", none⟩, ⟨name "b", none⟩, ⟨name "c", none⟩]

/-- One of two hackers is maintained in every tick, and the other is never. -/
theorem everyHacker_starved : ¬ ∀ (env : Env) (hackers : List FlaggedHacker) (db db' : Db)
    (picks : List HackerPicks), hackers ≠ [] → 0 < env.config.hackerMaintenanceEveryNCrons →
    CronRun env hackers db picks db' → hackers.length ≤ (picks.filterMap (·.maintained)).length →
    ∀ i < hackers.length, i ∈ picks.filterMap (·.maintained) := by
  intro h
  have hCron : cron everyTickEnv (threeHackers.take 2) 2 .initial =
      some [⟨some 0, some 1⟩, ⟨some 0, some 1⟩] := by decide +kernel
  obtain ⟨db', hRun⟩ := cronRun_cron hCron
  have hReached := h _ _ _ _ _ (List.cons_ne_nil _ _) (by decide) hRun (by decide) 1 (by decide)
  revert hReached
  decide

/-- Three hackers are all maintained and crawled in six ticks. -/
theorem everyHacker_reached_three : ∃ picks db',
    CronRun everyTickEnv threeHackers .initial picks db' ∧
    (∀ i < 3, i ∈ picks.filterMap (·.maintained)) ∧ ∀ i < 3, i ∈ picks.filterMap (·.crawled) := by
  have hCron : cron everyTickEnv threeHackers 6 .initial =
      some [⟨some 0, some 1⟩, ⟨some 2, some 0⟩, ⟨some 1, some 2⟩, ⟨some 0, some 1⟩, ⟨some 2, some 0⟩,
        ⟨some 1, some 2⟩] := by decide +kernel
  obtain ⟨db', hRun⟩ := cronRun_cron hCron
  have hIff := (everyHacker_reached_iff (List.cons_ne_nil _ _) (by decide) hRun).2 (by decide)
  exact ⟨_, db', hRun, hIff.mpr (by decide)⟩

end Bloodhound.Indexer
