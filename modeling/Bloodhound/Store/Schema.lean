import Bloodhound.Lib.Journal
import Bloodhound.Lib.Table
import Bloodhound.Indexer.Payload
import Mathlib.Data.List.Sort

/-!
# Tables and statements

The tables that the indexer writes, with the columns that the modelled functions read,
and the SQL statements of `store.ts` that write them, one inductive type for each table.
Every statement writes one table, so a statement of another table leaves a table as it is.
-/

namespace Bloodhound.Store

open Indexer (BackfillPayload IngestProgress Job JobType)

/-! ## Rows -/

inductive Role where
  | hacker
  | victim
  | downstream
  | unknown
  deriving DecidableEq

inductive ExpandStatus where
  | pending
  | queued
  | expanding
  | backfilling
  | expanded
  | skippedMin
  | maxDepth
  deriving DecidableEq

inductive ExpandProfile where
  | sweepRelay
  | spendFanout
  deriving DecidableEq

inductive EdgeKind where
  | spendFanout
  | victimDust
  | victimRefund
  deriving DecidableEq

abbrev HackId : Type := String

structure AddressRow where
  role : Role
  hackId : HackId
  isFlaggedHacker : Bool
  hopFromHacker : Option Nat
  expandStatus : ExpandStatus
  expandProfile : Option ExpandProfile
  totalReceivedSats : Int
  inboundSats : Int
  deriving DecidableEq

/-- The unique index of `edges`. -/
structure EdgeKey where
  fromAddress : Address
  toAddress : Address
  txid : Txid
  deriving DecidableEq

structure FanoutMeta where
  txid : Txid
  outputCount : Nat
  totalOutSats : Int
  topOutputs : List (Address × Int)
  deriving DecidableEq

structure EdgeRow where
  amountSats : Int
  direction : Direction
  blockTime : Option Nat
  hopFromHacker : Option Nat
  edgeKind : Option EdgeKind
  fanoutMeta : Option FanoutMeta
  deriving DecidableEq

structure TransactionRow where
  blockHeight : Option Nat
  blockTime : Option Nat
  feeSats : Option Int
  opReturnDisplay : Option String
  deriving DecidableEq

structure HackStatsRow where
  victimCount : Int
  hackerCount : Int
  totalInSats : Int
  deriving DecidableEq

structure SyncStateRow where
  lastSeenTxid : Option Txid := none
  lastBlockHeight : Option Nat := none
  lastPolledAt : Option Nat := none
  lastObservedTxCount : Option Nat := none
  backfillState : Option BackfillPayload := none
  backfillComplete : Bool := false
  lastBackfillAuditAt : Option Nat := none
  deriving DecidableEq

inductive JobStatus where
  | pending
  | running
  | done
  deriving DecidableEq

structure JobRow where
  job : Job
  status : JobStatus := .pending
  priority : Int
  runAfter : Nat
  createdAt : Nat
  attempts : Nat := 0
  startedAt : Option Nat := none
  completedAt : Option Nat := none
  reclaimCount : Nat := 0
  reclaimProgress : Option IngestProgress := none
  deriving DecidableEq

/-- The table `jobs` with its autoincremented key: a new job gets an id that no job has. -/
structure JobTable where
  rows : Table.Rows Nat JobRow
  nextId : Nat
  fresh : ∀ id ∈ rows, id < nextId

/-- The counters of the scheduler row that are adjusted by deltas. -/
inductive Counter where
  | crawlPending
  | victim
  | hackerActive
  | crawlExpanded
  | downstreamTree
  | pendingJob
  | activeExpand
  | activeBackfill
  | activeAudit
  | activeProcessTx
  deriving DecidableEq

structure SchedulerState where
  counter : Counter → Int
  totalInSats : Int
  totalOutSats : Int
  downstreamTreeMaxDepth : Nat
  downstreamPollMaxDepth : Nat
  downstreamPollIntervalSec : Nat
  downstreamPollMinExpandSats : Int
  downstreamPollDueCount : Int
  downstreamPollDueAt : Option Nat
  monitorSnapshotDirty : Bool
  syncSnapshotDirty : Bool
  crawlMaxHopReached : Nat
  flaggedHackersCacheAt : Option Nat
  queueSchedulingPaused : Bool
  lastCompletedJobAt : Option Nat
  nextProviderCallAt : Option Nat
  esploraRetryAfterAt : Option Nat
  mempoolRetryAfterAt : Option Nat
  d1ReadRetryAfterAt : Option Nat
  d1WriteRetryAfterAt : Option Nat
  hackerPollIndex : Nat
  maintenanceCronCounter : Nat

inductive D1QuotaKind where
  | read
  | write
  deriving DecidableEq

/-- The sources of `source_sync_state`, which only the sync jobs write. -/
inductive SyncSource where
  | coldcardwatch
  | coldcardHackTracker
  | coldcardSweepWatch
  | bitqueryColdcard
  deriving DecidableEq

structure Db where
  addresses : Table.Rows Address AddressRow
  edges : Table.Rows EdgeKey EdgeRow
  transactions : Table.Rows Txid TransactionRow
  peaks : Table.Rows (Address × Address) Int
  hackStats : Table.Rows HackId HackStatsRow
  hackVictims : Table.Rows (HackId × Address) Unit
  syncState : Table.Rows Address SyncStateRow
  lastSyncAt : SyncSource → Option Nat
  jobs : JobTable
  scheduler : SchedulerState

/-- The scheduler row of a new store. -/
def SchedulerState.initial : SchedulerState where
  counter _ := 0
  totalInSats := 0
  totalOutSats := 0
  downstreamTreeMaxDepth := 0
  downstreamPollMaxDepth := 0
  downstreamPollIntervalSec := 0
  downstreamPollMinExpandSats := 0
  downstreamPollDueCount := 0
  downstreamPollDueAt := none
  monitorSnapshotDirty := false
  syncSnapshotDirty := false
  crawlMaxHopReached := 0
  flaggedHackersCacheAt := none
  queueSchedulingPaused := false
  lastCompletedJobAt := none
  nextProviderCallAt := none
  esploraRetryAfterAt := none
  mempoolRetryAfterAt := none
  d1ReadRetryAfterAt := none
  d1WriteRetryAfterAt := none
  hackerPollIndex := 0
  maintenanceCronCounter := 0

/-- A new store. -/
def Db.initial : Db where
  addresses := ∅
  edges := ∅
  transactions := ∅
  peaks := ∅
  hackStats := ∅
  hackVictims := ∅
  syncState := ∅
  lastSyncAt _ := none
  jobs := ⟨∅, 1, fun id h => absurd h (AList.notMem_empty id)⟩
  scheduler := .initial

/-! ## Statements -/

/-- `AddressUpsertData`: a column that is absent is not provided. -/
structure AddressUpsertData where
  address : Address
  role : Option Role := none
  hackId : Option HackId := none
  isFlaggedHacker : Option Bool := none
  hopFromHacker : Option (Option Nat) := none
  expandStatus : Option ExpandStatus := none
  totalReceivedSats : Option Int := none
  forceRole : Bool := false

structure EdgeUpsertData where
  fromAddress : Address
  toAddress : Address
  txid : Txid
  amountSats : Int
  blockTime : Option Nat := none
  hopFromHacker : Option Nat := none
  direction : Direction
  edgeKind : Option EdgeKind := none
  fanoutMeta : Option FanoutMeta := none
  deriving DecidableEq

def EdgeUpsertData.key (data : EdgeUpsertData) : EdgeKey :=
  ⟨data.fromAddress, data.toAddress, data.txid⟩

/-- `TransactionUpsertData`: the display is absent, or provided and possibly null. -/
structure TransactionUpsertData where
  txid : Txid
  blockHeight : Option Nat
  blockTime : Option Nat
  feeSats : Option Int
  opReturnDisplay : Option String := none

inductive HackStatsField where
  | victimCount
  | hackerCount
  | totalInSats
  deriving DecidableEq

inductive AddressStmt where
  | upsert (data : AddressUpsertData)
  | setExpandStatus (address : Address) (status : ExpandStatus)
  | setExpandProfile (address : Address) (profile : ExpandProfile)
  | addInboundSats (address : Address) (delta : Int)
  | setInboundSats (address : Address) (total : Int)
  | zeroInboundSats
  | addTotalReceivedSats (address : Address) (delta : Int)
  | setTotalReceivedSats (address : Address) (total : Int)
  | zeroHackerTotalReceived
  | delete (address : Address)

inductive EdgeStmt where
  | upsert (data : EdgeUpsertData)
  | deleteTouching (address : Address)
  | deleteHackTrace

inductive PeakStmt where
  | raise (hacker source : Address) (amount : Int)
  | set (hacker source : Address) (amount : Int)
  | delete (hacker source : Address)

inductive HackStatsStmt where
  | ensure (hackId : HackId)
  | adjust (hackId : HackId) (field : HackStatsField) (delta : Int)

inductive SchedulerStmt where
  | adjust (counter : Counter) (delta : Int)
  | adjustEdgeTotals (totalIn totalOut : Int)
  | adjustPollDue (delta : Int) (at_ : Nat)
  | markMonitorDirty
  | markJobDirty
  | setCrawlMaxHop (hop : Nat)
  | invalidateFlaggedHackersCache
  | setQueueSchedulingPaused (paused : Bool)
  | setLastCompletedJob (at_ : Nat)
  | zeroQueueCounters
  | setD1QuotaPaused (kind : D1QuotaKind) (retryAt : Nat)
  | incrementMaintenanceCron
  | advanceHackerPoll (hackerCount : Nat)
  | flushRecentHackers

inductive JobStmt where
  | insert (job : Job) (priority : Int) (runAfter createdAt : Nat)
  | insertIfAbsent (job : Job) (priority : Int) (runAfter createdAt : Nat)
      (dedupeTypes : List JobType) (address : Option Address)
  | claim (id startedAt : Nat)
  | complete (id completedAt : Nat)
  | requeue (id attempts runAfter : Nat)
  | reclaim (id reclaimCount : Nat) (progress : IngestProgress)
  | clearReclaim (id : Nat)
  | deleteActiveForAddress (address : Address)
  | deleteActive
  | pruneDone (cutoff size : Nat)

inductive Stmt where
  | address (stmt : AddressStmt)
  | edge (stmt : EdgeStmt)
  | transaction (data : TransactionUpsertData)
  | peak (stmt : PeakStmt)
  | hackStats (stmt : HackStatsStmt)
  | insertHackVictim (hackId : HackId) (source : Address)
  | syncState (address : Address) (row : SyncStateRow)
  | deleteSyncState (address : Address)
  | job (stmt : JobStmt)
  | scheduler (stmt : SchedulerStmt)

/-! ## Execution -/

/-- The row that an upsert of `addresses` inserts. -/
def AddressUpsertData.inserted (data : AddressUpsertData) : AddressRow where
  role := data.role.getD .unknown
  hackId := data.hackId.getD "coldcard"
  isFlaggedHacker := data.isFlaggedHacker.getD false
  hopFromHacker := data.hopFromHacker.getD none
  expandStatus := data.expandStatus.getD .pending
  expandProfile := none
  totalReceivedSats := data.totalReceivedSats.getD 0
  inboundSats := 0

/-- The upsert would label a hacker or downstream address as a victim and is not forced. -/
def AddressUpsertData.fenced (data : AddressUpsertData) (row : AddressRow) : Bool :=
  !data.forceRole && (row.role = .hacker || row.role = .downstream) &&
    data.role.getD .unknown = .victim

/-- The row after the conflict clause of an upsert of `addresses`. -/
def AddressUpsertData.updated (data : AddressUpsertData) (row : AddressRow) : AddressRow :=
  { row with
    role := if data.fenced row then row.role else data.role.getD row.role
    hackId := data.hackId.getD row.hackId
    isFlaggedHacker := data.isFlaggedHacker.getD row.isFlaggedHacker
    hopFromHacker :=
      if data.fenced row then row.hopFromHacker else data.hopFromHacker.getD row.hopFromHacker
    expandStatus := data.expandStatus.getD row.expandStatus
    totalReceivedSats := data.totalReceivedSats.getD row.totalReceivedSats }

def AddressStmt.exec : AddressStmt → Table.Rows Address AddressRow → Table.Rows Address AddressRow
  | .upsert data, t => t.insert data.address ((t.lookup data.address).elim data.inserted data.updated)
  | .setExpandStatus a s, t => Table.modify a (fun r => { r with expandStatus := s }) t
  | .setExpandProfile a p, t => Table.modify a (fun r => { r with expandProfile := some p }) t
  | .addInboundSats a d, t =>
    Table.modify a (fun r => { r with inboundSats := r.inboundSats + d }) t
  | .setInboundSats a v, t => Table.modify a (fun r => { r with inboundSats := v }) t
  | .zeroInboundSats, t => Table.mapRows (fun _ r => { r with inboundSats := 0 }) t
  | .addTotalReceivedSats a d, t =>
    Table.modify a (fun r => { r with totalReceivedSats := r.totalReceivedSats + d }) t
  | .setTotalReceivedSats a v, t => Table.modify a (fun r => { r with totalReceivedSats := v }) t
  | .zeroHackerTotalReceived, t =>
    Table.mapRows (fun _ r => if r.isFlaggedHacker then { r with totalReceivedSats := 0 } else r) t
  | .delete a, t => t.erase a

def EdgeUpsertData.inserted (data : EdgeUpsertData) : EdgeRow where
  amountSats := data.amountSats
  direction := data.direction
  blockTime := data.blockTime
  hopFromHacker := data.hopFromHacker
  edgeKind := data.edgeKind
  fanoutMeta := data.fanoutMeta

def EdgeUpsertData.updated (data : EdgeUpsertData) (row : EdgeRow) : EdgeRow where
  amountSats := data.amountSats
  direction := data.direction
  blockTime := data.blockTime.or row.blockTime
  hopFromHacker := data.hopFromHacker.or row.hopFromHacker
  edgeKind := data.edgeKind.or row.edgeKind
  fanoutMeta := data.fanoutMeta.or row.fanoutMeta

def EdgeStmt.exec : EdgeStmt → Table.Rows EdgeKey EdgeRow → Table.Rows EdgeKey EdgeRow
  | .upsert data, t => t.insert data.key ((t.lookup data.key).elim data.inserted data.updated)
  | .deleteTouching a, t => Table.filter (fun k _ => !(k.fromAddress = a || k.toAddress = a)) t
  | .deleteHackTrace, t =>
    Table.filter (fun _ r => !(r.direction = .inToHacker || r.direction = .outFromHacker)) t

/-- The display of a stored transaction after an upsert: a nonempty one stays. -/
def TransactionUpsertData.display (data : TransactionUpsertData) (row : TransactionRow) :
    Option String :=
  if row.opReturnDisplay.any (· ≠ "") then row.opReturnDisplay
  else data.opReturnDisplay.or row.opReturnDisplay

def TransactionUpsertData.exec (data : TransactionUpsertData)
    (t : Table.Rows Txid TransactionRow) : Table.Rows Txid TransactionRow :=
  t.insert data.txid ((t.lookup data.txid).elim
    { blockHeight := data.blockHeight
      blockTime := data.blockTime
      feeSats := data.feeSats
      opReturnDisplay := data.opReturnDisplay }
    fun row =>
      { blockHeight := data.blockHeight.or row.blockHeight
        blockTime := data.blockTime.or row.blockTime
        feeSats := data.feeSats.or row.feeSats
        opReturnDisplay := data.display row })

def PeakStmt.exec : PeakStmt → Table.Rows (Address × Address) Int →
    Table.Rows (Address × Address) Int
  | .raise h s v, t => t.insert (h, s) ((t.lookup (h, s)).elim v (max · v))
  | .set h s v, t => Table.modify (h, s) (fun _ => v) t
  | .delete h s, t => t.erase (h, s)

def HackStatsRow.adjust (row : HackStatsRow) (delta : Int) : HackStatsField → HackStatsRow
  | .victimCount => { row with victimCount := max 0 (row.victimCount + delta) }
  | .hackerCount => { row with hackerCount := max 0 (row.hackerCount + delta) }
  | .totalInSats => { row with totalInSats := max 0 (row.totalInSats + delta) }

def HackStatsStmt.exec : HackStatsStmt → Table.Rows HackId HackStatsRow →
    Table.Rows HackId HackStatsRow
  | .ensure id, t => t.insert id ((t.lookup id).getD ⟨0, 0, 0⟩)
  | .adjust id field delta, t => Table.modify id (fun r => r.adjust delta field) t

/-- Add to one counter, which never falls below zero. -/
def SchedulerState.adjust (s : SchedulerState) (c : Counter) (delta : Int) : SchedulerState :=
  { s with counter := fun c' => if c' = c then max 0 (s.counter c + delta) else s.counter c' }

/-- The counters of the job queue. -/
def Counter.isQueue : Counter → Bool
  | .pendingJob | .activeExpand | .activeBackfill | .activeAudit | .activeProcessTx => true
  | _ => false

def SchedulerStmt.exec : SchedulerStmt → SchedulerState → SchedulerState
  | .adjust c d, s => s.adjust c d
  | .adjustEdgeTotals dIn dOut, s =>
    { s with
      totalInSats := max 0 (s.totalInSats + dIn)
      totalOutSats := max 0 (s.totalOutSats + dOut) }
  | .adjustPollDue d at_, s =>
    { s with
      downstreamPollDueCount := max 0 (s.downstreamPollDueCount + d)
      downstreamPollDueAt := some at_ }
  | .markMonitorDirty, s => { s with monitorSnapshotDirty := true }
  | .markJobDirty, s => { s with syncSnapshotDirty := true }
  | .setCrawlMaxHop hop, s => { s with crawlMaxHopReached := hop }
  | .invalidateFlaggedHackersCache, s => { s with flaggedHackersCacheAt := none }
  | .setQueueSchedulingPaused paused, s => { s with queueSchedulingPaused := paused }
  | .setLastCompletedJob at_, s => { s with lastCompletedJobAt := some at_ }
  | .zeroQueueCounters, s => { s with counter := fun c => if c.isQueue then 0 else s.counter c }
  | .setD1QuotaPaused kind retryAt, s =>
    { s with
      d1ReadRetryAfterAt := if kind = .read then some retryAt else s.d1ReadRetryAfterAt
      d1WriteRetryAfterAt := if kind = .write then some retryAt else s.d1WriteRetryAfterAt }
  | .incrementMaintenanceCron, s => { s with maintenanceCronCounter := s.maintenanceCronCounter + 1 }
  | .advanceHackerPoll n, s => { s with hackerPollIndex := (s.hackerPollIndex + 1) % n }
  -- the buffer of recent activity and its column are not modelled
  | .flushRecentHackers, s => s

/-! ### Jobs -/

/-- `JOB_STATUS_ACTIVE_SQL`. -/
def JobRow.active (row : JobRow) : Bool := row.status = .pending || row.status = .running

namespace JobTable

def lookup (t : JobTable) (id : Nat) : Option JobRow := t.rows.lookup id

def insertRow (row : JobRow) (t : JobTable) : JobTable where
  rows := t.rows.insert t.nextId row
  nextId := t.nextId + 1
  fresh id h := by
    rcases (AList.mem_insert _).mp h with rfl | h
    · exact Nat.lt_succ_self _
    · exact (t.fresh id h).trans (Nat.lt_succ_self _)

def update (id : Nat) (f : JobRow → JobRow) (t : JobTable) : JobTable where
  rows := Table.modify id f t.rows
  nextId := t.nextId
  fresh id' h := by
    have hSome := AList.lookup_isSome.mpr h
    rw [Table.lookup_modify] at hSome
    refine t.fresh id' (AList.lookup_isSome.mp ?_)
    split at hSome
    · rwa [Option.isSome_map] at hSome
    · exact hSome

def keep (p : Nat → JobRow → Bool) (t : JobTable) : JobTable where
  rows := Table.filter p t.rows
  nextId := t.nextId
  fresh id h := by
    have hSome := AList.lookup_isSome.mpr h
    rw [Table.lookup_filter] at hSome
    exact t.fresh id (AList.lookup_isSome.mp (Option.isSome_of_isSome_filter _ _ hSome))

/-- A matching active job exists: of one of the types and, where one is given, of the address. -/
def hasActive (t : JobTable) (types : List JobType) (address : Option Address) : Bool :=
  t.rows.entries.any fun e =>
    e.2.active && e.2.job.type ∈ types && address.all fun a => e.2.job.address = some a

/-- The done jobs that were completed before the cutoff, the oldest first. -/
def doneBefore (t : JobTable) (cutoff size : Nat) : List Nat :=
  (((t.rows.entries.filter fun e =>
    e.2.status = .done && e.2.completedAt.any (· < cutoff)).insertionSort fun e e' =>
      e.2.completedAt.getD 0 ≤ e'.2.completedAt.getD 0).take size).map (·.1)

end JobTable

def JobStmt.exec : JobStmt → JobTable → JobTable
  | .insert job priority runAfter createdAt, t =>
    t.insertRow { job, priority, runAfter, createdAt }
  | .insertIfAbsent job priority runAfter createdAt types address, t =>
    if t.hasActive types address then t else t.insertRow { job, priority, runAfter, createdAt }
  | .claim id startedAt, t =>
    t.update id fun r => if r.status = .pending then
      { r with status := .running, startedAt := some startedAt, completedAt := none } else r
  | .complete id completedAt, t =>
    t.update id fun r =>
      { r with
        status := .done
        completedAt := some completedAt
        reclaimCount := 0
        reclaimProgress := none }
  | .requeue id attempts runAfter, t =>
    t.update id fun r => { r with status := .pending, attempts, runAfter, startedAt := none }
  | .reclaim id reclaimCount progress, t =>
    t.update id fun r =>
      { r with
        status := .pending
        startedAt := none
        reclaimCount
        reclaimProgress := some progress }
  | .clearReclaim id, t => t.update id fun r => { r with reclaimCount := 0, reclaimProgress := none }
  | .deleteActiveForAddress a, t => t.keep fun _ r => !(r.active && r.job.address = some a)
  | .deleteActive, t => t.keep fun _ r => !r.active
  | .pruneDone cutoff size, t => t.keep fun id _ => id ∉ t.doneBefore cutoff size

def Stmt.exec : Stmt → Db → Db
  | .address s, db => { db with addresses := s.exec db.addresses }
  | .edge s, db => { db with edges := s.exec db.edges }
  | .transaction d, db => { db with transactions := d.exec db.transactions }
  | .peak s, db => { db with peaks := s.exec db.peaks }
  | .hackStats s, db => { db with hackStats := s.exec db.hackStats }
  | .insertHackVictim id a, db => { db with hackVictims := db.hackVictims.insert (id, a) () }
  | .syncState a row, db => { db with syncState := db.syncState.insert a row }
  | .deleteSyncState a, db => { db with syncState := db.syncState.erase a }
  | .job s, db => { db with jobs := s.exec db.jobs }
  | .scheduler s, db => { db with scheduler := s.exec db.scheduler }

instance : Journal.Statement Stmt Db := ⟨Stmt.exec⟩

/-! ## What a statement leaves as it is -/

def Stmt.address? : Stmt → Option AddressStmt
  | .address s => some s
  | _ => none

def Stmt.edge? : Stmt → Option EdgeStmt
  | .edge s => some s
  | _ => none

def Stmt.transaction? : Stmt → Option TransactionUpsertData
  | .transaction d => some d
  | _ => none

def Stmt.job? : Stmt → Option JobStmt
  | .job s => some s
  | _ => none

end Bloodhound.Store
