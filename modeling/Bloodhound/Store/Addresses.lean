import Bloodhound.Store.Counters

/-!
# Addresses

The operations of `store.ts` on rows of `addresses`: upserts of one address and of a
batch, the crawl status, and the two running totals. Besides its statement on `addresses`
each of them adjusts counters; the results of this file say which statements on
`addresses` a run executes.
-/

namespace Bloodhound.Store

open Journal.Op (query run mem step when forEach bounded)

def setExpandProfile (address : Address) (profile : ExpandProfile) : StoreM Unit :=
  run (.address (.setExpandProfile address profile))

/-- The adjustments after the row of an address changed from `before` to `after`. -/
def adjustForRow (before : Option AddressRow) (after : AddressRow) : StoreM Unit := do
  applyAddressStatsDelta before after
  maybeMarkMonitorSnapshotDirty before (some after)

def AddressRow.crawlPending (row : AddressRow) : Bool :=
  isCrawlPendingEligible row.role row.expandStatus

/-- The change of the crawl-pending count when a row changes. -/
def crawlPendingDelta (before after : Option AddressRow) : Int :=
  (if after.any (·.crawlPending) then 1 else 0) - (if before.any (·.crawlPending) then 1 else 0)

def upsertAddress (data : AddressUpsertData) : StoreM Unit := do
  let existing ← getAddress data.address
  run (.address (.upsert data))
  when (data.isFlaggedHacker.any (· != existing.any (·.isFlaggedHacker)))
    (run (.scheduler .invalidateFlaggedHackersCache))
  let updated ← getAddress data.address
  forEach updated.toList fun row => do
    adjustCrawlPendingCount (crawlPendingDelta existing (some row))
    adjustForRow existing row

/-- `INSERT … ON CONFLICT(address) DO NOTHING`: one statement, and whether it inserted a row. -/
def insertRowIfMissing (data : AddressUpsertData) : StoreM Bool :=
  bounded fun db =>
    if (db.addresses.lookup data.address).isSome then step [] fun _ => false
    else step [.address (.upsert data)] fun _ => true

def insertAddressIfMissing (data : AddressUpsertData) : StoreM Bool := do
  let inserted ← insertRowIfMissing data
  when (inserted ∧ isCrawlPendingEligible (data.role.getD .unknown) (data.expandStatus.getD .pending))
    (adjustCrawlPendingCount 1)
  when inserted do
    let row ← getAddress data.address
    forEach row.toList fun row => adjustForRow none row
  pure inserted

/-- `loadAddressesByList`: the rows of the listed addresses. -/
def loadAddressesByList (addressList : List Address) : StoreM (Address → Option AddressRow) :=
  query fun db address => if address ∈ addressList then db.addresses.lookup address else none

/-- `upsertAddressesBatch`; the adjustments visit each address once, from the last row. -/
def upsertAddressesBatch (env : Env) (rows : List AddressUpsertData) : StoreM Unit :=
  when (rows ≠ []) do
    let before ← loadAddressesByList (rows.map (·.address))
    forEach (chunkArray env.store.d1BatchSize rows) fun chunk =>
      executeSqlBatch env (chunk.map fun data => .address (.upsert data))
    when (rows.any fun data =>
        data.isFlaggedHacker.any (· != (before data.address).any (·.isFlaggedHacker)))
      (run (.scheduler .invalidateFlaggedHackersCache))
    let after ← loadAddressesByList (rows.map (·.address))
    let seen := (rows.map (·.address)).dedup.reverse
    forEach seen fun address => do
      forEach (after address).toList fun row => applyAddressStatsDelta (before address) row
      maybeMarkMonitorSnapshotDirty (before address) (after address)
    adjustCrawlPendingCount (seen.map fun a => crawlPendingDelta (before a) (after a)).sum

def setExpandStatus (address : Address) (status : ExpandStatus) : StoreM Unit := do
  let existing ← getAddress address
  run (.address (.setExpandStatus address status))
  forEach existing.toList fun row => do
    adjustCrawlPendingCount (crawlPendingDelta existing (some { row with expandStatus := status }))
    adjustOnChange (adjustCounter .crawlExpanded) (isExpandedStatus row.expandStatus)
      (isExpandedStatus status)
    let updated ← getAddress address
    forEach updated.toList fun after => maybeMarkMonitorSnapshotDirty existing (some after)

/-- The addresses whose expansion is queued or under way. -/
def stuckAddresses (db : Db) : List (Address × AddressRow) :=
  (db.addresses.entries.filter fun e =>
    e.2.expandStatus = .queued || e.2.expandStatus = .expanding).map fun e => (e.1, e.2)

/-- `resetStuckExpandStatuses`: one statement resets every row. -/
def resetStuckExpandStatuses : StoreM Nat := do
  let stuck ← query stuckAddresses
  let changed ← bounded fun db =>
    step ((stuckAddresses db).map fun e => .address (.setExpandStatus e.1 .pending)) fun db =>
      (stuckAddresses db).length
  adjustCrawlPendingCount (stuck.countP fun e => isCrawlPendingEligible e.2.role .pending)
  pure changed

/-- The address was never polled, or not since the cutoff. -/
def pollCountsAsDue (sync : Option SyncStateRow) (minIntervalSec nowMs : Nat) : Bool :=
  match sync.bind (·.lastPolledAt) with
  | some polledAt => polledAt + minIntervalSec * 1000 ≤ nowMs
  | none => true

/-- The second half of `applyInboundSatsDelta`: the change may move an address over the floor
of the poll schedule. -/
def adjustPollDueForInbound (address : Address) (existing : AddressRow) (deltaSats : Int)
    (state : SchedulerState) : StoreM Unit :=
  let floor := state.downstreamPollMinExpandSats
  let afterInbound := existing.inboundSats + deltaSats
  when (0 < state.downstreamTreeMaxDepth ∧ 0 < state.downstreamPollIntervalSec ∧
      crossedMinExpandThreshold existing.inboundSats afterInbound floor ∧
      existing.pollEligible state.downstreamTreeMaxDepth 0) do
    let sync ← getSyncState address
    let nowMs ← now
    when (pollCountsAsDue sync state.downstreamPollIntervalSec nowMs)
      (adjustPollDueOrMarkDirty (if floor ≤ afterInbound then 1 else -1)
        state.downstreamTreeMaxDepth state.downstreamPollIntervalSec floor)

def applyInboundSatsDelta (toAddress : Address) (deltaSats : Int) : StoreM Unit :=
  when (deltaSats ≠ 0) do
    let existing ← getAddress toAddress
    let state ← getSchedulerState
    run (.address (.addInboundSats toAddress deltaSats))
    forEach existing.toList fun row => adjustPollDueForInbound toAddress row deltaSats state

def addInboundSats (toAddress : Address) (deltaSats : Int) : StoreM Unit :=
  applyInboundSatsDelta toAddress deltaSats

def applyTotalReceivedDelta (hackerAddress : Address) (deltaSats : Int) : StoreM Unit :=
  when (deltaSats ≠ 0) do
    let before ← getAddress hackerAddress
    run (.address (.addTotalReceivedSats hackerAddress deltaSats))
    forEach before.toList fun row => do
      let wasActive := isHackerActive row.isFlaggedHacker row.totalReceivedSats
      let isActive := isHackerActive row.isFlaggedHacker (row.totalReceivedSats + deltaSats)
      adjustOnChange (adjustHackerActive (some row) row) wasActive isActive
      when row.isFlaggedHacker (adjustHackStatsCounter row.hackId .totalInSats deltaSats)

/-! ## Totals recomputed from the edges -/

/-- The sum of the `in_to_hacker` edges into an address. -/
def sumInToHacker (db : Db) (address : Address) : Int :=
  Table.sum (fun k r => if k.toAddress = address ∧ r.direction = .inToHacker then r.amountSats else 0)
    db.edges

/-- The sum of the `out_from_hacker` edges into an address. -/
def sumOutInto (db : Db) (address : Address) : Int :=
  Table.sum
    (fun k r => if k.toAddress = address ∧ r.direction = .outFromHacker then r.amountSats else 0)
    db.edges

def recalcTotalReceived (hackerAddress : Address) : StoreM Unit := do
  let before ← getAddress hackerAddress
  let nextTotal ← query fun db => sumInToHacker db hackerAddress
  run (.address (.setTotalReceivedSats hackerAddress nextTotal))
  forEach before.toList fun row => when row.isFlaggedHacker do
    adjustHackStatsCounter row.hackId .totalInSats (nextTotal - row.totalReceivedSats)
    adjustOnChange (adjustHackStatsCounter row.hackId .hackerCount)
      (isHackerActive row.isFlaggedHacker row.totalReceivedSats)
      (isHackerActive row.isFlaggedHacker nextTotal)

def recalcInboundSats (toAddress : Address) : StoreM Unit := do
  let total ← query fun db => sumOutInto db toAddress
  run (.address (.setInboundSats toAddress total))

def recalcInboundSatsFor (toAddresses : List Address) : StoreM Unit :=
  forEach toAddresses.dedup recalcInboundSats

/-! ## Reads -/

def getExistingAddressSet (addressList : List Address) : StoreM (List Address) :=
  query fun db => addressList.filter fun a => (db.addresses.lookup a).isSome

/-- What decides the crawl status of an output: the status of its row and its inbound total. -/
structure ExpandContext where
  expandStatus : ExpandStatus
  inboundSats : Int

def getDownstreamExpandContext (addressList : List Address) :
    StoreM (Address → Option ExpandContext) :=
  query fun db address =>
    if address ∈ addressList then
      (db.addresses.lookup address).map fun row => ⟨row.expandStatus, row.inboundSats⟩
    else none

/-! ## What the upserts write -/

section Emits

open Journal.Op

theorem emits_executeSqlBatch {P : Stmt → Prop} (env : Env) {statements : List Stmt}
    (h : ∀ i ∈ statements, P i) : (executeSqlBatch env statements).Emits P := by
  unfold executeSqlBatch
  split
  · exact emits_pure ()
  · split
    · exact emits_step _ h
    · exact emits_forEach fun i hi => emits_run (h i hi)

theorem emits_adjustForRow {P : Stmt → Prop} (hP : ∀ i, Stmt.isCounter i → P i)
    (before : Option AddressRow) (after : AddressRow) : (adjustForRow before after).Emits P :=
  (emits_applyAddressStatsDelta hP _ _).bind fun _ => emits_maybeMarkMonitorSnapshotDirty hP _ _

theorem emits_upsertAddress {P : Stmt → Prop} (hP : ∀ i, Stmt.isCounter i → P i)
    {data : AddressUpsertData} (hUpsert : P (.address (.upsert data))) :
    (upsertAddress data).Emits P := by
  refine (emits_query _).bind fun existing => (emits_run hUpsert).bind fun _ => ?_
  refine (emits_when fun _ => emits_run (hP _ rfl)).bind fun _ => (emits_query _).bind fun updated => ?_
  exact emits_forEach fun row _ => (emits_adjustCounter hP _ _).bind fun _ => emits_adjustForRow hP _ _

end Emits

end Bloodhound.Store
