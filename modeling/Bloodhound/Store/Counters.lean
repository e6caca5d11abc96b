import Bloodhound.Store.Monad

/-!
# Derived counters

The counters that `store.ts` keeps beside the tables: the scheduler row, the statistics of
each hack, and the number of addresses due for a poll. Each is adjusted by deltas, and the
adjustments never take a counter below zero.
-/

namespace Bloodhound.Store

open Journal.Op (query run mem step when)

/-! ## Predicates on rows -/

def isCrawlPendingEligible (role : Role) (status : ExpandStatus) : Bool :=
  status = .pending && (role = .downstream || role = .hacker)

def isExpandedStatus (status : ExpandStatus) : Bool := status = .expanded

def isHackerActive (isFlaggedHacker : Bool) (totalReceivedSats : Int) : Bool :=
  isFlaggedHacker && 0 < totalReceivedSats

def isDownstreamTreeNode (role : Role) (hop : Option Nat) (maxDepth : Nat) : Bool :=
  role = .downstream && hop.any (· < maxDepth)

def crossedMinExpandThreshold (before after floor : Int) : Bool :=
  0 < floor && (decide (floor ≤ before) != decide (floor ≤ after))

def isDownstreamPollEligibleAddress (role : Role) (status : ExpandStatus) (hop : Option Nat)
    (maxDepth : Nat) (inboundSats minExpandSats : Int) : Bool :=
  role = .downstream && (status = .expanded || status = .pending) && hop.any (· < maxDepth) &&
    (minExpandSats ≤ 0 || minExpandSats ≤ max 0 inboundSats)

def AddressRow.pollEligible (row : AddressRow) (maxDepth : Nat) (minExpandSats : Int) : Bool :=
  isDownstreamPollEligibleAddress row.role row.expandStatus row.hopFromHacker maxDepth
    row.inboundSats minExpandSats

/-! ## Adjustments -/

/-- `adjustSchedulerCounter` and its siblings for the other counters. -/
def adjustCounter (counter : Counter) (delta : Int) : StoreM Unit :=
  when (delta ≠ 0) (run (.scheduler (.adjust counter delta)))

def adjustCrawlPendingCount (delta : Int) : StoreM Unit := adjustCounter .crawlPending delta

def adjustEdgeTotalsCounters (totalInDelta totalOutDelta : Int) : StoreM Unit :=
  when (totalInDelta ≠ 0 ∨ totalOutDelta ≠ 0)
    (run (.scheduler (.adjustEdgeTotals totalInDelta totalOutDelta)))

def ensureHackStatsRow (hackId : HackId) : StoreM Unit := run (.hackStats (.ensure hackId))

def adjustHackStatsCounter (hackId : HackId) (field : HackStatsField) (delta : Int) :
    StoreM Unit :=
  when (delta ≠ 0) do
    ensureHackStatsRow hackId
    run (.hackStats (.adjust hackId field delta))

/-- `tryInsertHackVictim`: whether the row was not there yet. -/
def tryInsertHackVictim (hackId : HackId) (source : Address) : StoreM Bool :=
  step [.insertHackVictim hackId source] fun db => (db.hackVictims.lookup (hackId, source)).isNone

def markMonitorSnapshotDirty : StoreM Unit := run (.scheduler .markMonitorDirty)

def isCacheFresh (cacheAt : Option Nat) (maxAgeSec nowMs : Nat) : Bool :=
  cacheAt.any fun at_ => nowMs ≤ at_ + maxAgeSec * 1000

/-- The cached count of due polls is for these parameters, recent and not marked dirty. -/
def SchedulerState.pollDueFresh (state : SchedulerState) (maxDepth minIntervalSec : Nat)
    (minExpandSats : Int) (nowMs : Nat) : Bool :=
  state.downstreamPollMaxDepth = maxDepth && state.downstreamPollIntervalSec = minIntervalSec &&
    state.downstreamPollMinExpandSats = minExpandSats &&
    isCacheFresh state.downstreamPollDueAt minIntervalSec nowMs && !state.monitorSnapshotDirty

/-- `adjustPollDueCountDelta`, followed by `markMonitorSnapshotDirty` where the cached count
is not fresh, as at each of its calls. -/
def adjustPollDueOrMarkDirty (delta : Int) (maxDepth minIntervalSec : Nat) (minExpandSats : Int) :
    StoreM Unit :=
  when (delta ≠ 0) do
    let state ← getSchedulerState
    let nowMs ← now
    let polledAt ← now
    if state.pollDueFresh maxDepth minIntervalSec minExpandSats nowMs then
      run (.scheduler (.adjustPollDue delta polledAt))
    else markMonitorSnapshotDirty

def maybeMarkMonitorSnapshotDirty (before after : Option AddressRow) : StoreM Unit := do
  let state ← getSchedulerState
  let eligible := fun row : Option AddressRow =>
    row.any (·.pollEligible state.downstreamTreeMaxDepth state.downstreamPollMinExpandSats)
  when (0 < state.downstreamTreeMaxDepth ∧ eligible before ≠ eligible after ∧
      0 < state.downstreamPollIntervalSec)
    (adjustPollDueOrMarkDirty (if eligible after then 1 else -1) state.downstreamTreeMaxDepth
      state.downstreamPollIntervalSec state.downstreamPollMinExpandSats)

/-- Move a counter by one where a property of a row changes. -/
def adjustOnChange (adjust : Int → StoreM Unit) (was is : Bool) : StoreM Unit :=
  when (was ≠ is) (adjust (if is then 1 else -1))

/-- Take a flagged row out of the statistics of its hack (`sign = -1`) or add it (`sign = 1`);
the count of hackers moves only where the hack changed and the flag did not. -/
def moveHackStats (row : AddressRow) (sign : Int) (countHacker : Bool) : StoreM Unit :=
  when row.isFlaggedHacker do
    adjustHackStatsCounter row.hackId .totalInSats (sign * row.totalReceivedSats)
    when (isHackerActive row.isFlaggedHacker row.totalReceivedSats ∧ countHacker)
      (adjustHackStatsCounter row.hackId .hackerCount sign)

def reconcileHackStatsForAddress (before : Option AddressRow) (after : AddressRow) :
    StoreM Unit :=
  let flagChanged := before.any (·.isFlaggedHacker) != after.isFlaggedHacker
  let hackIdChanged := decide ((before.map (·.hackId)).getD "coldcard" ≠ after.hackId)
  when (flagChanged ∨ hackIdChanged) do
    Journal.Op.forEach before.toList fun row => moveHackStats row (-1) (hackIdChanged && !flagChanged)
    moveHackStats after 1 (hackIdChanged && !flagChanged)

/-- The active-hacker counters after a row became active or inactive. -/
def adjustHackerActive (before : Option AddressRow) (after : AddressRow) (delta : Int) :
    StoreM Unit := do
  adjustCounter .hackerActive delta
  Journal.Op.forEach (if 0 < delta then [after] else before.toList) fun row =>
    when row.isFlaggedHacker (adjustHackStatsCounter row.hackId .hackerCount delta)

def applyAddressStatsDelta (before : Option AddressRow) (after : AddressRow) : StoreM Unit := do
  let state ← getSchedulerState
  let maxDepth := state.downstreamTreeMaxDepth
  adjustOnChange (adjustCounter .victim) (before.any (·.role = .victim)) (after.role = .victim)
  adjustOnChange (adjustCounter .crawlExpanded) (before.any (isExpandedStatus ·.expandStatus))
    (isExpandedStatus after.expandStatus)
  when (0 < maxDepth)
    (adjustOnChange (adjustCounter .downstreamTree)
      (before.any fun row => isDownstreamTreeNode row.role row.hopFromHacker maxDepth)
      (isDownstreamTreeNode after.role after.hopFromHacker maxDepth))
  adjustOnChange (adjustHackerActive before after)
    (before.any fun row => isHackerActive row.isFlaggedHacker row.totalReceivedSats)
    (isHackerActive after.isFlaggedHacker after.totalReceivedSats)
  reconcileHackStatsForAddress before after
  when (after.role = .downstream ∧ after.hopFromHacker.any (state.crawlMaxHopReached < ·))
    (run (.scheduler (.setCrawlMaxHop (after.hopFromHacker.getD 0))))

/-! ## Counters write no other table -/

/-- A statement on a derived counter: the scheduler row without its edge totals and without the
rotation of the cron ticks, and the statistics and victims of a hack. -/
def Stmt.isCounter : Stmt → Bool
  | .scheduler (.adjustEdgeTotals _ _) => false
  | .scheduler .incrementMaintenanceCron | .scheduler (.advanceHackerPoll _) => false
  | .scheduler _ => true
  | .hackStats _ => true
  | .insertHackVictim _ _ => true
  | _ => false

section Emits

open Journal Journal.Op

variable {P : Stmt → Prop}

theorem emits_adjustCounter (hP : ∀ i, Stmt.isCounter i → P i) (c : Counter) (d : Int) :
    (adjustCounter c d).Emits P :=
  emits_when fun _ => emits_run (hP _ rfl)

/-- What is written beside the adjusted counters: the statistics of the hacks, and the cached numbers
of the monitor. -/
def Stmt.isBeside : Stmt → Bool
  | .hackStats _ | .insertHackVictim _ _ => true
  | .scheduler (.adjustPollDue _ _) | .scheduler .markMonitorDirty => true
  | .scheduler (.setCrawlMaxHop _) => true
  | _ => false

theorem isCounter_of_isBeside {i : Stmt} (h : i.isBeside) : i.isCounter := by
  cases i with
  | scheduler s => cases s <;> first | rfl | cases h
  | hackStats | insertHackVictim => rfl
  | _ => cases h

abbrev Beside {α : Type} (p : StoreM α) : Prop := p.Emits fun i => i.isBeside = true

theorem Beside.emits {α : Type} {p : StoreM α} (h : Beside p) (hP : ∀ i, Stmt.isCounter i → P i) :
    p.Emits P := h.mono fun i hi => hP i (isCounter_of_isBeside hi)

theorem beside_run {i : Stmt} (h : i.isBeside = true) : Beside (run i) := emits_run h

theorem beside_adjustHackStatsCounter (id : HackId) (f : HackStatsField) (d : Int) :
    Beside (adjustHackStatsCounter id f d) :=
  emits_when fun _ => (beside_run rfl).bind fun _ => beside_run rfl

theorem emits_adjustHackStatsCounter (hP : ∀ i, Stmt.isCounter i → P i) (id : HackId)
    (f : HackStatsField) (d : Int) : (adjustHackStatsCounter id f d).Emits P :=
  (beside_adjustHackStatsCounter id f d).emits hP

theorem emits_tryInsertHackVictim (hP : ∀ i, Stmt.isCounter i → P i) (id : HackId)
    (a : Address) : (tryInsertHackVictim id a).Emits P :=
  emits_step _ (by simpa using hP _ rfl)

theorem emits_now : now.Emits P := emits_mem _

theorem beside_adjustPollDueOrMarkDirty (d : Int) (maxDepth minIntervalSec : Nat) (floor : Int) :
    Beside (adjustPollDueOrMarkDirty d maxDepth minIntervalSec floor) := by
  refine emits_when fun _ => (emits_query _).bind fun state => emits_now.bind fun _ =>
    emits_now.bind fun _ => ?_
  split
  · exact beside_run rfl
  · exact beside_run rfl

theorem emits_adjustPollDueOrMarkDirty (hP : ∀ i, Stmt.isCounter i → P i) (d : Int)
    (maxDepth minIntervalSec : Nat) (floor : Int) :
    (adjustPollDueOrMarkDirty d maxDepth minIntervalSec floor).Emits P :=
  (beside_adjustPollDueOrMarkDirty d maxDepth minIntervalSec floor).emits hP

theorem beside_maybeMarkMonitorSnapshotDirty (before after : Option AddressRow) :
    Beside (maybeMarkMonitorSnapshotDirty before after) :=
  (emits_query _).bind fun _ => emits_when fun _ => beside_adjustPollDueOrMarkDirty _ _ _ _

theorem emits_maybeMarkMonitorSnapshotDirty (hP : ∀ i, Stmt.isCounter i → P i)
    (before after : Option AddressRow) : (maybeMarkMonitorSnapshotDirty before after).Emits P :=
  (beside_maybeMarkMonitorSnapshotDirty before after).emits hP

theorem emits_adjustOnChange {adjust : Int → StoreM Unit} (h : ∀ d, (adjust d).Emits P)
    (was is : Bool) : (adjustOnChange adjust was is).Emits P :=
  emits_when fun _ => h _

theorem beside_moveHackStats (row : AddressRow) (sign : Int) (countHacker : Bool) :
    Beside (moveHackStats row sign countHacker) :=
  emits_when fun _ => (beside_adjustHackStatsCounter _ _ _).bind fun _ =>
    emits_when fun _ => beside_adjustHackStatsCounter _ _ _

theorem beside_reconcileHackStatsForAddress (before : Option AddressRow) (after : AddressRow) :
    Beside (reconcileHackStatsForAddress before after) :=
  emits_when fun _ => (emits_forEach fun row _ => beside_moveHackStats row _ _).bind fun _ =>
    beside_moveHackStats _ _ _

theorem emits_applyAddressStatsDelta (hP : ∀ i, Stmt.isCounter i → P i)
    (before : Option AddressRow) (after : AddressRow) :
    (applyAddressStatsDelta before after).Emits P := by
  have hCounter := fun c => emits_adjustOnChange (emits_adjustCounter hP c)
  have hActive : ∀ d, (adjustHackerActive before after d).Emits P := fun d =>
    (emits_adjustCounter hP _ d).bind fun _ => emits_forEach fun row _ =>
      emits_when fun _ => emits_adjustHackStatsCounter hP _ _ _
  exact (emits_query _).bind fun state => (hCounter _ _ _).bind fun _ =>
    (hCounter _ _ _).bind fun _ => (emits_when fun _ => hCounter _ _ _).bind fun _ =>
    (emits_adjustOnChange hActive _ _).bind fun _ =>
    ((beside_reconcileHackStatsForAddress _ _).emits hP).bind fun _ =>
    emits_when fun _ => emits_run (hP _ rfl)

end Emits

end Bloodhound.Store
