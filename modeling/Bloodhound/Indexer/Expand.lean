import Bloodhound.Indexer.Backfill

/-!
# The expansion of a downstream address

`expandDownstream` of `processor.ts` with `sweepRelay.ts`: like a backfill, an invocation fetches at
most one page of the history of an address and processes some of its entries, here the newest
first. Its state travels in the payload only.
-/

namespace Bloodhound.Indexer

open Chain Store Bloodhound.Graph
open Journal.Op (query run mem when forEach)

/-! ## Sweep relays -/

/-- `collectSpendTargetsFromRuntime`. -/
def collectSpendTargetsFromRuntime (entries : List PendingTxRuntime) : List Address :=
  entries.flatMap fun entry =>
    if entry.isSpend = some true then
      ((entry.pageEntry.bind (·.vout)).getD []).filterMap (·.scriptpubkeyAddress)
    else []

def median (values : List Nat) : ℚ :=
  let sorted := values.insertionSort (· ≤ ·)
  let mid := sorted.length / 2
  if sorted = [] then 0
  else if sorted.length % 2 = 0 then (sorted.getD (mid - 1) 0 + sorted.getD mid 0) / 2
  else sorted.getD mid 0

/-- `primaryTargetShare`: the share of the most frequent target. -/
def primaryTargetShare (targets : List Address) : ℚ :=
  ((targets.dedup.map targets.count).max?.getD 0 : Nat) / (targets.length : ℚ)

/-- `detectSweepRelay(...).matched`. -/
def detectSweepRelay (entries : List PendingTxRuntime) (spendTargets : List Address)
    (config : AppConfig) : Bool :=
  let receives := entries.filter (·.isSpend = some false)
  let classified := receives.length + entries.countP (·.isSpend = some true)
  let receiveVouts := (receives.map fun e => e.voutCount.getD 0).filter (0 < ·)
  classified ≠ 0 && config.sweepRelayMinReceiveRatio ≤ (receives.length / classified : ℚ) &&
    receiveVouts ≠ [] && config.sweepRelayMinVoutCount ≤ median receiveVouts &&
    spendTargets ≠ [] && config.sweepRelayMinSpendTargetShare ≤ primaryTargetShare spendTargets

/-! ## Payloads -/

/-- `expandOpsFields`: a priority is kept with the flag, and where it is at least one. -/
def expandOpsFields (ops : Bool) (opsPriority : Option Nat) : Bool × Option Nat :=
  (ops, if ops then opsPriority.filter (1 ≤ ·) else none)

def resolveExpandJobPriority (payload : ExpandPayload) : Int :=
  (expandOpsFields payload.ops payload.opsPriority).2.elim JobPriority.cronExpand Nat.cast

/-- A refused continuation ends the invocation with an exception. -/
def enqueueExpandContinuation (env : Env) (payload : ExpandPayload) : StoreM Unit := do
  let id ← enqueueJob env (.expandDownstream payload) (resolveExpandJobPriority payload) none false
  when id.isNone do
    let state ← getSchedulerState
    Journal.Op.throw (.enqueueBlocked state.queueSchedulingPaused)

/-- What an invocation holds of the history, with the number of pages that were fetched. -/
structure ExpandHistory extends HistoryState where
  pagesFetched : Nat

def ExpandPayload.history (payload : ExpandPayload) : ExpandHistory where
  pending := readPending payload.toPendingPayloadFields
  processedIndex := payload.processedIndex
  chainCursor := payload.chainCursor
  pagesExhausted := payload.pagesExhausted
  newestTxid := payload.newestTxid
  newestBlockHeight := payload.newestBlockHeight
  pagesFetched := payload.pagesFetched

/-- The payload of a continuation; whether its entries take new page snapshots differs by its
place. -/
def expandContinuation (payload : ExpandPayload) (h : ExpandHistory) (opts : Option SerializeOpts)
    (processedIndex : Nat) (trace : TraceProcessState) : ExpandPayload :=
  { toPendingPayloadFields := writePendingPayload h.pending processedIndex opts
    address := payload.address
    ops := (expandOpsFields payload.ops payload.opsPriority).1
    opsPriority := (expandOpsFields payload.ops payload.opsPriority).2
    chainCursor := h.chainCursor
    pagesExhausted := h.pagesExhausted
    newestTxid := h.newestTxid
    newestBlockHeight := h.newestBlockHeight
    pagesFetched := h.pagesFetched
    trace }

/-! ## The fetch -/

/-- `maxPages`, for pages of 25 entries. -/
def maxPages (config : AppConfig) : Nat := max 1 ((config.backfillMaxTxs + 24) / 25)

/-- The first page decides whether the address is a sweep relay. -/
def profileFirstPage (env : Env) (address : Address) (h : ExpandHistory) : StoreM Unit :=
  when (h.pagesFetched = 1 ∧ detectSweepRelay h.pending (collectSpendTargetsFromRuntime h.pending)
      env.config) (setExpandProfile address .sweepRelay)

/-- The history after a page. -/
def ExpandHistory.fetched (h : ExpandHistory) (config : AppConfig) (address : Address)
    (txs : List ChainTxSummary) : ExpandHistory :=
  let pagesFetched := h.pagesFetched + 1
  let h' := h.toHistoryState.fetched txs (classifyPageTxs txs address)
  { h' with
    pagesExhausted := h'.pagesExhausted || decide (config.backfillMaxTxs ≤ pagesFetched * 25)
    pagesFetched }

/-- Fetch the next page where all entries are processed: the history, and whether the invocation
ends with its budgets spent and work left. -/
def fetchForExpand (env : Env) (address : Address) (h : ExpandHistory) :
    StoreM (ExpandHistory × Bool) := do
  let ready ← canCallAndUse
  if h.pending.length ≤ h.processedIndex && !h.pagesExhausted &&
      decide (h.pagesFetched < maxPages env.config) && ready then do
    let txs ← fetchAddressTxPage env address h.chainCursor
    consumeBudget
    let h' := h.fetched env.config address txs
    when (txs ≠ []) (profileFirstPage env address h')
    let exhausted ← budgetsExhausted
    pure (h', exhausted && h'.needsMore)
  else
    pure ({ h with
      pagesExhausted := h.pagesExhausted || decide (maxPages env.config ≤ h.pagesFetched) }, false)

/-! ## The entries -/

/-- What the loop of an invocation does not change. -/
structure ExpandRun where
  payload : ExpandPayload
  history : ExpandHistory
  hackers : List Address
  hop : Nat
  expandProfile : Option ExpandProfile
  processLimit : Nat

def ExpandRun.saveAt (x : ExpandRun) (env : Env) (opts : Option SerializeOpts)
    (processedIndex : Nat) (trace : TraceProcessState) : StoreM Unit :=
  enqueueExpandContinuation env (expandContinuation x.payload x.history opts processedIndex trace)

/-- One entry, with a saved continuation where the quota is exceeded. -/
def ExpandRun.processEntry (x : ExpandRun) (env : Env) (entry : PendingTxRuntime) (l : EntryLoop) :
    StoreM ProcessClassifiedTxResult :=
  withD1QuotaContinuationSave (x.saveAt env none l.processedIndex l.trace)
    (processClassifiedPendingTx env x.payload.address x.hop entry x.hackers l.trace
      { expandProfile := x.expandProfile, capture := captureOpReturnJobOpts true })

/-- The loop over the entries; nothing where a partial trace has ended the invocation. -/
def expandLoop (env : Env) (x : ExpandRun) :
    List PendingTxRuntime → EntryLoop → StoreM (Option EntryLoop)
  | [], l => pure (some l)
  | entry :: rest, l => do
    let ready ← canProcess
    if !(decide (l.processed < x.processLimit) && ready) then pure (some l)
    else do
      let result ← x.processEntry env entry l
      when (0 < result.chainCallsUsed) consumeBudget
      if result.continued then do
        x.saveAt env none l.processedIndex result.traceState
        pure none
      else do
        let stop ← mustStop
        let l' :=
          { l with
            processedIndex := l.processedIndex + 1
            processed := l.processed + 1
            trace := result.traceState }
        if stop then pure (some l') else expandLoop env x rest l'

/-- `getOutEdgesFromAddress`: the largest edges first. -/
def getOutEdgesFromAddress (address : Address) (minEdgeSats : Int) (limit : Nat) :
    StoreM (List Address) :=
  query fun db => (((db.edges.entries.filter fun e => e.1.fromAddress = address &&
    e.2.direction = .outFromHacker && (minEdgeSats ≤ 0 || minEdgeSats ≤ e.2.amountSats)).insertionSort
      fun e e' => e'.2.amountSats < e.2.amountSats ∨ e'.2.amountSats = e.2.amountSats ∧
        e.1.toAddress.1 ≤ e'.1.toAddress.1).take limit).map (·.1.toAddress)

/-- The targets of an address at the maximal depth are not crawled. -/
def closeChildren (env : Env) (address : Address) : StoreM Unit := do
  let children ← getOutEdgesFromAddress address env.config.minExpandSats 10000
  forEach children fun child => upsertAddress { address := child, expandStatus := some .maxDepth }

/-- The end of an invocation whose loop has stopped. -/
def ExpandRun.finish (x : ExpandRun) (env : Env) (l : EntryLoop) : StoreM Unit :=
  let address := x.payload.address
  if { x.history.toHistoryState with processedIndex := l.processedIndex }.needsMore ||
      l.trace.traceEdgesPending then
    x.saveAt env (some (serializeOpts env.config)) l.processedIndex l.trace
  else do
    setExpandStatus address .expanded
    when x.history.newestTxid.isSome (upsertSyncState address
      { lastSeenTxid := x.history.newestTxid, lastBlockHeight := x.history.newestBlockHeight })
    when (env.config.maxCrawlDepth ≤ x.hop + 1) (closeChildren env address)

/-- The entries of the page that is held, and the end of the invocation. -/
def processExpand (env : Env) (payload : ExpandPayload) (h : ExpandHistory)
    (hackers : List Address) (addr : Option AddressRow) : StoreM Unit := do
  let limit ← processLimit env.config env.config.backfillTxsPerJob
  let x : ExpandRun := ⟨payload, h, hackers, (addr.bind (·.hopFromHacker)).getD 0,
    addr.bind (·.expandProfile), limit⟩
  let stopped ← expandLoop env x (h.pending.drop h.processedIndex)
    { processedIndex := h.processedIndex, trace := payload.trace }
  forEach stopped.toList fun l => x.finish env l

/-- The work on an address whose inbound total qualifies. -/
def expandQualified (env : Env) (payload : ExpandPayload) (hackers : Option (List Address))
    (addr : Option AddressRow) : StoreM Unit := do
  let hackers ← hackers.elim getHackerAddressSet pure
  setExpandStatus payload.address .expanding
  createChainCallBudget env
  let fetched ← fetchForExpand env payload.address payload.history
  if fetched.2 then
    enqueueExpandContinuation env
      (expandContinuation payload fetched.1 none fetched.1.processedIndex {})
  else processExpand env payload fetched.1 hackers addr

/-- `expandDownstream`; the hackers are read where the caller passes none. -/
def expandDownstream (env : Env) (payload : ExpandPayload) (hackers : Option (List Address)) :
    StoreM Unit := do
  let addr ← getAddress payload.address
  if qualifiesForExpand ((addr.map (·.inboundSats)).getD 0) env.config.minExpandSats then
    expandQualified env payload hackers addr
  else setExpandStatus payload.address .skippedMin

end Bloodhound.Indexer
