import Bloodhound.Indexer.Crawl
import Bloodhound.Indexer.TxProcess
import Bloodhound.Store.SyncState

/-!
# The backfill of a hacker

`backfillHacker` of `processor.ts`: one invocation fetches at most one page of the history and
processes some of its entries, the oldest first. What is left travels to the next invocation in a
payload, which is also saved with the address.
-/

namespace Bloodhound.Indexer

open Chain Store Bloodhound.Graph
open Journal.Op (query run mem when forEach)

/-! ## One invocation -/

/-- `createChainCallBudget`, once for each invocation. -/
def createChainCallBudget (env : Env) : StoreM Unit :=
  mem fun m => ((), { m with budget := { maxChainCallsPerJob := env.config.maxChainCallsPerJob } })

def isLimited (config : AppConfig) : Bool := 0 < config.maxChainCallsPerJob

/-- `budget.canCall() && jobSubreq.canUse()`. -/
def canCallAndUse : StoreM Bool := do
  let budget ← readBudget
  let canUse ← canUseSubrequest
  pure (budget.canCall && canUse)

/-- `budget.exhausted() || jobSubreq.exhausted()`. -/
def budgetsExhausted : StoreM Bool := do
  let budget ← readBudget
  let canUse ← canUseSubrequest
  pure (budget.exhausted || !canUse)

/-- The condition of the loops over the entries, besides their counts. -/
def canProcess : StoreM Bool := do
  let ready ← canCallAndUse
  let guard ← readCpuGuard
  pure (ready && !guard.exceeded)

/-- The condition under which the loops stop after an entry. -/
def mustStop : StoreM Bool := do
  let exhausted ← budgetsExhausted
  let guard ← readCpuGuard
  pure (exhausted || guard.exceeded)

/-- `getHackerAddressSet`. -/
def getHackerAddressSet : StoreM (List Address) :=
  query fun db => (db.addresses.entries.filter (·.2.isFlaggedHacker)).map (·.1)

/-- How many entries the invocation may process. -/
def processLimit (config : AppConfig) (fallback : Nat) : StoreM Nat := do
  let budget ← readBudget
  pure (if isLimited config then budget.processBatchLimit fallback else fallback)

/-- Run the body; where the quota of the database is exceeded, save a continuation first. -/
def withD1QuotaContinuationSave {α : Type} (saveContinuation : StoreM Unit) (body : StoreM α) :
    StoreM α :=
  body.tryCatch fun e => do
    when (e = .d1QuotaExceeded) saveContinuation
    Journal.Op.throw e

/-! ## Payloads -/

/-- `parseBackfillPayload`. -/
def parseBackfillPayload (raw : BackfillPayload) : BackfillPayload :=
  { raw with
    toPendingPayloadFields :=
      writePendingPayload (readPending raw.toPendingPayloadFields) raw.processedIndex none }

/-- The payload carries work of an earlier invocation. -/
def hasContinuation (p : BackfillPayload) : Bool :=
  p.chainCursor.isSome || !p.pendingTxids.isEmpty || !p.pendingTxs.isEmpty || p.pagesExhausted ||
    p.newestTxid.isSome || p.trace.traceEdgesPending

def hydrateBackfillPayload (raw : BackfillPayload) : StoreM BackfillPayload :=
  let parsed := parseBackfillPayload raw
  if hasContinuation parsed then pure parsed
  else do
    let saved ← getBackfillPayload parsed.address
    pure ((saved.map parseBackfillPayload).getD parsed)

/-- Save the payload, and enqueue a job with it. -/
def enqueueBackfillContinuation (env : Env) (payload : BackfillPayload)
    (enqueueContinuation : Bool) : StoreM Unit := do
  upsertBackfillState payload.address (some payload) false
  when enqueueContinuation do
    let _ ← (enqueueJob env (.backfillHackerAddress payload) JobPriority.backfillHacker none false :
      StoreM (Option Nat))
    pure ()

/-! ## The fetch -/

/-- What an invocation holds of the history: the entries of one page, and how far the history has
been read. -/
structure HistoryState where
  pending : List PendingTxRuntime
  processedIndex : Nat
  chainCursor : Option Txid
  pagesExhausted : Bool
  newestTxid : Option Txid
  newestBlockHeight : Option Nat

def BackfillPayload.history (payload : BackfillPayload) : HistoryState where
  pending := readPending payload.toPendingPayloadFields
  processedIndex := payload.processedIndex
  chainCursor := payload.chainCursor
  pagesExhausted := payload.pagesExhausted
  newestTxid := payload.newestTxid
  newestBlockHeight := payload.newestBlockHeight

/-- The history after a page; `pending` are its entries in the order of their processing. -/
def HistoryState.fetched (h : HistoryState) (txs : List ChainTxSummary)
    (pending : List PendingTxRuntime) : HistoryState :=
  match txs with
  | [] => { h with pagesExhausted := true }
  | newest :: _ =>
    { pending
      processedIndex := 0
      chainCursor := txs.getLast?.map (·.txid)
      pagesExhausted := h.pagesExhausted
      newestTxid := h.newestTxid.or (some newest.txid)
      newestBlockHeight :=
        if h.newestTxid.isSome then h.newestBlockHeight else newest.status.blockHeight }

/-- Entries or pages are left. -/
def HistoryState.needsMore (h : HistoryState) : Bool :=
  h.processedIndex < h.pending.length || !h.pagesExhausted

def HistoryState.backfillPayload (h : HistoryState) (config : AppConfig) (address : Address)
    (trace : TraceProcessState) : BackfillPayload :=
  { toPendingPayloadFields :=
      writePendingPayload h.pending h.processedIndex (some (serializeOpts config))
    address
    chainCursor := h.chainCursor
    pagesExhausted := h.pagesExhausted
    newestTxid := h.newestTxid
    newestBlockHeight := h.newestBlockHeight
    trace }

/-- Fetch the next page where all entries are processed: the history, and whether the invocation
ends with its budgets spent and work left. -/
def fetchForBackfill (env : Env) (address : Address) (h : HistoryState) :
    StoreM (HistoryState × Bool) := do
  let ready ← canCallAndUse
  if h.pending.length ≤ h.processedIndex && !h.pagesExhausted && ready then do
    let txs ← fetchAddressTxPage env address h.chainCursor
    consumeBudget
    let exhausted ← budgetsExhausted
    let h' := h.fetched txs (classifyPageTxs txs.reverse address)
    pure (h', exhausted && h'.needsMore)
  else pure (h, false)

/-! ## The entries -/

/-- Where the loop over the entries stands. -/
structure EntryLoop where
  processedIndex : Nat
  processed : Nat := 0
  skippedReceives : Nat := 0
  trace : TraceProcessState

/-- What the loop of an invocation does not change. -/
structure BackfillRun where
  address : Address
  history : HistoryState
  hackers : List Address
  expandProfile : Option ExpandProfile
  processLimit : Nat
  enqueueContinuation : Bool

def BackfillRun.saveAt (b : BackfillRun) (env : Env) (processedIndex : Nat)
    (trace : TraceProcessState) : StoreM Unit :=
  enqueueBackfillContinuation env
    ({ b.history with processedIndex }.backfillPayload env.config b.address trace)
    b.enqueueContinuation

/-- Receives are passed over without a look at their transactions. -/
def skipsReceive (config : AppConfig) (entry : PendingTxRuntime) (l : EntryLoop) : Bool :=
  !config.traceFlaggedHackerReceives && !l.trace.activeOn entry.txid && entry.isSpend = some false &&
    l.skippedReceives < config.backfillSkipReceivesPerJob

/-- One entry, with a saved continuation where the quota is exceeded. -/
def BackfillRun.processEntry (b : BackfillRun) (env : Env) (entry : PendingTxRuntime)
    (l : EntryLoop) : StoreM ProcessClassifiedTxResult :=
  withD1QuotaContinuationSave (b.saveAt env l.processedIndex {})
    (processClassifiedPendingTx env b.address 0 entry b.hackers l.trace
      { expandProfile := b.expandProfile, capture := captureOpReturnJobOpts true })

/-- The loop over the entries; nothing where a partial trace has ended the invocation. -/
def backfillLoop (env : Env) (b : BackfillRun) :
    List PendingTxRuntime → EntryLoop → StoreM (Option EntryLoop)
  | [], l => pure (some l)
  | entry :: rest, l => do
    let ready ← canProcess
    if !(decide (l.processed < b.processLimit) && ready) then pure (some l)
    else if skipsReceive env.config entry l then
      backfillLoop env b rest
        { l with processedIndex := l.processedIndex + 1, skippedReceives := l.skippedReceives + 1 }
    else do
      let result ← b.processEntry env entry l
      when (0 < result.chainCallsUsed) consumeBudget
      if result.continued then do
        b.saveAt env l.processedIndex result.traceState
        pure none
      else do
        let stop ← mustStop
        let l' :=
          { l with
            processedIndex := l.processedIndex + 1
            processed := l.processed + 1
            trace := result.traceState }
        if stop then pure (some l') else backfillLoop env b rest l'

/-- The end of an invocation whose loop has stopped: the rest is saved, or the backfill is
complete. The trace is never saved here. -/
def BackfillRun.finish (b : BackfillRun) (env : Env) (l : EntryLoop) : StoreM Unit :=
  if { b.history with processedIndex := l.processedIndex }.needsMore || l.trace.traceEdgesPending then
    b.saveAt env l.processedIndex {}
  else do
    when b.history.newestTxid.isSome (upsertSyncState b.address
      { lastSeenTxid := b.history.newestTxid, lastBlockHeight := b.history.newestBlockHeight })
    upsertBackfillState b.address none true
    setExpandStatus b.address .expanded

/-- The entries of the page that is held, and the end of the invocation. -/
def processBackfill (env : Env) (address : Address) (h : HistoryState) (hackers : List Address)
    (trace : TraceProcessState) (enqueueContinuation : Bool) : StoreM Unit := do
  let limit ← processLimit env.config env.config.backfillTxsPerJob
  let addrRow ← getAddress address
  let b : BackfillRun := ⟨address, h, hackers, addrRow.bind (·.expandProfile), limit, enqueueContinuation⟩
  let stopped ← backfillLoop env b (h.pending.drop h.processedIndex)
    { processedIndex := h.processedIndex, trace }
  forEach stopped.toList fun l => b.finish env l

/-- `backfillHacker`; the hackers are read where the caller passes none. -/
def backfillHacker (env : Env) (raw : BackfillPayload) (hackers : Option (List Address))
    (enqueueContinuation : Bool) : StoreM Unit := do
  let payload ← hydrateBackfillPayload raw
  let address := payload.address
  let hackers ← hackers.elim getHackerAddressSet pure
  setExpandStatus address .backfilling
  createChainCallBudget env
  let fetched ← fetchForBackfill env address payload.history
  if fetched.2 then
    enqueueBackfillContinuation env (fetched.1.backfillPayload env.config address {}) enqueueContinuation
  else processBackfill env address fetched.1 hackers payload.trace enqueueContinuation

end Bloodhound.Indexer
