import Bloodhound.Indexer.Expand

/-!
# Polls

`pollHacker` and `pollDownstream` of `processor.ts` with `addressStats.ts` and `pollGap.ts`. A poll
compares the number of transactions of an address with the stored one and, where it changed, processes
what is newer than the stored cursor. A downstream poll whose page does not reach the cursor checks
how much the address has spent, and reads on where the stored edges lack some of it.
-/

namespace Bloodhound.Indexer

open Chain Store Bloodhound.Graph
open Journal.Op (query run mem when forEach)

/-! ## Statistics of an address -/

/-- The provider at each of the calls of a poll; histories may grow in between. -/
structure PollCalls where
  probe : Provider
  page : Provider
  gapCheck : Provider
  gapPage : Provider

def observedTxCountFromStats (stats : ChainAddressStats) : Nat := stats.txCount + stats.mempoolTxCount

/-- `applyAddressStats`: the balance columns that it writes are not modelled. -/
def applyAddressStats (address : Address) (stats : ChainAddressStats) : StoreM Nat := do
  upsertAddress { address }
  pure (observedTxCountFromStats stats)

def canSkipAddressTxsPoll (sync : Option SyncStateRow) (observedTxCount : Nat) : Bool :=
  (sync.bind (·.lastSeenTxid)).isSome &&
    (sync.bind (·.lastObservedTxCount)) = some observedTxCount

/-- The observed count, and whether the poll needs no transactions. -/
def probePollAddressStats (env : Env) (calls : PollCalls) (address : Address) :
    StoreM (Nat × Bool) := do
  let stats ← withProvider { env with provider := calls.probe } (·.getAddressStats address)
  let observedTxCount ← applyAddressStats address stats
  let sync ← getSyncState address
  pure (observedTxCount, canSkipAddressTxsPoll sync observedTxCount)

/-! ## The gap of a poll -/

/-- `sliceNewerThanLastSeen`: what is newer than the cursor, and whether the page reaches it. -/
def sliceNewerThanLastSeen (txs : List ChainTxSummary) (lastSeenTxid : Option Txid) :
    List ChainTxSummary × Bool :=
  match lastSeenTxid with
  | none => (txs, true)
  | some seen =>
    if txs.any (·.txid = seen) then (txs.takeWhile (·.txid ≠ seen), true) else (txs, false)

def pendingGapFillTxs (txs : List ChainTxSummary) (address : Address) : List PendingTxRuntime :=
  (classifyPageTxs txs address).filter fun entry =>
    entry.isSpend = some true || entry.pageEntry.any pageEntryHasOpReturnAsm

def spendGapExceedsFloor (chainSpentSats indexedOutSats minExpandSats : Int) : Bool :=
  max 0 minExpandSats ≤ chainSpentSats - indexedOutSats

/-! ## What an invocation holds -/

/-- The local variables of a poll: those of its payload, and the entries as they are at run time. -/
structure PollState where
  payload : PollPayload
  pending : List PendingTxRuntime

/-- `parsePollPayload`, with the pending entries. -/
def parsePollPayload (raw : PollPayload) : PollState :=
  let payload := { raw with
    toPendingPayloadFields :=
      writePendingPayload (readPending raw.toPendingPayloadFields) raw.processedIndex none }
  ⟨payload, readPending payload.toPendingPayloadFields⟩

/-- `pollFields`: the payload of a continuation. -/
def PollState.fields (s : PollState) (config : AppConfig) : PollPayload :=
  { s.payload with
    toPendingPayloadFields :=
      writePendingPayload s.pending s.payload.processedIndex (some (serializeOpts config)) }

/-- Entries of the page are left. -/
def PollState.hasPending (s : PollState) : Bool := s.payload.processedIndex < s.pending.length

def PollState.syncData (s : PollState) : SyncPollData where
  lastSeenTxid := s.payload.newestTxid
  lastBlockHeight := s.payload.newestBlockHeight
  lastObservedTxCount := s.payload.observedTxCount

def canCall : StoreM Bool := do
  let budget ← readBudget
  pure budget.canCall

def budgetExhausted : StoreM Bool := do
  let budget ← readBudget
  pure budget.exhausted

/-- A continuation of a poll; a refusal goes unnoticed. -/
def enqueuePoll (env : Env) (job : Job) (priority : Int) : StoreM Unit := do
  let _ ← (enqueueJob env job priority none false : StoreM (Option Nat))
  pure ()

/-- The probe of a poll: the state with the observed count, or nothing where the invocation ends
because nothing is new or its budget is spent. -/
def probePoll (env : Env) (calls : PollCalls) (saveContinuation : PollState → StoreM Unit) (s : PollState) :
    StoreM (Option PollState) :=
  if s.payload.statsFetched then pure (some s)
  else do
    let address := s.payload.address
    let probe ← probePollAddressStats env calls address
    consumeBudget
    let s' := { s with payload :=
      { s.payload with observedTxCount := some probe.1, statsFetched := true } }
    if probe.2 then do
      touchSyncPoll address (some { lastObservedTxCount := some probe.1 })
      pure none
    else do
      let exhausted ← budgetExhausted
      if exhausted then do
        saveContinuation s'
        pure none
      else pure (some s')

/-! ## Polls of hackers -/

def enqueuePollHacker (env : Env) (payload : PollPayload) : StoreM Unit :=
  enqueuePoll env (.pollHackerAddress payload) JobPriority.pollHacker

/-- The continuation of a poll that has fetched its page. -/
def saveHackerPoll (env : Env) (s : PollState) : StoreM Unit :=
  enqueuePollHacker env
    { toPendingPayloadFields :=
        writePendingPayload s.pending s.payload.processedIndex (some (serializeOpts env.config))
      address := s.payload.address
      pollFetched := true
      statsFetched := true
      observedTxCount := s.payload.observedTxCount
      newestTxid := s.payload.newestTxid
      newestBlockHeight := s.payload.newestBlockHeight }

/-- The continuation of a poll that has its count only. -/
def saveHackerProbe (env : Env) (s : PollState) : StoreM Unit :=
  enqueuePollHacker env
    { address := s.payload.address
      statsFetched := true
      observedTxCount := s.payload.observedTxCount }

/-- The page of a poll: what is newer than the cursor, the oldest first. -/
def fetchHackerPage (env : Env) (calls : PollCalls) (s : PollState) : StoreM (Option PollState) := do
  let address := s.payload.address
  let sync ← getSyncState address
  let page ← withProvider { env with provider := calls.page } (·.getAddressTxs address)
  consumeBudget
  match page with
  | [] => do
    touchSyncPoll address (some { lastObservedTxCount := s.payload.observedTxCount })
    pure none
  | newest :: _ =>
    let slice := sliceNewerThanLastSeen page (sync.bind (·.lastSeenTxid))
    if !slice.2 then do
      touchSyncPoll address none
      pure none
    else do
      let exhausted ← budgetExhausted
      let s' : PollState :=
        { payload :=
            { s.payload with
              processedIndex := 0
              pollFetched := true
              newestTxid := some newest.txid
              newestBlockHeight := newest.status.blockHeight
              cursorMiss := false }
          pending := classifyPageTxs slice.1.reverse address }
      if exhausted then do
        saveHackerPoll env s'
        pure none
      else pure (some s')

/-- The loop over the entries; a partial trace is not carried on. -/
def pollHackerLoop (env : Env) (hackers : List Address) (limit : Nat) :
    List PendingTxRuntime → Nat → PollState → StoreM PollState
  | [], _, s => pure s
  | entry :: rest, processed, s => do
    let ready ← canCall
    let guard ← readCpuGuard
    if !(decide (processed < limit) && ready && !guard.exceeded) then pure s
    else do
      let result ← withD1QuotaContinuationSave (saveHackerPoll env s)
        (processClassifiedPendingTx env s.payload.address 0 entry hackers {}
          { skipIfIndexed := false, capture := captureOpReturnJobOpts true })
      when (0 < result.chainCallsUsed) consumeBudget
      let s' := { s with payload := { s.payload with processedIndex := s.payload.processedIndex + 1 } }
      let exhausted ← budgetExhausted
      if exhausted then pure s' else pollHackerLoop env hackers limit rest (processed + 1) s'

/-- The end of a poll whose loop has stopped. -/
def finishHackerPoll (env : Env) (s : PollState) : StoreM Unit :=
  if s.hasPending then saveHackerPoll env s
  else if s.payload.pollFetched && s.payload.newestTxid.isSome && !s.payload.cursorMiss then
    upsertSyncState s.payload.address s.syncData
  else when (s.payload.pollFetched = false) (touchSyncPoll s.payload.address none)

/-- The entries of the page that is held, and the end of the invocation. -/
def processHackerPoll (env : Env) (hackers : Option (List Address)) (s : PollState) :
    StoreM Unit := do
  let hackers ← hackers.elim getHackerAddressSet pure
  let limit ← processLimit env.config (if isLimited env.config then 1 else s.pending.length)
  let s' ← pollHackerLoop env hackers limit (s.pending.drop s.payload.processedIndex) 0 s
  finishHackerPoll env s'

/-- `pollHacker`; the hackers are read where the caller passes none. -/
def pollHacker (env : Env) (calls : PollCalls) (raw : PollPayload)
    (hackers : Option (List Address)) : StoreM Unit := do
  let s := parsePollPayload raw
  createChainCallBudget env
  let ready ← canCall
  if !s.payload.pollFetched && !s.hasPending && ready then do
    let probed ← probePoll env calls (saveHackerProbe env) s
    let fetched ← probed.elim (pure none) (fetchHackerPage env calls)
    forEach fetched.toList (processHackerPoll env hackers)
  else processHackerPoll env hackers s

/-! ## Polls of downstream addresses -/

def enqueuePollDownstream (env : Env) (s : PollState) : StoreM Unit :=
  enqueuePoll env (.pollDownstreamAddress (s.fields env.config)) JobPriority.pollDownstream

/-- End the invocation with a continuation where its budget is spent. -/
def continueWithin (env : Env) (s : PollState) (more : Bool) : StoreM (Option PollState) := do
  let exhausted ← budgetExhausted
  if exhausted && more then do
    enqueuePollDownstream env s
    pure none
  else pure (some s)

/-- The state after the page of a downstream poll. -/
def PollState.fetched (s : PollState) (newest : ChainTxSummary) (page : List ChainTxSummary)
    (lastSeenTxid : Option Txid) : PollState :=
  let address := s.payload.address
  let slice := sliceNewerThanLastSeen page lastSeenTxid
  let payload := { s.payload with
    processedIndex := 0
    pollFetched := true
    pagesFetched := 1
    newestTxid := some newest.txid
    newestBlockHeight := newest.status.blockHeight }
  if slice.2 then ⟨{ payload with cursorMiss := false }, classifyPageTxs slice.1 address⟩
  else
    ⟨{ payload with
        cursorMiss := true
        fillUntilTxid := lastSeenTxid
        chainCursor := page.getLast?.map (·.txid) },
      pendingGapFillTxs page address⟩

def fetchDownstreamPage (env : Env) (calls : PollCalls) (s : PollState) :
    StoreM (Option PollState) := do
  let address := s.payload.address
  let sync ← getSyncState address
  let page ← withProvider { env with provider := calls.page } (·.getAddressTxs address)
  consumeBudget
  match page with
  | [] => do
    touchSyncPoll address (some { lastObservedTxCount := s.payload.observedTxCount })
    pure none
  | newest :: _ => continueWithin env (s.fetched newest page (sync.bind (·.lastSeenTxid))) true

/-- The check of a page that does not reach the cursor; `needsProcess` is what the payload had left. -/
def checkGap (env : Env) (calls : PollCalls) (needsProcess : Bool) (s : PollState) :
    StoreM (Option PollState) := do
  let ready ← canCall
  if s.payload.pollFetched && s.payload.cursorMiss && !s.payload.gapChecked && !needsProcess &&
      !s.hasPending && ready then do
    let address := s.payload.address
    let stats ← withProvider { env with provider := calls.gapCheck } (·.getAddressStats address)
    consumeBudget
    let observedTxCount ← applyAddressStats address stats
    let indexedOut ← sumOutFromHacker address
    let s' := { s with payload :=
      { s.payload with observedTxCount := some observedTxCount, gapChecked := true } }
    if !spendGapExceedsFloor (stats.spentTxoSum + stats.mempoolSpentTxoSum) indexedOut
        env.config.minExpandSats then do
      if s.payload.newestTxid.isSome then upsertSyncState address s'.syncData
        else touchSyncPoll address (some { lastObservedTxCount := some observedTxCount })
      pure none
    else continueWithin env { s' with payload := { s'.payload with gapFill := true } } true
  else pure (some s)

/-- The state after a further page; the address is polled until the cursor is found. -/
def PollState.filled (s : PollState) (config : AppConfig) (txs : List ChainTxSummary) : PollState :=
  let payload := { s.payload with
    processedIndex := 0
    pagesFetched := s.payload.pagesFetched + 1 }
  let slice := sliceNewerThanLastSeen txs s.payload.fillUntilTxid
  if txs = [] then ⟨{ payload with pagesExhausted := true }, []⟩
  else
    ⟨{ payload with
        chainCursor := txs.getLast?.map (·.txid)
        pagesExhausted := slice.2 || decide (maxPages config ≤ payload.pagesFetched) },
      pendingGapFillTxs slice.1 s.payload.address⟩

/-- The next page of a gap. -/
def fillGap (env : Env) (calls : PollCalls) (s : PollState) : StoreM (Option PollState) := do
  let ready ← canCall
  let p := s.payload
  if p.pollFetched && p.gapFill && !p.pagesExhausted && !s.hasPending &&
      decide (p.pagesFetched < maxPages env.config) && ready && p.chainCursor.isSome then do
    let txs ← fetchAddressTxPage { env with provider := calls.gapPage } p.address p.chainCursor
    consumeBudget
    let s' := s.filled env.config txs
    continueWithin env s' (s'.hasPending || !s'.payload.pagesExhausted)
  else
    pure (some { s with payload :=
      { p with
        pagesExhausted := p.pagesExhausted ||
          (p.gapFill && decide (maxPages env.config ≤ p.pagesFetched)) } })

/-- `processAddressTxs`: the entries one after another until one has a partial trace, which is the
result, or the calls are used up. -/
def processAddressTxs (env : Env) (address : Address) (hackers : List Address) (hop : Nat)
    (maxCalls : Option Nat) (expandProfile : Option ExpandProfile) :
    List PendingTxRuntime → Nat → TraceProcessState → StoreM (Option TraceProcessState)
  | [], _, _ => pure none
  | entry :: rest, calls, trace => do
    let guard ← readCpuGuard
    if maxCalls.any (· ≤ calls) || guard.exceeded then pure none
    else do
      let result ← processClassifiedPendingTx env address hop entry hackers trace
        { expandProfile, capture := captureOpReturnJobOpts false }
      if result.continued then pure (some result.traceState)
      else
        processAddressTxs env address hackers hop maxCalls expandProfile rest
          (calls + result.chainCallsUsed) result.traceState

/-- The batch of an invocation: its entries are counted as processed before they are. -/
def processBatch (env : Env) (hackers : List Address) (addr : Option AddressRow) (s : PollState) :
    StoreM PollState := do
  let limit ← processLimit env.config (if isLimited env.config then 1 else s.pending.length)
  let ready ← canCall
  let guard ← readCpuGuard
  let batch := if ready && !guard.exceeded then (s.pending.drop s.payload.processedIndex).take limit
    else []
  let s' := { s with payload :=
    { s.payload with processedIndex := s.payload.processedIndex + batch.length } }
  when (batch ≠ []) do
    let _ ← withD1QuotaContinuationSave (enqueuePollDownstream env s')
      (processAddressTxs env s.payload.address hackers ((addr.bind (·.hopFromHacker)).getD 0)
        (if isLimited env.config then some 1 else none) (addr.bind (·.expandProfile)) batch 0 {})
    consumeBudget
  pure s'

/-- The end of a poll whose batch is processed. -/
def finishDownstreamPoll (env : Env) (s : PollState) : StoreM Unit :=
  let p := s.payload
  let needsGapCheck := p.cursorMiss && !p.gapChecked && !s.hasPending
  let needsGapFill := p.gapFill && !p.pagesExhausted && !s.hasPending
  if s.hasPending || needsGapCheck || needsGapFill then enqueuePollDownstream env s
  else if p.pollFetched && p.newestTxid.isSome && (!p.cursorMiss || p.gapChecked) then
    upsertSyncState p.address s.syncData
  else when (p.pollFetched = false) (touchSyncPoll p.address none)

/-- The steps after the page. -/
def processDownstreamPoll (env : Env) (calls : PollCalls) (hackers : Option (List Address))
    (addr : Option AddressRow) (needsProcess : Bool) (s : PollState) : StoreM Unit := do
  let checked ← checkGap env calls needsProcess s
  let filled ← checked.elim (pure none) (fillGap env calls)
  forEach filled.toList fun s' => do
    let hackers ← hackers.elim getHackerAddressSet pure
    let s'' ← processBatch env hackers addr s'
    finishDownstreamPoll env s''

/-- The poll of an address whose inbound total qualifies. -/
def pollQualified (env : Env) (calls : PollCalls) (hackers : Option (List Address))
    (addr : Option AddressRow) (s : PollState) : StoreM Unit := do
  createChainCallBudget env
  let ready ← canCall
  if !s.payload.pollFetched && !s.hasPending && ready then do
    let probed ← probePoll env calls (enqueuePollDownstream env) s
    let fetched ← probed.elim (pure none) (fetchDownstreamPage env calls)
    forEach fetched.toList (processDownstreamPoll env calls hackers addr false)
  else processDownstreamPoll env calls hackers addr s.hasPending s

/-- `pollDownstream`; the hackers are read where the caller passes none. -/
def pollDownstream (env : Env) (calls : PollCalls) (raw : PollPayload)
    (hackers : Option (List Address)) : StoreM Unit := do
  let s := parsePollPayload raw
  let addr ← getAddress s.payload.address
  when (qualifiesForExpand ((addr.map (·.inboundSats)).getD 0) env.config.minExpandSats)
    (pollQualified env calls hackers addr s)

end Bloodhound.Indexer
