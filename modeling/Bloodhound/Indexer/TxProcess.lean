import Bloodhound.Indexer.SpendFanout

/-!
# Processing a page entry

`txProcess.ts`: what the backfill, the expansion and the polls of an address do with one entry of
its history. An entry is skipped without a trace, summarized as a fan-out, or traced; a trace that
does not fit into the invocation is resumed from the state that the job carries.
-/

namespace Bloodhound.Indexer

open Chain Store Bloodhound.Graph
open Journal.Op (query run mem when forEach)

/-! ## Options and results -/

/-- The options of `processClassifiedPendingTx`. -/
structure ProcessEntryOpts where
  expandProfile : Option ExpandProfile := none
  skipIfIndexed : Bool := true
  capture : CaptureOpReturnOpts

structure ProcessClassifiedTxResult where
  traceState : TraceProcessState := {}
  continued : Bool := false
  chainCallsUsed : Nat := 0
  deriving DecidableEq

/-- `captureOpReturnJobOpts`; a poll of a downstream address passes no subrequest budget. -/
def captureOpReturnJobOpts (jobSubreq : Bool) : CaptureOpReturnOpts where
  allowGetTx := true
  budgeted := true
  jobSubreq := jobSubreq
  guarded := true

/-- `traceActive`: the entry is the one whose trace the job resumes. -/
def TraceProcessState.activeOn (state : TraceProcessState) (txid : Txid) : Bool :=
  state.traceEdgesPending && state.traceTxid = some txid

def skipOpts (address : Address) (hop : Nat) (entry : PendingTxRuntime) (opts : ProcessEntryOpts) :
    SkipOpts where
  sweepRelay := opts.expandProfile = some .sweepRelay
  pageEntry := entry.pageEntry
  hop := hop
  address := address

/-- `traceOptions`, with the options that `processClassifiedPendingTx` adds. -/
def traceOptions (config : AppConfig) (state : TraceProcessState) (tx : ChainTxDetail)
    (txid : Txid) (spending : Spender) (capture : CaptureOpReturnOpts) : ProcessTxOptions where
  tx := some tx
  spending := some spending
  maxGraphEdgesPerTx := some config.maxGraphEdgesPerTx |>.filter (0 < ·)
  maxEdgesPerJob := some config.maxEdgesPerJob |>.filter (0 < ·)
  traceEdgeIndex := if state.activeOn txid then state.traceEdgeIndex.getD 0 else 0
  traceEdgeTotal := if state.activeOn txid then state.traceEdgeTotal else none
  traceEdgesFlat := if state.activeOn txid then state.traceEdgesFlat else none
  minExpandSats := config.minExpandSats
  minVictimIngestSats := config.minVictimIngestSats
  capture := capture

/-! ## The steps -/

/-- The capture of the texts of a page entry. -/
def capturePage (env : Env) (page : ChainTxSummary) (txid : Txid) (capture : CaptureOpReturnOpts) :
    StoreM Unit := do
  let _ ← captureOpReturnForTx env txid (some (pageEntryToChainTxDetail page)) capture
  pure ()

def patchOpReturnFromPageIfNeeded (env : Env) (entry : PendingTxRuntime)
    (capture : CaptureOpReturnOpts) : StoreM Unit :=
  forEach (entry.pageEntry.filter pageEntryHasOpReturnAsm).toList fun page => do
    let indexed ← getTransaction entry.txid
    when (indexed.bind (·.opReturnDisplay)).isNone (capturePage env page entry.txid capture)

/-- The trace of a transaction, and what the job carries on where it is not complete. -/
def traceTx (env : Env) (address : Address) (hop : Nat) (txid : Txid) (tx : ChainTxDetail)
    (hackers : List Address) (state : TraceProcessState) (opts : ProcessEntryOpts)
    (chainCallsUsed : Nat) : StoreM ProcessClassifiedTxResult := do
  let trace ← processTxForHackTrace env txid hackers
    (traceOptions env.config state tx txid ⟨address, hop⟩ opts.capture)
  if trace.traceComplete then
    pure { chainCallsUsed := chainCallsUsed + trace.captureChainCalls }
  else
    pure
      { traceState :=
          { traceTxid := some txid
            traceEdgeIndex := some trace.nextEdgeIndex
            traceEdgesPending := true
            traceEdgeTotal := some trace.traceEdgeTotal
            traceEdgesFlat := trace.traceEdgesFlat }
        continued := true
        chainCallsUsed }

/-- An entry whose transaction is at hand: amounts below the floors and transactions without a
spend of the address are not traced. -/
def processDetail (env : Env) (address : Address) (hop : Nat) (entry : PendingTxRuntime)
    (tx : ChainTxDetail) (hackers : List Address) (state : TraceProcessState)
    (opts : ProcessEntryOpts) (chainCallsUsed : Nat) : StoreM ProcessClassifiedTxResult :=
  let active := state.activeOn entry.txid
  let config := env.config
  if !active && (isSubFloorSpendFromPage (some tx.toSummary) address config.minExpandSats ||
      decide (hop = 0) &&
        isSubFloorReceiveFromPage (some tx.toSummary) address config.minVictimIngestSats) then do
    let _ ← captureOpReturnForTx env entry.txid (some tx) opts.capture
    pure { chainCallsUsed }
  else if !active && !shouldTraceHackerReceive entry.toClassifiedPendingTx config
      (skipOpts address hop entry opts) && !txInvolvesSpend tx address then pure { chainCallsUsed }
  else traceTx env address hop entry.txid tx hackers state opts chainCallsUsed

/-- The entry as it is classified again after its transaction was fetched. -/
def fanoutEntry (entry : PendingTxRuntime) (tx : ChainTxDetail) (address : Address) :
    ClassifiedPendingTx :=
  { entry.toClassifiedPendingTx with
    isSpend := some (txInvolvesSpend tx address)
    voutCount := some tx.vout.length
    outputAddressCount := some (uniqueOutputAddresses tx.toSummary) }

def isFanout (config : AppConfig) (entry : ClassifiedPendingTx) (page : Option ChainTxSummary)
    (address : Address) : Bool :=
  isSpendFanout entry address config page &&
    !isSubFloorSpendFromPage page address config.minExpandSats

/-- An entry that is no fan-out by its page: its transaction is fetched where the page lacks inputs
or outputs, and may turn out to be one. -/
def fetchAndProcess (env : Env) (address : Address) (hop : Nat) (entry : PendingTxRuntime)
    (hackers : List Address) (state : TraceProcessState) (opts : ProcessEntryOpts) :
    StoreM ProcessClassifiedTxResult :=
  match entry.pageEntry.filter hasPageVinVout with
  | some page => processDetail env address hop entry (pageEntryToChainTxDetail page) hackers state opts 0
  | none => do
    let tx ← withProvider env (·.getTx entry.txid)
    if isFanout env.config (fanoutEntry entry tx address) (some tx.toSummary) address then do
      applySpendFanoutSummary env tx address hop
      pure { chainCallsUsed := 1 }
    else processDetail env address hop entry tx hackers state opts 1

/-- The transaction of an entry that is a fan-out by its page. -/
def pageFanout (config : AppConfig) (entry : PendingTxRuntime) (address : Address) :
    Option ChainTxDetail :=
  if isFanout config entry.toClassifiedPendingTx entry.pageEntry address then
    spendFanoutTxFromPage entry
  else none

/-- An entry whose transaction may be traced. -/
def processUnindexed (env : Env) (address : Address) (hop : Nat) (entry : PendingTxRuntime)
    (hackers : List Address) (state : TraceProcessState) (opts : ProcessEntryOpts) :
    StoreM ProcessClassifiedTxResult :=
  if shouldSkipGetTx entry.toClassifiedPendingTx address env.config
      (skipOpts address hop entry opts) then do
    patchOpReturnFromPageIfNeeded env entry opts.capture
    pure {}
  else
    match pageFanout env.config entry address with
    | some pageTx => do
      applySpendFanoutSummary env pageTx address hop
      let _ ← captureOpReturnForTx env entry.txid (some pageTx) opts.capture
      pure {}
    | none => fetchAndProcess env address hop entry hackers state opts

/-- The texts of a transaction that is skipped because it has a row. -/
def captureIndexed (env : Env) (entry : PendingTxRuntime) (indexed : TransactionRow)
    (capture : CaptureOpReturnOpts) : StoreM Unit :=
  forEach (entry.pageEntry.filter pageEntryHasOpReturnAsm).toList fun page =>
    when indexed.opReturnDisplay.isNone (capturePage env page entry.txid capture)

/-- An entry that its classification does not skip; a transaction with a row is not traced again. -/
def processUnskipped (env : Env) (address : Address) (hop : Nat) (entry : PendingTxRuntime)
    (hackers : List Address) (state : TraceProcessState) (opts : ProcessEntryOpts) :
    StoreM ProcessClassifiedTxResult :=
  if !state.activeOn entry.txid && opts.skipIfIndexed then do
    let indexed ← getTransaction entry.txid
    match indexed with
    | some row => do
      captureIndexed env entry row opts.capture
      pure {}
    | none => processUnindexed env address hop entry hackers state opts
  else processUnindexed env address hop entry hackers state opts

def processClassifiedPendingTx (env : Env) (address : Address) (hop : Nat)
    (entry : PendingTxRuntime) (hackers : List Address) (state : TraceProcessState)
    (opts : ProcessEntryOpts) : StoreM ProcessClassifiedTxResult :=
  if !state.activeOn entry.txid && entry.isSpend = some false then do
    patchOpReturnFromPageIfNeeded env entry opts.capture
    if shouldSkipGetTx entry.toClassifiedPendingTx address env.config
        (skipOpts address hop entry opts) then pure {}
    else processUnskipped env address hop entry hackers state opts
  else processUnskipped env address hop entry hackers state opts

end Bloodhound.Indexer
