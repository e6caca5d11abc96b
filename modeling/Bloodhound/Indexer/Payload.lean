import Bloodhound.Chain.Types

/-!
# Job payloads

The typed form of the payloads that jobs carry from one invocation to the next. The
fields of a partial trace are one record, `TraceProcessState`, as in `txProcess.ts`.
-/

namespace Bloodhound

inductive Direction where
  | inToHacker
  | outFromHacker
  deriving DecidableEq

structure HackTraceEdgeDraft where
  fromAddress : Address
  toAddress : Address
  amountSats : Int
  hopFromHacker : Nat
  direction : Direction
  deriving DecidableEq

namespace Indexer

/-- What of a page entry is kept in a payload; the coinbase flag is not. -/
structure CompactPageSnapshot where
  status : Chain.TxStatus
  fee : Option Int
  vin : List (Option Chain.Prevout)
  vout : List Chain.ChainTxVout
  deriving DecidableEq

structure ClassifiedPendingTx where
  txid : Txid
  isSpend : Option Bool := none
  voutCount : Option Nat := none
  outputAddressCount : Option Nat := none
  pageSnapshot : Option CompactPageSnapshot := none
  deriving DecidableEq

structure PendingTxRuntime extends ClassifiedPendingTx where
  pageEntry : Option Chain.ChainTxSummary := none
  deriving DecidableEq

structure TraceProcessState where
  traceTxid : Option Txid := none
  traceEdgeIndex : Option Nat := none
  traceEdgesPending : Bool := false
  traceEdgeTotal : Option Nat := none
  traceEdgesFlat : Option (List HackTraceEdgeDraft) := none
  deriving DecidableEq

structure PendingPayloadFields where
  pendingTxs : List ClassifiedPendingTx := []
  pendingTxids : List Txid := []
  processedIndex : Nat := 0
  deriving DecidableEq

structure BackfillPayload extends PendingPayloadFields where
  address : Address
  chainCursor : Option Txid := none
  pagesExhausted : Bool := false
  newestTxid : Option Txid := none
  newestBlockHeight : Option Nat := none
  trace : TraceProcessState := {}
  deriving DecidableEq

structure ExpandPayload extends PendingPayloadFields where
  address : Address
  ops : Bool := false
  opsPriority : Option Nat := none
  cron : Bool := false
  chainCursor : Option Txid := none
  pagesExhausted : Bool := false
  newestTxid : Option Txid := none
  newestBlockHeight : Option Nat := none
  pagesFetched : Nat := 0
  trace : TraceProcessState := {}
  deriving DecidableEq

structure PollPayload extends PendingPayloadFields where
  address : Address
  pollFetched : Bool := false
  statsFetched : Bool := false
  observedTxCount : Option Nat := none
  newestTxid : Option Txid := none
  newestBlockHeight : Option Nat := none
  cursorMiss : Bool := false
  gapChecked : Bool := false
  gapFill : Bool := false
  chainCursor : Option Txid := none
  pagesExhausted : Bool := false
  pagesFetched : Nat := 0
  fillUntilTxid : Option Txid := none
  deriving DecidableEq

inductive JobType where
  | backfillHackerAddress
  | auditHackerBackfill
  | expandDownstream
  | pollHackerAddress
  | pollDownstreamAddress
  | processTx
  | refreshLiveBalance
  | refreshBtcUsdPrice
  | backfillOpReturn
  | syncColdcardwatch
  | syncVercelTrackers
  | syncBitqueryColdcard
  deriving DecidableEq

/-- A job with its payload. -/
inductive Job where
  | backfillHackerAddress (payload : BackfillPayload)
  | auditHackerBackfill (address : Address)
  | expandDownstream (payload : ExpandPayload)
  | pollHackerAddress (payload : PollPayload)
  | pollDownstreamAddress (payload : PollPayload)
  | processTx (txid : Txid)
  | refreshLiveBalance (address : Address)
  | refreshBtcUsdPrice
  | backfillOpReturn
  | syncColdcardwatch
  | syncVercelTrackers
  | syncBitqueryColdcard
  deriving DecidableEq

namespace Job

def type : Job → JobType
  | .backfillHackerAddress _ => .backfillHackerAddress
  | .auditHackerBackfill _ => .auditHackerBackfill
  | .expandDownstream _ => .expandDownstream
  | .pollHackerAddress _ => .pollHackerAddress
  | .pollDownstreamAddress _ => .pollDownstreamAddress
  | .processTx _ => .processTx
  | .refreshLiveBalance _ => .refreshLiveBalance
  | .refreshBtcUsdPrice => .refreshBtcUsdPrice
  | .backfillOpReturn => .backfillOpReturn
  | .syncColdcardwatch => .syncColdcardwatch
  | .syncVercelTrackers => .syncVercelTrackers
  | .syncBitqueryColdcard => .syncBitqueryColdcard

/-- The field `address` of the payload. -/
def address : Job → Option Address
  | .backfillHackerAddress p => some p.address
  | .expandDownstream p => some p.address
  | .pollHackerAddress p | .pollDownstreamAddress p => some p.address
  | .auditHackerBackfill a | .refreshLiveBalance a => some a
  | _ => none

end Job

/-- `isIngestContinuation`: the payload carries work of an earlier invocation. -/
def isIngestContinuation : Job → Bool
  | .backfillHackerAddress p =>
    p.chainCursor.isSome || !p.pendingTxids.isEmpty || !p.pendingTxs.isEmpty ||
      decide (0 < p.processedIndex) || p.trace.traceEdgesPending ||
      (p.trace.traceEdgeIndex.any (0 < ·))
  | .expandDownstream p =>
    p.chainCursor.isSome || !p.pendingTxids.isEmpty || !p.pendingTxs.isEmpty ||
      decide (0 < p.processedIndex) || (!p.pagesExhausted && decide (0 < p.pagesFetched)) ||
      p.trace.traceEdgesPending || (p.trace.traceEdgeIndex.any (0 < ·))
  | .pollHackerAddress p | .pollDownstreamAddress p =>
    p.chainCursor.isSome || !p.pendingTxids.isEmpty || !p.pendingTxs.isEmpty ||
      decide (0 < p.processedIndex)
  | _ => false

/-- How far a payload has come, as `resetRunningJobs` compares it. -/
structure IngestProgress where
  processedIndex : Nat := 0
  headTxid : Option Txid := none
  chainCursor : Option Txid := none
  deriving DecidableEq

def PendingPayloadFields.progress (p : PendingPayloadFields) (chainCursor : Option Txid) :
    IngestProgress where
  processedIndex := p.processedIndex
  headTxid := (p.pendingTxs[p.processedIndex]?.map (·.txid)).or p.pendingTxids[p.processedIndex]?
  chainCursor := chainCursor

def extractIngestProgressSnapshot : Job → IngestProgress
  | .backfillHackerAddress p => p.progress p.chainCursor
  | .expandDownstream p => p.progress p.chainCursor
  | .pollHackerAddress p | .pollDownstreamAddress p => p.progress p.chainCursor
  | _ => {}

end Indexer

end Bloodhound
