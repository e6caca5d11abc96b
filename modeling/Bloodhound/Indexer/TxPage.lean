import Bloodhound.Indexer.Payload

/-!
# Page entries

`txPage.ts` and `pendingPayload.ts`: the classification of the entries of an address page,
the tests that decide what is done with an entry, and the form in which the pending
entries travel in a payload.
-/

namespace Bloodhound.Indexer

open Bloodhound.Chain

/-! ## Classification -/

def txInvolvesSpendFromPage (tx : ChainTxSummary) (address : Address) : Bool :=
  (tx.vin.getD []).any fun i => (i.prevout.bind (·.scriptpubkeyAddress)) = some address

def txVoutCount (tx : ChainTxSummary) : Nat := (tx.vout.getD []).length

def uniqueOutputAddresses (tx : ChainTxSummary) : Nat :=
  ((tx.vout.getD []).filterMap (·.scriptpubkeyAddress)).eraseDups.length

def classifyPageTx (tx : ChainTxSummary) (address : Address) : ClassifiedPendingTx where
  txid := tx.txid
  isSpend := if tx.vin.getD [] = [] then none else some (txInvolvesSpendFromPage tx address)
  voutCount := some (txVoutCount tx)
  outputAddressCount := some (uniqueOutputAddresses tx)

/-- `classifyPageTxs`, also under the name `pendingFromPageTxs`. -/
def classifyPageTxs (txs : List ChainTxSummary) (address : Address) : List PendingTxRuntime :=
  txs.map fun pageEntry => { classifyPageTx pageEntry address with pageEntry := some pageEntry }

def pageEntryToChainTxDetail (entry : ChainTxSummary) : ChainTxDetail where
  txid := entry.txid
  status := entry.status
  fee := entry.fee
  vin := entry.vin.getD []
  vout := entry.vout.getD []

def hasPageVinVout (entry : ChainTxSummary) : Bool :=
  entry.vin.getD [] ≠ [] && entry.vout.getD [] ≠ []

def pageEntryHasOpReturnAsm (entry : ChainTxSummary) : Bool :=
  (entry.vout.getD []).any voutIsOpReturn

/-! ## Payload form -/

def compactPageSnapshot (entry : ChainTxSummary) : CompactPageSnapshot where
  status := entry.status
  fee := entry.fee
  vin := (entry.vin.getD []).map (·.prevout)
  vout := entry.vout.getD []

def pageSnapshotToSummary (txid : Txid) (snapshot : CompactPageSnapshot) : ChainTxSummary where
  txid := txid
  status := snapshot.status
  fee := snapshot.fee
  vin := some (snapshot.vin.map fun prevout => { prevout })
  vout := some snapshot.vout

def shouldSnapshotReceivePage (entry : PendingTxRuntime) (maxVoutCountSkipGetTx : Nat) : Bool :=
  entry.isSpend = some false &&
    entry.voutCount.getD ((entry.pageEntry.map txVoutCount).getD 0) ≤ maxVoutCountSkipGetTx &&
    entry.pageEntry.any hasPageVinVout

/-- The settings under which receives keep a snapshot of their page entry. -/
structure SerializeOpts where
  traceHackerReceives : Bool
  maxVoutCountSkipGetTx : Nat

def serializePendingTx (opts : Option SerializeOpts) (entry : PendingTxRuntime) :
    ClassifiedPendingTx :=
  let snapshot := (opts.bind fun o =>
    if o.traceHackerReceives && shouldSnapshotReceivePage entry o.maxVoutCountSkipGetTx then
      entry.pageEntry.map compactPageSnapshot
    else none).or entry.pageSnapshot
  { entry.toClassifiedPendingTx with pageSnapshot := snapshot }

def serializePendingTxs (opts : Option SerializeOpts) (pending : List PendingTxRuntime) :
    List ClassifiedPendingTx :=
  pending.map (serializePendingTx opts)

def parsePendingTxs (raw : PendingPayloadFields) : List ClassifiedPendingTx :=
  if raw.pendingTxs ≠ [] then raw.pendingTxs else raw.pendingTxids.map fun txid => { txid }

def runtimeFromClassified (pending : List ClassifiedPendingTx) : List PendingTxRuntime :=
  pending.map fun entry =>
    { entry with pageEntry := entry.pageSnapshot.map (pageSnapshotToSummary entry.txid) }

/-- `readPendingRuntime(raw).pending`. -/
def readPending (raw : PendingPayloadFields) : List PendingTxRuntime :=
  runtimeFromClassified (parsePendingTxs raw)

def writePendingPayload (pending : List PendingTxRuntime) (processedIndex : Nat)
    (opts : Option SerializeOpts) : PendingPayloadFields :=
  if processedIndex < pending.length then
    { pendingTxs := serializePendingTxs opts pending
      pendingTxids := pending.map (·.txid)
      processedIndex }
  else {}

def serializeOpts (config : AppConfig) : SerializeOpts :=
  ⟨config.traceFlaggedHackerReceives, config.maxVoutCountSkipGetTx⟩

/-! ## What is done with an entry -/

def pageSpendSats (tx : ChainTxSummary) (address : Address) : Int :=
  ((tx.vin.getD []).map fun vin =>
    match vin.prevout with
    | some prevout =>
      if prevout.scriptpubkeyAddress = some address ∧ 0 < prevout.value.getD 0 then
        prevout.value.getD 0
      else 0
    | none => 0).sum

def pageReceiveSats (tx : ChainTxSummary) (address : Address) : Int :=
  ((tx.vout.getD []).map fun vout =>
    if vout.scriptpubkeyAddress = some address ∧ 0 < vout.value.getD 0 then vout.value.getD 0
    else 0).sum

def isSubFloorSpendFromPage (tx : Option ChainTxSummary) (address : Address)
    (minExpandSats : Int) : Bool :=
  tx.any fun tx => tx.vin.getD [] ≠ [] && txInvolvesSpendFromPage tx address &&
    0 < pageSpendSats tx address && pageSpendSats tx address < minExpandSats

def isSubFloorReceiveFromPage (tx : Option ChainTxSummary) (address : Address)
    (minVictimIngestSats : Int) : Bool :=
  tx.any fun tx => tx.vout.getD [] ≠ [] && 0 < pageReceiveSats tx address &&
    pageReceiveSats tx address < minVictimIngestSats

/-- `ShouldSkipGetTxOpts` as `processClassifiedPendingTx` fills it: the profile is whether it is
`sweep_relay`, and the receive tracing is that of the configuration. -/
structure SkipOpts where
  sweepRelay : Bool
  pageEntry : Option ChainTxSummary
  hop : Nat
  address : Address

def shouldTraceHackerReceive (entry : ClassifiedPendingTx) (config : AppConfig)
    (opts : SkipOpts) : Bool :=
  entry.isSpend = some false && !opts.sweepRelay && opts.hop = 0 &&
    config.traceFlaggedHackerReceives &&
    entry.voutCount.getD ((opts.pageEntry.map txVoutCount).getD
      ((entry.pageSnapshot.map (·.vout.length)).getD 0)) ≤ config.maxVoutCountSkipGetTx &&
    !isSubFloorReceiveFromPage opts.pageEntry opts.address config.minVictimIngestSats

def isSpendFanout (entry : ClassifiedPendingTx) (address : Address) (config : AppConfig)
    (pageEntry : Option ChainTxSummary) : Bool :=
  entry.isSpend ≠ some false &&
    config.spendFanoutMinVoutCount ≤ entry.voutCount.getD ((pageEntry.map txVoutCount).getD 0) &&
    config.spendFanoutMinOutputAddresses ≤
      entry.outputAddressCount.getD ((pageEntry.map uniqueOutputAddresses).getD 0) &&
    (entry.isSpend = some true || pageEntry.any (txInvolvesSpendFromPage · address))

def shouldSkipGetTx (entry : ClassifiedPendingTx) (address : Address) (config : AppConfig)
    (opts : SkipOpts) : Bool :=
  if opts.sweepRelay && entry.isSpend = some false then true
  else if shouldTraceHackerReceive entry config { opts with address } then false
  else if entry.isSpend = some false then true
  else if isSubFloorSpendFromPage opts.pageEntry address config.minExpandSats then true
  else if entry.isSpend = some true then false
  else
    config.maxVoutCountSkipGetTx < entry.voutCount.getD ((opts.pageEntry.map txVoutCount).getD 0) &&
      opts.pageEntry.any (!txInvolvesSpendFromPage · address)

end Bloodhound.Indexer
