import Mathlib.Data.List.Sort
import Mathlib.Algebra.Order.Ring.Rat
import Bloodhound.Lib.Rounding
import Bloodhound.Store.Edges
import Bloodhound.Indexer.OpReturnCapture

/-!
# Tracing a transaction

`builder.ts`: the edges of a transaction are computed from its inputs and outputs and the
set of flagged hackers, and applied to the store in chunks.

* `computeHackTraceEdges` aggregates the inputs of victims and the outputs to hackers,
  splits each input over those outputs in proportion, and lists the outputs of every
  spender: the flagged inputs, and the address that the job traces. The split has the
  rounding of the arithmetic as an argument, which by default is that of the code.
* `applyHackTraceEdgesChunk` applies a range of the flattened list: the victims (in the
  first range only), the downstream addresses, the outputs below the display floor, and the
  edges above it.
* `processTxForHackTrace` writes the row of the transaction, computes or resumes the list,
  applies one chunk and captures the OP_RETURN text.
-/

namespace Bloodhound.Graph

open Bloodhound.Chain Bloodhound.Store Bloodhound.Indexer
open Journal.Op (query run mem step when forEach)

/-! ## Floors and crawl statuses -/

def qualifiesForExpand (inboundSats minExpandSats : Int) : Bool :=
  minExpandSats ≤ 0 || minExpandSats ≤ inboundSats

/-- `expandStatusToWrite`: none where the existing row stays as it is. -/
def expandStatusToWrite (existing : Option ExpandStatus) (inboundSats minExpandSats : Int) :
    Option ExpandStatus :=
  match existing with
  | none => some (if qualifiesForExpand inboundSats minExpandSats then .pending else .skippedMin)
  | some .skippedMin => if qualifiesForExpand inboundSats minExpandSats then some .pending else none
  | some _ => none

def victimReturnEdgeKind (amountSats minSats : Int) : EdgeKind :=
  if minSats ≤ amountSats then .victimRefund else .victimDust

/-! ## Computing the edges -/

/-- The amounts that inputs of addresses outside the hackers bring in. -/
def victimInputAmounts (tx : ChainTxDetail) (hackers : List Address) : List (Address × Int) :=
  tx.vin.filterMap fun i =>
    match i.isCoinbase, i.prevout.bind (·.scriptpubkeyAddress), i.prevout.bind (·.value) with
    | false, some address, some value =>
      if 0 < value ∧ address ∉ hackers then some (address, value) else none
    | _, _, _ => none

def aggregateInputsByAddress (tx : ChainTxDetail) (hackers : List Address) :
    List (Address × Int) :=
  Tally.tally (victimInputAmounts tx hackers)

def hackerOutputAmounts (tx : ChainTxDetail) (hackers : List Address) : List (Address × Int) :=
  tx.vout.filterMap fun o =>
    o.scriptpubkeyAddress.bind fun address =>
      if 0 < o.value.getD 0 ∧ address ∈ hackers then some (address, o.value.getD 0) else none

def aggregateHackerOutputs (tx : ChainTxDetail) (hackers : List Address) : List (Address × Int) :=
  Tally.tally (hackerOutputAmounts tx hackers)

/-- The numbers of the code have 53 binary digits. Amounts and their sums are whole numbers below
`2 ^ 53`, which is more satoshis than there are; only products and quotients are rounded. -/
def double : ℚ → ℚ := Rounding.toDigits 53

/-- The proportional share of one weight, with every operation rounded. -/
def shareOf (round : ℚ → ℚ) (total weightSum w : Int) : ℚ := round (round (total * w) / weightSum)

/-- The indices of the weights by decreasing `fraction`; the sort is stable. -/
def rankedIndices (round : ℚ → ℚ) (total weightSum : Int) (weights : List Int) : List Nat :=
  (List.insertionSort (fun a b : Nat × ℚ => b.2 ≤ a.2)
    (weights.mapIdx fun i w =>
      let share := shareOf round total weightSum w
      (i, round (share - ⌊share⌋)))).map Prod.fst

/-- `splitProportionally`: the integer parts of the shares, and the remainder one by one to the
shares with the largest fractions. -/
def splitProportionally (total : Int) (weights : List Int) (round : ℚ → ℚ := double) : List Int :=
  let weightSum := weights.sum
  if weightSum ≤ 0 ∨ total ≤ 0 then weights.map fun _ => 0
  else
    let amounts := weights.map fun w => ⌊shareOf round total weightSum w⌋
    let remainder := (total - amounts.sum).toNat
    let ranked := rankedIndices round total weightSum weights
    (List.range remainder).foldl
      (fun amounts i => amounts.modify (ranked.getD (i % ranked.length) 0) (· + 1)) amounts

-- the fractions of 5 + 2/3 are rounded differently from that of 2/3
example : splitProportionally 12 [17, 2, 17] = [6, 0, 6] := by decide +kernel

/-- The shares of one victim input in the outputs to hackers. -/
def inEdgesOf (hackerOut : List (Address × Int)) (victim : Address) (inputValue : Int)
    (round : ℚ → ℚ := double) : List HackTraceEdgeDraft :=
  let shares :=
    if hackerOut.length = 1 then [inputValue]
    else splitProportionally inputValue (hackerOut.map Prod.snd) round
  (hackerOut.zip shares).filterMap fun (e : (Address × Int) × Int) =>
    if 0 < e.2 then some ⟨victim, e.1.1, e.2, 0, .inToHacker⟩ else none

structure Spender where
  address : Address
  hop : Nat
  deriving DecidableEq

def inputAddresses (tx : ChainTxDetail) : List Address :=
  tx.vin.filterMap fun i => i.prevout.bind (·.scriptpubkeyAddress)

/-- `collectSpenders`: the flagged inputs, then the traced address if it is another input. -/
def collectSpenders (inputs hackers : List Address) (spending : Option Spender) : List Spender :=
  let flagged := (inputs.filter (· ∈ hackers)).eraseDups.map fun a => ⟨a, 0⟩
  match spending with
  | some s =>
    if s.address ∈ inputs ∧ s.address ∉ hackers then flagged ++ [s] else flagged
  | none => flagged

def outputAmounts (tx : ChainTxDetail) : List (Address × Int) :=
  tx.vout.filterMap fun o => o.scriptpubkeyAddress.map fun address => (address, o.value.getD 0)

def outputAddresses (tx : ChainTxDetail) : List (Address × Int) := Tally.tally (outputAmounts tx)

/-- The outputs of one spender to other addresses. -/
def outEdgesOf (outputs : List (Address × Int)) (s : Spender) : List HackTraceEdgeDraft :=
  (outputs.filter fun e => e.1 ≠ s.address ∧ 0 < e.2).map fun e =>
    ⟨s.address, e.1, e.2, s.hop + 1, .outFromHacker⟩

structure HackTraceEdges where
  inToHacker : List HackTraceEdgeDraft
  outFromHacker : List HackTraceEdgeDraft
  victimAddresses : List Address

/-- `computeHackTraceEdges`; `maxEdges` is absent for no limit. -/
def computeHackTraceEdges (tx : ChainTxDetail) (hackers : List Address) (spending : Option Spender)
    (maxEdges : Option Nat) (round : ℚ → ℚ := double) : HackTraceEdges :=
  let victimInputs := aggregateInputsByAddress tx hackers
  let hackerOut := (aggregateHackerOutputs tx hackers).filter (0 < ·.2)
  let inToHacker := victimInputs.flatMap fun e => inEdgesOf hackerOut e.1 e.2 round
  let outFromHacker := (collectSpenders (inputAddresses tx) hackers spending).flatMap
    (outEdgesOf (outputAddresses tx))
  { inToHacker
    outFromHacker := (maxEdges.elim outFromHacker fun n => outFromHacker.take (n - inToHacker.length))
    victimAddresses := victimInputs.map Prod.fst }

def flattenHackTraceEdges (edges : HackTraceEdges) : List HackTraceEdgeDraft :=
  edges.inToHacker ++ edges.outFromHacker

/-! ## Applying a chunk -/

/-- `HackTraceApplyInput`, normalized. -/
structure HackTraceApplyInput where
  flat : List HackTraceEdgeDraft
  victimAddresses : List Address

structure HackTraceApplyMeta where
  txid : Txid
  blockTime : Option Nat

structure HackTraceApplyChunkOptions where
  startEdgeIndex : Nat := 0
  maxEdges : Option Nat := none
  flaggedHackers : List Address := []
  minExpandSats : Int := 100000
  minVictimIngestSats : Int := 100000

structure HackTraceApplyChunkResult where
  complete : Bool
  nextEdgeIndex : Nat
  edgesApplied : Nat
  traceEdgeTotal : Nat
  cpuGuardTripped : Bool

def inTotal (flat : List HackTraceEdgeDraft) (address : Address) : Int :=
  Tally.total address ((flat.filter (·.direction = .inToHacker)).map fun e =>
    (e.fromAddress, e.amountSats))

/-- The senders of payments to hackers whose total reaches the ingest floor. -/
def qualifyingVictims (input : HackTraceApplyInput) (minVictimIngestSats : Int) : List Address :=
  input.victimAddresses.filter fun a => qualifiesForExpand (inTotal input.flat a) minVictimIngestSats

def victimRow (address : Address) : AddressUpsertData := { address, role := some .victim }

/-- An output to an address outside the known victims. -/
def isDownstreamEdge (victimTargets : Address → Bool) (edge : HackTraceEdgeDraft) : Bool :=
  edge.direction = .outFromHacker && !victimTargets edge.toAddress

def isVictimReturn (victimTargets : Address → Bool) (edge : HackTraceEdgeDraft) : Bool :=
  edge.direction = .outFromHacker && victimTargets edge.toAddress

/-- Outputs to addresses outside the known victims, by target. -/
def downstreamAmounts (victimTargets : Address → Bool) (slice : List HackTraceEdgeDraft) :
    List (Address × Int) :=
  (slice.filter (isDownstreamEdge victimTargets)).map fun e => (e.toAddress, e.amountSats)

/-- The upsert of the target of an output. -/
def downstreamRow (context : Address → Option ExpandContext) (sliceInbound : Address → Int)
    (minExpandSats : Int) (edge : HackTraceEdgeDraft) : AddressUpsertData :=
  let existing := context edge.toAddress
  let inboundSats := (existing.map (·.inboundSats)).getD 0 + sliceInbound edge.toAddress
  { address := edge.toAddress
    role := some .downstream
    hopFromHacker := some (some edge.hopFromHacker)
    expandStatus := expandStatusToWrite (existing.map (·.expandStatus)) inboundSats minExpandSats }

/-- `downstreamRows`: the upserts of the targets outside the known victims. -/
def downstreamRows (victimTargets : Address → Bool) (context : Address → Option ExpandContext)
    (minExpandSats : Int) (slice : List HackTraceEdgeDraft) : List AddressUpsertData :=
  (slice.filter (isDownstreamEdge victimTargets)).map
    (downstreamRow context (Tally.total · (downstreamAmounts victimTargets slice)) minExpandSats)

/-- The floor below which an edge is not stored. -/
def displayFloor (opts : HackTraceApplyChunkOptions) (edge : HackTraceEdgeDraft) : Int :=
  match edge.direction with
  | .inToHacker => opts.minVictimIngestSats
  | .outFromHacker => opts.minExpandSats

/-- The stored form of an edge. -/
def edgeRow (applyMeta : HackTraceApplyMeta) (victimTargets : Address → Bool) (minExpandSats : Int)
    (edge : HackTraceEdgeDraft) : EdgeUpsertData where
  fromAddress := edge.fromAddress
  toAddress := edge.toAddress
  txid := applyMeta.txid
  amountSats := edge.amountSats
  blockTime := applyMeta.blockTime
  hopFromHacker := some edge.hopFromHacker
  direction := edge.direction
  edgeKind :=
    if isVictimReturn victimTargets edge then
      some (victimReturnEdgeKind edge.amountSats minExpandSats)
    else none

/-- Outputs below the display floor are credited to their targets without an edge. -/
def skippedInbound (opts : HackTraceApplyChunkOptions) (victimTargets : Address → Bool)
    (slice : List HackTraceEdgeDraft) : List (Address × Int) :=
  Tally.tally (downstreamAmounts victimTargets
    (slice.filter fun edge => edge.amountSats < displayFloor opts edge))

def edgeRows (opts : HackTraceApplyChunkOptions) (applyMeta : HackTraceApplyMeta)
    (victimTargets : Address → Bool) (slice : List HackTraceEdgeDraft) : List EdgeUpsertData :=
  (slice.filter fun edge => displayFloor opts edge ≤ edge.amountSats).map
    (edgeRow applyMeta victimTargets opts.minExpandSats)

/-- The victims of the first range. -/
def upsertVictims (env : Env) (input : HackTraceApplyInput) (opts : HackTraceApplyChunkOptions) :
    StoreM Unit :=
  when (opts.startEdgeIndex = 0 ∧ input.victimAddresses ≠ []) do
    let victims := qualifyingVictims input opts.minVictimIngestSats
    let _ ← getExistingAddressSet victims
    upsertAddressesBatch env (victims.map victimRow)

/-- Write a range whose outputs are classified: the downstream addresses, the outputs below the
floor and the edges above it. -/
def writeSlice (env : Env) (applyMeta : HackTraceApplyMeta) (opts : HackTraceApplyChunkOptions)
    (victimTargets : Address → Bool) (context : Address → Option ExpandContext)
    (slice : List HackTraceEdgeDraft) : StoreM Unit := do
  let downstream := downstreamRows victimTargets context opts.minExpandSats slice
  let rows := edgeRows opts applyMeta victimTargets slice
  let existing ← getExistingAddressSet (downstream.map (·.address))
  upsertAddressesBatch env downstream
  forEach (skippedInbound opts victimTargets slice) fun e => addInboundSats e.1 e.2
  when (rows ≠ []) do
    getExistingInToHackerEdgeKeys (inRows rows)
    upsertEdgesBatch env rows
  findRootHackersForSpenders ((slice.filter fun edge =>
    edge.direction = .outFromHacker && edge.toAddress ∈ downstream.map (·.address) &&
      edge.toAddress ∉ existing).map (·.fromAddress))

/-- A range of the list: the reads that classify its outputs, then its writes. -/
def applySlice (env : Env) (applyMeta : HackTraceApplyMeta) (opts : HackTraceApplyChunkOptions)
    (slice : List HackTraceEdgeDraft) : StoreM Unit := do
  let outTargets := (slice.filter (·.direction = .outFromHacker)).map (·.toAddress)
  let victimTargets ← filterVictimsAmong outTargets opts.flaggedHackers
  let context ← getDownstreamExpandContext ((downstreamAmounts victimTargets slice).map Prod.fst)
  writeSlice env applyMeta opts victimTargets context slice

/-- The end of the range of a chunk. -/
def chunkEnd (opts : HackTraceApplyChunkOptions) (total : Nat) : Nat :=
  opts.maxEdges.elim total fun n => min total (opts.startEdgeIndex + n)

/-- The body of `applyHackTraceEdgesChunk` where the CPU guard has time left. -/
def applyRange (env : Env) (applyMeta : HackTraceApplyMeta) (input : HackTraceApplyInput)
    (opts : HackTraceApplyChunkOptions) (guard : CpuGuard) : StoreM HackTraceApplyChunkResult := do
  let total := input.flat.length
  let stop := chunkEnd opts total
  let slice := (input.flat.take stop).drop opts.startEdgeIndex
  upsertVictims env input opts
  applySlice env applyMeta opts slice
  pure ⟨total ≤ stop, stop, slice.length, total, guard.tripped⟩

def applyHackTraceEdgesChunk (env : Env) (applyMeta : HackTraceApplyMeta)
    (input : HackTraceApplyInput) (opts : HackTraceApplyChunkOptions) :
    StoreM HackTraceApplyChunkResult := do
  let guard ← readCpuGuard
  if guard.exceeded then
    pure ⟨input.flat.length ≤ opts.startEdgeIndex, opts.startEdgeIndex, 0, input.flat.length, true⟩
  else applyRange env applyMeta input opts guard

/-! ## Processing a transaction -/

/-- The options of `processTxForHackTrace`. -/
structure ProcessTxOptions where
  tx : Option ChainTxDetail := none
  spending : Option Spender := none
  maxGraphEdgesPerTx : Option Nat := none
  maxEdgesPerJob : Option Nat := none
  traceEdgeIndex : Nat := 0
  traceEdgeTotal : Option Nat := none
  traceEdgesFlat : Option (List HackTraceEdgeDraft) := none
  minExpandSats : Int := 100000
  minVictimIngestSats : Int := 100000
  capture : CaptureOpReturnOpts := { guarded := true }

structure ProcessTxResult where
  traceComplete : Bool
  nextEdgeIndex : Nat
  edgesApplied : Nat
  traceEdgeTotal : Nat
  traceEdgesFlat : Option (List HackTraceEdgeDraft)
  cpuGuardTripped : Bool
  captureChainCalls : Nat

/-- The list that the payload of a partial trace resumes. -/
def resumedFlat (options : ProcessTxOptions) : Option (List HackTraceEdgeDraft) :=
  if 0 < options.traceEdgeIndex then options.traceEdgesFlat.filter (· ≠ []) else none

/-- Time the computation against the CPU guard. -/
def guardedRun : StoreM Unit :=
  mem fun m =>
    ((), { m with cpuGuard := m.cpuGuard.ran (m.durations.headD 0), durations := m.durations.tail })

/-- The list to apply: resumed from the payload, or computed under the CPU guard. -/
def traceInput (tx : ChainTxDetail) (hackers : List Address) (options : ProcessTxOptions) :
    StoreM HackTraceApplyInput :=
  match resumedFlat options with
  | some flat => pure ⟨flat, []⟩
  | none => do
    guardedRun
    let computed := computeHackTraceEdges tx hackers options.spending options.maxGraphEdgesPerTx
    pure ⟨flattenHackTraceEdges computed, computed.victimAddresses⟩

def fetchTraced (env : Env) (txid : Txid) (given : Option ChainTxDetail) : StoreM ChainTxDetail :=
  given.elim (withProvider env (·.getTx txid)) pure

def ProcessTxOptions.chunk (options : ProcessTxOptions) (hackers : List Address) :
    HackTraceApplyChunkOptions where
  startEdgeIndex := options.traceEdgeIndex
  maxEdges := options.maxEdgesPerJob
  flaggedHackers := hackers
  minExpandSats := options.minExpandSats
  minVictimIngestSats := options.minVictimIngestSats

def processTxForHackTrace (env : Env) (txid : Txid) (hackers : List Address)
    (options : ProcessTxOptions) : StoreM ProcessTxResult := do
  let tx ← fetchTraced env txid options.tx
  upsertTransaction { traceTransactionData tx with txid := txid }
  let input ← traceInput tx hackers options
  let result ← applyHackTraceEdgesChunk env ⟨txid, blockTimeIso tx.status⟩ input
    (options.chunk hackers)
  let captureChainCalls ← captureOpReturnForTx env txid (some tx) options.capture
  pure
    { traceComplete := result.complete
      nextEdgeIndex := result.nextEdgeIndex
      edgesApplied := result.edgesApplied
      traceEdgeTotal := result.traceEdgeTotal
      traceEdgesFlat := if result.complete then none else some input.flat
      cpuGuardTripped := result.cpuGuardTripped
      captureChainCalls }

end Bloodhound.Graph
