import Bloodhound.Lib.Tally
import Bloodhound.Store.Addresses

/-!
# Edges

The operations of `store.ts` on rows of `edges`. `upsertEdgesBatch` writes a batch in
sub-batches: for each it reads the stored rows of the same transactions, upserts the new
ones, and then brings five families of derived values up to date from the differences: the
received total of each hacker, the inbound total of each target, the statistics and
victims of each hack, the largest payment of each victim, and, once for the whole batch,
the two totals of the scheduler row.
-/

namespace Bloodhound.Store

open Journal.Op (query run mem step when forEach)

/-! ## Differences against the stored rows -/

/-- The stored amounts that a sub-batch compares itself with: rows of one of its transactions
in one of its directions. -/
def storedAmounts (chunk : List EdgeUpsertData) (edges : Table.Rows EdgeKey EdgeRow)
    (key : EdgeKey) : Option Int :=
  if key.txid ∈ chunk.map (·.txid) then
    ((edges.lookup key).filter fun row => row.direction ∈ chunk.map (·.direction)).map (·.amountSats)
  else none

/-- The difference that a row makes against the stored amounts. -/
def EdgeUpsertData.delta (old : EdgeKey → Option Int) (row : EdgeUpsertData) : Int :=
  row.amountSats - (old row.key).getD 0

def inRows (chunk : List EdgeUpsertData) : List EdgeUpsertData :=
  chunk.filter (·.direction = .inToHacker)

def outRows (chunk : List EdgeUpsertData) : List EdgeUpsertData :=
  chunk.filter (·.direction = .outFromHacker)

/-- The nonzero differences of the given rows, by target. -/
def deltaByTarget (old : EdgeKey → Option Int) (rows : List EdgeUpsertData) :
    List (Address × Int) :=
  Tally.tally ((rows.map fun row => (row.toAddress, row.delta old)).filter (·.2 ≠ 0))

/-! ## The operations -/

def getExistingEdges (chunk : List EdgeUpsertData) : StoreM (EdgeKey → Option Int) :=
  query fun db => storedAmounts chunk db.edges

/-- Count the senders of new payments to flagged hackers as victims of the hack. -/
def countNewVictims (rows : List EdgeUpsertData) : StoreM Unit :=
  when (rows ≠ []) do
    let hackers ← query fun db address => db.addresses.lookup address
    forEach rows fun row =>
      forEach ((hackers row.toAddress).filter (·.isFlaggedHacker)).toList fun hacker => do
        let inserted ← tryInsertHackVictim hacker.hackId row.fromAddress
        when inserted (adjustHackStatsCounter hacker.hackId .victimCount 1)

/-- The largest stored payment from one address to a hacker, zero without one. -/
def maxPayment (db : Db) (hackerAddress fromAddress : Address) : Int :=
  (db.edges.entries.filterMap fun e =>
    if e.1.toAddress = hackerAddress ∧ e.1.fromAddress = fromAddress ∧
      e.2.direction = .inToHacker then some e.2.amountSats else none).max?.getD 0

def applyHackerVictimPeakDelta (hackerAddress fromAddress : Address) (newAmount oldAmount : Int) :
    StoreM Unit :=
  when (0 < newAmount ∨ 0 < oldAmount)
    (if oldAmount ≤ newAmount then run (.peak (.raise hackerAddress fromAddress newAmount))
    else do
      let peak ← query fun db => db.peaks.lookup (hackerAddress, fromAddress)
      when (peak.any (· ≤ oldAmount)) do
        let recomputed ← query fun db => maxPayment db hackerAddress fromAddress
        run (.peak (if recomputed ≤ 0 then .delete hackerAddress fromAddress
          else .set hackerAddress fromAddress recomputed)))

/-- The largest payments of the senders of a sub-batch; errors of the peaks table are swallowed. -/
def applyPeakDeltas (old : EdgeKey → Option Int) (chunk : List EdgeUpsertData) : StoreM Unit :=
  forEach (inRows chunk) fun row =>
    (applyHackerVictimPeakDelta row.toAddress row.fromAddress row.amountSats
      ((old row.key).getD 0)).tryCatch fun _ => pure ()

/-- The derived values of a sub-batch, after its rows are written. -/
def applyEdgeDeltas (old : EdgeKey → Option Int) (chunk : List EdgeUpsertData) : StoreM Unit := do
  forEach (deltaByTarget old (inRows chunk)) fun e => applyTotalReceivedDelta e.1 e.2
  forEach (deltaByTarget old (outRows chunk)) fun e => applyInboundSatsDelta e.1 e.2
  countNewVictims ((inRows chunk).filter fun row => (old row.key).isNone)
  applyPeakDeltas old chunk

/-- One sub-batch; the result is what it adds to the totals of the scheduler row. -/
def upsertEdgesChunk (env : Env) (chunk : List EdgeUpsertData) : StoreM (Int × Int) := do
  let old ← getExistingEdges chunk
  executeSqlBatch env (chunk.map fun data => .edge (.upsert data))
  applyEdgeDeltas old chunk
  pure (((inRows chunk).map (·.delta old)).sum, ((outRows chunk).map (·.amountSats)).sum)

def upsertEdgesChunks (env : Env) :
    List (List EdgeUpsertData) → Int → Int → StoreM (Int × Int)
  | [], totalIn, totalOut => pure (totalIn, totalOut)
  | chunk :: rest, totalIn, totalOut => do
    let delta ← upsertEdgesChunk env chunk
    upsertEdgesChunks env rest (totalIn + delta.1) (totalOut + delta.2)

def upsertEdgesBatch (env : Env) (rows : List EdgeUpsertData) : StoreM Unit :=
  when (rows ≠ []) do
    let totals ← upsertEdgesChunks env (chunkArray env.store.d1BatchSize rows) 0 0
    adjustEdgeTotalsCounters totals.1 totals.2

def upsertEdge (env : Env) (data : EdgeUpsertData) : StoreM Unit := upsertEdgesBatch env [data]

/-- `deleteEdgesTouchingAddress`: the inbound totals of the targets are recomputed. -/
def deleteEdgesTouchingAddress (address : Address) : StoreM Unit := do
  let inboundTargets ← query fun db => (db.edges.entries.filter fun e =>
    e.2.direction = .outFromHacker && (e.1.fromAddress = address || e.1.toAddress = address)).map
      (·.1.toAddress)
  run (.edge (.deleteTouching address))
  recalcInboundSatsFor inboundTargets

def deleteHackTraceEdges : StoreM Unit := do
  run (.edge .deleteHackTrace)
  run (.address .zeroInboundSats)

/-- The address has a stored payment to one of the hackers. -/
def isVictimOf (edges : Table.Rows EdgeKey EdgeRow) (hackers : List Address) (address : Address) :
    Bool :=
  edges.entries.any fun e =>
    e.1.fromAddress = address && e.2.direction = .inToHacker && e.1.toAddress ∈ hackers

/-- `filterVictimsAmong`: which of the listed addresses are victims of one of the hackers. -/
def filterVictimsAmong (addresses hackers : List Address) : StoreM (Address → Bool) :=
  query fun db address => address ∈ addresses && isVictimOf db.edges hackers address

/-- A read whose result only feeds the buffer of recent activity. -/
def getExistingInToHackerEdgeKeys (rows : List EdgeUpsertData) : StoreM Unit :=
  when (rows ≠ []) (query fun _ => ())

/-- A walk over stored edges whose result only feeds the buffer of recent activity. -/
def findRootHackersForSpenders (addresses : List Address) : StoreM Unit :=
  when (addresses ≠ []) (query fun _ => ())

def sumOutFromHacker (address : Address) : StoreM Int :=
  query fun db => Table.sum
    (fun k r => if k.fromAddress = address ∧ r.direction = .outFromHacker then r.amountSats else 0)
    db.edges

end Bloodhound.Store
