import Bloodhound.Graph.TraceCore
import Bloodhound.Indexer.TxPage

/-!
# Spend fan-outs

`spendFanout.ts`: a spend with many outputs is not traced output by output. It is stored
as one edge to the target of its largest output, with the total of all outputs.
-/

namespace Bloodhound.Indexer

open Bloodhound.Chain Bloodhound.Store Bloodhound.Graph
open Journal.Op (when forEach)

/-- The outputs to addresses other than the spender. -/
def fanoutAmounts (tx : ChainTxDetail) (spender : Address) : List (Address × Int) :=
  tx.vout.filterMap fun o => o.scriptpubkeyAddress.bind fun address =>
    if address ≠ spender ∧ 0 < o.value.getD 0 then some (address, o.value.getD 0) else none

/-- `aggregateFanoutOutputs(tx, spender).topOutputs`, by decreasing amount; the sort is stable. -/
def fanoutOutputs (tx : ChainTxDetail) (spender : Address) : List (Address × Int) :=
  List.insertionSort (fun a b : Address × Int => b.2 ≤ a.2) (Tally.tally (fanoutAmounts tx spender))

def buildFanoutMeta (config : AppConfig) (tx : ChainTxDetail) (spender : Address) : FanoutMeta where
  txid := tx.txid
  outputCount := uniqueOutputAddresses tx.toSummary
  totalOutSats := ((Tally.tally (fanoutAmounts tx spender)).map Prod.snd).sum
  topOutputs := (fanoutOutputs tx spender).take config.spendFanoutTopK

/-- The upsert of the target of the largest output. -/
def fanoutTargetRow (context : Address → Option ExpandContext) (primary : Address)
    (totalOutSats : Int) (hop : Nat) (minExpandSats : Int) : AddressUpsertData :=
  let existing := context primary
  { address := primary
    role := some .downstream
    hopFromHacker := some (some (hop + 1))
    expandStatus := expandStatusToWrite (existing.map (·.expandStatus))
      ((existing.map (·.inboundSats)).getD 0 + totalOutSats) minExpandSats }

def fanoutEdge (applyMeta : HackTraceApplyMeta) (spender primary : Address) (hop : Nat)
    (fanoutMeta : FanoutMeta) : EdgeUpsertData where
  fromAddress := spender
  toAddress := primary
  txid := applyMeta.txid
  amountSats := fanoutMeta.totalOutSats
  blockTime := applyMeta.blockTime
  hopFromHacker := some (hop + 1)
  direction := .outFromHacker
  edgeKind := some .spendFanout
  fanoutMeta := some fanoutMeta

/-- The summary of a fan-out with a largest output. -/
def writeFanout (env : Env) (applyMeta : HackTraceApplyMeta) (spender primary : Address) (hop : Nat)
    (fanoutMeta : FanoutMeta) : StoreM Unit := do
  let minExpandSats := env.config.minExpandSats
  let context ← getDownstreamExpandContext [primary]
  upsertAddress (fanoutTargetRow context primary fanoutMeta.totalOutSats hop minExpandSats)
  if fanoutMeta.totalOutSats < minExpandSats then addInboundSats primary fanoutMeta.totalOutSats
  else upsertEdge env (fanoutEdge applyMeta spender primary hop fanoutMeta)

def applySpendFanoutSummary (env : Env) (tx : ChainTxDetail) (spender : Address) (hop : Nat) :
    StoreM Unit := do
  let fanoutMeta := buildFanoutMeta env.config tx spender
  upsertTransaction (traceTransactionData tx)
  forEach fanoutMeta.topOutputs.head?.toList fun primary => do
    writeFanout env ⟨tx.txid, blockTimeIso tx.status⟩ spender primary.1 hop fanoutMeta
    setExpandProfile spender .spendFanout

/-- `spendFanoutTxFromPage`. -/
def spendFanoutTxFromPage (entry : PendingTxRuntime) : Option ChainTxDetail :=
  (entry.pageEntry.filter hasPageVinVout).map pageEntryToChainTxDetail

/-! ## What a fan-out writes -/

open Journal Journal.Op

/-- The statements of a fan-out with a largest output. -/
def fanoutStmts (env : Env) (applyMeta : HackTraceApplyMeta) (spender primary : Address) (hop : Nat)
    (fanoutMeta : FanoutMeta) (v : CoreView) : List Core :=
  upsertStmts [fanoutTargetRow (expandContext v.addresses) primary fanoutMeta.totalOutSats hop
      env.config.minExpandSats] ++
    (if fanoutMeta.totalOutSats < env.config.minExpandSats then
        inboundStmts (primary, fanoutMeta.totalOutSats)
      else batchStmts env [fanoutEdge applyMeta spender primary hop fanoutMeta] v.edges)

theorem writesAt_writeFanout (env : Env) (applyMeta : HackTraceApplyMeta)
    (spender primary : Address) (hop : Nat) (fanoutMeta : FanoutMeta) (db : Db) :
    (writeFanout env applyMeta spender primary hop fanoutMeta).WritesAt Stmt.core? db
      (fanoutStmts env applyMeta spender primary hop fanoutMeta db.core) := by
  refine WritesAt.query_bind ?_
  have hRow : ∀ context : Address → Option ExpandContext,
      context primary = expandContext db.addresses primary →
      fanoutTargetRow context primary fanoutMeta.totalOutSats hop env.config.minExpandSats =
        fanoutTargetRow (expandContext db.addresses) primary fanoutMeta.totalOutSats hop
          env.config.minExpandSats := by
    intro context h
    unfold fanoutTargetRow
    rw [h]
  rw [hRow _ (by rw [if_pos (List.mem_singleton.mpr rfl)]; rfl)]
  refine (writes_upsertAddress _ db).bind fun c _ h => ?_
  have hEdges := congrArg CoreView.edges (core_final (writes_upsertAddress _ db) h)
  rw [edges_replay_upsertStmts] at hEdges
  split
  · exact writes_applyInboundSatsDelta _ _ _
  · rw [← hEdges]
    exact writesAt_upsertEdgesBatch _ _ _

/-- All statements of a fan-out on the core. -/
def fanoutCoreStmts (env : Env) (tx : ChainTxDetail) (spender : Address) (hop : Nat)
    (v : CoreView) : List Core :=
  (buildFanoutMeta env.config tx spender).topOutputs.head?.toList.flatMap fun primary =>
    fanoutStmts env ⟨tx.txid, blockTimeIso tx.status⟩ spender primary.1 hop
      (buildFanoutMeta env.config tx spender) v ++ [.address (.setExpandProfile spender .spendFanout)]

theorem writesAt_applySpendFanoutSummary (env : Env) (tx : ChainTxDetail) (spender : Address)
    (hop : Nat) (db : Db) :
    (applySpendFanoutSummary env tx spender hop).WritesAt Stmt.core? db
      (fanoutCoreStmts env tx spender hop db.core) := by
  have hRow : (upsertTransaction (traceTransactionData tx)).Writes Stmt.core? [] := writes_run _
  unfold applySpendFanoutSummary fanoutCoreStmts
  dsimp only
  rw [← List.nil_append (List.flatMap _ _)]
  refine (hRow db).bind fun c _ h => writesAt_forEach_option fun primary _ => ?_
  rw [show db.core = _ from (core_final (hRow db) h).symm]
  exact (writesAt_writeFanout env _ spender primary.1 hop _ _).bind fun _ _ _ => writes_run _ _

/-! ## Amounts -/

theorem pos_of_mem_fanoutAmounts {tx : ChainTxDetail} {spender : Address} {e : Address × Int}
    (h : e ∈ fanoutAmounts tx spender) : 0 < e.2 := by
  obtain ⟨o, _, ho⟩ := List.mem_filterMap.mp h
  obtain ⟨a, _, ha⟩ := Option.bind_eq_some_iff.mp ho
  split at ha
  · next hc =>
    cases ha
    exact hc.2
  · cases ha

/-- A fan-out that lists an output has a positive total. -/
theorem totalOutSats_pos {config : AppConfig} {tx : ChainTxDetail} {spender : Address}
    (h : (buildFanoutMeta config tx spender).topOutputs ≠ []) :
    0 < (buildFanoutMeta config tx spender).totalOutSats := by
  refine List.sum_pos _ (fun d hd => ?_) fun hNil => ?_
  · obtain ⟨e, he, rfl⟩ := List.mem_map.mp hd
    exact Tally.pos_of_mem_tally (fun _ => pos_of_mem_fanoutAmounts) he
  · refine h ?_
    unfold buildFanoutMeta fanoutOutputs
    rw [List.map_eq_nil_iff.mp hNil]
    exact List.take_nil

end Bloodhound.Indexer
