import Bloodhound.Store.EdgeOps

/-!
# Totals of the scheduler row

The two totals of the scheduler row against the edges. A batch adds the differences of its
payments and the full amounts of its outputs, and no deletion takes anything back, so the
totals stay exact in the runs whose payments replace what was read for their keys, whose
outputs replace nothing, and whose deletions take no amount away (`totalsExact_of_run`).
-/

namespace Bloodhound.Store

open Journal Journal.Op

def payments : Selection := fun _ d => d = .inToHacker

def outputs : Selection := fun _ d => d = .outFromHacker

/-- The totals of the scheduler row are the sums over all edges. -/
structure TotalsExact (db : Db) : Prop where
  totalIn : db.scheduler.totalInSats = sumOf payments db.edges
  totalOut : db.scheduler.totalOutSats = sumOf outputs db.edges

/-- Payments replace what was read for their keys and outputs replace nothing, the sums do not
become negative, and nothing is taken away. -/
def TotalsSafe (env : Env) : EdgeGuard
  | .upsertBatch rows, db, _ =>
    ReplacesAll payments (chunkArray env.store.d1BatchSize rows) db.edges ∧
      Replaces outputs (fun _ => none) rows db.edges ∧
      0 ≤ sumOf payments (upsertedEdges rows db.edges) ∧
      0 ≤ sumOf outputs (upsertedEdges rows db.edges)
  | .deleteTouching a, db, _ => ∀ k r, db.edges.lookup k = some r → apartFrom a k r = false →
      r.amountSats = 0
  | .deleteHackTrace, db, _ => sumOf payments db.edges = 0 ∧ sumOf outputs db.edges = 0
  | .recalcReceived _, _, _ => True

theorem chunkOut_eq (rows : List EdgeUpsertData) :
    chunkOut rows = deltaSum (·.selected outputs) (fun _ => none) rows := by
  unfold chunkOut deltaSum outRows EdgeUpsertData.delta
  simp only [Option.getD_none, sub_zero]
  rfl

theorem totalsExact_upsertBatch {env : Env} {rows : List EdgeUpsertData} {db : Db} {c : Ctl Mem Err}
    (hSafe : TotalsSafe env (.upsertBatch rows) db c)
    (hOk : (upsertEdgesBatch env rows db c).res = .ok ()) (hExact : TotalsExact db) :
    TotalsExact ((upsertEdgesBatch env rows).final db c) := by
  obtain ⟨hPayments, hOutputs, hIn, hOut⟩ := hSafe
  have hSumIn := sumOf_flatten hPayments
  rw [flatten_chunkArray] at hSumIn
  have hDeltaIn : chunksIn (chunkArray env.store.d1BatchSize rows) db.edges =
      chunksDelta (·.selected payments) (chunkArray env.store.d1BatchSize rows) db.edges :=
    chunksIn_eq _ _
  have hSumOut := sumOf_upsertedEdges hOutputs
  have hTotals := totals_replay_batchStmts env rows db.edges db.core
  rw [core_totalInSats, core_totalOutSats, hDeltaIn, chunkOut_eq, hExact.totalIn, hExact.totalOut]
    at hTotals
  have hCore := core_upsertEdgesBatch hOk
  have hEdges := edges_upsertEdgesBatch hOk
  constructor
  · rw [hEdges, ← core_totalInSats, hCore, hTotals.1]
    split <;> omega
  · rw [hEdges, ← core_totalOutSats, hCore, hTotals.2]
    split <;> omega

theorem TotalsExact.congr {db db' : Db} (h : TotalsExact db) (hEdges : db'.edges = db.edges)
    (hIn : db'.scheduler.totalInSats = db.scheduler.totalInSats)
    (hOut : db'.scheduler.totalOutSats = db.scheduler.totalOutSats) : TotalsExact db' := by
  constructor
  · rw [hIn, hEdges, h.totalIn]
  · rw [hOut, hEdges, h.totalOut]

theorem triple_recalcTotalReceived_totals (a : Address) :
    Triple TotalsExact (recalcTotalReceived a) (fun _ => TotalsExact) fun _ => TotalsExact := by
  have hSet : ∀ n : Int, (run (.address (.setTotalReceivedSats a n)) : StoreM Unit).Emits
      fun i => i.isCounter ∨ ∃ v, i = .address (.setTotalReceivedSats a v) := fun n =>
    emits_run (Or.inr ⟨n, rfl⟩)
  have hAdjust := fun id f d => emits_adjustHackStatsCounter
    (P := fun i => i.isCounter ∨ ∃ v, i = .address (.setTotalReceivedSats a v))
    (fun _ h => Or.inl h) id f d
  refine triple_of_emits ((emits_query _).bind fun before => (emits_query _).bind fun n =>
    (hSet n).bind fun _ => emits_forEach fun row _ => emits_when fun _ => (hAdjust _ _ _).bind fun _ =>
      emits_adjustOnChange (hAdjust _ _) _ _) fun i hi db h => ?_
  rcases hi with hi | ⟨v, rfl⟩
  · cases i with
    | scheduler s =>
      cases s with
      | adjustEdgeTotals => cases hi
      | _ => exact h.congr rfl rfl rfl
    | hackStats | insertHackVictim => exact h.congr rfl rfl rfl
    | _ => cases hi
  · exact h.congr rfl rfl rfl

/-- One operation keeps the totals exact. -/
theorem totalsExact_step {env : Env} (op : EdgeOp) (db : Db) (c : Ctl Mem Err)
    (hSafe : TotalsSafe env op db c) (hOk : (op.run env db c).res = .ok ()) (hExact : TotalsExact db) :
    TotalsExact ((op.run env).final db c) := by
  cases op with
  | upsertBatch rows => exact totalsExact_upsertBatch hSafe hOk hExact
  | deleteTouching a =>
    have hDeletes := deletes_deleteEdgesTouchingAddress hOk
    have hKept : ∀ q, sumOf q ((deleteEdgesTouchingAddress a).final db c).edges =
        sumOf q db.edges := by
      intro q
      rw [hDeletes.edges]
      exact sumOf_filter fun k r hk _ hp => hSafe k r hk hp
    constructor
    · show ((deleteEdgesTouchingAddress a).final db c).scheduler.totalInSats = _
      rw [hDeletes.scheduler, hExact.totalIn]
      exact (hKept payments).symm
    · show ((deleteEdgesTouchingAddress a).final db c).scheduler.totalOutSats = _
      rw [hDeletes.scheduler, hExact.totalOut]
      exact (hKept outputs).symm
  | deleteHackTrace =>
    have hNone : ∀ q, sumOf q (EdgeStmt.deleteHackTrace.exec db.edges) = 0 := fun q =>
      sumOf_eq_zero fun k r hk => by
        rw [lookup_deleteHackTrace] at hk
        cases hk
    rw [final_deleteHackTrace hOk]
    constructor
    · show db.scheduler.totalInSats = _
      rw [hExact.totalIn, hSafe.1, hNone]
    · show db.scheduler.totalOutSats = _
      rw [hExact.totalOut, hSafe.2, hNone]
  | recalcReceived hackers =>
    have hTriple : Triple TotalsExact (recalcTotalReceivedFor hackers) (fun _ => TotalsExact)
        fun _ => TotalsExact := triple_forEach fun a _ => triple_recalcTotalReceived_totals a
    exact hTriple.ok hExact hOk

/-- In every run whose operations return and all meet the condition, the totals stay exact. -/
theorem totalsExact_of_run {env : Env} {db db' : Db} (h : EdgeRun env (TotalsSafe env) db db')
    (hExact : TotalsExact db) : TotalsExact db' :=
  opRun_invariant totalsExact_step h hExact

/-! ## An output stored twice -/

/-- A hacker pays an address. -/
def output : EdgeUpsertData where
  fromAddress := name "h"
  toAddress := name "x"
  txid := name "t"
  amountSats := 800000
  direction := .outFromHacker

def outputEnv : Env := { provider := .ofTxs [] }

def storedOutput (db : Db) : Db := (upsertEdgesBatch outputEnv [output]).final db ⟨{}, []⟩

theorem totalsExact_initial : TotalsExact .initial := ⟨rfl, rfl⟩

theorem edgeRun_storedOutput {guard : EdgeGuard} {db : Db}
    (hGuard : guard (.upsertBatch [output]) db ⟨{}, []⟩)
    (hOk : (upsertEdgesBatch outputEnv [output] db ⟨{}, []⟩).res = .ok ()) :
    EdgeRun outputEnv guard db (storedOutput db) :=
  .single ⟨.upsertBatch [output], ⟨{}, []⟩, hGuard, hOk, rfl⟩

/-- The same output stored again is added to the outgoing total again. -/
theorem totals_storedOutput_twice : TotalsExact .initial ∧
    EdgeRun outputEnv (fun _ _ _ => True) .initial (storedOutput (storedOutput .initial)) ∧
      ¬ TotalsExact (storedOutput (storedOutput .initial)) := by
  have hTotal : (storedOutput (storedOutput .initial)).scheduler.totalOutSats = 1600000 := by
    decide +kernel
  have hSum : sumOf outputs (storedOutput (storedOutput .initial)).edges = 800000 := by
    decide +kernel
  refine ⟨totalsExact_initial, (edgeRun_storedOutput trivial rfl).trans
    (edgeRun_storedOutput trivial rfl), fun h => ?_⟩
  have hOut := h.totalOut
  rw [hTotal, hSum] at hOut
  cases hOut

/-- Stored once, the totals are exact. -/
theorem totals_storedOutput_once : TotalsExact (storedOutput .initial) := by
  have hGuard : TotalsSafe outputEnv (.upsertBatch [output]) .initial ⟨{}, []⟩ :=
    ⟨⟨⟨rfl, trivial⟩, trivial⟩, ⟨rfl, trivial⟩, by decide, by decide⟩
  exact totalsExact_of_run (edgeRun_storedOutput hGuard rfl) totalsExact_initial

end Bloodhound.Store
