import Bloodhound.Store.EdgeOps

/-!
# Received totals

The received total of a flagged hacker against the edges. It is kept exact by every
operation whose rows replace, among the payments to the hacker, just what the call had read
for their keys, and whose deletions take no payment to a flagged hacker away
(`receivedExact_of_run`). A batch that turns a payment into an output breaks it.
-/

namespace Bloodhound.Store

open Journal Journal.Op

/-- The address has a row and is flagged as a hacker. -/
def Db.Flagged (db : Db) (a : Address) : Prop :=
  ∃ row, db.addresses.lookup a = some row ∧ row.isFlaggedHacker = true

/-- The received total of every flagged hacker is the sum of the payments to it. -/
def ReceivedExact (db : Db) : Prop :=
  ∀ h row, db.addresses.lookup h = some row → row.isFlaggedHacker = true →
    row.totalReceivedSats = sumInToHacker db h

/-- For every flagged hacker, the rows of a batch replace what was read for their keys; a deletion
takes no payment to a flagged hacker away. -/
def ReceivedSafe (env : Env) : EdgeGuard
  | .upsertBatch rows, db, _ => ∀ h, db.Flagged h →
      ReplacesAll (paymentsTo h) (chunkArray env.store.d1BatchSize rows) db.edges
  | .deleteTouching a, db, _ => ∀ h, db.Flagged h → ∀ k r, db.edges.lookup k = some r →
      paymentsTo h k.toAddress r.direction → apartFrom a k r = false → r.amountSats = 0
  | _, _, _ => True

theorem sumInToHacker_eq (db : Db) (h : Address) :
    sumInToHacker db h = sumOf (paymentsTo h) db.edges := by
  unfold sumInToHacker sumOf paymentsTo
  congr 1
  funext k r
  by_cases ha : k.toAddress = h <;> by_cases hd : r.direction = .inToHacker <;> simp [ha, hd]

theorem receivedExact_upsertBatch {env : Env} {rows : List EdgeUpsertData} {db : Db} {c : Ctl Mem Err}
    (hSafe : ReceivedSafe env (.upsertBatch rows) db c)
    (hOk : (upsertEdgesBatch env rows db c).res = .ok ()) (hExact : ReceivedExact db) :
    ReceivedExact ((upsertEdgesBatch env rows).final db c) := by
  intro h row hRow hFlag
  rw [← core_addresses, core_upsertEdgesBatch hOk, lookup_replay_ofBatch ofBatch_batchStmts,
    receivedSum_batchStmts] at hRow
  obtain ⟨before, hBefore, rfl⟩ := Option.map_eq_some_iff.mp hRow
  have hFlagged : db.Flagged h := ⟨before, hBefore, hFlag⟩
  have hSum := sumOf_flatten (hSafe h hFlagged)
  rw [flatten_chunkArray] at hSum
  have hKept := hExact h before hBefore hFlag
  rw [sumInToHacker_eq, edges_upsertEdgesBatch hOk, hSum]
  rw [sumInToHacker_eq] at hKept
  show before.totalReceivedSats + _ = _
  rw [hKept]

theorem receivedExact_deleteTouching {env : Env} {a : Address} {db : Db} {c : Ctl Mem Err}
    (hSafe : ReceivedSafe env (.deleteTouching a) db c)
    (hOk : (deleteEdgesTouchingAddress a db c).res = .ok ()) (hExact : ReceivedExact db) :
    ReceivedExact ((deleteEdgesTouchingAddress a).final db c) := by
  intro h row hRow hFlag
  have hDeletes := deletes_deleteEdgesTouchingAddress hOk
  have hSame := hDeletes.addresses h
  rw [hRow] at hSame
  obtain ⟨before, hBefore, hEq⟩ := Option.map_eq_some_iff.mp hSame.symm
  have hFlagBefore : before.isFlaggedHacker = true := (congrArg (·.isFlaggedHacker) hEq).trans hFlag
  have hTotal : before.totalReceivedSats = row.totalReceivedSats :=
    congrArg (·.totalReceivedSats) hEq
  rw [sumInToHacker_eq, hDeletes.edges, sumOf_filter (hSafe h ⟨before, hBefore, hFlagBefore⟩),
    ← sumInToHacker_eq, ← hTotal]
  exact hExact h before hBefore hFlagBefore

theorem receivedExact_deleteHackTrace {env : Env} {db : Db} {c : Ctl Mem Err}
    (hOk : (EdgeOp.deleteHackTrace.run env db c).res = .ok ()) :
    ReceivedExact ((EdgeOp.deleteHackTrace.run env).final db c) := by
  rw [final_deleteHackTrace hOk]
  intro h row hRow hFlag
  have hNone := sumOf_eq_zero (q := paymentsTo h) (t := EdgeStmt.deleteHackTrace.exec db.edges)
    fun k r hk => by
      rw [lookup_deleteHackTrace] at hk
      cases hk
  rw [sumInToHacker_eq, hNone]
  have hZero : ((AddressStmt.zeroHackerTotalReceived.exec
      (AddressStmt.zeroInboundSats.exec db.addresses)).lookup h) = some row := hRow
  unfold AddressStmt.exec at hZero
  rw [Table.lookup_mapRows] at hZero
  obtain ⟨before, _, rfl⟩ := Option.map_eq_some_iff.mp hZero
  by_cases hb : before.isFlaggedHacker
  · simp [hb]
  · simp [hb] at hFlag

theorem receivedExact_of_isCounter {i : Stmt} (h : i.isCounter) {db : Db} (hExact : ReceivedExact db) :
    ReceivedExact (exec i db) := by
  cases i with
  | scheduler | hackStats | insertHackVictim => exact hExact
  | _ => cases h

theorem receivedExact_setTotalReceived {db : Db} (a : Address) (hExact : ReceivedExact db) :
    ReceivedExact (exec (Stmt.address (.setTotalReceivedSats a (sumInToHacker db a))) db) := by
  intro h row hRow hFlag
  have hLookup : (Table.modify a (fun r : AddressRow =>
      { r with totalReceivedSats := sumInToHacker db a }) db.addresses).lookup h = some row := hRow
  show row.totalReceivedSats = sumInToHacker db h
  rw [Table.lookup_modify] at hLookup
  split at hLookup
  · next hEq =>
    obtain ⟨before, _, rfl⟩ := Option.map_eq_some_iff.mp hLookup
    rw [hEq]
  · exact hExact h row hLookup hFlag

theorem triple_recalcTotalReceived (a : Address) :
    Triple ReceivedExact (recalcTotalReceived a) (fun _ => ReceivedExact) fun _ _ => True := by
  have hCounters : ∀ {p : StoreM Unit}, p.Emits (fun i => i.isCounter) →
      Triple ReceivedExact p (fun _ => ReceivedExact) fun _ _ => True := fun hp =>
    (triple_of_emits hp fun i hi db hdb => receivedExact_of_isCounter hi hdb).conseq
      (fun _ h => h) (fun _ _ h => h) fun _ _ _ => trivial
  refine Triple.bind (Q := fun _ => ReceivedExact) (triple_query (fun _ h => h) fun _ _ _ => trivial)
    fun before => ?_
  refine Triple.bind (Q := fun n db => ReceivedExact db ∧ n = sumInToHacker db a)
    (triple_query (fun _ h => ⟨h, rfl⟩) fun _ _ _ => trivial) fun n => ?_
  refine Triple.bind (Q := fun _ => ReceivedExact) (triple_run (fun db h => ?_) fun _ _ _ => trivial)
    fun _ => hCounters ?_
  · rw [h.2]
    exact receivedExact_setTotalReceived a h.1
  · refine emits_forEach fun row _ => emits_when fun _ =>
      (emits_adjustHackStatsCounter (fun _ h => h) _ _ _).bind fun _ =>
      emits_adjustOnChange (fun d => emits_adjustHackStatsCounter (fun _ h => h) _ _ d) _ _

/-- One operation keeps the received totals exact. -/
theorem receivedExact_step {env : Env} (op : EdgeOp) (db : Db) (c : Ctl Mem Err)
    (hSafe : ReceivedSafe env op db c) (hOk : (op.run env db c).res = .ok ())
    (hExact : ReceivedExact db) : ReceivedExact ((op.run env).final db c) := by
  cases op with
  | upsertBatch rows => exact receivedExact_upsertBatch hSafe hOk hExact
  | deleteTouching a => exact receivedExact_deleteTouching hSafe hOk hExact
  | deleteHackTrace => exact receivedExact_deleteHackTrace hOk
  | recalcReceived hackers =>
    have hTriple : Triple ReceivedExact (recalcTotalReceivedFor hackers) (fun _ => ReceivedExact)
        fun _ _ => True := triple_forEach fun a _ => triple_recalcTotalReceived a
    exact hTriple.ok hExact hOk

/-- In every run whose operations return and all meet the condition, the received totals stay exact. -/
theorem receivedExact_of_run {env : Env} {db db' : Db} (h : EdgeRun env (ReceivedSafe env) db db')
    (hExact : ReceivedExact db) : ReceivedExact db' :=
  opRun_invariant receivedExact_step h hExact

/-! ## A payment that is also an output -/

/-- A store that knows one flagged hacker. -/
def hackerKnown : Db :=
  replay [Stmt.address (.upsert
    { address := name "h", role := some .hacker, isFlaggedHacker := some true })] .initial

/-- What a trace writes when the address whose outputs it follows pays a hacker: the payment, and
the output under the same key. -/
def directPayment (direction : Direction) : EdgeUpsertData where
  fromAddress := name "a"
  toAddress := name "h"
  txid := name "t"
  amountSats := 200000
  direction := direction

def edgeEnv : Env := { provider := .ofTxs [] }

def afterBatch (rows : List EdgeUpsertData) (db : Db) : Db :=
  (upsertEdgesBatch edgeEnv rows).final db ⟨{}, []⟩

def paidDirectly : Db := afterBatch [directPayment .inToHacker, directPayment .outFromHacker] hackerKnown

theorem edgeRun_afterBatch {guard : EdgeGuard} {rows : List EdgeUpsertData} {db : Db}
    (hGuard : guard (.upsertBatch rows) db ⟨{}, []⟩)
    (hOk : (upsertEdgesBatch edgeEnv rows db ⟨{}, []⟩).res = .ok ()) :
    EdgeRun edgeEnv guard db (afterBatch rows db) :=
  .single ⟨.upsertBatch rows, ⟨{}, []⟩, hGuard, hOk, rfl⟩

theorem receivedExact_hackerKnown : ReceivedExact hackerKnown := by
  intro h row hRow _
  have hTotals : ∀ e ∈ hackerKnown.addresses.entries, e.2.totalReceivedSats = 0 := by decide
  exact hTotals _ (Table.lookup_eq_some_iff.mp hRow)

/-- The output replaces the payment, which stays in the received total of the hacker. -/
theorem received_paidDirectly_stale : ReceivedExact hackerKnown ∧
    EdgeRun edgeEnv (fun _ _ _ => True) hackerKnown paidDirectly ∧ ¬ ReceivedExact paidDirectly := by
  have hOk : (upsertEdgesBatch edgeEnv [directPayment .inToHacker, directPayment .outFromHacker]
      hackerKnown ⟨{}, []⟩).res.toOption = some () := by decide +kernel
  have hTotal : (paidDirectly.addresses.lookup (name "h")).map
      (fun row => (row.isFlaggedHacker, row.totalReceivedSats)) = some (true, 200000) := by
    decide +kernel
  have hSum : sumInToHacker paidDirectly (name "h") = 0 := by decide +kernel
  refine ⟨receivedExact_hackerKnown, edgeRun_afterBatch trivial ?_, fun h => ?_⟩
  · cases hRes : (upsertEdgesBatch edgeEnv [directPayment .inToHacker, directPayment .outFromHacker]
      hackerKnown ⟨{}, []⟩).res with
    | ok => rfl
    | error e =>
      rw [hRes] at hOk
      cases hOk
  · obtain ⟨row, hRow, hBoth⟩ := Option.map_eq_some_iff.mp hTotal
    obtain ⟨hFlag, hReceived⟩ := Prod.mk.inj hBoth
    have hExact := h (name "h") row hRow hFlag
    rw [hReceived, hSum] at hExact
    cases hExact

/-- A payment on its own keeps the received total exact. -/
theorem received_payment_exact :
    ReceivedExact (afterBatch [directPayment .inToHacker] hackerKnown) := by
  refine receivedExact_of_run (edgeRun_afterBatch (fun h _ => ⟨⟨?_, trivial⟩, trivial⟩) rfl)
    receivedExact_hackerKnown
  show (0 : Int) = if _ then (0 : Int) else 0
  rw [ite_self]

end Bloodhound.Store
