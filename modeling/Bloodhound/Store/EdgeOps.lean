import Bloodhound.Lib.Runs
import Bloodhound.Lib.Triple
import Bloodhound.Store.BatchView
import Bloodhound.Store.EdgeSums

/-!
# Operations on the edges

The operations of the store that write `edges`, as one type, and runs of them. An
operation of a run returns without an error; the condition under which the operations of a
run are chosen is a parameter, so each derived value states its own.
-/

namespace Bloodhound.Store

open Journal Journal.Op

/-! ## The operations -/

def resetHackerTotalReceived : StoreM Unit := run (.address .zeroHackerTotalReceived)

def recalcTotalReceivedFor (hackerAddresses : List Address) : StoreM Unit :=
  forEach hackerAddresses.dedup recalcTotalReceived

inductive EdgeOp where
  | upsertBatch (rows : List EdgeUpsertData)
  | deleteTouching (address : Address)
  /-- The deletion of all traced edges, with the reset of the hackers that follows it. -/
  | deleteHackTrace
  | recalcReceived (hackerAddresses : List Address)

def EdgeOp.run (env : Env) : EdgeOp → StoreM Unit
  | .upsertBatch rows => upsertEdgesBatch env rows
  | .deleteTouching address => deleteEdgesTouchingAddress address
  | .deleteHackTrace => deleteHackTraceEdges >>= fun _ => resetHackerTotalReceived
  | .recalcReceived hackerAddresses => recalcTotalReceivedFor hackerAddresses

/-- A condition on an operation, the store before it and the faults it meets. -/
abbrev EdgeGuard : Type := EdgeOp → Db → Ctl Mem Err → Prop

abbrev EdgeRun (env : Env) (guard : EdgeGuard) : Db → Db → Prop := OpRun (EdgeOp.run env) guard

/-! ## Address rows after a batch -/

/-- A statement of an edge batch. -/
inductive Core.OfBatch : Core → Prop
  | addInbound (a : Address) (d : Int) : Core.OfBatch (.address (.addInboundSats a d))
  | addReceived (a : Address) (d : Int) : Core.OfBatch (.address (.addTotalReceivedSats a d))
  | edge (data : EdgeUpsertData) : Core.OfBatch (.edge (.upsert data))
  | totals (a b : Int) : Core.OfBatch (.totals a b)

theorem ofBatch_chunksStmts {chunks : List (List EdgeUpsertData)} {t : Table.Rows EdgeKey EdgeRow} :
    ∀ i ∈ chunksStmts chunks t, i.OfBatch := by
  intro i hi
  rcases mem_chunksStmts_edge hi with ⟨row, _, rfl⟩ | ⟨a, d, rfl⟩ | ⟨a, d, rfl⟩
  · exact .edge row
  · exact .addReceived a d
  · exact .addInbound a d

theorem ofBatch_inboundStmts {e : Address × Int} : ∀ i ∈ inboundStmts e, i.OfBatch := by
  intro i hi
  rw [eq_of_mem_inboundStmts hi]
  exact .addInbound _ _

theorem ofBatch_totalsStmts {a b : Int} : ∀ i ∈ totalsStmts a b, i.OfBatch := by
  intro i hi
  unfold totalsStmts at hi
  split at hi
  · cases hi
  · rw [List.mem_singleton.mp hi]
    exact .totals a b

theorem ofBatch_batchStmts {env : Env} {rows : List EdgeUpsertData}
    {t : Table.Rows EdgeKey EdgeRow} : ∀ i ∈ batchStmts env rows t, i.OfBatch := by
  intro i hi
  rcases List.mem_append.mp hi with hi | hi
  · exact ofBatch_chunksStmts i hi
  · exact ofBatch_totalsStmts i hi

/-- What a statement adds to the received total of an address. -/
def Core.receivedDelta (x : Address) : Core → Int
  | .address (.addTotalReceivedSats a d) => if a = x then d else 0
  | _ => 0

def receivedSum (x : Address) (stmts : List Core) : Int := (stmts.map (Core.receivedDelta x)).sum

@[simp] theorem receivedSum_append (x : Address) (l l' : List Core) :
    receivedSum x (l ++ l') = receivedSum x l + receivedSum x l' := by
  simp [receivedSum]

/-- The row of an address after additions to its two totals. -/
def AddressRow.plus (row : AddressRow) (inbound received : Int) : AddressRow :=
  { row with
    inboundSats := row.inboundSats + inbound
    totalReceivedSats := row.totalReceivedSats + received }

theorem plus_plus (row : AddressRow) (a b a' b' : Int) :
    (row.plus a b).plus a' b' = row.plus (a + a') (b + b') := by
  simp [AddressRow.plus, add_assoc]

theorem plus_zero (row : AddressRow) : row.plus 0 0 = row := by
  simp [AddressRow.plus]

theorem lookup_exec_ofBatch {i : Core} (hi : i.OfBatch) (v : CoreView) (x : Address) :
    (exec i v).addresses.lookup x =
      (v.addresses.lookup x).map (·.plus (i.inboundDelta x) (i.receivedDelta x)) := by
  have hSame : (v.addresses.lookup x).map (·.plus 0 0) = v.addresses.lookup x := by
    rw [show (fun row : AddressRow => row.plus 0 0) = id from funext plus_zero, Option.map_id, id]
  have hModify : ∀ (a : Address) (f : AddressRow → AddressRow), (if x = a then
      (v.addresses.lookup x).map f else v.addresses.lookup x) =
      (Table.modify a f v.addresses).lookup x := fun a f => (Table.lookup_modify a x f _).symm
  cases hi with
  | addInbound a d =>
    show (Table.modify a _ v.addresses).lookup x = _
    rw [← hModify]
    by_cases hx : x = a
    · simp only [hx, if_true, Core.inboundDelta, Core.receivedDelta, AddressRow.plus, add_zero]
    · simp only [hx, Ne.symm hx, if_false, Core.inboundDelta, Core.receivedDelta, hSame]
  | addReceived a d =>
    show (Table.modify a _ v.addresses).lookup x = _
    rw [← hModify]
    by_cases hx : x = a
    · simp only [hx, if_true, Core.inboundDelta, Core.receivedDelta, AddressRow.plus, add_zero]
    · simp only [hx, Ne.symm hx, if_false, Core.inboundDelta, Core.receivedDelta, hSame]
  | edge => exact hSame.symm
  | totals => exact hSame.symm

/-- A batch adds to the two totals of the rows that are there, and touches nothing else of them. -/
theorem lookup_replay_ofBatch {stmts : List Core} (hs : ∀ i ∈ stmts, i.OfBatch) (v : CoreView)
    (x : Address) : (replay stmts v).addresses.lookup x =
      (v.addresses.lookup x).map (·.plus (inboundSum x stmts) (receivedSum x stmts)) := by
  induction stmts generalizing v with
  | nil =>
    show v.addresses.lookup x = (v.addresses.lookup x).map (·.plus 0 0)
    rw [show (fun row : AddressRow => row.plus 0 0) = id from funext plus_zero, Option.map_id, id]
  | cons i stmts ih =>
    rw [replay_cons, ih fun j hj => hs j (List.mem_cons_of_mem _ hj),
      lookup_exec_ofBatch (hs i List.mem_cons_self), Option.map_map]
    congr 1
    funext row
    rw [Function.comp_apply, plus_plus]
    rfl

theorem receivedSum_edgeStmts (x : Address) (rows : List EdgeUpsertData) :
    receivedSum x (edgeStmts rows) = 0 := by
  induction rows with
  | nil => rfl
  | cons data rows ih => simpa [edgeStmts, receivedSum, Core.receivedDelta] using ih

theorem receivedSum_inboundStmts (x : Address) (credits : List (Address × Int)) :
    receivedSum x (credits.flatMap inboundStmts) = 0 := by
  induction credits with
  | nil => rfl
  | cons e credits ih =>
    rw [List.flatMap_cons, receivedSum_append, ih]
    unfold inboundStmts
    by_cases h : e.2 = 0 <;> simp [h, receivedSum, Core.receivedDelta]

theorem receivedSum_receivedStmts (x : Address) (credits : List (Address × Int)) :
    receivedSum x (credits.flatMap receivedStmts) = Tally.total x credits := by
  induction credits with
  | nil => rfl
  | cons e credits ih =>
    rw [List.flatMap_cons, receivedSum_append, ih, Tally.total_cons]
    unfold receivedStmts
    by_cases h : e.2 = 0 <;> simp [h, receivedSum, Core.receivedDelta]

/-- The payments to one address. -/
def paymentsTo (x : Address) : Selection := fun a d => d = .inToHacker && a = x

/-- What consecutive sub-batches add to a received total. -/
theorem receivedSum_chunksStmts (x : Address) (chunks : List (List EdgeUpsertData))
    (t : Table.Rows EdgeKey EdgeRow) :
    receivedSum x (chunksStmts chunks t) = chunksDelta (·.selected (paymentsTo x)) chunks t := by
  induction chunks generalizing t with
  | nil => rfl
  | cons chunk rest ih =>
    rw [chunksStmts, receivedSum_append, ih, chunksDelta]
    unfold chunkStmts deltaStmts
    rw [receivedSum_append, receivedSum_append, receivedSum_edgeStmts, receivedSum_inboundStmts,
      receivedSum_receivedStmts, total_deltaByTarget]
    unfold inRows
    rw [deltaInto_filter]
    simp only [zero_add, add_zero]
    rfl

theorem receivedSum_batchStmts (env : Env) (x : Address) (rows : List EdgeUpsertData)
    (t : Table.Rows EdgeKey EdgeRow) : receivedSum x (batchStmts env rows t) =
      chunksDelta (·.selected (paymentsTo x)) (chunkArray env.store.d1BatchSize rows) t := by
  unfold batchStmts
  rw [receivedSum_append, receivedSum_chunksStmts]
  have hTotals : ∀ a b, receivedSum x (totalsStmts a b) = 0 := by
    intro a b
    unfold totalsStmts
    split <;> rfl
  rw [hTotals, add_zero]

/-- The core after a batch that returns. -/
theorem core_upsertEdgesBatch {env : Env} {rows : List EdgeUpsertData} {db : Db} {c : Ctl Mem Err}
    (h : (upsertEdgesBatch env rows db c).res = .ok ()) :
    ((upsertEdgesBatch env rows).final db c).core = replay (batchStmts env rows db.edges) db.core :=
  core_final (writesAt_upsertEdgesBatch env rows db) h

theorem edges_upsertEdgesBatch {env : Env} {rows : List EdgeUpsertData} {db : Db} {c : Ctl Mem Err}
    (h : (upsertEdgesBatch env rows db c).res = .ok ()) :
    ((upsertEdgesBatch env rows).final db c).edges = upsertedEdges rows db.edges := by
  rw [← core_edges, core_upsertEdgesBatch h]
  exact edges_replay_batchStmts env rows db.core

/-! ## Deletions -/

/-- Edges are deleted; besides the edges only inbound totals may change. -/
structure Deletes (keep : EdgeKey → EdgeRow → Bool) (db db' : Db) : Prop where
  edges : db'.edges = Table.filter keep db.edges
  addresses : SameRows db'.addresses db.addresses
  peaks : db'.peaks = db.peaks
  scheduler : db'.scheduler = db.scheduler

/-- The edge does not touch the address. -/
def apartFrom (a : Address) (k : EdgeKey) (_ : EdgeRow) : Bool :=
  !(k.fromAddress = a || k.toAddress = a)

theorem sameRows_setInboundSats (a : Address) (v : Int) (t : Table.Rows Address AddressRow) :
    SameRows (Table.modify a (fun r => { r with inboundSats := v }) t) t := by
  intro b
  rw [Table.lookup_modify]
  split
  · cases t.lookup b <;> rfl
  · rfl

theorem Deletes.setInboundSats {keep : EdgeKey → EdgeRow → Bool} {db db' : Db} (h : Deletes keep db db')
    (a : Address) (v : Int) : Deletes keep db (exec (Stmt.address (.setInboundSats a v)) db') where
  edges := h.edges
  addresses b := (sameRows_setInboundSats a v db'.addresses b).trans (h.addresses b)
  peaks := h.peaks
  scheduler := h.scheduler

theorem triple_recalcInboundSatsFor {keep : EdgeKey → EdgeRow → Bool} {db : Db}
    (targets : List Address) : Triple (Deletes keep db) (recalcInboundSatsFor targets)
      (fun _ => Deletes keep db) fun _ _ => True := by
  refine triple_forEach fun a _ => ?_
  refine Triple.bind (Q := fun _ => Deletes keep db) (triple_query (fun _ h => h) fun _ _ _ => trivial)
    fun v => ?_
  exact triple_run (fun _ h => h.setInboundSats a v) fun _ _ _ => trivial

theorem triple_deleteEdgesTouchingAddress (a : Address) (db : Db) :
    Triple (fun s => s = db) (deleteEdgesTouchingAddress a) (fun _ => Deletes (apartFrom a) db)
      fun _ _ => True := by
  refine Triple.bind (Q := fun _ s => s = db) (triple_query (fun _ h => h) fun _ _ _ => trivial)
    fun targets => ?_
  refine Triple.bind (Q := fun _ => Deletes (apartFrom a) db) (triple_run (fun s hs => ?_)
    fun _ _ _ => trivial) fun _ => triple_recalcInboundSatsFor targets
  subst hs
  exact ⟨rfl, fun _ => rfl, rfl, rfl⟩

theorem deletes_deleteEdgesTouchingAddress {a : Address} {db : Db} {c : Ctl Mem Err}
    (h : (deleteEdgesTouchingAddress a db c).res = .ok ()) :
    Deletes (apartFrom a) db ((deleteEdgesTouchingAddress a).final db c) :=
  (triple_deleteEdgesTouchingAddress a db).ok rfl h

/-- Every edge has one of the two directions of a trace, so none is left. -/
theorem final_deleteHackTrace {env : Env} {db : Db} {c : Ctl Mem Err}
    (h : ((EdgeOp.deleteHackTrace.run env) db c).res = .ok ()) :
    ((EdgeOp.deleteHackTrace.run env).final db c) = { db with
      edges := EdgeStmt.deleteHackTrace.exec db.edges
      addresses := AddressStmt.zeroHackerTotalReceived.exec (AddressStmt.zeroInboundSats.exec
        db.addresses) } := by
  have hTriple : Triple (fun s => s = db) (EdgeOp.deleteHackTrace.run env) (fun _ s => s = { db with
      edges := EdgeStmt.deleteHackTrace.exec db.edges
      addresses := AddressStmt.zeroHackerTotalReceived.exec (AddressStmt.zeroInboundSats.exec
        db.addresses) }) fun _ _ => True := by
    refine Triple.bind (Q := fun _ s => s = { db with
      edges := EdgeStmt.deleteHackTrace.exec db.edges
      addresses := AddressStmt.zeroInboundSats.exec db.addresses }) ?_ fun _ =>
      triple_run (fun s hs => by rw [hs]; rfl) fun _ _ _ => trivial
    refine Triple.bind (Q := fun _ s => s = { db with
      edges := EdgeStmt.deleteHackTrace.exec db.edges }) ?_ fun _ =>
      triple_run (fun s hs => by rw [hs]; rfl) fun _ _ _ => trivial
    exact triple_run (fun s hs => by rw [hs]; rfl) fun _ _ _ => trivial
  exact hTriple.ok rfl h

theorem lookup_deleteHackTrace (t : Table.Rows EdgeKey EdgeRow) (k : EdgeKey) :
    (EdgeStmt.deleteHackTrace.exec t).lookup k = none := by
  unfold EdgeStmt.exec
  rw [Table.lookup_filter]
  cases t.lookup k with
  | none => rfl
  | some r => cases hd : r.direction <;> simp [hd]

end Bloodhound.Store
