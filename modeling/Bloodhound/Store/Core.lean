import Bloodhound.Store.Edges

/-!
# The core of the store

What the results on tracing are about: the rows of `addresses` and `edges` and the two
totals of the scheduler row. The statements that change it are singled out, and for each
operation of the store the list of them that it executes is given as a function of the
core before it: `writes_upsertAddressesBatch`, `writesAt_upsertEdgesBatch`. By
`tracks_core` the core after a run is the fold of that list.
-/

namespace Bloodhound.Store

open Journal Journal.Op

structure CoreView where
  addresses : Table.Rows Address AddressRow
  edges : Table.Rows EdgeKey EdgeRow
  totalInSats : Int
  totalOutSats : Int

def Db.core (db : Db) : CoreView :=
  ⟨db.addresses, db.edges, db.scheduler.totalInSats, db.scheduler.totalOutSats⟩

@[simp] theorem core_addresses (db : Db) : db.core.addresses = db.addresses := rfl

@[simp] theorem core_edges (db : Db) : db.core.edges = db.edges := rfl

@[simp] theorem core_totalInSats (db : Db) : db.core.totalInSats = db.scheduler.totalInSats := rfl

@[simp] theorem core_totalOutSats (db : Db) : db.core.totalOutSats = db.scheduler.totalOutSats := rfl

/-- The statements that change the core. -/
inductive Core where
  | address (stmt : AddressStmt)
  | edge (stmt : EdgeStmt)
  | totals (totalIn totalOut : Int)

def Core.exec : Core → CoreView → CoreView
  | .address s, v => { v with addresses := s.exec v.addresses }
  | .edge s, v => { v with edges := s.exec v.edges }
  | .totals dIn dOut, v =>
    { v with
      totalInSats := max 0 (v.totalInSats + dIn)
      totalOutSats := max 0 (v.totalOutSats + dOut) }

instance : Statement Core CoreView := ⟨Core.exec⟩

def Stmt.core? : Stmt → Option Core
  | .address s => some (.address s)
  | .edge s => some (.edge s)
  | .scheduler (.adjustEdgeTotals a b) => some (.totals a b)
  | _ => none

theorem tracks_core : Tracks Stmt.core? Core.exec Db.core where
  kept i k s h := by
    cases i with
    | address => cases h; rfl
    | edge => cases h; rfl
    | scheduler t => cases t <;> cases h; rfl
    | _ => cases h
  dropped i s h := by
    cases i with
    | address => cases h
    | edge => cases h
    | scheduler t =>
      cases t with
      | adjustEdgeTotals => cases h
      | _ => rfl
    | job t => cases t <;> rfl
    | _ => rfl

theorem core_replay (log : List Stmt) (db : Db) :
    (replay log db).core = replay (log.filterMap Stmt.core?) db.core :=
  tracks_core.replay log db

/-- A statement outside the core. -/
def Stmt.Quiet (i : Stmt) : Prop := i.core? = none

theorem quiet_of_isCounter (i : Stmt) (h : i.isCounter) : i.Quiet := by
  cases i with
  | scheduler t =>
    cases t with
    | adjustEdgeTotals => cases h
    | _ => rfl
  | hackStats => rfl
  | insertHackVictim => rfl
  | _ => cases h

theorem writes_of_quiet {α : Type} {p : StoreM α} (h : p.Emits Stmt.Quiet) :
    p.Writes Stmt.core? [] :=
  writes_nil_of_emits h

/-- The core after a successful run. -/
theorem core_final {α : Type} {p : StoreM α} {db : Db} {kept : List Core}
    (h : p.WritesAt Stmt.core? db kept) {c : Ctl Mem Err} {a : α} (ha : (p db c).res = .ok a) :
    (p.final db c).core = replay kept db.core := by
  unfold Op.final
  rw [core_replay, (h c).2 a ha]

/-! ## What the operations write -/

section Writes

variable {κ : Type} {π : Stmt → Option κ}

theorem writes_executeSqlBatch (env : Env) (statements : List Stmt) :
    (executeSqlBatch env statements).Writes π (statements.filterMap π) := by
  unfold executeSqlBatch
  split
  · next h =>
    rw [h]
    exact writes_nil_of_emits (emits_pure ())
  · split
    · exact writes_step statements _
    · exact writes_forEach_run statements

/-- Without faults a batch executes its statements in order. -/
theorem runs_executeSqlBatch (env : Env) (statements : List Stmt) (db : Db) (m : Mem) :
    (executeSqlBatch env statements).Runs db m () statements m := by
  unfold executeSqlBatch
  split
  · next h =>
    rw [h]
    exact runs_pure () db m
  · split
    · exact runs_step statements _ db m
    · exact runs_forEach_run statements db m

/-- The statements on `addresses` of an upsert of the given rows. -/
def upsertStmts (rows : List AddressUpsertData) : List Core :=
  rows.map fun data => .address (.upsert data)

@[simp] theorem filterMap_upserts (rows : List AddressUpsertData) :
    (rows.map fun data => Stmt.address (.upsert data)).filterMap Stmt.core? = upsertStmts rows := by
  rw [List.filterMap_map]
  exact congrFun List.filterMap_eq_map rows

theorem quiet_adjustForRow (before : Option AddressRow) (after : AddressRow) :
    (adjustForRow before after).Emits Stmt.Quiet :=
  (emits_applyAddressStatsDelta quiet_of_isCounter _ _).bind fun _ =>
    emits_maybeMarkMonitorSnapshotDirty quiet_of_isCounter _ _

theorem quiet_invalidate (cond : Prop) [Decidable cond] :
    (when cond (run (.scheduler .invalidateFlaggedHackersCache)) : StoreM Unit).Emits Stmt.Quiet :=
  emits_when fun _ => emits_run rfl

theorem writes_upsertAddress (data : AddressUpsertData) :
    (upsertAddress data).Writes Stmt.core? (upsertStmts [data]) := by
  refine (writes_of_quiet (emits_query _)).bind_right fun existing =>
    Writes.bind_left (writes_run _) fun _ => writes_of_quiet ?_
  refine (quiet_invalidate _).bind fun _ => (emits_query _).bind fun updated =>
    emits_forEach fun row _ => ?_
  exact (emits_adjustCounter quiet_of_isCounter _ _).bind fun _ => quiet_adjustForRow _ _

theorem writes_upsertAddressesBatch (env : Env) (rows : List AddressUpsertData) :
    (upsertAddressesBatch env rows).Writes Stmt.core? (upsertStmts rows) := by
  have hBatches : (forEach (chunkArray env.store.d1BatchSize rows) fun chunk =>
      executeSqlBatch env (chunk.map fun data => .address (.upsert data))).Writes Stmt.core?
      (upsertStmts rows) := by
    have hChunk : ∀ chunk ∈ chunkArray env.store.d1BatchSize rows,
        (executeSqlBatch env (chunk.map fun data => .address (.upsert data))).Writes Stmt.core?
          (upsertStmts chunk) := by
      intro chunk _
      rw [← filterMap_upserts]
      exact writes_executeSqlBatch env _
    have h := writes_forEach hChunk
    have hFlat : (chunkArray env.store.d1BatchSize rows).flatMap upsertStmts = upsertStmts rows := by
      unfold upsertStmts
      rw [← List.map_flatMap, List.flatMap_id', flatten_chunkArray]
    rwa [hFlat] at h
  unfold upsertAddressesBatch when
  split
  · refine (writes_of_quiet (emits_query _)).bind_right fun before => hBatches.bind_left fun _ =>
      writes_of_quiet ?_
    refine (quiet_invalidate _).bind fun _ => (emits_query _).bind fun after =>
      Emits.bind (emits_forEach fun address _ => ?_) fun _ => emits_adjustCounter quiet_of_isCounter _ _
    exact (emits_forEach fun row _ => emits_applyAddressStatsDelta quiet_of_isCounter _ _).bind
      fun _ => emits_maybeMarkMonitorSnapshotDirty quiet_of_isCounter _ _
  · next h =>
    rw [not_not.mp h]
    exact writes_of_quiet (emits_pure ())

/-! ## Totals of one address -/

def inboundStmts (e : Address × Int) : List Core :=
  if e.2 = 0 then [] else [.address (.addInboundSats e.1 e.2)]

def receivedStmts (e : Address × Int) : List Core :=
  if e.2 = 0 then [] else [.address (.addTotalReceivedSats e.1 e.2)]

theorem eq_of_mem_inboundStmts {e : Address × Int} {i : Core} (hi : i ∈ inboundStmts e) :
    i = .address (.addInboundSats e.1 e.2) := by
  unfold inboundStmts at hi
  split at hi
  · cases hi
  · exact List.mem_singleton.mp hi

theorem eq_of_mem_receivedStmts {e : Address × Int} {i : Core} (hi : i ∈ receivedStmts e) :
    i = .address (.addTotalReceivedSats e.1 e.2) := by
  unfold receivedStmts at hi
  split at hi
  · cases hi
  · exact List.mem_singleton.mp hi

theorem quiet_adjustPollDueForInbound (address : Address) (existing : AddressRow) (d : Int)
    (state : SchedulerState) :
    (adjustPollDueForInbound address existing d state).Emits Stmt.Quiet :=
  emits_when fun _ => (emits_query _).bind fun _ => emits_now.bind fun _ =>
    emits_when fun _ => emits_adjustPollDueOrMarkDirty quiet_of_isCounter _ _ _ _

theorem writes_applyInboundSatsDelta (a : Address) (d : Int) :
    (applyInboundSatsDelta a d).Writes Stmt.core? (inboundStmts (a, d)) := by
  unfold applyInboundSatsDelta when inboundStmts
  by_cases h : d = 0
  · rw [if_neg (by simpa using h), if_pos h]
    exact writes_of_quiet (emits_pure ())
  · rw [if_pos h, if_neg h]
    refine (writes_of_quiet (emits_query _)).bind_right fun existing =>
      (writes_of_quiet (emits_query _)).bind_right fun state =>
      Writes.bind_left (writes_run _) fun _ => writes_of_quiet ?_
    exact emits_forEach fun row _ => quiet_adjustPollDueForInbound _ _ _ _

theorem quiet_adjustHackerActive (before : Option AddressRow) (after : AddressRow) (d : Int) :
    (adjustHackerActive before after d).Emits Stmt.Quiet :=
  (emits_adjustCounter quiet_of_isCounter _ _).bind fun _ => emits_forEach fun _ _ =>
    emits_when fun _ => emits_adjustHackStatsCounter quiet_of_isCounter _ _ _

theorem writes_applyTotalReceivedDelta (a : Address) (d : Int) :
    (applyTotalReceivedDelta a d).Writes Stmt.core? (receivedStmts (a, d)) := by
  unfold applyTotalReceivedDelta when receivedStmts
  by_cases h : d = 0
  · rw [if_neg (by simpa using h), if_pos h]
    exact writes_of_quiet (emits_pure ())
  · rw [if_pos h, if_neg h]
    refine (writes_of_quiet (emits_query _)).bind_right fun existing =>
      Writes.bind_left (writes_run _) fun _ => writes_of_quiet ?_
    refine emits_forEach fun row _ => ?_
    exact (emits_adjustOnChange (quiet_adjustHackerActive _ _) _ _).bind fun _ =>
      emits_when fun _ => emits_adjustHackStatsCounter quiet_of_isCounter _ _ _

/-! ## Edge batches -/

def edgeStmts (rows : List EdgeUpsertData) : List Core := rows.map fun data => .edge (.upsert data)

/-- The statements on `addresses` that bring the totals up to date after a sub-batch. -/
def deltaStmts (old : EdgeKey → Option Int) (chunk : List EdgeUpsertData) : List Core :=
  (deltaByTarget old (inRows chunk)).flatMap receivedStmts ++
    (deltaByTarget old (outRows chunk)).flatMap inboundStmts

theorem quiet_applyHackerVictimPeakDelta (h s : Address) (new old : Int) :
    (applyHackerVictimPeakDelta h s new old).Emits Stmt.Quiet := by
  refine emits_when fun _ => ?_
  split
  · exact emits_run rfl
  · refine (emits_query _).bind fun peak => emits_when fun _ => (emits_query _).bind fun v =>
      emits_run ?_
    rfl

theorem quiet_countNewVictims (rows : List EdgeUpsertData) :
    (countNewVictims rows).Emits Stmt.Quiet := by
  refine emits_when fun _ => (emits_query _).bind fun hackers => emits_forEach fun row _ =>
    emits_forEach fun hacker _ => ?_
  exact (emits_tryInsertHackVictim quiet_of_isCounter _ _).bind fun _ =>
    emits_when fun _ => emits_adjustHackStatsCounter quiet_of_isCounter _ _ _

theorem writes_applyEdgeDeltas (old : EdgeKey → Option Int) (chunk : List EdgeUpsertData) :
    (applyEdgeDeltas old chunk).Writes Stmt.core? (deltaStmts old chunk) := by
  refine (writes_forEach fun e _ => writes_applyTotalReceivedDelta e.1 e.2).bind fun _ =>
    (writes_forEach fun e _ => writes_applyInboundSatsDelta e.1 e.2).bind_left fun _ =>
    writes_of_quiet ?_
  exact (quiet_countNewVictims _).bind fun _ => emits_forEach fun row _ =>
    (quiet_applyHackerVictimPeakDelta _ _ _ _).tryCatch fun _ => emits_pure ()

/-- The edges after upserting rows. -/
def upsertedEdges (rows : List EdgeUpsertData) (t : Table.Rows EdgeKey EdgeRow) :
    Table.Rows EdgeKey EdgeRow :=
  rows.foldl (fun t data => (EdgeStmt.upsert data).exec t) t

def chunkStmts (chunk : List EdgeUpsertData) (t : Table.Rows EdgeKey EdgeRow) : List Core :=
  edgeStmts chunk ++ deltaStmts (storedAmounts chunk t) chunk

theorem writesAt_upsertEdgesChunk (env : Env) (chunk : List EdgeUpsertData) (db : Db) :
    (upsertEdgesChunk env chunk).WritesAt Stmt.core? db (chunkStmts chunk db.edges) := by
  refine WritesAt.query_bind ?_
  have hBatch := writes_executeSqlBatch (π := Stmt.core?) env
    (chunk.map fun data => .edge (.upsert data))
  rw [List.filterMap_map, show (Stmt.core? ∘ fun data => Stmt.edge (.upsert data)) =
    some ∘ fun data => Core.edge (.upsert data) from rfl, List.filterMap_eq_map] at hBatch
  exact (hBatch.bind fun _ => (writes_applyEdgeDeltas _ chunk).bind_left fun _ =>
    writes_of_quiet (emits_pure _)) db

/-- What a sub-batch adds to the total of payments to hackers. -/
def chunkIn (chunk : List EdgeUpsertData) (t : Table.Rows EdgeKey EdgeRow) : Int :=
  ((inRows chunk).map (·.delta (storedAmounts chunk t))).sum

/-- What a sub-batch adds to the total of payments out of hackers. -/
def chunkOut (chunk : List EdgeUpsertData) : Int := ((outRows chunk).map (·.amountSats)).sum

theorem returnsAt_upsertEdgesChunk (env : Env) (chunk : List EdgeUpsertData) (db : Db) :
    (upsertEdgesChunk env chunk).ReturnsAt db (chunkIn chunk db.edges, chunkOut chunk) :=
  ReturnsAt.query_bind <| ReturnsAt.bind fun _ _ _ => ReturnsAt.bind fun _ _ _ =>
    returnsAt_pure _ _

theorem edges_replay_edgeStmts (rows : List EdgeUpsertData) (v : CoreView) :
    (replay (edgeStmts rows) v).edges = upsertedEdges rows v.edges := by
  induction rows generalizing v with
  | nil => rfl
  | cons row rows ih => exact ih _

/-- Statements on `addresses` and on the totals leave the edges. -/
theorem edges_replay_of_noEdge {stmts : List Core} (h : ∀ i ∈ stmts, ∀ s, i ≠ .edge s)
    (v : CoreView) : (replay stmts v).edges = v.edges := by
  refine replay_frame (f := CoreView.edges) (fun i hi s => ?_) v
  cases i with
  | edge e => exact absurd rfl (h _ hi e)
  | _ => rfl

theorem mem_deltaStmts {old : EdgeKey → Option Int} {chunk : List EdgeUpsertData} {i : Core}
    (h : i ∈ deltaStmts old chunk) :
    (∃ a d, i = .address (.addTotalReceivedSats a d)) ∨ ∃ a d, i = .address (.addInboundSats a d) := by
  unfold deltaStmts at h
  rcases List.mem_append.mp h with h | h
  · obtain ⟨e, _, he⟩ := List.mem_flatMap.mp h
    exact Or.inl ⟨_, _, eq_of_mem_receivedStmts he⟩
  · obtain ⟨e, _, he⟩ := List.mem_flatMap.mp h
    exact Or.inr ⟨_, _, eq_of_mem_inboundStmts he⟩

theorem edges_replay_chunkStmts (chunk : List EdgeUpsertData) (t : Table.Rows EdgeKey EdgeRow)
    (v : CoreView) : (replay (chunkStmts chunk t) v).edges = upsertedEdges chunk v.edges := by
  unfold chunkStmts
  rw [replay_append, edges_replay_of_noEdge, edges_replay_edgeStmts]
  intro i hi s his
  rcases mem_deltaStmts hi with ⟨a, d, rfl⟩ | ⟨a, d, rfl⟩ <;> cases his

/-- The statements of consecutive sub-batches. -/
def chunksStmts : List (List EdgeUpsertData) → Table.Rows EdgeKey EdgeRow → List Core
  | [], _ => []
  | chunk :: rest, t => chunkStmts chunk t ++ chunksStmts rest (upsertedEdges chunk t)

def chunksIn : List (List EdgeUpsertData) → Table.Rows EdgeKey EdgeRow → Int
  | [], _ => 0
  | chunk :: rest, t => chunkIn chunk t + chunksIn rest (upsertedEdges chunk t)

def totalsStmts (totalIn totalOut : Int) : List Core :=
  if totalIn = 0 ∧ totalOut = 0 then [] else [.totals totalIn totalOut]

/-- The statements of a batch. -/
def batchStmts (env : Env) (rows : List EdgeUpsertData) (t : Table.Rows EdgeKey EdgeRow) :
    List Core :=
  let chunks := chunkArray env.store.d1BatchSize rows
  chunksStmts chunks t ++ totalsStmts (chunksIn chunks t) (chunkOut rows)

theorem edges_final_upsertEdgesChunk {env : Env} {chunk : List EdgeUpsertData} {db : Db}
    {c : Ctl Mem Err} {a : Int × Int} (h : (upsertEdgesChunk env chunk db c).res = .ok a) :
    ((upsertEdgesChunk env chunk).final db c).edges = upsertedEdges chunk db.edges := by
  have hCore := core_final (writesAt_upsertEdgesChunk env chunk db) h
  have hEdges := congrArg CoreView.edges hCore
  rwa [edges_replay_chunkStmts] at hEdges

theorem writesAt_upsertEdgesChunks (env : Env) (chunks : List (List EdgeUpsertData))
    (a b : Int) (db : Db) :
    (upsertEdgesChunks env chunks a b).WritesAt Stmt.core? db (chunksStmts chunks db.edges) := by
  induction chunks generalizing a b db with
  | nil => exact writes_of_quiet (emits_pure _) db
  | cons chunk rest ih =>
    refine (writesAt_upsertEdgesChunk env chunk db).bind fun c r hr => ?_
    rw [← edges_final_upsertEdgesChunk hr]
    exact ih _ _ _

theorem returnsAt_upsertEdgesChunks (env : Env) (chunks : List (List EdgeUpsertData))
    (a b : Int) (db : Db) :
    (upsertEdgesChunks env chunks a b).ReturnsAt db
      (a + chunksIn chunks db.edges, b + chunkOut chunks.flatten) := by
  induction chunks generalizing a b db with
  | nil =>
    simp only [chunksIn, List.flatten_nil, chunkOut, outRows, List.filter_nil, List.map_nil,
      List.sum_nil, add_zero]
    exact returnsAt_pure _ _
  | cons chunk rest ih =>
    refine ReturnsAt.bind fun c r hr => ?_
    have hRes := returnsAt_upsertEdgesChunk env chunk db c r hr
    have hIh := ih (a + r.1) (b + r.2) ((upsertEdgesChunk env chunk).final db c)
    rw [edges_final_upsertEdgesChunk hr] at hIh
    have hOut : chunkOut (chunk :: rest).flatten = chunkOut chunk + chunkOut rest.flatten := by
      simp [chunkOut, outRows]
    rw [hOut, chunksIn, ← add_assoc, ← add_assoc]
    rw [hRes] at hIh ⊢
    exact hIh

theorem writes_adjustEdgeTotalsCounters (a b : Int) :
    (adjustEdgeTotalsCounters a b).Writes Stmt.core? (totalsStmts a b) := by
  unfold adjustEdgeTotalsCounters when totalsStmts
  by_cases h : a = 0 ∧ b = 0
  · rw [if_pos h, if_neg (by tauto)]
    exact writes_of_quiet (emits_pure ())
  · rw [if_neg h, if_pos (by tauto)]
    exact writes_run _

theorem writesAt_upsertEdgesBatch (env : Env) (rows : List EdgeUpsertData) (db : Db) :
    (upsertEdgesBatch env rows).WritesAt Stmt.core? db (batchStmts env rows db.edges) := by
  unfold upsertEdgesBatch when
  split
  · refine (writesAt_upsertEdgesChunks env _ 0 0 db).bind fun c r hr => ?_
    have hRes := returnsAt_upsertEdgesChunks env (chunkArray env.store.d1BatchSize rows) 0 0 db c r hr
    rw [zero_add, zero_add, flatten_chunkArray] at hRes
    rw [hRes]
    exact writes_adjustEdgeTotalsCounters _ _ _
  · next h =>
    rw [not_not.mp h]
    exact writes_of_quiet (emits_pure ()) db

theorem edges_replay_batchStmts (env : Env) (rows : List EdgeUpsertData) (v : CoreView) :
    (replay (batchStmts env rows v.edges) v).edges = upsertedEdges rows v.edges := by
  have hChunks : ∀ (chunks : List (List EdgeUpsertData)) (v : CoreView) (t),
      (replay (chunksStmts chunks t) v).edges = upsertedEdges chunks.flatten v.edges := by
    intro chunks
    induction chunks with
    | nil => intro v t; rfl
    | cons chunk rest ih =>
      intro v t
      rw [chunksStmts, replay_append, ih, edges_replay_chunkStmts, List.flatten_cons]
      unfold upsertedEdges
      rw [List.foldl_append]
  unfold batchStmts
  rw [replay_append, edges_replay_of_noEdge, hChunks, flatten_chunkArray]
  intro i hi s his
  unfold totalsStmts at hi
  split at hi
  · cases hi
  · rw [List.mem_singleton.mp hi] at his
    cases his

end Writes

end Bloodhound.Store
