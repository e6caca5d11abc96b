import Bloodhound.Store.BatchView
import Bloodhound.Store.Written

/-!
# Retrying an edge batch

A call of `upsertEdgesBatch` that throws leaves the statements it had executed, and is
called again with the same rows. The retry compares itself with the rows that the first
call has written, so it makes no difference for them.

* A payment to a hacker that was written and not stored before in the same amount is lost
  to the total of the scheduler row, which is adjusted at the very end of a call.
* An output that was written is lost to the inbound total of its target unless the first
  call came to add it.
* Everything else is repaired (`retry_repairs_iff`).
-/

namespace Bloodhound.Store

open Journal Journal.Op

/-! ## Edges and peaks of a view -/

/-- A payment from a source to a hacker, as `raisePeak` takes it. -/
abbrev Peak : Type := (Address × Address) × Int

namespace BatchView

def withEdges (rows : List EdgeUpsertData) (z : BatchView) : BatchView :=
  { z with
    edges := fun k => rows.foldl (fun o row =>
      if k = row.key then some (o.elim row.inserted row.updated) else o) (z.edges k) }

/-- One payment raises the peak of its pair. -/
def raisePeak (k : Address × Address) (o : Option Int) (p : Peak) : Option Int :=
  if k = p.1 then some (o.elim p.2 (max · p.2)) else o

def raised (ps : List Peak) (z : BatchView) : BatchView :=
  { z with peaks := fun k => ps.foldl (raisePeak k) (z.peaks k) }

theorem raised_nil (z : BatchView) : z.raised [] = z := rfl

theorem raised_raised (ps qs : List Peak) (z : BatchView) :
    (z.raised ps).raised qs = z.raised (ps ++ qs) := by
  unfold raised
  simp only [List.foldl_append]

theorem withEdges_append (rows rows' : List EdgeUpsertData) (z : BatchView) :
    z.withEdges (rows ++ rows') = (z.withEdges rows).withEdges rows' := by
  unfold withEdges
  simp only [List.foldl_append]

theorem withEdges_raised (rows : List EdgeUpsertData) (ps : List Peak) (z : BatchView) :
    (z.raised ps).withEdges rows = (z.withEdges rows).raised ps := rfl

theorem raisePeak_self (k : Address × Address) (o : Option Int) (p : Peak) :
    raisePeak k (raisePeak k o p) p = raisePeak k o p := by
  unfold raisePeak
  by_cases h : k = p.1
  · cases o <;> simp [h]
  · simp [h]

theorem raisePeak_comm (k : Address × Address) (o : Option Int) (p q : Peak) :
    raisePeak k (raisePeak k o p) q = raisePeak k (raisePeak k o q) p := by
  unfold raisePeak
  by_cases hp : k = p.1
  · by_cases hq : k = q.1
    · cases o with
      | none => simp [hp, ← hq, max_comm]
      | some v => simp [hp, ← hq, max_right_comm]
    · simp [hp, hp ▸ hq]
  · simp [hp]

theorem foldl_raisePeak_of_mem (k : Address × Address) {ps : List Peak} {p : Peak} (h : p ∈ ps)
    (o : Option Int) : ps.foldl (raisePeak k) (raisePeak k o p) = ps.foldl (raisePeak k) o := by
  induction ps generalizing o with
  | nil => cases h
  | cons q ps ih =>
    rw [List.foldl_cons, List.foldl_cons]
    by_cases hpq : p = q
    · rw [hpq, raisePeak_self]
    · have hMem : p ∈ ps := by
        rcases List.mem_cons.mp h with h | h
        · exact absurd h hpq
        · exact h
      rw [raisePeak_comm, ih hMem]

/-- Payments that are raised again later need not be raised before. -/
theorem raised_absorb {ps qs : List Peak} (h : ∀ q ∈ qs, q ∈ ps) (z : BatchView) :
    (z.raised qs).raised ps = z.raised ps := by
  have hFold : ∀ (k : Address × Address) (qs : List Peak), (∀ q ∈ qs, q ∈ ps) → ∀ o,
      ps.foldl (raisePeak k) (qs.foldl (raisePeak k) o) = ps.foldl (raisePeak k) o := by
    intro k qs
    induction qs with
    | nil => exact fun _ _ => rfl
    | cons q qs ih =>
      intro hq o
      rw [List.foldl_cons, ih fun x hx => hq x (List.mem_cons_of_mem _ hx),
        foldl_raisePeak_of_mem k (hq q List.mem_cons_self)]
  unfold raised
  simp only [hFold _ qs h]

end BatchView

theorem foldl_upsertedEdges (rows : List EdgeUpsertData) (t : Table.Rows EdgeKey EdgeRow)
    (k : EdgeKey) : (upsertedEdges rows t).lookup k = rows.foldl (fun o row =>
      if k = row.key then some (o.elim row.inserted row.updated) else o) (t.lookup k) := by
  induction rows generalizing t with
  | nil => rfl
  | cons row rows ih => rw [upsertedEdges_cons, ih, List.foldl_cons, lookup_upsertEdge]

/-! ## Logs that write rows and raise peaks -/

def Stmt.raise? : Stmt → Option Peak
  | .peak (.raise hacker source v) => some ((hacker, source), v)
  | _ => none

/-- A statement that is not observed, writes a row or raises a peak. -/
def Stmt.Plain (i : Stmt) : Prop :=
  i.inBatchView = false ∨ i.edgeRow?.isSome ∨ i.raise?.isSome

theorem batchView_exec_of_plain {i : Stmt} (h : i.Plain) (db : Db) :
    (exec i db).batchView = (db.batchView.withEdges i.edgeRow?.toList).raised i.raise?.toList := by
  rcases h with h | h | h
  · rw [observes_batchView.hidden i db h]
    cases i with
    | edge => cases h
    | peak => cases h
    | _ => rfl
  · cases i with
    | edge s =>
      cases s with
      | upsert row =>
        refine BatchView.ext (funext fun k => ?_) rfl rfl rfl rfl rfl rfl
        exact lookup_upsertEdge row db.edges k
      | _ => cases h
    | _ => cases h
  · cases i with
    | peak s =>
      cases s with
      | raise hacker source v =>
        refine BatchView.ext rfl rfl (funext fun k => ?_) rfl rfl rfl rfl
        show (db.peaks.insert _ _).lookup k = BatchView.raisePeak k (db.peaks.lookup k) _
        unfold BatchView.raisePeak
        rw [Table.lookup_insert_if]
        split
        · next hk => rw [hk]
        · rfl
      | _ => cases h
    | _ => cases h

theorem batchView_replay_of_plain {log : List Stmt} (h : ∀ i ∈ log, i.Plain) (db : Db) :
    (replay log db).batchView =
      (db.batchView.withEdges (writtenRows log)).raised (log.filterMap Stmt.raise?) := by
  induction log generalizing db with
  | nil => rfl
  | cons i log ih =>
    have hRows : writtenRows (i :: log) = i.edgeRow?.toList ++ writtenRows log := by
      unfold writtenRows
      rw [List.filterMap_cons]
      cases i.edgeRow? <;> rfl
    have hPeaks : (i :: log).filterMap Stmt.raise? = i.raise?.toList ++ log.filterMap Stmt.raise? := by
      rw [List.filterMap_cons]
      cases i.raise? <;> rfl
    rw [replay_cons, ih fun j hj => h j (List.mem_cons_of_mem _ hj),
      batchView_exec_of_plain (h i List.mem_cons_self), hRows, hPeaks, BatchView.withEdges_append,
      ← BatchView.raised_raised, BatchView.withEdges_raised]

/-! ## One sub-batch -/

section Chunk

variable {env : Env} {chunk : List EdgeUpsertData} {old : EdgeKey → Option Int}

/-- Every payment to a hacker is stored in the same amount. -/
def Kept (old : EdgeKey → Option Int) (rows : List EdgeUpsertData) : Prop :=
  ∀ row ∈ inRows rows, old row.key = some row.amountSats

/-- The peaks that the payments of a sub-batch raise. -/
def raises (chunk : List EdgeUpsertData) : List Peak :=
  ((inRows chunk).filter (0 < ·.amountSats)).map fun row =>
    ((row.toAddress, row.fromAddress), row.amountSats)

/-- The part of a sub-batch that can fail, after its read. -/
def chunkHead (env : Env) (old : EdgeKey → Option Int) (chunk : List EdgeUpsertData) :
    StoreM Unit := do
  executeSqlBatch env (chunk.map fun data => .edge (.upsert data))
  forEach (deltaByTarget old (inRows chunk)) fun e => applyTotalReceivedDelta e.1 e.2
  forEach (deltaByTarget old (outRows chunk)) fun e => applyInboundSatsDelta e.1 e.2
  countNewVictims ((inRows chunk).filter fun row => (old row.key).isNone)

def chunkTail (old : EdgeKey → Option Int) (chunk : List EdgeUpsertData) : StoreM (Int × Int) := do
  applyPeakDeltas old chunk
  pure (((inRows chunk).map (·.delta old)).sum, ((outRows chunk).map (·.amountSats)).sum)

theorem upsertEdgesChunk_eq (env : Env) (chunk : List EdgeUpsertData) :
    upsertEdgesChunk env chunk = getExistingEdges chunk >>= fun old =>
      chunkHead env old chunk >>= fun _ => chunkTail old chunk := by
  unfold upsertEdgesChunk applyEdgeDeltas chunkHead chunkTail
  simp only [Op.bind_assoc]

theorem succeeds_chunkTail : (chunkTail old chunk).Succeeds :=
  (succeeds_forEach fun _ => succeeds_tryCatch _ fun _ => succeeds_pure ()).bind fun _ =>
    succeeds_pure _

theorem delta_of_kept (h : Kept old chunk) : ∀ row ∈ inRows chunk, row.delta old = 0 := by
  intro row hr
  unfold EdgeUpsertData.delta
  rw [h row hr, Option.getD_some, sub_self]

theorem newVictims_of_kept (h : Kept old chunk) :
    (inRows chunk).filter (fun row => (old row.key).isNone) = [] := by
  refine List.filter_eq_nil_iff.mpr fun row hr => ?_
  rw [h row hr]
  simp

theorem chunkHead_of_kept (h : Kept old chunk) : chunkHead env old chunk = (do
    executeSqlBatch env (chunk.map fun data => .edge (.upsert data))
    forEach (deltaByTarget old (outRows chunk)) fun e => applyInboundSatsDelta e.1 e.2) := by
  unfold chunkHead
  rw [deltaByTarget_of_zero (delta_of_kept h), newVictims_of_kept h]
  exact congrArg _ (funext fun _ => Op.bind_pure _)

/-- A statement of the first part where the payments are kept: it writes a row of the sub-batch,
or is not observed. -/
def HeadStmt (chunk : List EdgeUpsertData) (i : Stmt) : Prop :=
  i.inBatchView = false ∨ ∃ row ∈ chunk, i = .edge (.upsert row)

theorem emits_writeRows : (executeSqlBatch env (chunk.map fun data =>
    Stmt.edge (.upsert data))).Emits (HeadStmt chunk) := by
  have hRows : ∀ i ∈ chunk.map (fun data => Stmt.edge (.upsert data)), HeadStmt chunk i := by
    intro i hi
    obtain ⟨row, hr, rfl⟩ := List.mem_map.mp hi
    exact Or.inr ⟨row, hr, rfl⟩
  unfold executeSqlBatch
  split
  · exact emits_pure ()
  · split
    · exact emits_step _ hRows
    · exact emits_forEach fun i hi => emits_run (hRows i hi)

theorem emits_chunkHead (env : Env) (h : Kept old chunk) : (chunkHead env old chunk).Emits (HeadStmt chunk) := by
  rw [chunkHead_of_kept h]
  exact emits_writeRows.bind fun _ => emits_forEach fun e _ =>
    (hidden_applyInboundSatsDelta _ _).mono fun _ hi => Or.inl hi

theorem completes_executeSqlBatch (env : Env) (stmts : List Stmt) :
    (executeSqlBatch env stmts).Completes := by
  unfold executeSqlBatch
  split
  · exact completes_pure ()
  · split
    · exact completes_step _ _
    · exact completes_forEach fun i _ => completes_run i

theorem completes_chunkHead (env : Env) (h : Kept old chunk) : (chunkHead env old chunk).Completes := by
  rw [chunkHead_of_kept h]
  exact (completes_executeSqlBatch _ _).bind fun _ => completes_forEach fun e _ =>
    completes_applyInboundSatsDelta _ _

theorem edgeRow?_eq_none_of_hidden {i : Stmt} (h : i.inBatchView = false) : i.edgeRow? = none := by
  cases i with
  | edge => cases h
  | _ => rfl

theorem raise?_eq_none_of_hidden {i : Stmt} (h : i.inBatchView = false) : i.raise? = none := by
  cases i with
  | peak => cases h
  | _ => rfl

theorem HeadStmt.plain {i : Stmt} (h : HeadStmt chunk i) : i.Plain ∧ i.raise? = none := by
  rcases h with h | ⟨row, _, rfl⟩
  · exact ⟨Or.inl h, raise?_eq_none_of_hidden h⟩
  · exact ⟨Or.inr (Or.inl rfl), rfl⟩

/-- The first part writes the rows of the sub-batch in order. -/
theorem writes_chunkHead (env : Env) (h : Kept old chunk) :
    (chunkHead env old chunk).Writes Stmt.edgeRow? chunk := by
  rw [chunkHead_of_kept h]
  refine Writes.bind_left ?_ fun _ => writes_nil_of_emits <| emits_forEach fun e _ =>
    (hidden_applyInboundSatsDelta _ _).mono fun _ hi => edgeRow?_eq_none_of_hidden hi
  have hBatch := writes_executeSqlBatch (π := Stmt.edgeRow?) env
    (chunk.map fun data => .edge (.upsert data))
  rwa [List.filterMap_map, show (Stmt.edgeRow? ∘ fun data => Stmt.edge (.upsert data)) = some from rfl,
    List.filterMap_some] at hBatch

/-- With kept payments, a raise for each payment is all that the second part can execute. -/
theorem emits_chunkTail (h : Kept old chunk) : (chunkTail old chunk).Emits fun i =>
    i.edgeRow? = none ∧ ∃ p ∈ raises chunk, i = .peak (.raise p.1.1 p.1.2 p.2) := by
  refine Emits.bind (emits_forEach fun row hr => ?_) fun _ => emits_pure _
  refine Emits.tryCatch (emits_when fun hPos => ?_) fun _ => emits_pure ()
  rw [h row hr, Option.getD_some, if_pos le_rfl] at *
  refine emits_run ⟨rfl, ((row.toAddress, row.fromAddress), row.amountSats), ?_, rfl⟩
  exact List.mem_map.mpr ⟨row, List.mem_filter.mpr ⟨hr, decide_eq_true (by omega)⟩, rfl⟩

/-- Without faults the second part raises every peak. -/
theorem runs_chunkTail (h : Kept old chunk) (db : Db) (m : Mem) :
    (chunkTail old chunk).Runs db m (0, chunkOut chunk)
      ((raises chunk).map fun p => Stmt.peak (.raise p.1.1 p.1.2 p.2)) m := by
  have hPeaks : ∀ rows : List EdgeUpsertData, (∀ row ∈ rows, old row.key = some row.amountSats) →
      ∀ db : Db, (forEach rows fun row =>
        (applyHackerVictimPeakDelta row.toAddress row.fromAddress row.amountSats
          ((old row.key).getD 0)).tryCatch fun _ => pure ()).Runs db m ()
        (((rows.filter (0 < ·.amountSats)).map fun row : EdgeUpsertData =>
          Stmt.peak (.raise row.toAddress row.fromAddress row.amountSats))) m := by
    intro rows
    induction rows with
    | nil => exact fun _ db => runs_pure () db m
    | cons row rows ih =>
      intro hRows db
      have hRow := hRows row List.mem_cons_self
      have hRest := ih fun r hr => hRows r (List.mem_cons_of_mem _ hr)
      have hHead : ((applyHackerVictimPeakDelta row.toAddress row.fromAddress row.amountSats
          ((old row.key).getD 0)).tryCatch fun _ => pure ()).Runs db m ()
          (if 0 < row.amountSats then
            [Stmt.peak (.raise row.toAddress row.fromAddress row.amountSats)] else []) m := by
        refine Runs.tryCatch ?_
        unfold applyHackerVictimPeakDelta
        rw [hRow, Option.getD_some, if_pos le_rfl]
        split
        · next hPos => exact Runs.when (Or.inl hPos) (runs_run _ db m)
        · next hPos => exact runs_when_not (by omega) db m
      have hBoth := Runs.bind (f := fun _ => forEach rows fun row =>
        (applyHackerVictimPeakDelta row.toAddress row.fromAddress row.amountSats
          ((old row.key).getD 0)).tryCatch fun _ => pure ()) hHead (hRest _)
      rw [List.filter_cons]
      by_cases hPos : 0 < row.amountSats
      · rw [if_pos hPos] at hBoth
        rw [if_pos (decide_eq_true hPos), List.map_cons]
        exact hBoth
      · rw [if_neg hPos] at hBoth
        rw [if_neg (by simpa using hPos)]
        exact hBoth
  have hSum : ((inRows chunk).map (·.delta old)).sum = 0 :=
    List.sum_eq_zero fun d hd => by
      obtain ⟨row, hr, rfl⟩ := List.mem_map.mp hd
      exact delta_of_kept h row hr
  have hRun := Runs.bind (f := fun _ => pure (((inRows chunk).map (·.delta old)).sum, chunkOut chunk))
    (hPeaks (inRows chunk) h db) (runs_pure _ _ m)
  rw [hSum, List.append_nil] at hRun
  unfold raises
  rw [List.map_map]
  unfold chunkTail applyPeakDeltas
  rw [hSum]
  exact hRun

/-- The rows written by the read-free part of a sub-batch with kept payments. -/
theorem writes_chunkBody (env : Env) (h : Kept old chunk) :
    (chunkHead env old chunk >>= fun _ => chunkTail old chunk).Writes Stmt.edgeRow? chunk :=
  (writes_chunkHead env h).bind_left fun _ =>
    writes_nil_of_emits ((emits_chunkTail h).mono fun _ hi => hi.1)

theorem plain_chunkBody (env : Env) (h : Kept old chunk) :
    (chunkHead env old chunk >>= fun _ => chunkTail old chunk).Emits fun i =>
      i.Plain ∧ ∀ p, i.raise? = some p → p ∈ raises chunk := by
  refine ((emits_chunkHead env h).mono fun i hi => ?_).bind fun _ =>
    (emits_chunkTail h).mono fun i hi => ?_
  · refine ⟨hi.plain.1, fun p hp => ?_⟩
    rw [hi.plain.2] at hp
    cases hp
  · obtain ⟨_, p, hp, rfl⟩ := hi
    refine ⟨Or.inr (Or.inr rfl), fun q hq => ?_⟩
    cases hq
    exact hp

/-- A successful sub-batch with kept payments writes its rows and raises some of its peaks. -/
theorem batchView_chunk_ok {db : Db} {c : Ctl Mem Err} {a : Int × Int}
    (hKept : Kept (storedAmounts chunk db.edges) chunk)
    (hOk : (upsertEdgesChunk env chunk db c).res = .ok a) :
    writtenRows (upsertEdgesChunk env chunk db c).log = chunk ∧
      ∃ ps, (∀ p ∈ ps, p ∈ raises chunk) ∧ ((upsertEdgesChunk env chunk).final db c).batchView =
        (db.batchView.withEdges chunk).raised ps := by
  unfold Op.final
  rw [upsertEdgesChunk_eq] at hOk ⊢
  unfold getExistingEdges at hOk ⊢
  rcases query_bind_cases (fun db : Db => storedAmounts chunk db.edges)
    (fun old => chunkHead env old chunk >>= fun _ => chunkTail old chunk) db c with
    ⟨e, c', hRun⟩ | ⟨c', hRun⟩
  · rw [hRun] at hOk
    cases hOk
  · rw [hRun] at hOk ⊢
    have hRows := (writes_chunkBody env hKept db c').2 a hOk
    have hPlain := plain_chunkBody env hKept db c'
    have hView := batchView_replay_of_plain (fun i hi => (hPlain i hi).1) db
    rw [show writtenRows _ = chunk from hRows] at hView
    refine ⟨hRows, _, fun p hp => ?_, hView⟩
    obtain ⟨i, hi, hip⟩ := List.mem_filterMap.mp hp
    exact (hPlain i hi).2 p hip

/-- A failing sub-batch writes rows, and nothing else that is observed, where the payments among
them were kept. -/
theorem batchView_chunk_error {db : Db} {c : Ctl Mem Err} {e : Err}
    (hErr : (upsertEdgesChunk env chunk db c).res = .error e)
    (hKept : ∀ row ∈ inRows (writtenRows (upsertEdgesChunk env chunk db c).log),
      storedAmounts chunk db.edges row.key = some row.amountSats) :
    ((upsertEdgesChunk env chunk).final db c).batchView =
      db.batchView.withEdges (writtenRows (upsertEdgesChunk env chunk db c).log) := by
  have hHeadStmts : ∀ log : List Stmt, (∀ i ∈ log, HeadStmt chunk i) →
      (replay log db).batchView = db.batchView.withEdges (writtenRows log) := by
    intro log hLog
    have hNone : log.filterMap Stmt.raise? = [] :=
      List.filterMap_eq_nil_iff.mpr fun i hi => (hLog i hi).plain.2
    rw [batchView_replay_of_plain fun i hi => (hLog i hi).plain.1, hNone, BatchView.raised_nil]
  unfold Op.final
  rw [upsertEdgesChunk_eq] at hErr hKept ⊢
  unfold getExistingEdges at hErr hKept ⊢
  rcases query_bind_cases (fun db : Db => storedAmounts chunk db.edges)
    (fun old => chunkHead env old chunk >>= fun _ => chunkTail old chunk) db c with
    ⟨e', c', hRun⟩ | ⟨c', hRun⟩
  · rw [hRun]
    rfl
  · rw [hRun] at hErr hKept ⊢
    obtain ⟨hHead, hLog⟩ := error_of_bind (fun _ => succeeds_chunkTail) hErr
    rw [hLog] at hKept ⊢
    have hBatch := writes_executeSqlBatch (π := Stmt.edgeRow?) env
      (chunk.map fun data => .edge (.upsert data)) db c'
    rw [List.filterMap_map, show (Stmt.edgeRow? ∘ fun data => Stmt.edge (.upsert data)) = some
      from rfl, List.filterMap_some] at hBatch
    cases hRes : (executeSqlBatch env (chunk.map fun data =>
        Stmt.edge (.upsert data)) db c').res with
    | error e' =>
      have hSame : (chunkHead env (storedAmounts chunk db.edges) chunk db c').log =
          (executeSqlBatch env (chunk.map fun data => Stmt.edge (.upsert data)) db c').log := by
        unfold chunkHead
        rw [bind_of_error hRes]
      rw [hSame]
      exact hHeadStmts _ (emits_writeRows db c')
    | ok u =>
      -- all rows are written, so every payment of the sub-batch is among them
      have hAll : ∀ row ∈ chunk, row ∈
          writtenRows (chunkHead env (storedAmounts chunk db.edges) chunk db c').log := by
        intro row hr
        unfold chunkHead writtenRows
        rw [bind_of_ok hRes, List.filterMap_append, hBatch.2 u hRes]
        exact List.mem_append_left _ hr
      have hKeptAll : Kept (storedAmounts chunk db.edges) chunk := by
        intro row hr
        obtain ⟨hrc, hd⟩ := mem_inRows.mp hr
        exact hKept row (mem_inRows.mpr ⟨hAll row hrc, hd⟩)
      exact hHeadStmts _ (emits_chunkHead env hKeptAll db c')

/-- Without faults a sub-batch with kept payments writes its rows and raises all its peaks. -/
theorem runs_upsertEdgesChunk {db : Db} (hKept : Kept (storedAmounts chunk db.edges) chunk)
    (m : Mem) : ∃ log m', (upsertEdgesChunk env chunk).Runs db m (0, chunkOut chunk) log m' ∧
      (replay log db).batchView = (db.batchView.withEdges chunk).raised (raises chunk) := by
  obtain ⟨_, log, m', hHead⟩ := completes_chunkHead env hKept db m
  have hTail := runs_chunkTail hKept (replay log db) m'
  have hHeadStmts := emits_chunkHead env hKept db ⟨m, []⟩
  rw [hHead] at hHeadStmts
  have hRows : writtenRows log = chunk := hHead.filterMap_eq (writes_chunkHead env hKept db)
  have hNone : log.filterMap Stmt.raise? = [] :=
    List.filterMap_eq_nil_iff.mpr fun i hi => (hHeadStmts i hi).plain.2
  have hRaises : ∀ (ps : List Peak) (db : Db),
      (replay (ps.map fun p => Stmt.peak (.raise p.1.1 p.1.2 p.2)) db).batchView =
        db.batchView.raised ps := by
    intro ps db
    rw [batchView_replay_of_plain fun i hi => ?_]
    · unfold writtenRows
      rw [List.filterMap_map, List.filterMap_map, show (Stmt.raise? ∘ fun p : Peak =>
        Stmt.peak (.raise p.1.1 p.1.2 p.2)) = some from rfl, List.filterMap_some,
        show (Stmt.edgeRow? ∘ fun p : Peak => Stmt.peak (.raise p.1.1 p.1.2 p.2)) = fun _ => none
        from rfl, List.filterMap_none]
      rfl
    · obtain ⟨p, _, rfl⟩ := List.mem_map.mp hi
      exact Or.inr (Or.inr rfl)
  refine ⟨log ++ (raises chunk).map fun p => Stmt.peak (.raise p.1.1 p.1.2 p.2), m', ?_, ?_⟩
  · have hQuery : (getExistingEdges chunk).Runs db m (storedAmounts chunk db.edges) [] m :=
      runs_query _ db m
    have hBody := Runs.bind (f := fun _ => chunkTail (storedAmounts chunk db.edges) chunk) hHead hTail
    have hRun := Runs.bind (f := fun old => chunkHead env old chunk >>= fun _ => chunkTail old chunk)
      hQuery hBody
    rw [upsertEdgesChunk_eq]
    exact hRun
  · rw [replay_append, hRaises, batchView_replay_of_plain fun i hi => (hHeadStmts i hi).plain.1, hRows,
      hNone, BatchView.raised_nil]

end Chunk

/-! ## The whole batch -/

section Batch

variable {env : Env}

/-- The sub-batches of a call and the totals at its end. -/
def batchFrom (env : Env) (chunks : List (List EdgeUpsertData)) (a b : Int) : StoreM Unit :=
  upsertEdgesChunks env chunks a b >>= fun totals => adjustEdgeTotalsCounters totals.1 totals.2

theorem batchFrom_cons (env : Env) (chunk : List EdgeUpsertData)
    (rest : List (List EdgeUpsertData)) (a b : Int) :
    batchFrom env (chunk :: rest) a b =
      upsertEdgesChunk env chunk >>= fun d => batchFrom env rest (a + d.1) (b + d.2) := by
  unfold batchFrom
  rw [upsertEdgesChunks, Op.bind_assoc]

theorem alike_upsertEdgesChunk (env : Env) (chunk : List EdgeUpsertData) :
    BatchAlike (upsertEdgesChunk env chunk) (upsertEdgesChunk env chunk) := by
  refine (alike_query fun db db' h => ?_).bind observes_batchView fun old =>
    (alike_executeSqlBatch _ _).bind observes_batchView fun _ =>
    (alike_applyEdgeDeltas fun _ _ => rfl).bind observes_batchView fun _ => alike_pure _
  exact storedAmounts_congr (fun k => edges_of_batchView h k) chunk

theorem alike_batchFrom (env : Env) (chunks : List (List EdgeUpsertData)) (a b : Int) :
    BatchAlike (batchFrom env chunks a b) (batchFrom env chunks a b) := by
  induction chunks generalizing a b with
  | nil => exact alike_adjustEdgeTotalsCounters a b
  | cons chunk rest ih =>
    rw [batchFrom_cons]
    exact (alike_upsertEdgesChunk env chunk).bind observes_batchView fun d => ih _ _

/-- What follows the read of a sub-batch. -/
def chunkThen (env : Env) (chunk : List EdgeUpsertData) (rest : List (List EdgeUpsertData))
    (a b : Int) (old : EdgeKey → Option Int) : StoreM Unit := do
  applyEdgeDeltas old chunk
  batchFrom env rest (a + ((inRows chunk).map (·.delta old)).sum) (b + chunkOut chunk)

theorem batchFrom_cons_eq (env : Env) (chunk : List EdgeUpsertData)
    (rest : List (List EdgeUpsertData)) (a b : Int) : batchFrom env (chunk :: rest) a b =
      getExistingEdges chunk >>= fun old =>
        executeSqlBatch env (chunk.map fun data => .edge (.upsert data)) >>= fun _ =>
          chunkThen env chunk rest a b old := by
  rw [batchFrom_cons]
  unfold upsertEdgesChunk chunkThen
  simp only [Op.bind_assoc, Op.pure_bind]
  rfl

/-- Old amounts that agree on the payments to hackers lead to the same. -/
theorem alike_chunkThen {old old' : EdgeKey → Option Int} {chunk : List EdgeUpsertData}
    (h : ∀ row ∈ inRows chunk, old row.key = old' row.key) (rest : List (List EdgeUpsertData))
    (a b : Int) :
    BatchAlike (chunkThen env chunk rest a b old) (chunkThen env chunk rest a b old') := by
  unfold chunkThen
  rw [List.map_congr_left fun row hr => delta_congr (h row hr)]
  exact (alike_applyEdgeDeltas h).bind observes_batchView fun _ => alike_batchFrom _ _ _ _

/-- The view after a run without faults that starts with a known run. -/
theorem final_bind {α β : Type} {p : StoreM α} {f : α → StoreM β} {db : Db} {m m' : Mem} {a : α}
    {log : List Stmt} (h : p.Runs db m a log m') :
    (p >>= f).final db ⟨m, []⟩ = (f a).final (replay log db) ⟨m', []⟩ := by
  unfold Runs at h
  unfold Op.final
  have hRes : (p db ⟨m, []⟩).res = .ok a := by rw [h]
  rw [bind_of_ok hRes, h, replay_append]

/-- The written rows of a batch were payments stored in the same amount or outputs, and their keys
occur once. -/
structure WrittenOnce (rows w : List EdgeUpsertData) (t : Table.Rows EdgeKey EdgeRow) : Prop where
  once : OnceIn rows w
  payments : ∀ row ∈ inRows w, ∃ stored, t.lookup row.key = some stored ∧
    stored.amountSats = row.amountSats ∧ stored.direction = .inToHacker

theorem writesAt_batchFrom (env : Env) (chunks : List (List EdgeUpsertData)) (a b : Int) (db : Db) :
    (batchFrom env chunks a b).WritesAt Stmt.core? db (chunksStmts chunks db.edges ++
      totalsStmts (a + chunksIn chunks db.edges) (b + chunkOut chunks.flatten)) := by
  refine (writesAt_upsertEdgesChunks env chunks a b db).bind fun c r hr => ?_
  rw [returnsAt_upsertEdgesChunks env chunks a b db c r hr]
  exact writes_adjustEdgeTotalsCounters _ _ _

theorem tracing_batchFrom {chunks : List (List EdgeUpsertData)} {t : Table.Rows EdgeKey EdgeRow}
    {a b : Int} : ∀ i ∈ chunksStmts chunks t ++ totalsStmts a b, i.Tracing := by
  intro i hi
  rcases List.mem_append.mp hi with hi | hi
  · exact tracing_chunksStmts i hi
  · unfold totalsStmts at hi
    split at hi
    · cases hi
    · rw [List.mem_singleton.mp hi]
      exact .totals _ _

/-- The rows that a call has written are a prefix of the batch, and its edges are those rows
upserted. -/
theorem written_batchFrom (env : Env) (chunks : List (List EdgeUpsertData)) (a b : Int) (db : Db)
    (c : Ctl Mem Err) : writtenRows (batchFrom env chunks a b db c).log <+: chunks.flatten ∧
      ((batchFrom env chunks a b).final db c).edges =
        upsertedEdges (writtenRows (batchFrom env chunks a b db c).log) db.edges := by
  have hPrefix := (writesAt_batchFrom env chunks a b db c).1
  have hRows := hPrefix.filterMap Core.edgeRow?
  rw [List.filterMap_append, edgeRows_chunksStmts, edgeRows_totalsStmts, List.append_nil] at hRows
  rw [writtenRows_eq]
  refine ⟨hRows, ?_⟩
  have hCore := core_replay (batchFrom env chunks a b db c).log db
  have hEdges := congrArg CoreView.edges hCore
  rw [edges_replay_of_tracing fun i hi => tracing_batchFrom i (hPrefix.subset hi)] at hEdges
  exact hEdges

theorem writtenRows_append (l l' : List Stmt) :
    writtenRows (l ++ l') = writtenRows l ++ writtenRows l' := List.filterMap_append

theorem writtenRows_chunk (env : Env) (chunk : List EdgeUpsertData) (db : Db) (c : Ctl Mem Err) :
    writtenRows (upsertEdgesChunk env chunk db c).log <+: chunk ∧
      ∀ d, (upsertEdgesChunk env chunk db c).res = .ok d →
        writtenRows (upsertEdgesChunk env chunk db c).log = chunk := by
  have hStmts := edgeRows_chunksStmts [chunk] db.edges
  rw [chunksStmts, chunksStmts, List.append_nil, List.flatten_singleton] at hStmts
  have hWrites := writesAt_upsertEdgesChunk env chunk db c
  rw [writtenRows_eq]
  refine ⟨?_, fun d hd => by rw [hWrites.2 d hd, hStmts]⟩
  have hPrefix := hWrites.1.filterMap Core.edgeRow?
  rwa [hStmts] at hPrefix

theorem WrittenOnce.kept {rows w : List EdgeUpsertData} {t : Table.Rows EdgeKey EdgeRow}
    (h : WrittenOnce rows w t) {chunk : List EdgeUpsertData} {row : EdgeUpsertData}
    (hr : row ∈ inRows w) (hc : row ∈ chunk) :
    storedAmounts chunk t row.key = some row.amountSats := by
  obtain ⟨stored, hs, hAmount, hDir⟩ := h.payments row hr
  rw [storedAmounts_of_lookup hc hs (hDir.trans (mem_inRows.mp hr).2.symm), hAmount]

theorem withEdges_of_settled {db : Db} {rows : List EdgeUpsertData}
    (h : ∀ row ∈ rows, row.Settled db.edges) : db.batchView.withEdges rows = db.batchView := by
  refine BatchView.ext (funext fun k => ?_) rfl rfl rfl rfl rfl rfl
  show rows.foldl _ (db.edges.lookup k) = db.edges.lookup k
  rw [← foldl_upsertedEdges, lookup_upsertedEdges_of_settled h]

/-- Rows that are upserted again need not be upserted before. -/
theorem withEdges_prefix {db : Db} {w chunk : List EdgeUpsertData} (hPrefix : w <+: chunk)
    (hOnce : OnceIn chunk w) :
    (db.batchView.withEdges w).withEdges chunk = db.batchView.withEdges chunk := by
  obtain ⟨v, rfl⟩ := hPrefix
  refine BatchView.ext (funext fun k => ?_) rfl rfl rfl rfl rfl rfl
  show (w ++ v).foldl _ (w.foldl _ (db.edges.lookup k)) = (w ++ v).foldl _ (db.edges.lookup k)
  rw [← foldl_upsertedEdges, ← foldl_upsertedEdges, ← foldl_upsertedEdges, upsertedEdges_append,
    upsertedEdges_append]
  exact upsertedEdges_congr (lookup_upsertedEdges_of_settled
    (hOnce.settled fun row hr => List.mem_append_left v hr)) v k

/-- After the read and the writes of a sub-batch, the rest is the same on two stores that the
sub-batch makes look the same. -/
theorem batchView_final_cons {chunk : List EdgeUpsertData} {rest : List (List EdgeUpsertData)}
    {a b : Int} {r u : Db}
    (hView : r.batchView.withEdges chunk = u.batchView.withEdges chunk)
    (hOld : ∀ row ∈ inRows chunk,
      storedAmounts chunk r.edges row.key = storedAmounts chunk u.edges row.key) (m m' : Mem) :
    ((batchFrom env (chunk :: rest) a b).final r ⟨m', []⟩).batchView =
      ((batchFrom env (chunk :: rest) a b).final u ⟨m, []⟩).batchView := by
  have hBatch : ∀ (db : Db) (m : Mem), ∃ (log : List Stmt) (m₁ : Mem),
      (executeSqlBatch env (chunk.map fun data => Stmt.edge (.upsert data))).Runs db m () log m₁ ∧
      (replay log db).batchView = db.batchView.withEdges chunk := by
    intro db m
    obtain ⟨_, log, m₁, hRun⟩ := completes_executeSqlBatch env
      (chunk.map fun data => Stmt.edge (.upsert data)) db m
    have hEmits : (executeSqlBatch env (chunk.map fun data =>
        Stmt.edge (.upsert data))).Emits (HeadStmt chunk) := emits_writeRows
    have hStmts := hEmits db ⟨m, []⟩
    rw [hRun] at hStmts
    have hNone : log.filterMap Stmt.raise? = [] :=
      List.filterMap_eq_nil_iff.mpr fun i hi => (hStmts i hi).plain.2
    have hRows := hRun.filterMap_eq (writes_executeSqlBatch (π := Stmt.edgeRow?) env _ db)
    rw [List.filterMap_map, show (Stmt.edgeRow? ∘ fun data => Stmt.edge (.upsert data)) = some
      from rfl, List.filterMap_some] at hRows
    refine ⟨log, m₁, hRun, ?_⟩
    rw [batchView_replay_of_plain fun i hi => (hStmts i hi).plain.1, hNone, BatchView.raised_nil]
    exact congrArg (fun rows => db.batchView.withEdges rows) hRows
  have hFinal : ∀ (db : Db) (m : Mem), ∃ (log : List Stmt) (m₁ : Mem),
      (batchFrom env (chunk :: rest) a b).final db ⟨m, []⟩ =
        (chunkThen env chunk rest a b (storedAmounts chunk db.edges)).final (replay log db) ⟨m₁, []⟩ ∧
      (replay log db).batchView = db.batchView.withEdges chunk := by
    intro db m
    obtain ⟨log, m₁, hRun, hLog⟩ := hBatch db m
    refine ⟨log, m₁, ?_, hLog⟩
    have hQuery : (getExistingEdges chunk).Runs db m (storedAmounts chunk db.edges) [] m :=
      runs_query _ db m
    rw [batchFrom_cons_eq, final_bind hQuery, replay_nil, final_bind hRun]
  obtain ⟨log, m₁, hR, hLogR⟩ := hFinal r m'
  obtain ⟨log', m₂, hU, hLogU⟩ := hFinal u m
  rw [hR, hU]
  exact (alike_chunkThen hOld rest a b).final observes_batchView
    (hLogR.trans (hView.trans hLogU.symm)) _ _

theorem log_of_adjustEdgeTotals_error {a b : Int} {db : Db} {c : Ctl Mem Err}
    {e : Err} (h : (adjustEdgeTotalsCounters a b db c).res = .error e) :
    (adjustEdgeTotalsCounters a b db c).log = [] := by
  unfold adjustEdgeTotalsCounters when at h ⊢
  by_cases hc : a ≠ 0 ∨ b ≠ 0
  · rw [if_pos hc] at h ⊢
    exact log_of_step_error h
  · rw [if_neg hc] at h
    cases h

/-- The retry of a call that throws leaves the view that an uninterrupted call leaves. The first
call runs from `s`; by the time the retry and the uninterrupted call come to these sub-batches,
both have raised the same peaks besides. -/
theorem batchView_retry {chunks : List (List EdgeUpsertData)} {a b : Int} {s u r : Db}
    {c : Ctl Mem Err} {e : Err} {g : List Peak}
    (hErr : (batchFrom env chunks a b s c).res = .error e)
    (hWritten : WrittenOnce chunks.flatten (writtenRows (batchFrom env chunks a b s c).log) s.edges)
    (hU : u.batchView = s.batchView.raised g)
    (hR : r.batchView = ((batchFrom env chunks a b).final s c).batchView.raised g) (m m' : Mem) :
    ((batchFrom env chunks a b).final r ⟨m', []⟩).batchView =
      ((batchFrom env chunks a b).final u ⟨m, []⟩).batchView := by
  induction chunks generalizing a b s u r c g m m' with
  | nil =>
    have hLog : (batchFrom env [] a b s c).log = [] := by
      have hTotals : batchFrom env [] a b = adjustEdgeTotalsCounters a b := Op.pure_bind _ _
      rw [hTotals] at hErr ⊢
      exact log_of_adjustEdgeTotals_error hErr
    refine (alike_batchFrom env [] a b).final observes_batchView ?_ _ _
    unfold Op.final at hR
    rw [hLog, replay_nil] at hR
    rw [hR, hU]
  | cons chunk rest ih =>
    have hEdges := written_batchFrom env (chunk :: rest) a b s c
    have hSettled : ∀ row ∈ writtenRows (batchFrom env (chunk :: rest) a b s c).log,
        row.Settled ((batchFrom env (chunk :: rest) a b).final s c).edges := by
      rw [hEdges.2]
      exact hWritten.once.settled fun row hr => hEdges.1.subset hr
    have hLookupU : ∀ k, u.edges.lookup k = s.edges.lookup k := congrFun (congrArg BatchView.edges hU)
    have hLookupR : ∀ k, r.edges.lookup k =
        ((batchFrom env (chunk :: rest) a b).final s c).edges.lookup k :=
      congrFun (congrArg BatchView.edges hR)
    rw [List.flatten_cons] at hWritten hEdges
    cases hRes : (upsertEdgesChunk env chunk s c).res with
    | ok d =>
      have hRun : batchFrom env (chunk :: rest) a b s c =
          ⟨(batchFrom env rest (a + d.1) (b + d.2) ((upsertEdgesChunk env chunk).final s c)
              (upsertEdgesChunk env chunk s c).ctl).res,
            (upsertEdgesChunk env chunk s c).log ++
              (batchFrom env rest (a + d.1) (b + d.2) ((upsertEdgesChunk env chunk).final s c)
                (upsertEdgesChunk env chunk s c).ctl).log,
            (batchFrom env rest (a + d.1) (b + d.2) ((upsertEdgesChunk env chunk).final s c)
              (upsertEdgesChunk env chunk s c).ctl).ctl⟩ := by
        rw [batchFrom_cons, bind_of_ok hRes]
        rfl
      have hRows := (writtenRows_chunk env chunk s c).2 d hRes
      have hSplit : writtenRows (batchFrom env (chunk :: rest) a b s c).log = chunk ++
          writtenRows (batchFrom env rest (a + d.1) (b + d.2)
            ((upsertEdgesChunk env chunk).final s c) (upsertEdgesChunk env chunk s c).ctl).log := by
        rw [hRun, writtenRows_append, hRows]
      have hFinal : (batchFrom env (chunk :: rest) a b).final s c =
          (batchFrom env rest (a + d.1) (b + d.2)).final ((upsertEdgesChunk env chunk).final s c)
            (upsertEdgesChunk env chunk s c).ctl := by
        unfold Op.final
        rw [hRun, replay_append]
        rfl
      rw [hSplit] at hWritten hSettled hEdges
      rw [hFinal] at hR hLookupR hSettled
      have hPrefix := (List.prefix_append_right_inj chunk).mp hEdges.1
      rw [hRun] at hErr
      have hMem : ∀ row ∈ inRows chunk, row ∈ inRows (chunk ++ writtenRows (batchFrom env rest
          (a + d.1) (b + d.2) ((upsertEdgesChunk env chunk).final s c)
          (upsertEdgesChunk env chunk s c).ctl).log) := fun row hr =>
        mem_inRows.mpr ⟨List.mem_append_left _ (mem_inRows.mp hr).1, (mem_inRows.mp hr).2⟩
      have hKeptS : Kept (storedAmounts chunk s.edges) chunk := fun row hr =>
        hWritten.kept (hMem row hr) (mem_inRows.mp hr).1
      have hKeptU : Kept (storedAmounts chunk u.edges) chunk := by
        rwa [storedAmounts_congr hLookupU]
      have hKeptR : Kept (storedAmounts chunk r.edges) chunk := by
        intro row hr
        obtain ⟨stored, hs, hAmount, hDir⟩ := lookup_of_settled
          (hSettled row (List.mem_append_left _ (mem_inRows.mp hr).1))
        rw [storedAmounts_congr hLookupR, storedAmounts_of_lookup (mem_inRows.mp hr).1 hs hDir,
          hAmount]
      obtain ⟨-, qs, hqs, hViewS⟩ := batchView_chunk_ok hKeptS hRes
      obtain ⟨logU, m₁, (hRunU : (upsertEdgesChunk env chunk).Runs _ _ _ _ _), hViewU⟩ :=
        runs_upsertEdgesChunk hKeptU m
      obtain ⟨logR, m₂, (hRunR : (upsertEdgesChunk env chunk).Runs _ _ _ _ _), hViewR⟩ :=
        runs_upsertEdgesChunk hKeptR m'
      have hd : d = (0, chunkOut chunk) := by
        rw [returnsAt_upsertEdgesChunk env chunk s c d hRes]
        refine congrArg (·, chunkOut chunk) (List.sum_eq_zero fun x hx => ?_)
        obtain ⟨row, hr, rfl⟩ := List.mem_map.mp hx
        exact delta_of_kept hKeptS row hr
      rw [batchFrom_cons, final_bind hRunU, final_bind hRunR]
      rw [hd] at hErr hWritten hSettled hR hPrefix
      refine ih hErr ?_ (g := g ++ raises chunk) ?_ ?_ _ _
      · refine ⟨hWritten.once.tail fun row hr => hPrefix.subset hr, fun row hr => ?_⟩
        rw [edges_final_upsertEdgesChunk hRes, hWritten.once.lookup_earlier
          (fun row hr => hPrefix.subset hr) _ row (mem_inRows.mp hr).1]
        exact hWritten.payments row
          (mem_inRows.mpr ⟨List.mem_append_right _ (mem_inRows.mp hr).1, (mem_inRows.mp hr).2⟩)
      · rw [hViewU, hU, hViewS, BatchView.withEdges_raised, BatchView.raised_raised,
          BatchView.raised_absorb fun p hp => List.mem_append_right _ (hqs p hp)]
      · rw [hViewR, hR, BatchView.withEdges_raised,
          withEdges_of_settled fun row hr => hSettled row (List.mem_append_left _ hr),
          BatchView.raised_raised]
    | error e' =>
      have hRun : batchFrom env (chunk :: rest) a b s c =
          ⟨.error e', (upsertEdgesChunk env chunk s c).log, (upsertEdgesChunk env chunk s c).ctl⟩ := by
        rw [batchFrom_cons, bind_of_error hRes]
      have hLog : (batchFrom env (chunk :: rest) a b s c).log =
          (upsertEdgesChunk env chunk s c).log := by rw [hRun]
      have hFinal : (batchFrom env (chunk :: rest) a b).final s c =
          (upsertEdgesChunk env chunk).final s c := by
        unfold Op.final
        rw [hRun]
      rw [hLog] at hWritten hSettled hEdges
      rw [hFinal] at hR hLookupR hSettled
      have hPrefix := (writtenRows_chunk env chunk s c).1
      have hOnce : OnceIn chunk (writtenRows (upsertEdgesChunk env chunk s c).log) :=
        hWritten.once.head fun row hr => hPrefix.subset hr
      have hViewS := batchView_chunk_error hRes fun row hr =>
        hWritten.kept hr (hPrefix.subset (mem_inRows.mp hr).1)
      refine batchView_final_cons ?_ (fun row hr => ?_) m m'
      · rw [hR, hU, hViewS, BatchView.withEdges_raised, BatchView.withEdges_raised,
          withEdges_prefix hPrefix hOnce]
      · rw [storedAmounts_congr hLookupU]
        by_cases hw : row ∈ writtenRows (upsertEdgesChunk env chunk s c).log
        · obtain ⟨stored, hs, hAmount, hDir⟩ := lookup_of_settled (hSettled row hw)
          rw [storedAmounts_congr hLookupR, storedAmounts_of_lookup (mem_inRows.mp hr).1 hs hDir,
            hAmount, hWritten.kept (mem_inRows.mpr ⟨hw, (mem_inRows.mp hr).2⟩) (mem_inRows.mp hr).1]
        · rw [hFinal] at hEdges
          have hNotMem : ∀ row' ∈ writtenRows (upsertEdgesChunk env chunk s c).log,
              row'.key ≠ row.key := fun row' hr' hKey => by
            have hEq := hOnce.unique hr' (hPrefix.subset hr') (mem_inRows.mp hr).1 hKey.symm
            exact hw (hEq ▸ hr')
          refine storedAmounts_congr_at ?_
          rw [hLookupR, hEdges.2, lookup_upsertedEdges_of_notMem hNotMem]

end Batch

/-! ## Inbound totals of a call -/

section Inbound

variable {env : Env} {chunks : List (List EdgeUpsertData)} {db : Db} {x : Address}

theorem isSome_exec {i : Core} (hi : i.Tracing) (hUpsert : ∀ data, i ≠ .address (.upsert data))
    (v : CoreView) : ((exec i v).addresses.lookup x).isSome = (v.addresses.lookup x).isSome := by
  have hModify : ∀ (a : Address) (g : AddressRow → AddressRow),
      ((Table.modify a g v.addresses).lookup x).isSome = (v.addresses.lookup x).isSome := by
    intro a g
    rw [Table.lookup_modify]
    split
    · exact Option.isSome_map
    · rfl
  cases hi with
  | upsert data => exact absurd rfl (hUpsert data)
  | addInbound a d => exact hModify a _
  | addReceived a d => exact hModify a _
  | edge => rfl
  | totals => rfl

/-- Statements that insert no address move an inbound total where there is a row. -/
theorem inboundAt_replay_noUpsert {stmts : List Core} (hs : ∀ i ∈ stmts, i.Tracing)
    (hUpsert : ∀ i ∈ stmts, ∀ data, i ≠ .address (.upsert data)) (v : CoreView) :
    (replay stmts v).inboundAt x =
      v.inboundAt x + if (v.addresses.lookup x).isSome then inboundSum x stmts else 0 := by
  induction stmts generalizing v with
  | nil => simp
  | cons i stmts ih =>
    have hi := hs i List.mem_cons_self
    rw [replay_cons, ih (fun j hj => hs j (List.mem_cons_of_mem _ hj))
      (fun j hj => hUpsert j (List.mem_cons_of_mem _ hj)), inboundAt_exec hi,
      isSome_exec hi (hUpsert i List.mem_cons_self), inboundSum_cons]
    split <;> omega

theorem noUpsert_batchFrom {t : Table.Rows EdgeKey EdgeRow} {a b : Int} :
    ∀ i ∈ chunksStmts chunks t ++ totalsStmts a b, ∀ data, i ≠ .address (.upsert data) := by
  intro i hi data h
  rcases List.mem_append.mp hi with hi | hi
  · rcases mem_chunksStmts_edge hi with ⟨_, _, rfl⟩ | ⟨_, _, rfl⟩ | ⟨_, _, rfl⟩ <;> cases h
  · unfold totalsStmts at hi
    split at hi
    · cases hi
    · rw [List.mem_singleton.mp hi] at h
      cases h

/-- A call inserts and deletes no address. -/
theorem isSome_batchFrom (env : Env) (chunks : List (List EdgeUpsertData)) (a b : Int) (db : Db)
    (c : Ctl Mem Err) (x : Address) :
    (((batchFrom env chunks a b).final db c).addresses.lookup x).isSome =
      (db.addresses.lookup x).isSome := by
  have hPrefix := (writesAt_batchFrom env chunks a b db c).1
  rw [← core_addresses]
  unfold Op.final
  rw [core_replay]
  refine replay_frame (f := fun v : CoreView => (v.addresses.lookup x).isSome) (fun i hi v => ?_) db.core
  exact isSome_exec (tracing_batchFrom i (hPrefix.subset hi))
    (noUpsert_batchFrom i (hPrefix.subset hi)) v

/-- What a call has added to an inbound total, whether it throws or not. -/
theorem inboundAt_batchFrom (env : Env) (chunks : List (List EdgeUpsertData)) (a b : Int) (db : Db)
    (c : Ctl Mem Err) (x : Address) :
    ((batchFrom env chunks a b).final db c).core.inboundAt x = db.core.inboundAt x +
      if (db.addresses.lookup x).isSome then
        inboundSum x ((batchFrom env chunks a b db c).log.filterMap Stmt.core?) else 0 := by
  have hPrefix := (writesAt_batchFrom env chunks a b db c).1
  unfold Op.final
  rw [core_replay]
  exact inboundAt_replay_noUpsert (fun i hi => tracing_batchFrom i (hPrefix.subset hi))
    (fun i hi => noUpsert_batchFrom i (hPrefix.subset hi)) _

theorem completes_batchFrom (env : Env) (chunks : List (List EdgeUpsertData)) (a b : Int) :
    (batchFrom env chunks a b).Completes := (alike_batchFrom env chunks a b).completes

/-- Without faults a call executes all its statements on the core. -/
theorem core_batchFrom (env : Env) (chunks : List (List EdgeUpsertData)) (a b : Int) (db : Db)
    (m : Mem) : (batchFrom env chunks a b db ⟨m, []⟩).log.filterMap Stmt.core? =
      chunksStmts chunks db.edges ++
        totalsStmts (a + chunksIn chunks db.edges) (b + chunkOut chunks.flatten) := by
  obtain ⟨_, log, m', hRun⟩ := completes_batchFrom env chunks a b db m
  have hLog := hRun.filterMap_eq (writesAt_batchFrom env chunks a b db)
  unfold Runs at hRun
  rw [hRun]
  exact hLog

theorem inboundAt_uninterrupted (env : Env) (chunks : List (List EdgeUpsertData)) (db : Db) (m : Mem)
    (x : Address) : ((batchFrom env chunks 0 0).final db ⟨m, []⟩).core.inboundAt x =
      db.core.inboundAt x +
        if (db.addresses.lookup x).isSome then chunksDelta (isOutputTo x) chunks db.edges else 0 := by
  rw [inboundAt_batchFrom, core_batchFrom, inboundSum_append, inboundSum_chunksStmts,
    inboundSum_totalsStmts, chunksInbound_eq, add_zero]

end Inbound

/-! ## A call that throws -/

/-- Equal edges, address rows, peaks, hack statistics, victims and totals. -/
structure SameBatch (db db' : Db) : Prop where
  edges : ∀ k, db.edges.lookup k = db'.edges.lookup k
  addresses : ∀ a, db.addresses.lookup a = db'.addresses.lookup a
  peaks : ∀ k, db.peaks.lookup k = db'.peaks.lookup k
  hackStats : ∀ k, db.hackStats.lookup k = db'.hackStats.lookup k
  hackVictims : ∀ k, db.hackVictims.lookup k = db'.hackVictims.lookup k
  totalIn : db.scheduler.totalInSats = db'.scheduler.totalInSats
  totalOut : db.scheduler.totalOutSats = db'.scheduler.totalOutSats

/-- The statements executed before a throw leave nothing that the retry loses: the keys of the
written rows occur once in the batch, the written payments were stored in the same amount, and
the written outputs are credited to their targets. -/
structure Repairable (rows : List EdgeUpsertData) (db : Db) (log : List Stmt) : Prop where
  once : WrittenOnce rows (writtenRows log) db.edges
  outputs : ∀ row ∈ writtenRows log, row.direction = .outFromHacker → ∀ stored,
    db.edges.lookup row.key = some stored → stored.direction = .outFromHacker
  credits : ∀ x, (db.addresses.lookup x).isSome →
    inboundSum x (log.filterMap Stmt.core?) = owed (isOutputTo x) (writtenRows log) db.edges

/-- A batch that takes no stored amount back: its keys occur once, its amounts are positive, and a
row stored under one of its keys has the same direction and at most the same amount. -/
structure Growing (rows : List EdgeUpsertData) (db : Db) : Prop where
  nodup : (rows.map (·.key)).Nodup
  positive : ∀ row ∈ rows, 0 < row.amountSats
  stored : ∀ row ∈ rows, ∀ stored, db.edges.lookup row.key = some stored →
    stored.direction = row.direction ∧ stored.amountSats ≤ row.amountSats
  totalIn : 0 ≤ db.scheduler.totalInSats

section Throw

variable {env : Env} {chunks : List (List EdgeUpsertData)} {rows : List EdgeUpsertData} {db : Db}
  {c : Ctl Mem Err} {e : Err}

theorem sameBatch_of_view {db db' : Db} (h : db.batchView = db'.batchView)
    (hInbound : ∀ x, db.core.inboundAt x = db'.core.inboundAt x) : SameBatch db db' where
  edges := edges_of_batchView h
  addresses a := by
    have hRow := addresses_of_batchView h a
    have hSats := hInbound a
    unfold CoreView.inboundAt at hSats
    rw [core_addresses, core_addresses] at hSats
    cases ha : db.addresses.lookup a with
    | none =>
      cases ha' : db'.addresses.lookup a with
      | none => rfl
      | some row' =>
        rw [ha, ha'] at hRow
        cases hRow
    | some row =>
      cases ha' : db'.addresses.lookup a with
      | none =>
        rw [ha, ha'] at hRow
        cases hRow
      | some row' =>
        rw [ha, ha'] at hRow hSats
        have hRest : row.exceptInbound = row'.exceptInbound := Option.some.inj hRow
        have hSats' : row.inboundSats = row'.inboundSats := hSats
        have hEq : row = row' := by
          cases row
          cases row'
          simp only [AddressRow.exceptInbound, AddressRow.mk.injEq] at hRest hSats' ⊢
          tauto
        rw [hEq]
  peaks := peaks_of_batchView h
  hackStats := congrFun (congrArg BatchView.hackStats h)
  hackVictims := congrFun (congrArg BatchView.hackVictims h)
  totalIn := congrArg BatchView.totalInSats h
  totalOut := congrArg BatchView.totalOutSats h

theorem upsertEdgesBatch_eq (env : Env) (h : rows ≠ []) :
    upsertEdgesBatch env rows = batchFrom env (chunkArray env.store.d1BatchSize rows) 0 0 := by
  unfold upsertEdgesBatch when
  rw [if_pos h]
  rfl

theorem ne_nil_of_error (h : (upsertEdgesBatch env rows db c).res = .error e) : rows ≠ [] := by
  rintro rfl
  cases h

/-- The totals of the scheduler row are adjusted last, so a call that throws has not come to it. -/
theorem prefix_of_error {a b : Int} (h : (batchFrom env chunks a b db c).res = .error e) :
    (batchFrom env chunks a b db c).log.filterMap Stmt.core? <+: chunksStmts chunks db.edges := by
  have hChunks := writesAt_upsertEdgesChunks env chunks a b db c
  unfold batchFrom at h ⊢
  cases hRes : (upsertEdgesChunks env chunks a b db c).res with
  | error e' =>
    rw [bind_of_error hRes]
    exact hChunks.1
  | ok totals =>
    rw [bind_of_ok hRes] at h ⊢
    dsimp only at h ⊢
    rw [log_of_adjustEdgeTotals_error h, List.append_nil]
    exact hChunks.1

theorem totalIn_of_error {a b : Int} (h : (batchFrom env chunks a b db c).res = .error e) :
    ((batchFrom env chunks a b).final db c).scheduler.totalInSats = db.scheduler.totalInSats := by
  have hNone : ∀ i ∈ (batchFrom env chunks a b db c).log.filterMap Stmt.core?, ∀ a b,
      i ≠ .totals a b := fun i hi =>
    noTotals_chunksStmts i ((prefix_of_error h).subset hi)
  have hTotals := totals_replay_of_noTotals hNone db.core
  rw [← core_totalInSats, ← core_totalInSats]
  unfold Op.final
  rw [core_replay]
  exact hTotals.1

theorem totalIn_uninterrupted (env : Env) (chunks : List (List EdgeUpsertData)) (db : Db) (m : Mem) :
    ((batchFrom env chunks 0 0).final db ⟨m, []⟩).scheduler.totalInSats =
      if chunksDelta isPayment chunks db.edges = 0 ∧ chunkOut chunks.flatten = 0 then
        db.scheduler.totalInSats
      else max 0 (db.scheduler.totalInSats + chunksDelta isPayment chunks db.edges) := by
  have hNone : ∀ i ∈ chunksStmts chunks db.edges, ∀ a b, i ≠ .totals a b := noTotals_chunksStmts
  have hSame := totals_replay_of_noTotals hNone db.core
  have hTotals := totals_replay_totalsStmts (0 + chunksIn chunks db.edges)
    (0 + chunkOut chunks.flatten) (replay (chunksStmts chunks db.edges) db.core)
  rw [hSame.1, zero_add, zero_add, chunksIn_eq] at hTotals
  rw [← core_totalInSats]
  unfold Op.final
  rw [core_replay, core_batchFrom, replay_append, zero_add, zero_add, chunksIn_eq]
  exact hTotals.1

/-- What the retry adds to an inbound total, and what the call that throws has added, is what one
call adds exactly when the written outputs are credited. -/
theorem inbound_retry_iff {x : Address} (hRow : (db.addresses.lookup x).isSome)
    (hOnce : OnceIn chunks.flatten (writtenRows (batchFrom env chunks 0 0 db c).log))
    (hOut : ∀ row ∈ writtenRows (batchFrom env chunks 0 0 db c).log,
      row.direction = .outFromHacker → ∀ stored, db.edges.lookup row.key = some stored →
        stored.direction = .outFromHacker) (m m' : Mem) :
    ((batchFrom env chunks 0 0).final ((batchFrom env chunks 0 0).final db c) ⟨m', []⟩).core.inboundAt x
        = ((batchFrom env chunks 0 0).final db ⟨m, []⟩).core.inboundAt x ↔
      inboundSum x ((batchFrom env chunks 0 0 db c).log.filterMap Stmt.core?) =
        owed (isOutputTo x) (writtenRows (batchFrom env chunks 0 0 db c).log) db.edges := by
  obtain ⟨hPrefix, hEdges⟩ := written_batchFrom env chunks 0 0 db c
  have hAligned : ∀ row ∈ writtenRows (batchFrom env chunks 0 0 db c).log, isOutputTo x row →
      ∀ stored, db.edges.lookup row.key = some stored → stored.direction = row.direction := by
    intro row hr hp stored hs
    unfold isOutputTo at hp
    have hDir : row.direction = .outFromHacker := by
      simp only [Bool.and_eq_true, decide_eq_true_eq] at hp
      exact hp.1
    rw [hDir]
    exact hOut row hr hDir stored hs
  have hLookup : ∀ k, ((batchFrom env chunks 0 0).final db c).edges.lookup k =
      (upsertedEdges (writtenRows (batchFrom env chunks 0 0 db c).log) db.edges).lookup k :=
    fun k => by rw [hEdges]
  have hSplit := chunksDelta_split (p := isOutputTo x) hPrefix hOnce hAligned hLookup
  have hFailed := inboundAt_batchFrom env chunks 0 0 db c x
  have hSome : (((batchFrom env chunks 0 0).final db c).addresses.lookup x).isSome := by
    rwa [isSome_batchFrom]
  rw [inboundAt_uninterrupted, inboundAt_uninterrupted, hFailed, if_pos hRow, if_pos hRow,
    if_pos hSome, hSplit]
  constructor
  · intro h
    omega
  · intro h
    omega

theorem inboundAt_of_no_row {x : Address} (h : db.addresses.lookup x = none) :
    db.core.inboundAt x = 0 := by
  unfold CoreView.inboundAt
  rw [core_addresses, h]
  rfl

theorem owed_payments_nonneg (hGrowing : Growing rows db) {w : List EdgeUpsertData}
    (hSub : ∀ row ∈ w, row ∈ rows) : 0 ≤ owed isPayment w db.edges := by
  refine List.sum_nonneg fun d hd => ?_
  obtain ⟨row, hr, rfl⟩ := List.mem_map.mp hd
  have hRow := hSub row (List.mem_of_mem_filter hr)
  have hPos := hGrowing.positive row hRow
  unfold storedAmount
  cases hs : db.edges.lookup row.key with
  | none =>
    simp only [Option.map_none, Option.getD_none]
    omega
  | some stored =>
    have hLe := (hGrowing.stored row hRow stored hs).2
    simp only [Option.map_some, Option.getD_some]
    omega

/-- Payments that owe nothing were stored in the same amount. -/
theorem payments_of_owed_zero (hGrowing : Growing rows db) {w : List EdgeUpsertData}
    (hSub : ∀ row ∈ w, row ∈ rows) (h : owed isPayment w db.edges = 0) :
    ∀ row ∈ inRows w, ∃ stored, db.edges.lookup row.key = some stored ∧
      stored.amountSats = row.amountSats ∧ stored.direction = .inToHacker := by
  induction w with
  | nil =>
    intro row hr
    cases hr
  | cons first w ih =>
    have hSub' : ∀ row ∈ w, row ∈ rows := fun row hr => hSub row (List.mem_cons_of_mem _ hr)
    have hCons := owed_append isPayment [first] w db.edges
    rw [List.singleton_append, h] at hCons
    have hFirst := owed_payments_nonneg hGrowing (w := [first]) fun row hr =>
      hSub row (by rw [List.mem_singleton.mp hr]; exact List.mem_cons_self)
    have hRest := owed_payments_nonneg hGrowing hSub'
    intro row hr
    obtain ⟨hMem, hDir⟩ := mem_inRows.mp hr
    rcases List.mem_cons.mp hMem with rfl | hMem
    · have hZero : owed isPayment [row] db.edges = 0 := by omega
      have hIs : isPayment row = true := decide_eq_true hDir
      unfold owed storedAmount at hZero
      rw [List.filter_cons, if_pos hIs, List.filter_nil, List.map_singleton, List.sum_singleton] at hZero
      have hRow := hSub row List.mem_cons_self
      have hPos := hGrowing.positive row hRow
      cases hs : db.edges.lookup row.key with
      | none =>
        rw [hs] at hZero
        simp only [Option.map_none, Option.getD_none] at hZero
        omega
      | some stored =>
        rw [hs] at hZero
        simp only [Option.map_some, Option.getD_some] at hZero
        refine ⟨stored, rfl, by omega, ?_⟩
        rw [(hGrowing.stored row hRow stored hs).1, hDir]
    · exact ih hSub' (by omega) row (mem_inRows.mpr ⟨hMem, hDir⟩)

/-- A call that throws is repaired by its retry exactly when the statements executed before the
throw leave nothing that the retry loses. The condition suffices for every batch; batches that
take a stored amount back may be repaired without it, where differences cancel. -/
theorem retry_repairs_iff (env : Env) (rows : List EdgeUpsertData) (db : Db) (c : Ctl Mem Err)
    (e : Err) (h : (upsertEdgesBatch env rows db c).res = .error e) (m m' : Mem) :
    let failed := (upsertEdgesBatch env rows).final db c
    let retried := (upsertEdgesBatch env rows).final failed ⟨m', []⟩
    let uninterrupted := (upsertEdgesBatch env rows).final db ⟨m, []⟩
    let log := (upsertEdgesBatch env rows db c).log
    (Repairable rows db log → SameBatch retried uninterrupted) ∧
      (Growing rows db → (SameBatch retried uninterrupted ↔ Repairable rows db log)) := by
  dsimp only
  have hRows : rows ≠ [] := ne_nil_of_error h
  rw [upsertEdgesBatch_eq env hRows] at h ⊢
  generalize hChunks : chunkArray env.store.d1BatchSize rows = chunks at h ⊢
  have hFlat : chunks.flatten = rows := by rw [← hChunks, flatten_chunkArray]
  obtain ⟨hPrefix, hEdges⟩ := written_batchFrom env chunks 0 0 db c
  have hEnough : Repairable rows db (batchFrom env chunks 0 0 db c).log →
      SameBatch ((batchFrom env chunks 0 0).final ((batchFrom env chunks 0 0).final db c) ⟨m', []⟩)
        ((batchFrom env chunks 0 0).final db ⟨m, []⟩) := by
    intro hRep
    have hOnce := hRep.once
    rw [← hFlat] at hOnce
    refine sameBatch_of_view (batchView_retry (g := []) h hOnce rfl rfl m m') fun x => ?_
    by_cases hRow : (db.addresses.lookup x).isSome
    · exact (inbound_retry_iff hRow hOnce.once hRep.outputs m m').mpr (hRep.credits x hRow)
    · -- without a row before the call there is none after it
      rw [inboundAt_of_no_row, inboundAt_of_no_row]
      · rw [← Option.not_isSome_iff_eq_none, isSome_batchFrom]
        exact hRow
      · rw [← Option.not_isSome_iff_eq_none, isSome_batchFrom, isSome_batchFrom]
        exact hRow
  refine ⟨hEnough, fun hGrowing => ⟨fun hSame => ?_, hEnough⟩⟩
  have hSub : ∀ row ∈ writtenRows (batchFrom env chunks 0 0 db c).log, row ∈ rows := fun row hr =>
    hFlat ▸ hPrefix.subset hr
  have hOnce : OnceIn rows (writtenRows (batchFrom env chunks 0 0 db c).log) := fun row hr =>
    List.count_eq_one_of_mem hGrowing.nodup (List.mem_map.mpr ⟨row, hSub row hr, rfl⟩)
  have hOutputs : ∀ row ∈ writtenRows (batchFrom env chunks 0 0 db c).log,
      row.direction = .outFromHacker → ∀ stored, db.edges.lookup row.key = some stored →
        stored.direction = .outFromHacker := fun row hr hDir stored hs =>
    (hGrowing.stored row (hSub row hr) stored hs).1.trans hDir
  refine ⟨⟨hOnce, payments_of_owed_zero hGrowing hSub ?_⟩, hOutputs, fun x hRow => ?_⟩
  · -- the totals of the scheduler row miss what the written payments owe
    have hNonneg := owed_payments_nonneg hGrowing hSub
    have hTotal := hSame.totalIn
    have hAligned : ∀ row ∈ writtenRows (batchFrom env chunks 0 0 db c).log, isPayment row →
        ∀ stored, db.edges.lookup row.key = some stored → stored.direction = row.direction :=
      fun row hr _ stored hs => (hGrowing.stored row (hSub row hr) stored hs).1
    have hLookup : ∀ k, ((batchFrom env chunks 0 0).final db c).edges.lookup k =
        (upsertedEdges (writtenRows (batchFrom env chunks 0 0 db c).log) db.edges).lookup k :=
      fun k => by rw [hEdges]
    have hSplit := chunksDelta_split (p := isPayment) hPrefix (hFlat ▸ hOnce) hAligned hLookup
    have hAll := chunksDelta_eq_owed (p := isPayment) (g := chunks) (t := db.edges)
      (hFlat ▸ fun row hr => List.count_eq_one_of_mem hGrowing.nodup
        (List.mem_map.mpr ⟨row, hr, rfl⟩))
      fun row hr _ stored hs => (hGrowing.stored row (hFlat ▸ hr) stored hs).1
    obtain ⟨v, hv⟩ := hPrefix
    have hRest := owed_payments_nonneg hGrowing (w := v) fun row hr =>
      hFlat ▸ hv ▸ List.mem_append_right _ hr
    rw [← hv, owed_append] at hAll
    have hZero := hGrowing.totalIn
    rw [totalIn_uninterrupted, totalIn_uninterrupted, totalIn_of_error h, hSplit] at hTotal
    generalize owed isPayment (writtenRows (batchFrom env chunks 0 0 db c).log) db.edges = o at *
    generalize chunksDelta isPayment chunks ((batchFrom env chunks 0 0).final db c).edges = d at *
    split at hTotal <;> split at hTotal <;> omega
  · refine (inbound_retry_iff hRow (hFlat ▸ hOnce) hOutputs m m').mp ?_
    unfold CoreView.inboundAt
    rw [core_addresses, core_addresses, hSame.addresses]

end Throw

/-! ## One payment -/

/-- A victim pays a hacker. -/
def payment : EdgeUpsertData where
  fromAddress := name "v"
  toAddress := name "h"
  txid := name "t"
  amountSats := 200000
  direction := .inToHacker

def paymentEnv : Env := { provider := .ofTxs [] }

def paid (db : Db) (faults : List (Option Err)) : Db :=
  (upsertEdgesBatch paymentEnv [payment]).final db ⟨{}, faults⟩

/-- The call reads the stored rows, writes the payment and throws at the next statement. -/
def afterRow : List (Option Err) := [none, none, some .d1QuotaExceeded]

/-- A throw right after the payment is written loses it to the total of the scheduler row. -/
theorem retry_payment_lost :
    (upsertEdgesBatch paymentEnv [payment] .initial ⟨{}, afterRow⟩).res = .error .d1QuotaExceeded ∧
      ¬ SameBatch (paid (paid .initial afterRow) []) (paid .initial []) := by
  have hLost : (paid (paid .initial afterRow) []).scheduler.totalInSats = 0 := by decide +kernel
  have hCounted : (paid .initial []).scheduler.totalInSats = 200000 := by decide +kernel
  refine ⟨rfl, fun h => ?_⟩
  have hTotal := h.totalIn
  rw [hLost, hCounted] at hTotal
  cases hTotal

/-- A throw at the first read is repaired; after the row is written the condition decides. -/
theorem retry_payment_repaired :
    SameBatch (paid (paid .initial [some .d1QuotaExceeded]) []) (paid .initial []) ∧
      (SameBatch (paid (paid .initial afterRow) []) (paid .initial []) ↔ Repairable [payment] .initial
        (upsertEdgesBatch paymentEnv [payment] .initial ⟨{}, afterRow⟩).log) := by
  refine ⟨(retry_repairs_iff _ _ _ _ .d1QuotaExceeded rfl _ _).1 ⟨⟨?_, ?_⟩, ?_, ?_⟩,
    (retry_repairs_iff _ _ _ _ .d1QuotaExceeded rfl _ _).2 ⟨by decide, by decide, ?_, by decide⟩⟩
  · exact fun row hr => absurd hr List.not_mem_nil
  · exact fun row hr => absurd hr List.not_mem_nil
  · exact fun row hr => absurd hr List.not_mem_nil
  · exact fun x _ => rfl
  · intro row _ stored hs
    cases hs

end Bloodhound.Store
