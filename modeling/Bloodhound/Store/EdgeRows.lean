import Bloodhound.Store.Totals

/-!
# Rows of `edges` after upserts

Lookups in the table of edges after a list of upserts. An upsert is settled in a table when
the stored row already is what the upsert would write; a settled upsert changes no lookup,
and its difference against the stored amounts is zero.
-/

namespace Bloodhound.Store

open Journal

theorem lookup_upsertEdge (data : EdgeUpsertData) (t : Table.Rows EdgeKey EdgeRow) (k : EdgeKey) :
    ((EdgeStmt.upsert data).exec t).lookup k =
      if k = data.key then some ((t.lookup k).elim data.inserted data.updated) else t.lookup k := by
  unfold EdgeStmt.exec
  rw [Table.lookup_insert_if]
  split
  · next h => rw [h]
  · rfl

theorem upsertedEdges_cons (row : EdgeUpsertData) (rows : List EdgeUpsertData)
    (t : Table.Rows EdgeKey EdgeRow) :
    upsertedEdges (row :: rows) t = upsertedEdges rows ((EdgeStmt.upsert row).exec t) := rfl

theorem upsertedEdges_append (rows rows' : List EdgeUpsertData) (t : Table.Rows EdgeKey EdgeRow) :
    upsertedEdges (rows ++ rows') t = upsertedEdges rows' (upsertedEdges rows t) :=
  List.foldl_append

theorem lookup_upsertedEdges_of_notMem {rows : List EdgeUpsertData} {k : EdgeKey}
    (h : ∀ row ∈ rows, row.key ≠ k) (t : Table.Rows EdgeKey EdgeRow) :
    (upsertedEdges rows t).lookup k = t.lookup k := by
  induction rows generalizing t with
  | nil => rfl
  | cons row rows ih =>
    rw [upsertedEdges_cons, ih fun r hr => h r (List.mem_cons_of_mem _ hr), lookup_upsertEdge,
      if_neg fun hk => h row List.mem_cons_self hk.symm]

/-- The stored row is what the upsert would write. -/
def EdgeUpsertData.Settled (data : EdgeUpsertData) (t : Table.Rows EdgeKey EdgeRow) : Prop :=
  ∃ row, t.lookup data.key = some row ∧ data.updated row = row

theorem updated_updated (data : EdgeUpsertData) (row : EdgeRow) :
    data.updated (data.updated row) = data.updated row := by
  cases data with
  | mk _ _ _ _ bt hop _ kind fm =>
    cases bt <;> cases hop <;> cases kind <;> cases fm <;> rfl

theorem updated_inserted (data : EdgeUpsertData) : data.updated data.inserted = data.inserted := by
  cases data with
  | mk _ _ _ _ bt hop _ kind fm =>
    cases bt <;> cases hop <;> cases kind <;> cases fm <;> rfl

theorem settled_upsertEdge (data : EdgeUpsertData) (t : Table.Rows EdgeKey EdgeRow) :
    data.Settled ((EdgeStmt.upsert data).exec t) := by
  refine ⟨_, by rw [lookup_upsertEdge, if_pos rfl], ?_⟩
  cases t.lookup data.key with
  | none => exact updated_inserted data
  | some row => exact updated_updated data row

/-- Upserts among which only `data` itself has its key keep `data` settled, and settle it when
it is one of them. -/
theorem settled_upsertedEdges {data : EdgeUpsertData} {rows : List EdgeUpsertData}
    (hKey : ∀ row ∈ rows, row.key = data.key → row = data) (t : Table.Rows EdgeKey EdgeRow)
    (h : data.Settled t ∨ data ∈ rows) : data.Settled (upsertedEdges rows t) := by
  induction rows generalizing t with
  | nil =>
    rcases h with h | h
    · exact h
    · cases h
  | cons row rows ih =>
    rw [upsertedEdges_cons]
    refine ih (fun r hr => hKey r (List.mem_cons_of_mem _ hr)) _ ?_
    by_cases hk : row.key = data.key
    · rw [hKey row List.mem_cons_self hk]
      exact Or.inl (settled_upsertEdge data t)
    · rcases h with ⟨stored, hs, hu⟩ | h
      · refine Or.inl ⟨stored, ?_, hu⟩
        rw [lookup_upsertEdge, if_neg fun he => hk he.symm, hs]
      · rcases List.mem_cons.mp h with rfl | h
        · exact absurd rfl hk
        · exact Or.inr h

theorem Settled.lookup_upsertEdge {data : EdgeUpsertData} {t : Table.Rows EdgeKey EdgeRow}
    (h : data.Settled t) (k : EdgeKey) :
    ((EdgeStmt.upsert data).exec t).lookup k = t.lookup k := by
  obtain ⟨row, hr, hu⟩ := h
  rw [Store.lookup_upsertEdge]
  split
  · next hk => rw [hk, hr, Option.elim_some, hu]
  · rfl

theorem Settled.congr {data : EdgeUpsertData} {t t' : Table.Rows EdgeKey EdgeRow}
    (h : data.Settled t) (ht : ∀ k, t'.lookup k = t.lookup k) : data.Settled t' := by
  obtain ⟨row, hr, hu⟩ := h
  exact ⟨row, by rw [ht, hr], hu⟩

/-- Settled upserts change no lookup. -/
theorem lookup_upsertedEdges_of_settled {rows : List EdgeUpsertData}
    {t : Table.Rows EdgeKey EdgeRow} (h : ∀ row ∈ rows, row.Settled t) (k : EdgeKey) :
    (upsertedEdges rows t).lookup k = t.lookup k := by
  induction rows generalizing t with
  | nil => rfl
  | cons row rows ih =>
    have hRow := h row List.mem_cons_self
    rw [upsertedEdges_cons, ih fun r hr => Settled.congr (h r (List.mem_cons_of_mem _ hr))
      (Settled.lookup_upsertEdge hRow), Settled.lookup_upsertEdge hRow]

theorem isVictimOf_iff {edges : Table.Rows EdgeKey EdgeRow} {hackers : List Address} {a : Address} :
    isVictimOf edges hackers a = true ↔ ∃ k row, edges.lookup k = some row ∧ k.fromAddress = a ∧
      row.direction = .inToHacker ∧ k.toAddress ∈ hackers := by
  unfold isVictimOf
  rw [List.any_eq_true]
  constructor
  · rintro ⟨⟨k, row⟩, he, hc⟩
    simp only [Bool.and_eq_true, decide_eq_true_eq] at hc
    exact ⟨k, row, Table.lookup_eq_some_iff.mpr he, hc.1.1, hc.1.2, hc.2⟩
  · rintro ⟨k, row, hk, hFrom, hd, hTo⟩
    exact ⟨⟨k, row⟩, Table.lookup_eq_some_iff.mp hk, by simp [hFrom, hd, hTo]⟩

theorem isVictimOf_congr {t t' : Table.Rows EdgeKey EdgeRow}
    (ht : ∀ k, t'.lookup k = t.lookup k) (hackers : List Address) :
    isVictimOf t' hackers = isVictimOf t hackers := by
  funext a
  rw [Bool.eq_iff_iff, isVictimOf_iff, isVictimOf_iff]
  simp only [ht]

/-! ## Differences -/

theorem storedAmounts_congr {t t' : Table.Rows EdgeKey EdgeRow}
    (ht : ∀ k, t'.lookup k = t.lookup k) (chunk : List EdgeUpsertData) :
    storedAmounts chunk t' = storedAmounts chunk t := by
  funext k
  unfold storedAmounts
  rw [ht]

/-- A settled row of a sub-batch makes no difference. -/
theorem delta_of_settled {chunk : List EdgeUpsertData} {t : Table.Rows EdgeKey EdgeRow}
    {row : EdgeUpsertData} (hr : row ∈ chunk) (h : row.Settled t) :
    row.delta (storedAmounts chunk t) = 0 := by
  obtain ⟨stored, hs, hu⟩ := h
  have hTx : row.key.txid ∈ chunk.map (·.txid) := List.mem_map.mpr ⟨row, hr, rfl⟩
  have hAmount : stored.amountSats = row.amountSats := by rw [← hu]; rfl
  have hDir : stored.direction = row.direction := by rw [← hu]; rfl
  have hMem : row.direction ∈ chunk.map (·.direction) := List.mem_map.mpr ⟨row, hr, rfl⟩
  unfold EdgeUpsertData.delta storedAmounts
  rw [if_pos hTx, hs, Option.filter_some, hDir]
  simp [hMem, hAmount]

theorem deltaByTarget_of_zero {old : EdgeKey → Option Int} {rows : List EdgeUpsertData}
    (h : ∀ row ∈ rows, row.delta old = 0) : deltaByTarget old rows = [] := by
  have hNil : (rows.map fun row => (row.toAddress, row.delta old)).filter (fun e => decide (e.2 ≠ 0)) = [] := by
    rw [List.filter_eq_nil_iff]
    intro e he
    obtain ⟨row, hr, rfl⟩ := List.mem_map.mp he
    simp [h row hr]
  unfold deltaByTarget
  rw [hNil]
  rfl

theorem mem_inRows {chunk : List EdgeUpsertData} {row : EdgeUpsertData} :
    row ∈ inRows chunk ↔ row ∈ chunk ∧ row.direction = .inToHacker := by
  simp [inRows]

theorem mem_outRows {chunk : List EdgeUpsertData} {row : EdgeUpsertData} :
    row ∈ outRows chunk ↔ row ∈ chunk ∧ row.direction = .outFromHacker := by
  simp [outRows]

/-- Sub-batches of settled rows write edge rows only, and add nothing to the totals. -/
theorem chunksStmts_of_settled {chunks : List (List EdgeUpsertData)}
    {t : Table.Rows EdgeKey EdgeRow} (h : ∀ chunk ∈ chunks, ∀ row ∈ chunk, row.Settled t) :
    chunksStmts chunks t = chunks.flatMap edgeStmts ∧ chunksIn chunks t = 0 := by
  induction chunks generalizing t with
  | nil => exact ⟨rfl, rfl⟩
  | cons chunk rest ih =>
    have hChunk := h chunk List.mem_cons_self
    have hRest := ih (t := upsertedEdges chunk t) fun c hc row hr =>
      Settled.congr (h c (List.mem_cons_of_mem _ hc) row hr)
        (lookup_upsertedEdges_of_settled hChunk)
    have hIn : ∀ row ∈ inRows chunk, row.delta (storedAmounts chunk t) = 0 := fun row hr =>
      delta_of_settled (mem_inRows.mp hr).1 (hChunk row (mem_inRows.mp hr).1)
    have hOut : ∀ row ∈ outRows chunk, row.delta (storedAmounts chunk t) = 0 := fun row hr =>
      delta_of_settled (mem_outRows.mp hr).1 (hChunk row (mem_outRows.mp hr).1)
    constructor
    · rw [chunksStmts, hRest.1, List.flatMap_cons]
      unfold chunkStmts deltaStmts
      rw [deltaByTarget_of_zero hIn, deltaByTarget_of_zero hOut]
      simp
    · rw [chunksIn, hRest.2, add_zero]
      unfold chunkIn
      exact List.sum_eq_zero (by
        intro d hd
        obtain ⟨row, hr, rfl⟩ := List.mem_map.mp hd
        exact hIn row hr)

end Bloodhound.Store
