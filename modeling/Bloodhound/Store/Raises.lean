import Bloodhound.Store.EdgeOps

/-!
# How far inbound totals can rise

A list of statements raises the inbound total of an address at no point by more than the sum of its
additions (`raiseAt`). For an edge batch that is at most the sum of the amounts that its rows pay out to
the address (`raiseAt_batchStmts_le`), as long as no stored amount is negative.
-/

namespace Bloodhound.Store

open Journal

/-- No amount is negative. -/
def AmountsNonneg (t : Table.Rows EdgeKey EdgeRow) : Prop :=
  ∀ k row, t.lookup k = some row → 0 ≤ row.amountSats

theorem amountsNonneg_upsert {data : EdgeUpsertData} {t : Table.Rows EdgeKey EdgeRow}
    (hData : 0 ≤ data.amountSats) (h : AmountsNonneg t) : AmountsNonneg ((EdgeStmt.upsert data).exec t) := by
  intro k row hRow
  rw [lookup_upsertEdge] at hRow
  split at hRow
  · cases hOld : t.lookup k with
    | none => rw [hOld] at hRow; cases hRow; exact hData
    | some old => rw [hOld] at hRow; cases hRow; exact hData
  · exact h k row hRow

theorem amountsNonneg_upsertedEdges {rows : List EdgeUpsertData} {t : Table.Rows EdgeKey EdgeRow}
    (hRows : ∀ row ∈ rows, 0 ≤ row.amountSats) (h : AmountsNonneg t) :
    AmountsNonneg (upsertedEdges rows t) := by
  induction rows generalizing t with
  | nil => exact h
  | cons row rows ih =>
    exact ih (fun r hr => hRows r (List.mem_cons_of_mem _ hr))
      (amountsNonneg_upsert (hRows row List.mem_cons_self) h)

/-! ## The bound of a list -/

def raiseAt (x : Address) (stmts : List Core) : Int := (stmts.map fun i => max 0 (i.inboundDelta x)).sum

@[simp] theorem raiseAt_nil (x : Address) : raiseAt x [] = 0 := rfl

@[simp] theorem raiseAt_cons (x : Address) (i : Core) (l : List Core) :
    raiseAt x (i :: l) = max 0 (i.inboundDelta x) + raiseAt x l := by
  simp [raiseAt]

@[simp] theorem raiseAt_append (x : Address) (l l' : List Core) :
    raiseAt x (l ++ l') = raiseAt x l + raiseAt x l' := by
  simp [raiseAt]

theorem raiseAt_nonneg (x : Address) (l : List Core) : 0 ≤ raiseAt x l :=
  List.sum_nonneg fun d hd => by
    obtain ⟨i, _, rfl⟩ := List.mem_map.mp hd
    exact le_max_left _ _

theorem raiseAt_eq_zero {x : Address} {stmts : List Core} (h : ∀ i ∈ stmts, i.inboundDelta x = 0) :
    raiseAt x stmts = 0 :=
  List.sum_eq_zero fun d hd => by
    obtain ⟨i, hi, rfl⟩ := List.mem_map.mp hd
    rw [h i hi]
    rfl

theorem inboundSum_le_raiseAt (x : Address) (l : List Core) : inboundSum x l ≤ raiseAt x l := by
  induction l with
  | nil => exact le_rfl
  | cons i l ih =>
    rw [inboundSum_cons, raiseAt_cons]
    exact add_le_add (le_max_right _ _) ih

/-- What has been added at any point of a list. -/
theorem inboundSum_le_of_prefix {x : Address} {p stmts : List Core} (h : p <+: stmts) :
    inboundSum x p ≤ raiseAt x stmts := by
  obtain ⟨rest, rfl⟩ := h
  rw [raiseAt_append]
  have hRest := raiseAt_nonneg x rest
  have hLe := inboundSum_le_raiseAt x p
  omega

/-- One addition for each address. -/
theorem raiseAt_inboundStmts (x : Address) {credits : List (Address × Int)}
    (hKeys : (credits.map Prod.fst).Nodup) :
    raiseAt x (credits.flatMap inboundStmts) = max 0 (Tally.total x credits) := by
  induction credits with
  | nil => rfl
  | cons e credits ih =>
    rw [List.map_cons, List.nodup_cons] at hKeys
    have hOne : raiseAt x (inboundStmts e) = if e.1 = x then max 0 e.2 else 0 := by
      unfold inboundStmts
      by_cases hZero : e.2 = 0
      · rw [if_pos hZero, hZero]
        simp
      · rw [if_neg hZero]
        by_cases hx : e.1 = x <;> simp [Core.inboundDelta, hx]
    rw [List.flatMap_cons, raiseAt_append, ih hKeys.2, hOne, Tally.total_cons]
    by_cases hx : e.1 = x
    · have hRest : Tally.total x credits = 0 := Tally.total_eq_zero (hx ▸ hKeys.1)
      rw [if_pos hx, if_pos hx, hRest]
      simp
    · rw [if_neg hx, if_neg hx, zero_add, zero_add]

theorem raiseAt_receivedStmts (x : Address) (credits : List (Address × Int)) :
    raiseAt x (credits.flatMap receivedStmts) = 0 := by
  refine raiseAt_eq_zero fun i hi => ?_
  obtain ⟨e, _, he⟩ := List.mem_flatMap.mp hi
  unfold receivedStmts at he
  split at he
  · cases he
  · rw [List.mem_singleton.mp he]
    rfl

/-! ## Batches -/

/-- What the rows pay out to an address. -/
def outSats (x : Address) (rows : List EdgeUpsertData) : Int :=
  Tally.total x ((outRows rows).map fun row => (row.toAddress, row.amountSats))

theorem outSats_append (x : Address) (rows rows' : List EdgeUpsertData) :
    outSats x (rows ++ rows') = outSats x rows + outSats x rows' := by
  unfold outSats outRows
  rw [List.filter_append, List.map_append, Tally.total_append]

theorem outSats_nonneg (x : Address) {rows : List EdgeUpsertData}
    (hRows : ∀ row ∈ rows, 0 ≤ row.amountSats) : 0 ≤ outSats x rows := by
  refine Tally.total_nonneg fun e he => ?_
  obtain ⟨row, hRow, rfl⟩ := List.mem_map.mp he
  exact hRows row (List.mem_of_mem_filter hRow)

theorem outSats_eq_zero {x : Address} {rows : List EdgeUpsertData}
    (h : ∀ row ∈ rows, row.direction = .outFromHacker → row.toAddress ≠ x) : outSats x rows = 0 := by
  refine Tally.total_eq_zero fun hMem => ?_
  obtain ⟨e, he, hx⟩ := List.mem_map.mp hMem
  obtain ⟨row, hRow, rfl⟩ := List.mem_map.mp he
  obtain ⟨hRow, hOut⟩ := List.mem_filter.mp hRow
  exact h row hRow (of_decide_eq_true hOut) hx

/-- A row makes at most the difference of its amount. -/
theorem deltaInto_le_outSats {t : Table.Rows EdgeKey EdgeRow} (h : AmountsNonneg t)
    (chunk rows : List EdgeUpsertData) (x : Address) :
    deltaInto (storedAmounts chunk t) (outRows rows) x ≤ outSats x rows := by
  have hStored : ∀ key, 0 ≤ (storedAmounts chunk t key).getD 0 := by
    intro key
    unfold storedAmounts
    split
    · cases hRow : t.lookup key with
      | none => exact le_rfl
      | some row =>
        cases hKept : (some row).filter fun row => decide (row.direction ∈ chunk.map (·.direction)) with
        | none => exact le_rfl
        | some row' =>
          cases (Option.filter_eq_some_iff.mp hKept).1
          exact h key row hRow
    · exact le_rfl
  unfold deltaInto outSats
  generalize outRows rows = out
  induction out with
  | nil => exact le_rfl
  | cons row out ih =>
    rw [List.map_cons, List.map_cons, Tally.total_cons, Tally.total_cons]
    refine add_le_add ?_ ih
    dsimp only
    split
    · unfold EdgeUpsertData.delta
      have hKey := hStored row.key
      omega
    · exact le_rfl

theorem raiseAt_chunkStmts_le {chunk : List EdgeUpsertData} {t : Table.Rows EdgeKey EdgeRow}
    (hRows : ∀ row ∈ chunk, 0 ≤ row.amountSats) (h : AmountsNonneg t) (x : Address) :
    raiseAt x (chunkStmts chunk t) ≤ outSats x chunk := by
  have hEdges : raiseAt x (edgeStmts chunk) = 0 := by
    refine raiseAt_eq_zero fun i hi => ?_
    obtain ⟨row, _, rfl⟩ := List.mem_map.mp hi
    rfl
  have hKeys : ((deltaByTarget (storedAmounts chunk t) (outRows chunk)).map Prod.fst).Nodup :=
    Tally.nodup_tally _
  unfold chunkStmts deltaStmts
  rw [raiseAt_append, raiseAt_append, hEdges, raiseAt_receivedStmts, raiseAt_inboundStmts x hKeys,
    total_deltaByTarget, zero_add, zero_add]
  exact max_le (outSats_nonneg x hRows) (deltaInto_le_outSats h chunk chunk x)

theorem raiseAt_chunksStmts_le {chunks : List (List EdgeUpsertData)} {t : Table.Rows EdgeKey EdgeRow}
    (hRows : ∀ row ∈ chunks.flatten, 0 ≤ row.amountSats) (h : AmountsNonneg t) (x : Address) :
    raiseAt x (chunksStmts chunks t) ≤ outSats x chunks.flatten := by
  induction chunks generalizing t with
  | nil => exact le_rfl
  | cons chunk rest ih =>
    rw [List.flatten_cons] at hRows ⊢
    have hChunk : ∀ row ∈ chunk, 0 ≤ row.amountSats := fun row hr => hRows row (List.mem_append_left _ hr)
    rw [chunksStmts, raiseAt_append, outSats_append]
    exact add_le_add (raiseAt_chunkStmts_le hChunk h x)
      (ih (fun row hr => hRows row (List.mem_append_right _ hr)) (amountsNonneg_upsertedEdges hChunk h))

/-- A batch raises an address by at most what its rows pay out to it. -/
theorem raiseAt_batchStmts_le {rows : List EdgeUpsertData} {t : Table.Rows EdgeKey EdgeRow}
    (hRows : ∀ row ∈ rows, 0 ≤ row.amountSats) (h : AmountsNonneg t) (env : Env) (x : Address) :
    raiseAt x (batchStmts env rows t) ≤ outSats x rows := by
  have hTotals : ∀ a b, raiseAt x (totalsStmts a b) = 0 := by
    intro a b
    refine raiseAt_eq_zero fun i hi => ?_
    unfold totalsStmts at hi
    split at hi
    · cases hi
    · rw [List.mem_singleton.mp hi]
      rfl
  unfold batchStmts
  rw [raiseAt_append, hTotals, add_zero]
  have hFlat : (chunkArray env.store.d1BatchSize rows).flatten = rows := flatten_chunkArray _ _
  have hLe := raiseAt_chunksStmts_le (hFlat.symm ▸ hRows) h x
  rwa [hFlat] at hLe

theorem amountsNonneg_of_batchStmts {rows : List EdgeUpsertData} {t : Table.Rows EdgeKey EdgeRow}
    {env : Env} (hRows : ∀ row ∈ rows, 0 ≤ row.amountSats) {i : Core} (hi : i ∈ batchStmts env rows t)
    {v : CoreView} (h : AmountsNonneg v.edges) : AmountsNonneg (exec i v).edges := by
  rcases List.mem_append.mp hi with hi | hi
  · rcases mem_chunksStmts_edge hi with ⟨row, hRow, rfl⟩ | ⟨a, d, rfl⟩ | ⟨a, d, rfl⟩
    · rw [flatten_chunkArray] at hRow
      exact amountsNonneg_upsert (hRows row hRow) h
    · exact h
    · exact h
  · unfold totalsStmts at hi
    split at hi
    · cases hi
    · rw [List.mem_singleton.mp hi]
      exact h

end Bloodhound.Store
