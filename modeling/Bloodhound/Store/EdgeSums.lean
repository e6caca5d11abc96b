import Bloodhound.Store.Written

/-!
# Sums over the edges

The totals that the store keeps beside the edges are sums of amounts over the edges with a
certain target and direction. An upsert takes the selected amount stored under its key out
of the sum and puts its own amount in; a batch adjusts the kept total by differences
against what it has read at the start of each sub-batch. The two agree where every row
replaces in the sum exactly what was read (`sumOf_upsertedEdges`, `sumOf_flatten`).
-/

namespace Bloodhound.Store

open Journal

/-- Which edges a total counts, by target and direction. -/
abbrev Selection : Type := Address → Direction → Bool

def EdgeUpsertData.selected (q : Selection) (row : EdgeUpsertData) : Bool :=
  q row.toAddress row.direction

/-- The sum of the amounts of the selected edges. -/
def sumOf (q : Selection) (t : Table.Rows EdgeKey EdgeRow) : Int :=
  Table.sum (fun k r => if q k.toAddress r.direction then r.amountSats else 0) t

/-- What the edge under a key contributes to the sum. -/
def contribution (q : Selection) (t : Table.Rows EdgeKey EdgeRow) (k : EdgeKey) : Int :=
  (t.lookup k).elim 0 fun r => if q k.toAddress r.direction then r.amountSats else 0

/-- The amount of a row where the total counts it. -/
def EdgeUpsertData.counted (q : Selection) (row : EdgeUpsertData) : Int :=
  if row.selected q then row.amountSats else 0

theorem sumOf_upsertEdge (q : Selection) (row : EdgeUpsertData) (t : Table.Rows EdgeKey EdgeRow) :
    sumOf q ((EdgeStmt.upsert row).exec t) = sumOf q t + row.counted q - contribution q t row.key := by
  unfold sumOf EdgeStmt.exec EdgeUpsertData.counted EdgeUpsertData.selected contribution
  rw [Table.sum_insert]
  cases t.lookup row.key <;> rfl

/-- Each row replaces in the sum, at the time it is written, the amount that was read for its key
where the row is counted, and nothing where it is not. -/
def Replaces (q : Selection) (old : EdgeKey → Option Int) :
    List EdgeUpsertData → Table.Rows EdgeKey EdgeRow → Prop
  | [], _ => True
  | row :: rows, t =>
    contribution q t row.key = (if row.selected q then (old row.key).getD 0 else 0) ∧
      Replaces q old rows ((EdgeStmt.upsert row).exec t)

theorem sumOf_upsertedEdges {q : Selection} {old : EdgeKey → Option Int} {rows : List EdgeUpsertData}
    {t : Table.Rows EdgeKey EdgeRow} (h : Replaces q old rows t) :
    sumOf q (upsertedEdges rows t) = sumOf q t + deltaSum (·.selected q) old rows := by
  induction rows generalizing t with
  | nil =>
    show sumOf q t = sumOf q t + 0
    rw [add_zero]
  | cons row rows ih =>
    rw [upsertedEdges_cons, ih h.2, sumOf_upsertEdge, h.1]
    unfold deltaSum EdgeUpsertData.counted EdgeUpsertData.delta
    rw [List.filter_cons]
    by_cases hq : row.selected q
    · simp only [hq, if_true, List.map_cons, List.sum_cons]
      omega
    · simp only [hq, Bool.false_eq_true, if_false]
      omega

/-- The same for consecutive sub-batches, each of which reads at its start. -/
def ReplacesAll (q : Selection) : List (List EdgeUpsertData) → Table.Rows EdgeKey EdgeRow → Prop
  | [], _ => True
  | chunk :: rest, t =>
    Replaces q (storedAmounts chunk t) chunk t ∧ ReplacesAll q rest (upsertedEdges chunk t)

theorem sumOf_flatten {q : Selection} {chunks : List (List EdgeUpsertData)}
    {t : Table.Rows EdgeKey EdgeRow} (h : ReplacesAll q chunks t) :
    sumOf q (upsertedEdges chunks.flatten t) = sumOf q t + chunksDelta (·.selected q) chunks t := by
  induction chunks generalizing t with
  | nil =>
    show sumOf q t = sumOf q t + 0
    rw [add_zero]
  | cons chunk rest ih =>
    rw [List.flatten_cons, upsertedEdges_append, ih h.2, sumOf_upsertedEdges h.1, chunksDelta]
    omega

/-! ## Deletions -/

/-- A deletion that takes no selected amount away leaves the sum. -/
theorem sumOf_filter {q : Selection} {p : EdgeKey → EdgeRow → Bool} {t : Table.Rows EdgeKey EdgeRow}
    (h : ∀ k r, t.lookup k = some r → q k.toAddress r.direction → p k r = false → r.amountSats = 0) :
    sumOf q (Table.filter p t) = sumOf q t := by
  unfold sumOf
  rw [Table.sum_filter]
  refine congrArg List.sum (List.map_congr_left fun e he => ?_)
  have hLookup : t.lookup e.1 = some e.2 := Table.lookup_eq_some_iff.mpr he
  dsimp only
  by_cases hp : p e.1 e.2
  · rw [if_pos hp]
  · rw [if_neg hp]
    split
    · next hq => rw [h e.1 e.2 hLookup hq (Bool.not_eq_true _ ▸ hp)]
    · rfl

theorem sumOf_eq_zero {q : Selection} {t : Table.Rows EdgeKey EdgeRow}
    (h : ∀ k r, t.lookup k = some r → q k.toAddress r.direction = false) : sumOf q t = 0 := by
  refine List.sum_eq_zero fun d hd => ?_
  obtain ⟨e, he, rfl⟩ := List.mem_map.mp hd
  dsimp only
  rw [h e.1 e.2 (Table.lookup_eq_some_iff.mpr he)]
  rfl

end Bloodhound.Store
