import Bloodhound.Store.EdgeRows

/-!
# Written rows

The rows of a batch that a log has written, and what the differences of the batch become
once they are written: the written rows make none any more, the others make the same. So
the sum over the whole batch splits into what the written rows owe and what a second call
still sees (`chunksDelta_split`).
-/

namespace Bloodhound.Store

open Journal

def Stmt.edgeRow? : Stmt → Option EdgeUpsertData
  | .edge (.upsert data) => some data
  | _ => none

/-- The rows of edges that a log has written. -/
def writtenRows (log : List Stmt) : List EdgeUpsertData := log.filterMap Stmt.edgeRow?

def Core.edgeRow? : Core → Option EdgeUpsertData
  | .edge (.upsert data) => some data
  | _ => none

theorem writtenRows_eq (log : List Stmt) :
    writtenRows log = (log.filterMap Stmt.core?).filterMap Core.edgeRow? := by
  unfold writtenRows
  rw [List.filterMap_filterMap]
  refine List.filterMap_congr fun i _ => ?_
  cases i with
  | scheduler s => cases s <;> rfl
  | edge s => cases s <;> rfl
  | _ => rfl

theorem edgeRows_deltaStmts (old : EdgeKey → Option Int) (chunk : List EdgeUpsertData) :
    (deltaStmts old chunk).filterMap Core.edgeRow? = [] := by
  refine List.filterMap_eq_nil_iff.mpr fun i hi => ?_
  rcases mem_deltaStmts hi with ⟨_, _, rfl⟩ | ⟨_, _, rfl⟩ <;> rfl

theorem edgeRows_chunksStmts (chunks : List (List EdgeUpsertData))
    (t : Table.Rows EdgeKey EdgeRow) :
    (chunksStmts chunks t).filterMap Core.edgeRow? = chunks.flatten := by
  induction chunks generalizing t with
  | nil => rfl
  | cons chunk rest ih =>
    have hRows : (edgeStmts chunk).filterMap Core.edgeRow? = chunk := by
      unfold edgeStmts
      rw [List.filterMap_map]
      exact List.filterMap_some
    rw [chunksStmts, List.filterMap_append, ih, List.flatten_cons]
    unfold chunkStmts
    rw [List.filterMap_append, hRows, edgeRows_deltaStmts, List.append_nil]

theorem edgeRows_totalsStmts (a b : Int) : (totalsStmts a b).filterMap Core.edgeRow? = [] := by
  unfold totalsStmts
  split <;> rfl

/-- Of the statements on edges only upserts occur, so the edges are those rows upserted. -/
theorem edges_replay_of_tracing {stmts : List Core} (h : ∀ i ∈ stmts, i.Tracing) (v : CoreView) :
    (replay stmts v).edges = upsertedEdges (stmts.filterMap Core.edgeRow?) v.edges := by
  induction stmts generalizing v with
  | nil => rfl
  | cons i stmts ih =>
    rw [replay_cons, ih fun j hj => h j (List.mem_cons_of_mem _ hj), List.filterMap_cons]
    cases h i List.mem_cons_self <;> rfl

/-- The differences of the selected rows. -/
def deltaSum (p : EdgeUpsertData → Bool) (old : EdgeKey → Option Int)
    (rows : List EdgeUpsertData) : Int :=
  ((rows.filter p).map (·.delta old)).sum

/-- The differences of the selected rows over consecutive sub-batches. -/
def chunksDelta (p : EdgeUpsertData → Bool) :
    List (List EdgeUpsertData) → Table.Rows EdgeKey EdgeRow → Int
  | [], _ => 0
  | chunk :: rest, t =>
    deltaSum p (storedAmounts chunk t) chunk + chunksDelta p rest (upsertedEdges chunk t)

/-- The amount stored under a key, zero without one. -/
def storedAmount (t : Table.Rows EdgeKey EdgeRow) (k : EdgeKey) : Int :=
  ((t.lookup k).map (·.amountSats)).getD 0

/-- What the selected rows add to the totals that count them. -/
def owed (p : EdgeUpsertData → Bool) (rows : List EdgeUpsertData)
    (t : Table.Rows EdgeKey EdgeRow) : Int :=
  ((rows.filter p).map fun row => row.amountSats - storedAmount t row.key).sum

def isPayment (row : EdgeUpsertData) : Bool := row.direction = .inToHacker

def isOutputTo (x : Address) (row : EdgeUpsertData) : Bool :=
  row.direction = .outFromHacker && row.toAddress = x

theorem chunksIn_eq (chunks : List (List EdgeUpsertData)) (t : Table.Rows EdgeKey EdgeRow) :
    chunksIn chunks t = chunksDelta isPayment chunks t := by
  induction chunks generalizing t with
  | nil => rfl
  | cons chunk rest ih =>
    rw [chunksIn, chunksDelta, ih]
    rfl

/-- The differences into an address of the rows of one direction. -/
theorem deltaInto_filter (old : EdgeKey → Option Int) (chunk : List EdgeUpsertData) (d : Direction)
    (x : Address) : deltaInto old (chunk.filter (·.direction = d)) x =
      deltaSum (fun row => row.direction = d && row.toAddress = x) old chunk := by
  induction chunk with
  | nil => rfl
  | cons row rows ih =>
    unfold deltaInto deltaSum at *
    rw [List.filter_cons, List.filter_cons]
    by_cases hd : row.direction = d
    · by_cases hx : row.toAddress = x
      · simp [hd, hx, Tally.total_cons, ih]
      · simp [hd, hx, Tally.total_cons, ih]
    · simp [hd, ih]

theorem deltaInto_outRows (old : EdgeKey → Option Int) (chunk : List EdgeUpsertData) (x : Address) :
    deltaInto old (outRows chunk) x = deltaSum (isOutputTo x) old chunk :=
  deltaInto_filter old chunk .outFromHacker x

theorem chunksInbound_eq (chunks : List (List EdgeUpsertData)) (t : Table.Rows EdgeKey EdgeRow)
    (x : Address) : chunksInbound chunks t x = chunksDelta (isOutputTo x) chunks t := by
  induction chunks generalizing t with
  | nil => rfl
  | cons chunk rest ih => rw [chunksInbound, chunksDelta, ih, deltaInto_outRows]

/-! ## Stored amounts -/

/-- A stored row in the direction of a row of the sub-batch is seen. -/
theorem storedAmounts_of_lookup {chunk : List EdgeUpsertData} {t : Table.Rows EdgeKey EdgeRow}
    {row : EdgeUpsertData} {stored : EdgeRow} (hr : row ∈ chunk)
    (hs : t.lookup row.key = some stored) (hd : stored.direction = row.direction) :
    storedAmounts chunk t row.key = some stored.amountSats := by
  have hTx : row.key.txid ∈ chunk.map (·.txid) := List.mem_map.mpr ⟨row, hr, rfl⟩
  have hDir : row.direction ∈ chunk.map (·.direction) := List.mem_map.mpr ⟨row, hr, rfl⟩
  unfold storedAmounts
  rw [if_pos hTx, hs, Option.filter_some, hd]
  simp [hDir]

theorem storedAmounts_of_none {chunk : List EdgeUpsertData} {t : Table.Rows EdgeKey EdgeRow}
    {k : EdgeKey} (h : t.lookup k = none) : storedAmounts chunk t k = none := by
  unfold storedAmounts
  rw [h]
  split <;> rfl

theorem storedAmounts_congr_at {chunk : List EdgeUpsertData} {t t' : Table.Rows EdgeKey EdgeRow}
    {k : EdgeKey} (h : t'.lookup k = t.lookup k) :
    storedAmounts chunk t' k = storedAmounts chunk t k := by
  unfold storedAmounts
  rw [h]

theorem upsertedEdges_congr {t t' : Table.Rows EdgeKey EdgeRow}
    (h : ∀ k, t'.lookup k = t.lookup k) (rows : List EdgeUpsertData) (k : EdgeKey) :
    (upsertedEdges rows t').lookup k = (upsertedEdges rows t).lookup k := by
  induction rows generalizing t t' with
  | nil => exact h k
  | cons row rows ih =>
    rw [upsertedEdges_cons, upsertedEdges_cons]
    exact ih fun k => by rw [lookup_upsertEdge, lookup_upsertEdge, h]

theorem chunksDelta_congr {t t' : Table.Rows EdgeKey EdgeRow} (h : ∀ k, t'.lookup k = t.lookup k)
    (p : EdgeUpsertData → Bool) (chunks : List (List EdgeUpsertData)) :
    chunksDelta p chunks t' = chunksDelta p chunks t := by
  induction chunks generalizing t t' with
  | nil => rfl
  | cons chunk rest ih =>
    rw [chunksDelta, chunksDelta, ih (upsertedEdges_congr h chunk), storedAmounts_congr h]

/-! ## Rows whose key occurs once -/

/-- In a list where the key of an element occurs once, the key determines the element. -/
theorem eq_of_count_one {α β : Type} [DecidableEq β] {f : α → β} {l : List α} {a b : α}
    (h : (l.map f).count (f a) = 1) (ha : a ∈ l) (hb : b ∈ l) (hf : f b = f a) : b = a := by
  induction l with
  | nil => cases ha
  | cons c l ih =>
    rw [List.map_cons, List.count_cons] at h
    by_cases hc : f c = f a
    · have hNone : f a ∉ l.map f := by
        rw [← List.count_eq_zero]
        simp [hc] at h
        simpa using h
      have hOnly : ∀ x ∈ c :: l, f x = f a → x = c := by
        intro x hx hfx
        rcases List.mem_cons.mp hx with rfl | hx
        · rfl
        · exact absurd (List.mem_map.mpr ⟨x, hx, hfx⟩) hNone
      rw [hOnly a ha rfl, hOnly b hb hf]
    · have hTail : ∀ x ∈ c :: l, f x = f a → x ∈ l := by
        intro x hx hfx
        rcases List.mem_cons.mp hx with rfl | hx
        · exact absurd hfx hc
        · exact hx
      refine ih ?_ (hTail a ha rfl) (hTail b hb hf)
      simpa [hc] using h

/-- The keys of the rows of `w` occur once in `rows`. -/
def OnceIn (rows w : List EdgeUpsertData) : Prop :=
  ∀ row ∈ w, (rows.map (·.key)).count row.key = 1

section Once

variable {rows w v : List EdgeUpsertData} {t t' : Table.Rows EdgeKey EdgeRow}

/-- The keys of a written prefix do not come back. -/
theorem OnceIn.notMem_right (h : OnceIn (w ++ v) w) {row : EdgeUpsertData} (hr : row ∈ w) :
    ∀ row' ∈ v, row'.key ≠ row.key := by
  intro row' hr' hKey
  have hCount := h row hr
  rw [List.map_append, List.count_append] at hCount
  have hLeft : 0 < (w.map (·.key)).count row.key :=
    List.count_pos_iff.mpr (List.mem_map.mpr ⟨row, hr, rfl⟩)
  have hRight : 0 < (v.map (·.key)).count row.key :=
    List.count_pos_iff.mpr (List.mem_map.mpr ⟨row', hr', hKey⟩)
  omega

theorem OnceIn.unique (h : OnceIn rows w) {row row' : EdgeUpsertData} (hw : row ∈ w)
    (hr : row ∈ rows) (hr' : row' ∈ rows) (hKey : row'.key = row.key) : row' = row :=
  eq_of_count_one (h row hw) hr hr' hKey

/-- Rows at the end of a list, by what occurs before them. -/
theorem OnceIn.tail (h : OnceIn (v ++ rows) (v ++ w)) (hSub : ∀ row ∈ w, row ∈ rows) :
    OnceIn rows w := by
  intro row hr
  have hCount := h row (List.mem_append_right _ hr)
  rw [List.map_append, List.count_append] at hCount
  have hPos : 0 < (rows.map (·.key)).count row.key :=
    List.count_pos_iff.mpr (List.mem_map.mpr ⟨row, hSub row hr, rfl⟩)
  omega

theorem OnceIn.head (h : OnceIn (rows ++ v) w) (hSub : ∀ row ∈ w, row ∈ rows) : OnceIn rows w := by
  intro row hr
  have hCount := h row hr
  rw [List.map_append, List.count_append] at hCount
  have hPos : 0 < (rows.map (·.key)).count row.key :=
    List.count_pos_iff.mpr (List.mem_map.mpr ⟨row, hSub row hr, rfl⟩)
  omega

/-- The keys of later rows are not written earlier. -/
theorem OnceIn.lookup_earlier (h : OnceIn (v ++ rows) (v ++ w)) (hSub : ∀ row ∈ w, row ∈ rows)
    (t : Table.Rows EdgeKey EdgeRow) :
    ∀ row ∈ w, (upsertedEdges v t).lookup row.key = t.lookup row.key := by
  have hOnce : OnceIn (v ++ rows) v := fun row hr => h row (List.mem_append_left _ hr)
  exact fun row hr => lookup_upsertedEdges_of_notMem (fun row' hr' hKey =>
    hOnce.notMem_right hr' row (hSub row hr) hKey.symm) t

theorem OnceIn.settled (h : OnceIn rows w) (hSub : ∀ row ∈ w, row ∈ rows) :
    ∀ row ∈ w, row.Settled (upsertedEdges w t) := fun row hr =>
  settled_upsertedEdges (fun row' hr' hKey => h.unique hr (hSub row hr) (hSub row' hr') hKey) t
    (Or.inr hr)

/-- A settled row is stored with its own amount and direction. -/
theorem lookup_of_settled {row : EdgeUpsertData} (h : row.Settled t) : ∃ stored,
    t.lookup row.key = some stored ∧ stored.amountSats = row.amountSats ∧
      stored.direction = row.direction := by
  obtain ⟨stored, hs, hu⟩ := h
  exact ⟨stored, hs, by rw [← hu]; rfl, by rw [← hu]; rfl⟩

/-- One sub-batch, of which a prefix is written. -/
theorem deltaSum_split {p : EdgeUpsertData → Bool}
    (hAligned : ∀ row ∈ w, p row → ∀ stored, t.lookup row.key = some stored →
      stored.direction = row.direction)
    (hWritten : ∀ row ∈ w, row.Settled t')
    (hOther : ∀ row ∈ v, t'.lookup row.key = t.lookup row.key) :
    deltaSum p (storedAmounts (w ++ v) t) (w ++ v) =
      owed p w t + deltaSum p (storedAmounts (w ++ v) t') (w ++ v) := by
  have hLeft : ((w.filter p).map (·.delta (storedAmounts (w ++ v) t))) =
      (w.filter p).map fun row => row.amountSats - storedAmount t row.key := by
    refine List.map_congr_left fun row hr => ?_
    obtain ⟨hrw, hp⟩ := List.mem_filter.mp hr
    unfold EdgeUpsertData.delta storedAmount
    cases hs : t.lookup row.key with
    | none => rw [storedAmounts_of_none hs, Option.map_none]
    | some stored =>
      rw [storedAmounts_of_lookup (List.mem_append_left v hrw) hs (hAligned row hrw hp stored hs),
        Option.map_some]
  have hZero : ((w.filter p).map (·.delta (storedAmounts (w ++ v) t'))).sum = 0 := by
    refine List.sum_eq_zero fun d hd => ?_
    obtain ⟨row, hr, rfl⟩ := List.mem_map.mp hd
    exact delta_of_settled (List.mem_append_left v (List.mem_of_mem_filter hr))
      (hWritten row (List.mem_of_mem_filter hr))
  have hRight : ((v.filter p).map (·.delta (storedAmounts (w ++ v) t))) =
      (v.filter p).map (·.delta (storedAmounts (w ++ v) t')) := by
    refine List.map_congr_left fun row hr => ?_
    unfold EdgeUpsertData.delta
    rw [storedAmounts_congr_at (hOther row (List.mem_of_mem_filter hr))]
  unfold deltaSum owed
  rw [List.filter_append, List.map_append, List.sum_append, List.map_append, List.sum_append, hLeft,
    hZero, hRight]
  ring

theorem owed_congr {p : EdgeUpsertData → Bool}
    (h : ∀ row ∈ w, t'.lookup row.key = t.lookup row.key) : owed p w t' = owed p w t := by
  unfold owed
  rw [List.map_congr_left fun row hr => ?_]
  unfold storedAmount
  rw [h row (List.mem_of_mem_filter hr)]

theorem owed_append (p : EdgeUpsertData → Bool) (w v : List EdgeUpsertData)
    (t : Table.Rows EdgeKey EdgeRow) : owed p (w ++ v) t = owed p w t + owed p v t := by
  unfold owed
  rw [List.filter_append, List.map_append, List.sum_append]

/-- The differences of a batch, of which a prefix is written: what the prefix owes, and what is
still seen. -/
theorem chunksDelta_split {p : EdgeUpsertData → Bool} {chunks : List (List EdgeUpsertData)}
    (hPrefix : w <+: chunks.flatten) (hOnce : OnceIn chunks.flatten w)
    (hAligned : ∀ row ∈ w, p row → ∀ stored, t.lookup row.key = some stored →
      stored.direction = row.direction)
    (ht' : ∀ k, t'.lookup k = (upsertedEdges w t).lookup k) :
    chunksDelta p chunks t = owed p w t + chunksDelta p chunks t' := by
  induction chunks generalizing w t t' with
  | nil =>
    have hNil : w = [] := List.prefix_nil.mp hPrefix
    subst hNil
    rfl
  | cons chunk rest ih =>
    rw [List.flatten_cons] at hPrefix hOnce
    have hSettled : ∀ row ∈ w, row.Settled t' := fun row hr =>
      Settled.congr (hOnce.settled (fun row hr => hPrefix.subset hr) row hr) ht'
    rw [chunksDelta, chunksDelta]
    rcases List.prefix_or_prefix_of_prefix hPrefix (List.prefix_append chunk rest.flatten) with
      hShort | hLong
    · -- the written rows end in this sub-batch
      obtain ⟨v, rfl⟩ := hShort
      have hOnce' : OnceIn (w ++ (v ++ rest.flatten)) w := by rwa [← List.append_assoc]
      have hOther : ∀ row ∈ v, t'.lookup row.key = t.lookup row.key := fun row hr =>
        (ht' row.key).trans (lookup_upsertedEdges_of_notMem (fun row' hr' hKey =>
          hOnce'.notMem_right hr' row (List.mem_append_left _ hr) hKey.symm) t)
      have hRest : ∀ k, (upsertedEdges (w ++ v) t').lookup k =
          (upsertedEdges (w ++ v) t).lookup k := by
        intro k
        rw [upsertedEdges_append, upsertedEdges_append]
        refine upsertedEdges_congr (fun k => ?_) v k
        rw [lookup_upsertedEdges_of_settled hSettled, ht']
      rw [deltaSum_split hAligned hSettled hOther, chunksDelta_congr hRest]
      ring
    · obtain ⟨w', rfl⟩ := hLong
      have hPrefix' : w' <+: rest.flatten := (List.prefix_append_right_inj chunk).mp hPrefix
      have hSame := hOnce.lookup_earlier (fun row hr => hPrefix'.subset hr) t
      have hOnceRest := hOnce.tail fun row hr => hPrefix'.subset hr
      have hChunk : ∀ k, (upsertedEdges chunk t').lookup k =
          (upsertedEdges w' (upsertedEdges chunk t)).lookup k := by
        intro k
        rw [lookup_upsertedEdges_of_settled fun row hr => hSettled row (List.mem_append_left _ hr),
          ht', upsertedEdges_append]
      have hHead := deltaSum_split (p := p) (v := []) (t := t)
        (fun row hr => hAligned row (List.mem_append_left _ hr))
        (fun row hr => hSettled row (List.mem_append_left w' hr)) fun row hr => by cases hr
      rw [List.append_nil] at hHead
      have hTail := ih (w := w') (t := upsertedEdges chunk t) hPrefix' hOnceRest
        (fun row hr hp stored hs => hAligned row (List.mem_append_right _ hr) hp stored
          ((hSame row hr).symm.trans hs)) hChunk
      rw [hHead, hTail, owed_append, owed_congr hSame]
      ring

theorem chunksDelta_of_settled {p : EdgeUpsertData → Bool} {chunks : List (List EdgeUpsertData)}
    (h : ∀ row ∈ chunks.flatten, row.Settled t) : chunksDelta p chunks t = 0 := by
  induction chunks generalizing t with
  | nil => rfl
  | cons chunk rest ih =>
    rw [List.flatten_cons] at h
    have hChunk : ∀ row ∈ chunk, row.Settled t := fun row hr => h row (List.mem_append_left _ hr)
    have hRest := ih (t := upsertedEdges chunk t) fun row hr =>
      Settled.congr (h row (List.mem_append_right _ hr)) (lookup_upsertedEdges_of_settled hChunk)
    have hHead : deltaSum p (storedAmounts chunk t) chunk = 0 := by
      refine List.sum_eq_zero fun d hd => ?_
      obtain ⟨row, hr, rfl⟩ := List.mem_map.mp hd
      exact delta_of_settled (List.mem_of_mem_filter hr) (hChunk row (List.mem_of_mem_filter hr))
    rw [chunksDelta, hHead, hRest, add_zero]

/-- A batch whose keys occur once makes the differences that its rows owe. -/
theorem chunksDelta_eq_owed {p : EdgeUpsertData → Bool} {g : List (List EdgeUpsertData)}
    (hOnce : OnceIn g.flatten g.flatten)
    (hAligned : ∀ row ∈ g.flatten, p row → ∀ stored, t.lookup row.key = some stored →
      stored.direction = row.direction) :
    chunksDelta p g t = owed p g.flatten t := by
  rw [chunksDelta_split List.prefix_rfl hOnce hAligned fun _ => rfl,
    chunksDelta_of_settled (hOnce.settled fun _ h => h), add_zero]

end Once

end Bloodhound.Store
