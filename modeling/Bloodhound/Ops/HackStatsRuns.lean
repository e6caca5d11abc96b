import Bloodhound.Ops.RemoveHacker
import Bloodhound.Store.HackPayments

/-!
# Statistics of the hacks over runs

Runs of the operations that write addresses and edges, against `reconcileHackStats`. The rows of
`hack_stats` and `hack_victims` stay the reconciled ones where every operation does to the flagged
addresses and the payments what its adjustments assume of it (`hackReconciled_of_run`): a flag or a hack
changes, and an edge or an address goes, only where the victims of the hacks stay the same ones.
-/

namespace Bloodhound.Ops

open Indexer Store
open Journal Journal.Op

/-! ## Exact statistics -/

/-- The stored statistics are the totals of the tables, and the stored victims are the senders of the
stored payments. -/
structure HackExact (db : Db) : Prop where
  received : ReceivedNonneg db.addresses
  settled : HackSettled db.addresses db.hackVictims db.edges db
  victims : VictimsExact db.hackVictims db.addresses db.edges

theorem hackExact_of_settled {t : AddressTable} {v : VictimTable} {e : EdgeTable} {s : Db}
    (h : HackSettled t v e s) (hReceived : ReceivedNonneg t) (hVictims : VictimsExact v t e) :
    HackExact s := by
  obtain ⟨hTable, rfl, rfl, -, -⟩ := id h
  exact ⟨hReceived.congr hTable, h.same hTable.symm,
    hVictims.same (hTable.symm.pairs s.edges)⟩

/-! ### The reconciled rows -/

theorem victimStat_congr {v v' : VictimTable} (h : ∀ pair, v.lookup pair = v'.lookup pair)
    (k : HackStatsField × HackId) : victimStat v k = victimStat v' k := by
  unfold victimStat
  split
  · exact Table.sum_congr h
  · rfl

theorem lookup_ensure {s : Table.Rows HackId HackStatsRow} {id : HackId} (h : (s.lookup id).isSome = true)
    (id' : HackId) : ((HackStatsStmt.ensure id).exec s).lookup id' = s.lookup id' := by
  obtain ⟨row, hRow⟩ := Option.isSome_iff_exists.mp h
  unfold HackStatsStmt.exec
  rw [Table.lookup_insert_if, hRow]
  split
  · next hEq => rw [hEq, hRow, Option.getD_some]
  · rfl

/-- The rows of the known hacks are there already. -/
theorem lookup_ensured {s : Table.Rows HackId HackStatsRow} (ids : List HackId)
    (h : ∀ id ∈ ids, (s.lookup id).isSome = true) (id : HackId) :
    (ids.foldl (fun t id => (HackStatsStmt.ensure id).exec t) s).lookup id = s.lookup id := by
  induction ids generalizing s with
  | nil => rfl
  | cons first ids ih =>
    have hFirst := lookup_ensure (h first List.mem_cons_self)
    rw [List.foldl_cons, ih fun id' hMem => by rw [hFirst]; exact h id' (List.mem_cons_of_mem _ hMem), hFirst]

theorem HackExact.reconciled {db : Db} (h : HackExact db) : HackReconciled db := by
  have hVictims : ∀ pair, db.hackVictims.lookup pair =
      (insertVictims ∅ (victimPairs db.addresses db.edges)).lookup pair := by
    intro pair
    have hIff : (db.hackVictims.lookup pair).isSome = true ↔
        ((insertVictims ∅ (victimPairs db.addresses db.edges)).lookup pair).isSome = true := by
      rw [isSome_insertVictims, h.victims pair]
      simp
    cases hOld : db.hackVictims.lookup pair <;>
      cases hNew : (insertVictims ∅ (victimPairs db.addresses db.edges)).lookup pair <;>
      simp [hOld, hNew] at hIff ⊢
  refine ⟨fun id => ?_, hVictims⟩
  unfold reconcileHackStats
  dsimp only
  rw [Table.lookup_mapRows, lookup_ensured _ h.settled.known]
  have hStat : ∀ f, db.hackStat (f, id) = hackTotal db.addresses
      (insertVictims ∅ (victimPairs db.addresses db.edges)) (f, id) := by
    intro f
    have := h.settled.stats (f, id)
    rw [hackTotal, ← victimStat_congr hVictims]
    rw [add_zero, hackTotal] at this
    exact this
  cases hRow : db.hackStats.lookup id with
  | none => rfl
  | some row =>
    have hGet : ∀ f, db.hackStat (f, id) = row.get f := fun f => by rw [Db.hackStat, hRow, Option.getD_some]
    rw [Option.map_some, ← hStat, ← hStat, ← hStat, hGet, hGet, hGet]
    rfl

/-! ## Rows -/

/-- The rows that are written change as their adjustments assume. -/
structure RowsFollowed (db : Db) (t : AddressTable) : Prop where
  rows : ∀ a row, t.lookup a = some row → StatsTracked (db.addresses.lookup a) row
  received : ReceivedNonneg t

/-- Besides, the senders of the stored payments stay the victims of the same hacks. -/
structure RowsTracked (db : Db) (t : AddressTable) : Prop extends RowsFollowed db t where
  pairs : SamePairs db.addresses db.edges t db.edges

section Rows

variable {db : Db} {t : AddressTable}

/-- What the rows written since `db` owe a number. -/
def rowsOwed (db : Db) (t : AddressTable) (as : List Address) (k : HackStatsField × HackId) : Int :=
  (as.map fun a => hackShare (t.lookup a) k - hackShare (db.addresses.lookup a) k).sum

/-- The state after the rows of some addresses were written. -/
structure RowsWritten (db : Db) (t : AddressTable) (as : List Address) (s : Db) : Prop where
  table : s.addresses = t
  off : HackOff t db.hackVictims db.edges (rowsOwed db t as) s

theorem rowsWritten {as : List Address} (hExact : HackExact db) (hNodup : as.Nodup)
    (hApart : ∀ a, a ∉ as → t.lookup a = db.addresses.lookup a) :
    RowsWritten db t as { db with addresses := t } := by
  have hSame : SameHackers ({ db with addresses := t } : Db).addresses t := fun _ => rfl
  refine ⟨rfl, (hExact.settled.write hSame rfl rfl).congr fun k => ?_⟩
  rw [hackTotal_apart hNodup hApart, zero_add, add_sub_cancel_left]
  rfl

theorem RowsWritten.finished {s : Db} (hExact : HackExact db) (hTracked : RowsTracked db t)
    (h : HackSettled t db.hackVictims db.edges s) : HackExact s :=
  hackExact_of_settled h hTracked.received (hExact.victims.same hTracked.pairs)

theorem triple_invalidate {as : List Address} {cond : Prop} [Decidable cond] :
    Triple (RowsWritten db t as)
      (when cond (run (.scheduler .invalidateFlaggedHackersCache)) : StoreM Unit)
      (fun _ => RowsWritten db t as) fun _ _ => True :=
  triple_when (fun _ => triple_run (fun _ h => ⟨h.table, h.off.exec rfl⟩) fun _ _ _ => trivial)
    fun _ _ h => h

/-- The adjustments for one of the written rows. -/
theorem triple_settleRow (hExact : HackExact db) (hFollowed : RowsFollowed db t) {a : Address}
    {rest : List Address} {row : AddressRow} (hRow : t.lookup a = some row) (hNodup : (a :: rest).Nodup) :
    Triple (HackOff t db.hackVictims db.edges (rowsOwed db t (a :: rest)))
      (applyAddressStatsDelta (db.addresses.lookup a) row)
      (fun _ => HackOff t db.hackVictims db.edges (rowsOwed db t rest)) fun _ _ => True := by
  have hShare : ∀ k, hackShare (t.lookup a) k = row.hackStat k := fun k => by rw [hRow]; rfl
  refine hack_applyAddressStatsDelta (hFollowed.rows a row hRow) (fun k => ?_) (fun k => ?_) fun k => ?_
  · rw [rowsOwed, List.map_cons, List.sum_cons, hShare]
    rfl
  · rw [← hShare]
    exact hFollowed.received.share a k
  · -- what the later rows gain and this row's share are part of the new total
    have hRest : rowsOwed db t rest k ≤ (rest.map fun b => hackShare (t.lookup b) k).sum :=
      List.sum_le_sum fun b _ => by
        have := hExact.received.share b k
        omega
    have hTotal := @shares_le_hackTotal t db.hackVictims k hFollowed.received _ hNodup
    rw [List.map_cons, List.sum_cons, hShare] at hTotal
    omega

theorem apart_maybeMark (before after : Option AddressRow) :
    (maybeMarkMonitorSnapshotDirty before after).Emits fun i => i.apartFromHacks = true := by
  refine (emits_query _).bind fun state => emits_when fun _ => emits_when fun _ => ?_
  refine (emits_query _).bind fun state => emits_now.bind fun _ => emits_now.bind fun _ => ?_
  split <;> exact emits_run rfl

theorem triple_readRow_hack (a : Address) {as : List Address} :
    Triple (RowsWritten db t as) (getAddress a) (fun row s => RowsWritten db t as s ∧ row = t.lookup a)
      fun _ _ => True :=
  triple_query (fun _ h => ⟨h, by rw [h.table]⟩) fun _ _ _ => trivial

/-- The adjustments after one row was written. -/
theorem triple_adjustRow (hExact : HackExact db) (hFollowed : RowsFollowed db t) {a : Address}
    {row : AddressRow} (hRow : t.lookup a = some row) :
    Triple (RowsWritten db t [a]) (adjustForRow (db.addresses.lookup a) row)
      (fun _ => HackSettled t db.hackVictims db.edges)
      fun _ _ => True :=
  ((triple_settleRow hExact hFollowed hRow (List.nodup_singleton a)).pre fun _ h => h.off).bind
    fun _ => hack_apart (apart_maybeMark _ _)

theorem triple_upsertAddress_hack (data : AddressUpsertData) (hExact : HackExact db)
    (hFollowed : RowsFollowed db ((AddressStmt.upsert data).exec db.addresses)) :
    Triple (fun s => s = db) (upsertAddress data)
      (fun _ => HackSettled ((AddressStmt.upsert data).exec db.addresses) db.hackVictims db.edges)
      fun _ _ => True := by
  refine Triple.bind (Q := fun existing s => s = db ∧ existing = db.addresses.lookup data.address)
    (triple_query (fun s h => ⟨h, by rw [h]⟩) fun _ _ _ => trivial) fun existing => ?_
  refine triple_of_fact fun hExisting => ?_
  subst hExisting
  refine Triple.bind (Q := fun _ => RowsWritten db ((AddressStmt.upsert data).exec db.addresses)
    [data.address]) (triple_run (fun s h => ?_) fun _ _ _ => trivial) fun _ => ?_
  · subst h
    exact rowsWritten hExact (List.nodup_singleton _) fun a ha =>
      lookup_upsert_ne fun hEq => ha (List.mem_singleton.mpr hEq)
  refine triple_invalidate.bind fun _ => (triple_readRow_hack data.address).bind fun updated => ?_
  refine triple_of_fact fun hUpdated => ?_
  have hRow := hUpdated.symm
  rw [lookup_upsert, if_pos rfl] at hUpdated
  subst hUpdated
  refine Triple.bind ?_ fun _ => triple_pure () fun _ h => h
  refine Triple.bind (Q := fun _ => RowsWritten db _ [data.address]) (triple_when (fun _ => ?_)
    fun _ _ h => h) fun _ => triple_adjustRow hExact hFollowed hRow
  exact triple_run (fun _ h => ⟨h.table, h.off.exec rfl⟩) fun _ _ _ => trivial

theorem triple_insertAddressIfMissing_hack (data : AddressUpsertData) (hExact : HackExact db)
    (hTracked : db.addresses.lookup data.address = none →
      RowsTracked db ((AddressStmt.upsert data).exec db.addresses)) :
    Triple (fun s => s = db) (insertAddressIfMissing data) (fun _ => HackExact) fun _ _ => True := by
  refine Triple.bind (Q := fun inserted s => if inserted then db.addresses.lookup data.address = none ∧
      RowsWritten db ((AddressStmt.upsert data).exec db.addresses) [data.address] s
    else HackExact s) (triple_bounded fun s h => ?_) fun inserted => ?_
  · subst h
    split
    · exact triple_step (fun s h => by rw [if_neg Bool.false_ne_true]; exact h ▸ hExact) fun _ _ _ => trivial
    · next hMissing =>
      rw [Bool.not_eq_true, Option.isSome_eq_false_iff, Option.isNone_iff_eq_none] at hMissing
      refine triple_step (fun s h => ?_) fun _ _ _ => trivial
      subst h
      rw [if_pos rfl]
      exact ⟨hMissing, rowsWritten hExact (List.nodup_singleton _) fun a ha =>
        lookup_upsert_ne fun hEq => ha (List.mem_singleton.mpr hEq)⟩
  cases inserted with
  | false =>
    refine Triple.bind (triple_when (fun h => absurd h.1 Bool.false_ne_true) fun _ _ h => h) fun _ =>
      Triple.bind (triple_when (fun h => absurd h Bool.false_ne_true) fun _ _ h => h) fun _ =>
      triple_pure false fun _ h => h
  | true =>
    refine Triple.pre (P := fun s => RowsWritten db ((AddressStmt.upsert data).exec db.addresses)
      [data.address] s ∧ db.addresses.lookup data.address = none) ?_ fun s h => ⟨h.2, h.1⟩
    refine triple_of_fact fun hMissing => ?_
    refine Triple.bind (Q := fun _ => RowsWritten db _ [data.address]) (triple_when (fun _ =>
      triple_when (fun _ => triple_run (fun _ h => ⟨h.table, h.off.exec rfl⟩) fun _ _ _ => trivial)
      fun _ _ h => h) fun _ _ h => h) fun _ => ?_
    refine Triple.bind (triple_when (fun _ => ?_) fun h => absurd rfl h) fun _ => triple_pure true fun _ h => h
    refine (triple_readRow_hack data.address).bind fun updated => triple_of_fact fun hUpdated => ?_
    have hRow := hUpdated.symm
    rw [lookup_upsert, if_pos rfl] at hUpdated
    subst hUpdated
    refine Triple.bind ?_ fun _ => triple_pure () fun _ h => h
    have hAdjust := triple_adjustRow hExact (hTracked hMissing).toRowsFollowed hRow
    rw [hMissing] at hAdjust ⊢
    exact hAdjust.post fun _ _ h => RowsWritten.finished hExact (hTracked hMissing) h

/-! ### Batches -/

theorem isSome_upsertedRows {rows : List AddressUpsertData} {a : Address}
    (ha : a ∈ rows.map (·.address)) (t : AddressTable) : ((upsertedRows rows t).lookup a).isSome = true := by
  induction rows generalizing t with
  | nil => cases ha
  | cons data rows ih =>
    by_cases hLater : a ∈ rows.map (·.address)
    · exact ih hLater _
    · have hEq : a = data.address := by simpa [hLater] using ha
      show ((upsertedRows rows ((AddressStmt.upsert data).exec t)).lookup a).isSome = true
      rw [lookup_upsertedRows hLater, lookup_upsert, if_pos hEq]
      rfl

theorem triple_writeRows_hack (env : Env) (rows : List AddressUpsertData) :
    Triple (fun s => s = { db with addresses := t })
      (executeSqlBatch env (rows.map fun data => .address (.upsert data)))
      (fun _ s => s = { db with addresses := upsertedRows rows t }) fun _ _ => True := by
  unfold executeSqlBatch
  split
  · next hNone =>
    rw [List.map_eq_nil_iff] at hNone
    subst hNone
    exact triple_pure () fun _ h => h
  split
  · refine triple_step (fun s h => ?_) fun _ _ _ => trivial
    rw [replay_upserts, h]
  · rename_i hSome _
    clear hSome
    induction rows generalizing t with
    | nil => exact triple_pure () fun _ h => h
    | cons data rows ih =>
      refine Triple.bind (triple_run (fun s h => ?_) fun _ _ _ => trivial) fun _ => ih
      rw [h]
      rfl

theorem triple_writeChunks_hack (env : Env) (rows : List AddressUpsertData) :
    Triple (fun s => s = db)
      (forEach (chunkArray env.store.d1BatchSize rows) fun chunk =>
        executeSqlBatch env (chunk.map fun data => .address (.upsert data)))
      (fun _ s => s = { db with addresses := upsertedRows rows db.addresses }) fun _ _ => True := by
  have hLoop : ∀ (chunks : List (List AddressUpsertData)) (t : AddressTable),
      Triple (fun s => s = { db with addresses := t })
        (forEach chunks fun chunk => executeSqlBatch env (chunk.map fun data => .address (.upsert data)))
        (fun _ s => s = { db with addresses := upsertedRows chunks.flatten t }) fun _ _ => True := by
    intro chunks
    induction chunks with
    | nil => exact fun t => triple_pure () fun _ h => h
    | cons chunk rest ih =>
      intro t
      have hRows : upsertedRows (chunk :: rest).flatten t = upsertedRows rest.flatten (upsertedRows chunk t) :=
        List.foldl_append
      rw [hRows]
      exact (triple_writeRows_hack env chunk).bind fun _ => ih _
  have hAll := hLoop (chunkArray env.store.d1BatchSize rows) db.addresses
  rwa [flatten_chunkArray] at hAll

theorem triple_upsertAddressesBatch_hack (env : Env) (rows : List AddressUpsertData) (hExact : HackExact db)
    (hTracked : RowsTracked db (upsertedRows rows db.addresses)) :
    Triple (fun s => s = db) (upsertAddressesBatch env rows) (fun _ => HackExact) fun _ _ => True := by
  refine triple_when (fun _ => ?_) fun _ s h => h ▸ hExact
  have hNodup : (rows.map (·.address)).dedup.reverse.Nodup := List.nodup_reverse.mpr (List.nodup_dedup _)
  have hSeen : ∀ a, a ∈ (rows.map (·.address)).dedup.reverse ↔ a ∈ rows.map (·.address) := fun a => by
    rw [List.mem_reverse, List.mem_dedup]
  refine Triple.bind (Q := fun before s => s = db ∧
    ∀ a ∈ rows.map (·.address), before a = db.addresses.lookup a)
    (triple_query (fun s h => ⟨h, fun a ha => (if_pos ha).trans (by rw [h])⟩) fun _ _ _ => trivial)
    fun before => triple_of_fact fun hBefore => ?_
  refine Triple.bind (Q := fun _ => RowsWritten db (upsertedRows rows db.addresses)
    (rows.map (·.address)).dedup.reverse) ((triple_writeChunks_hack env rows).post fun _ s h => ?_) fun _ => ?_
  · subst h
    exact rowsWritten hExact hNodup fun a ha => lookup_upsertedRows (fun hMem => ha ((hSeen a).mpr hMem)) _
  refine triple_invalidate.bind fun _ => ?_
  have hWritten := fun a ha => @isSome_upsertedRows rows a ha db.addresses
  generalize upsertedRows rows db.addresses = t at hTracked hWritten
  generalize (rows.map (·.address)).dedup.reverse = seen at hNodup hSeen
  refine Triple.bind (Q := fun after s => RowsWritten db t seen s ∧
    ∀ a ∈ rows.map (·.address), after a = t.lookup a)
    (triple_query (fun s h => ⟨h, fun a ha => (if_pos ha).trans (by rw [h.table])⟩) fun _ _ _ => trivial)
    fun after => triple_of_fact fun hAfter => ?_
  refine Triple.bind (Q := fun _ => HackSettled t db.hackVictims db.edges) (Triple.pre
    (P := HackOff t db.hackVictims db.edges (rowsOwed db t seen)) ?_ fun _ h => h.off) fun _ =>
    (hack_apart (emits_when fun _ => emits_run rfl)).post fun _ _ h => RowsWritten.finished hExact hTracked h
  refine triple_forEach_rest (I := fun rest => HackOff t db.hackVictims db.edges (rowsOwed db t rest))
    fun a rest hMem => ?_
  obtain ⟨front, hFront⟩ := hMem
  have hIn : a ∈ rows.map (·.address) :=
    (hSeen a).mp (hFront ▸ List.mem_append_right front List.mem_cons_self)
  obtain ⟨row, hRow⟩ := Option.isSome_iff_exists.mp (hWritten a hIn)
  rw [hBefore a hIn, hAfter a hIn, hRow]
  refine Triple.bind (Triple.bind ?_ fun _ => triple_pure () fun _ h => h) fun _ =>
    hack_apart (apart_maybeMark _ _)
  exact triple_settleRow hExact hTracked.toRowsFollowed hRow (hFront ▸ hNodup).of_append_right

end Rows

/-! ## Edges and deletions -/

section Deletions

variable {db : Db} {t : AddressTable} {v : VictimTable} {e : EdgeTable}

theorem hack_deleteTouching (a : Address) :
    Triple (HackSettled t v e) (deleteEdgesTouchingAddress a)
      (fun _ => HackSettled t v (Table.filter (apartFrom a) e)) fun _ _ => True := by
  refine Triple.bind (Q := fun _ => HackSettled t v e) (triple_query (fun _ h => h) fun _ _ _ => trivial)
    fun targets => ?_
  refine Triple.bind (Q := fun _ => HackSettled t v (Table.filter (apartFrom a) e))
    (triple_run (fun s h => h.edge (.deleteTouching a)) fun _ _ _ => trivial) fun _ => ?_
  exact hack_apart (emits_forEach fun b _ => (emits_query _).bind fun total => emits_run rfl)

/-- Zeroing the totals changes nothing where no flagged address has one. -/
theorem sameHackers_zeroReceived (hZero : ∀ a row, t.lookup a = some row → row.isFlaggedHacker = true →
    row.totalReceivedSats = 0) {t' : AddressTable} (h : SameHackers t' t) :
    SameHackers (AddressStmt.zeroHackerTotalReceived.exec t') t := by
  intro a
  unfold AddressStmt.exec
  rw [Table.lookup_mapRows]
  have hRow := h a
  cases hT' : t'.lookup a with
  | none => rwa [hT'] at hRow
  | some row' =>
    rw [hT', Option.map_some, eq_comm, Option.map_eq_some_iff] at hRow
    obtain ⟨row, hT, hPart⟩ := hRow
    rw [hT, Option.map_some, Option.map_some, Option.map_some, hPart]
    simp only [AddressRow.hackerPart, Prod.mk.injEq] at hPart
    split
    · next hFlag =>
      have := hZero a row hT (hPart.1.trans hFlag)
      simp only [AddressRow.hackerPart, ← hPart.2.2, this]
    · rfl

theorem hack_deleteHackTrace (env : Env) (hZero : ∀ a row, t.lookup a = some row →
    row.isFlaggedHacker = true → row.totalReceivedSats = 0) :
    Triple (HackSettled t v e) (EdgeOp.deleteHackTrace.run env)
      (fun _ => HackSettled t v (EdgeStmt.deleteHackTrace.exec e)) fun _ _ => True := by
  have hEdges : Triple (HackSettled t v e) deleteHackTraceEdges
      (fun _ => HackSettled t v (EdgeStmt.deleteHackTrace.exec e)) fun _ _ => True :=
    Triple.bind (Q := fun _ => HackSettled t v (EdgeStmt.deleteHackTrace.exec e))
      (triple_run (fun s h => h.edge .deleteHackTrace) fun _ _ _ => trivial)
      fun _ => triple_run (fun s h => h.exec rfl) fun _ _ _ => trivial
  refine hEdges.bind fun _ => ?_
  exact triple_run (fun s h => ⟨sameHackers_zeroReceived hZero h.table, h.victims, h.edges, h.known, h.stats⟩)
    fun _ _ _ => trivial

theorem hack_deleteAddress {a : Address} (hZero : ∀ row, t.lookup a = some row →
    row.isFlaggedHacker = true → row.totalReceivedSats = 0) :
    Triple (HackSettled t v e) (deleteAddress a) (fun _ => HackSettled (t.erase a) v e) fun _ _ => True := by
  have hShare : ∀ k, hackShare (t.lookup a) k = 0 := by
    intro k
    cases hRow : t.lookup a with
    | none => rfl
    | some row =>
      by_cases hFlag : row.isFlaggedHacker = true
      · show row.hackStat k = 0
        obtain ⟨f, id⟩ := k
        cases f <;> simp [AddressRow.hackStat, isHackerActive, hZero row hRow hFlag]
      · exact hackStat_of_unflagged hFlag k
  refine Triple.bind (Q := fun _ => HackSettled t v e)
    (triple_run (fun s h => h.exec rfl) fun _ _ _ => trivial) fun _ => triple_run (fun s h => ?_)
    fun _ _ _ => trivial
  have hTable : SameHackers (s.addresses.erase a) (t.erase a) := fun b => by
    by_cases hb : b = a
    · rw [hb, AList.lookup_erase, AList.lookup_erase]
    · rw [AList.lookup_erase_ne hb, AList.lookup_erase_ne hb]
      exact h.table b
  have hWritten := h.write (s := exec (Stmt.address (.delete a)) s) hTable h.victims rfl
  rw [show (exec (Stmt.address (.delete a)) s).edges = e from h.edges] at hWritten
  refine hWritten.congr fun k => ?_
  have hTotal := @hackTotal_row t (t.erase a) v k a fun b hb => AList.lookup_erase_ne hb
  rw [AList.lookup_erase, hShare] at hTotal
  rw [hTotal]
  show 0 + (hackTotal t v k + (0 - 0) - hackTotal t v k) = 0
  ring

theorem receivedNonneg_erase (h : ReceivedNonneg t) (a : Address) : ReceivedNonneg (t.erase a) := by
  intro b row hRow hFlag
  by_cases hb : b = a
  · rw [hb, AList.lookup_erase] at hRow
    cases hRow
  · rw [AList.lookup_erase_ne hb] at hRow
    exact h b row hRow hFlag

end Deletions

/-! ## Removals -/

section Removal

variable {hacker : Address}

/-- Exact statistics where the hacker is no longer flagged. -/
structure ExactWithout (hacker : Address) (db : Db) : Prop where
  exact : HackExact db
  flag : flaggedHack db.addresses hacker = none

/-- The address is not flagged, and pays no flagged address. -/
structure Unlinked (db : Db) (a : Address) : Prop where
  flag : flaggedHack db.addresses a = none
  pays : ∀ k row, db.edges.lookup k = some row → row.direction = .inToHacker → k.fromAddress = a →
    flaggedHack db.addresses k.toAddress = none

theorem flaggedHack_erase (t : AddressTable) (a b : Address) :
    flaggedHack (t.erase a) b = if b = a then none else flaggedHack t b := by
  unfold flaggedHack
  split
  · next h => rw [h, AList.lookup_erase]; rfl
  · next h => rw [AList.lookup_erase_ne h]

/-- Pruning an unlinked address takes no payment to a flagged address away. -/
theorem Unlinked.pairs {db : Db} {a : Address} (h : Unlinked db a) :
    SamePairs db.addresses db.edges (db.addresses.erase a) (Table.filter (apartFrom a) db.edges) := by
  intro pair
  rw [mem_victimPairs, mem_victimPairs]
  constructor
  · rintro ⟨k, row, hRow, hDir, hHack, hFrom⟩
    rw [Table.lookup_filter, Option.filter_eq_some_iff] at hRow
    rw [flaggedHack_erase] at hHack
    split at hHack
    · cases hHack
    · exact ⟨k, row, hRow.1, hDir, hHack, hFrom⟩
  · rintro ⟨k, row, hRow, hDir, hHack, hFrom⟩
    have hTo : k.toAddress ≠ a := fun hEq => by
      rw [hEq, h.flag] at hHack
      cases hHack
    have hNotFrom : k.fromAddress ≠ a := fun hEq => by
      rw [h.pays k row hRow hDir hEq] at hHack
      cases hHack
    refine ⟨k, row, ?_, hDir, by rw [flaggedHack_erase, if_neg hTo, hHack], hFrom⟩
    rw [Table.lookup_filter, Option.filter_eq_some_iff]
    exact ⟨hRow, by simp [apartFrom, hTo, hNotFrom]⟩

theorem flaggedHack_eq_none {t : AddressTable} {a : Address} :
    flaggedHack t a = none ↔ ∀ row, t.lookup a = some row → ¬row.isFlaggedHacker = true := by
  constructor
  · intro h row hRow hFlag
    rw [flaggedHack_eq_some.mpr ⟨row, hRow, hFlag, rfl⟩] at h
    cases h
  · intro h
    cases hHack : flaggedHack t a with
    | none => rfl
    | some id =>
      obtain ⟨row, hRow, hFlag, -⟩ := flaggedHack_eq_some.mp hHack
      exact absurd hFlag (h row hRow)

theorem triple_prune_hack (a : Address) :
    Triple (fun db => ExactWithout hacker db ∧ Unlinked db a) (prune a) (fun _ => ExactWithout hacker)
      fun _ _ => True := by
  refine triple_of_state fun db h => ?_
  obtain ⟨⟨hExact, hHacker⟩, hUnlinked⟩ := h
  refine Triple.pre (P := HackSettled db.addresses db.hackVictims db.edges) ?_ fun s hs => hs ▸ hExact.settled
  refine (hack_deleteTouching a).bind fun _ => (hack_deleteAddress fun row hRow hFlag =>
    absurd hFlag (flaggedHack_eq_none.mp hUnlinked.flag row hRow)).post fun _ s hs => ?_
  refine ⟨hackExact_of_settled hs (receivedNonneg_erase hExact.received a)
    (hExact.victims.same hUnlinked.pairs), ?_⟩
  rw [hs.table.flaggedHack, flaggedHack_erase, hHacker, ite_self]

theorem flaggedHack_none_iff {db : Db} {a : Address} :
    flaggedHack db.addresses a = none ↔ isFlagged db a = false := by
  rw [flaggedHack_eq_none]
  unfold isFlagged
  cases db.addresses.lookup a <;> simp

theorem triple_pruneVictims_hack (victims pruned : List Address) :
    Triple (ExactWithout hacker) (pruneVictims hacker victims pruned) (fun _ => ExactWithout hacker)
      fun _ _ => True := by
  induction victims generalizing pruned with
  | nil => exact triple_pure _ fun _ h => h
  | cons victim rest ih =>
    unfold pruneVictims
    split
    · exact ih _
    refine Triple.bind (Q := fun links db => ExactWithout hacker db ∧ (links = 0 → ∀ k row,
      db.edges.lookup k = some row → row.direction = .inToHacker → k.fromAddress = victim →
        flaggedHack db.addresses k.toAddress = none)) (triple_query (fun db h => ⟨h, ?_⟩) fun _ _ _ => trivial)
      fun links => ?_
    · intro hNone k row hRow hDir hFrom
      by_cases hTo : k.toAddress = hacker
      · rw [hTo, h.flag]
      · rw [List.countP_eq_zero] at hNone
        have hEntry := hNone _ (Table.lookup_eq_some_iff.mp hRow)
        rw [flaggedHack_none_iff]
        simpa [hDir, hFrom, hTo] using hEntry
    split
    · exact (ih _).pre fun _ h => h.1
    next hLinks =>
    refine Triple.bind (Q := fun row db => ExactWithout hacker db ∧ (row.all (·.isFlaggedHacker) = false →
      Unlinked db victim)) (triple_query (fun db h => ⟨h.1, fun hRow => ⟨?_, h.2 (by omega)⟩⟩)
      fun _ _ _ => trivial) fun row => ?_
    · rw [flaggedHack_none_iff, ← Bool.not_eq_true, isFlagged_iff, (all_isFlagged_iff db victim).mp hRow]
      decide
    split
    · exact (ih _).pre fun _ h => h.1
    · next hRow =>
      exact Triple.bind ((triple_prune_hack victim).pre fun _ h => ⟨h.1, h.2 (by simpa using hRow)⟩)
        fun _ => ih _

/-- Where no other flagged address is at an edge of the address, it pays none. -/
theorem triple_unlinked {a : Address} {φ : Prop} :
    Triple (fun db => ExactWithout hacker db ∧ (φ → flaggedHack db.addresses a = none))
      (hasEdgeWithOtherFlaggedHacker a hacker)
      (fun linked db => ExactWithout hacker db ∧ (linked = false → φ → Unlinked db a))
      fun _ _ => True := by
  refine triple_of_state fun db h => ?_
  refine Triple.bind (Q := fun keys s => s = db ∧ keys = edgeKeysFrom db.edges a)
    (triple_query (fun s hs => ⟨hs, by rw [hs]⟩) fun _ _ _ => trivial) fun fromKeys => ?_
  refine triple_of_fact fun hFrom => ?_
  refine Triple.bind (Q := fun keys s => s = db ∧ keys = edgeKeysTo db.edges a)
    (triple_query (fun s hs => ⟨hs, by rw [hs]⟩) fun _ _ _ => trivial) fun toKeys => ?_
  refine triple_of_fact fun hTo => (triple_anyOtherFlagged a _ db).post fun linked s hs => ?_
  obtain ⟨rfl, hLinked⟩ := hs
  refine ⟨h.1, fun hNot hHolds => ⟨h.2 hHolds, fun k row hRow hDir hPays => ?_⟩⟩
  by_cases hSelf : k.toAddress = a
  · rw [hSelf, h.2 hHolds]
  by_cases hHacker : k.toAddress = hacker
  · rw [hHacker, h.1.flag]
  have hEnd : otherEnd a k = k.toAddress := if_pos hPays
  rw [flaggedHack_none_iff, ← Bool.not_eq_true, isFlagged_iff]
  intro hFlagged
  have hKey : k ∈ fromKeys ++ toKeys := by
    rw [hFrom, hTo]
    exact mem_edgeKeys.mpr ⟨⟨row, hRow⟩, Or.inl hPays⟩
  rw [hLinked.mpr ⟨k, hKey, by rwa [hEnd], by rwa [hEnd], by rw [hEnd, hFlagged]⟩] at hNot
  cases hNot

theorem triple_pruneDownstream_hack (candidates downstream pruned : List Address) :
    Triple (ExactWithout hacker) (pruneDownstream hacker candidates downstream pruned)
      (fun _ => ExactWithout hacker) fun _ _ => True := by
  induction downstream generalizing pruned with
  | nil => exact triple_pure _ fun _ h => h
  | cons candidate rest ih =>
    unfold pruneDownstream
    split
    · exact ih _
    refine Triple.bind (Q := fun row db => ExactWithout hacker db ∧ (row.all (·.isFlaggedHacker) = false →
      flaggedHack db.addresses candidate = none)) (triple_query (fun db h => ⟨h, fun hRow => ?_⟩)
      fun _ _ _ => trivial) fun row => ?_
    · rw [flaggedHack_none_iff, ← Bool.not_eq_true, isFlagged_iff, (all_isFlagged_iff db candidate).mp hRow]
      decide
    split
    · exact (ih _).pre fun _ h => h.1
    next hRow =>
    refine triple_unlinked.bind fun linked => ?_
    split
    · exact (ih _).pre fun _ h => h.1
    next hLinked =>
    refine Triple.bind (Q := fun _ db => ExactWithout hacker db ∧ Unlinked db candidate)
      (triple_query (fun db h => ⟨h.1, h.2 (by simpa using hLinked) (by simpa using hRow)⟩)
      fun _ _ _ => trivial) fun outside => ?_
    split
    · exact (ih _).pre fun _ h => h.1
    · exact (triple_prune_hack candidate).bind fun _ => ih _

/-- The addresses after a removal unflagged the hacker. -/
def unflaggedRows (t : AddressTable) (hacker : Address) : AddressTable :=
  (AddressStmt.upsert { address := hacker, isFlaggedHacker := some false }).exec t

theorem lookup_unflaggedRows (t : AddressTable) (hacker a : Address) : (unflaggedRows t hacker).lookup a =
    if a = hacker then some ((t.lookup hacker).elim
      (AddressUpsertData.inserted { address := hacker, isFlaggedHacker := some false })
      (AddressUpsertData.updated { address := hacker, isFlaggedHacker := some false }))
    else t.lookup a := by
  unfold unflaggedRows
  rw [lookup_upsert]
  split
  · next h => rw [h]
  · rfl

theorem not_flagged_unflagged {t : AddressTable} {row : AddressRow}
    (h : (unflaggedRows t hacker).lookup hacker = some row) : ¬row.isFlaggedHacker = true := by
  rw [lookup_unflaggedRows, if_pos rfl] at h
  rw [← Option.some.inj h]
  cases t.lookup hacker <;> exact Bool.false_ne_true

theorem rowsFollowed_unflagged {db : Db} (hExact : HackExact db) (hacker : Address) :
    RowsFollowed db (unflaggedRows db.addresses hacker) where
  rows a row hRow b hOld _ hFlag := by
    by_cases ha : a = hacker
    · exact absurd hFlag (not_flagged_unflagged (ha ▸ hRow))
    · rw [lookup_unflaggedRows, if_neg ha, hOld] at hRow
      rw [Option.some.inj hRow, if_pos rfl]
  received a row hRow hFlag := by
    by_cases ha : a = hacker
    · exact absurd hFlag (not_flagged_unflagged (ha ▸ hRow))
    · rw [lookup_unflaggedRows, if_neg ha] at hRow
      exact hExact.received a row hRow hFlag

/-- Where the hacker is flagged, each of its victims is one of the hack without it; a removal that prunes
also takes the hacker's own payments away. -/
def RemovalTracked (db : Db) (hacker : Address) (pruneExclusive : Bool) : Prop :=
  isFlagged db hacker = true → SamePairs db.addresses db.edges (unflaggedRows db.addresses hacker)
    (if pruneExclusive then Table.filter (apartFrom hacker) db.edges else db.edges)

theorem triple_removeHacker_hack {db : Db} (hExact : HackExact db) (pruneExclusive : Bool)
    (hTracked : RemovalTracked db hacker pruneExclusive) :
    Triple (fun s => s = db) (removeHacker hacker pruneExclusive) (fun _ => HackExact) fun _ _ => True := by
  refine Triple.bind (Q := fun existing s => s = db ∧ existing = db.addresses.lookup hacker)
    (triple_query (fun s h => ⟨h, by rw [h]⟩) fun _ _ _ => trivial) fun existing => ?_
  refine triple_of_fact fun hExisting => ?_
  subst hExisting
  split
  swap
  · exact triple_pure _ fun s h => h ▸ hExact
  next hFlagged =>
  have hFollowed := rowsFollowed_unflagged hExact hacker
  have hNone : flaggedHack (unflaggedRows db.addresses hacker) hacker = none :=
    flaggedHack_eq_none.mpr fun row hRow => not_flagged_unflagged hRow
  have hQuiet : ∀ {α : Type} {p : StoreM α}, p.Emits (fun _ => False) →
      Triple (fun s => s = db) p (fun _ s => s = db) fun _ _ => True := fun h =>
    (triple_of_emits h fun _ hi => hi.elim).conseq (fun _ h => h) (fun _ _ h => h) fun _ _ _ => trivial
  have hCancel : (deleteActiveJobsForAddress hacker : StoreM Unit).Emits fun i => i.apartFromHacks = true :=
    emits_deleteActiveJobsForAddress (fun i hi => by
      cases i with
      | scheduler => rfl
      | _ => cases hi) rfl
  cases pruneExclusive with
  | false =>
    refine (hQuiet (emits_pure _)).bind fun victims => (hQuiet (emits_pure _)).bind fun downstream => ?_
    refine (triple_upsertAddress_hack _ hExact hFollowed).bind fun _ => (hack_apart hCancel).bind fun _ => ?_
    exact triple_pure _ fun s h =>
      hackExact_of_settled h hFollowed.received (hExact.victims.same (hTracked hFlagged))
  | true =>
    refine (hQuiet (emits_query _)).bind fun victims =>
      (hQuiet (emits_collectDownstreamAddresses hacker)).bind fun downstream => ?_
    refine (triple_upsertAddress_hack _ hExact hFollowed).bind fun _ => (hack_apart hCancel).bind fun _ => ?_
    refine Triple.bind (Q := fun _ => ExactWithout hacker) ((hack_deleteTouching hacker).post fun _ s h => ?_)
      fun _ => ?_
    · refine ⟨hackExact_of_settled h hFollowed.received (hExact.victims.same (hTracked hFlagged)), ?_⟩
      rw [h.table.flaggedHack]
      exact hNone
    · exact (triple_pruneVictims_hack victims []).bind fun prunedVictims =>
        (triple_pruneDownstream_hack downstream downstream prunedVictims).bind fun pruned =>
        triple_pure _ fun _ h => h.exact

end Removal

/-! ## Runs -/

inductive HackOp where
  | upsertAddress (data : AddressUpsertData)
  | upsertAddressesBatch (rows : List AddressUpsertData)
  | insertAddressIfMissing (data : AddressUpsertData)
  | edge (op : EdgeOp)
  | deleteAddress (address : Address)
  | removeHacker (address : Address) (pruneExclusive : Bool)

/-- The operation, without its result. -/
def HackOp.run (env : Env) : HackOp → StoreM Unit
  | .upsertAddress data => Store.upsertAddress data
  | .upsertAddressesBatch rows => Store.upsertAddressesBatch env rows
  | .insertAddressIfMissing data => do
    let _ ← Store.insertAddressIfMissing data
    pure ()
  | .edge op => op.run env
  | .deleteAddress address => Ops.deleteAddress address
  | .removeHacker address pruneExclusive => do
    let _ ← Ops.removeHacker address pruneExclusive
    pure ()

/-- No flagged address has received anything. -/
def NothingReceived (db : Db) (a : Address) : Prop :=
  ∀ row, db.addresses.lookup a = some row → row.isFlaggedHacker = true → row.totalReceivedSats = 0

def edgesTracked (env : Env) (db : Db) : EdgeOp → Prop
  | .upsertBatch rows =>
    CreditsNonneg db.addresses (batchCredits (chunkArray env.store.d1BatchSize rows) db.edges) ∧
      PaymentsTracked db.addresses (chunkArray env.store.d1BatchSize rows) db.edges
  | .deleteTouching address =>
    SamePairs db.addresses db.edges db.addresses (Table.filter (apartFrom address) db.edges)
  | .deleteHackTrace => (∀ a, NothingReceived db a) ∧ victimPairs db.addresses db.edges = []
  | .recalcReceived hackerAddresses => ∀ a ∈ hackerAddresses, flaggedHack db.addresses a ≠ none →
    0 ≤ sumInToHacker db a

/-- What the operation does to the flagged addresses and the payments to them is what its adjustments
assume: a total moves only with a flag or a hack, or by the credits of payments and a recalculation; the
senders of payments to a hack change only by payments that their sub-batch takes to be new. -/
def HackOp.Tracked (env : Env) (db : Db) : HackOp → Prop
  | .upsertAddress data => RowsTracked db ((AddressStmt.upsert data).exec db.addresses)
  | .upsertAddressesBatch rows => RowsTracked db (upsertedRows rows db.addresses)
  | .insertAddressIfMissing data => db.addresses.lookup data.address = none →
    RowsTracked db ((AddressStmt.upsert data).exec db.addresses)
  | .edge op => edgesTracked env db op
  | .deleteAddress address =>
    NothingReceived db address ∧ SamePairs db.addresses db.edges (db.addresses.erase address) db.edges
  | .removeHacker address pruneExclusive => RemovalTracked db address pruneExclusive

theorem triple_edgeOp_hack (env : Env) (op : EdgeOp) :
    Triple (fun db => HackExact db ∧ edgesTracked env db op) (op.run env) (fun _ => HackExact)
      fun _ _ => True := by
  refine triple_of_state fun db h => ?_
  obtain ⟨hExact, hTracked⟩ := h
  refine Triple.pre (P := HackSettled db.addresses db.hackVictims db.edges) ?_ fun s hs => hs ▸ hExact.settled
  cases op with
  | upsertBatch rows =>
    refine (hack_upsertEdgesBatch env hTracked.1).post fun _ s hs => ?_
    have hVictims := hExact.victims.batch hTracked.2
    rw [flatten_chunkArray] at hVictims
    refine hackExact_of_settled hs (hTracked.1 _ List.prefix_rfl) fun pair => (hVictims pair).trans ?_
    rw [mem_victimPairs, mem_victimPairs]
    simp only [flaggedHack_credited]
  | deleteTouching a =>
    exact (hack_deleteTouching a).post fun _ s hs =>
      hackExact_of_settled hs hExact.received (hExact.victims.same hTracked)
  | deleteHackTrace =>
    refine (hack_deleteHackTrace env fun a row => hTracked.1 a row).post fun _ s hs =>
      hackExact_of_settled hs hExact.received fun pair => (hExact.victims pair).trans ?_
    rw [hTracked.2, mem_victimPairs]
    simp [lookup_deleteHackTrace]
  | recalcReceived hackerAddresses =>
    refine Triple.conseq (@hack_recalcTotalReceivedFor db.addresses db.hackVictims db.edges
      hackerAddresses fun s hEdges a ha hHack => ?_)
      (fun s hs => ⟨db.addresses, ⟨fun _ => rfl, hExact.received⟩, hs⟩) (fun _ s hs => ?_) fun _ _ h => h
    · have hSame : sumInToHacker s a = sumInToHacker db a := by
        unfold sumInToHacker
        rw [hEdges]
      rw [hSame]
      exact hTracked a ha hHack
    · obtain ⟨t, hKept, hSettled⟩ := hs
      refine hackExact_of_settled hSettled hKept.received fun pair => (hExact.victims pair).trans ?_
      rw [mem_victimPairs, mem_victimPairs]
      simp only [hKept.flags]

theorem triple_hackOp (env : Env) (op : HackOp) :
    Triple (fun db => HackExact db ∧ op.Tracked env db) (op.run env) (fun _ => HackExact)
      fun _ _ => True := by
  have hDropped : ∀ {α : Type} {p : StoreM α} {P : Db → Prop},
      Triple P p (fun _ => HackExact) (fun _ _ => True) →
      Triple P (do let _ ← p; pure ()) (fun _ => HackExact) fun _ _ => True :=
    fun h => h.bind fun _ => triple_pure () fun _ hs => hs
  cases op with
  | edge op => exact triple_edgeOp_hack env op
  | upsertAddress data =>
    exact triple_of_state fun db h => (triple_upsertAddress_hack data h.1 h.2.toRowsFollowed).post
      fun _ _ hs => RowsWritten.finished h.1 h.2 hs
  | upsertAddressesBatch rows =>
    exact triple_of_state fun db h => triple_upsertAddressesBatch_hack env rows h.1 h.2
  | insertAddressIfMissing data =>
    exact hDropped (triple_of_state fun db h => triple_insertAddressIfMissing_hack data h.1 h.2)
  | deleteAddress a =>
    refine triple_of_state fun db h => ?_
    refine Triple.pre (P := HackSettled db.addresses db.hackVictims db.edges) ?_ fun s hs => hs ▸ h.1.settled
    exact (hack_deleteAddress h.2.1).post fun _ s hs =>
      hackExact_of_settled hs (receivedNonneg_erase h.1.received a) (h.1.victims.same h.2.2)
  | removeHacker a pruneExclusive =>
    exact hDropped (triple_of_state fun db h => triple_removeHacker_hack h.1 pruneExclusive h.2)

theorem hackExact_of_run {env : Env} {db db' : Db} (hExact : HackExact db)
    (hRun : OpRun (HackOp.run env) (fun op db _ => op.Tracked env db) db db') : HackExact db' :=
  opRun_invariant (fun op _ _ hTracked hOk hs => (triple_hackOp env op).ok ⟨hs, hTracked⟩ hOk) hRun hExact

/-- A new store, with the rows of the known hacks. -/
def seededStore : Db :=
  { Db.initial with
    hackStats := hackStatIds.foldl (fun t id => (HackStatsStmt.ensure id).exec t) ∅ }

theorem hackStat_seeded (k : HackStatsField × HackId) : seededStore.hackStat k = 0 := by
  have hSeeded : seededStore = replay (hackStatIds.map fun id => Stmt.hackStats (.ensure id)) Db.initial := rfl
  rw [hSeeded, hackStatIds, List.map_cons, List.map_cons, List.map_cons, List.map_cons, List.map_nil]
  simp only [replay_cons, replay_nil, hackStat_ensure]
  obtain ⟨f, id⟩ := k
  cases f <;> rfl

theorem hackExact_seeded : HackExact seededStore where
  received a row hRow := by cases hRow
  settled := ⟨fun _ => rfl, rfl, rfl, by decide +kernel, fun k => by
    rw [hackStat_seeded, add_zero]
    obtain ⟨f, id⟩ := k
    cases f <;> rfl⟩
  victims pair := ⟨fun h => (by cases h), fun h => (by cases h)⟩

/-- The statistics stay the reconciled ones in every run from a new store whose operations return and
all do what their adjustments assume. -/
theorem hackReconciled_of_run {env : Env} {db : Db}
    (hRun : OpRun (HackOp.run env) (fun op db _ => op.Tracked env db) seededStore db) : HackReconciled db :=
  (hackExact_of_run hackExact_seeded hRun).reconciled

/-! ### A hacker with one victim -/

def hackEnv : Env := { provider := .ofTxs [] }

def flaggedAddress : AddressUpsertData where
  address := name "h"
  role := some .hacker
  isFlaggedHacker := some true

def paymentToFlagged : EdgeUpsertData where
  fromAddress := name "v"
  toAddress := name "h"
  txid := name "t"
  amountSats := 1000
  direction := .inToHacker

def flaggedStore : Db := (upsertAddress flaggedAddress).final seededStore ⟨{}, []⟩

def paidStore : Db := (upsertEdgesBatch hackEnv [paymentToFlagged]).final flaggedStore ⟨{}, []⟩

def unflaggedStore : Db :=
  (upsertAddress { address := name "h", isFlaggedHacker := some false }).final paidStore ⟨{}, []⟩

theorem receivedNonneg_of_entries {t : AddressTable}
    (h : t.entries.all (fun e => !e.2.isFlaggedHacker || decide (0 ≤ e.2.totalReceivedSats)) = true) :
    ReceivedNonneg t := by
  intro a row hRow hFlag
  have hEntry := List.all_eq_true.mp h _ (Table.lookup_eq_some_iff.mp hRow)
  simpa [hFlag] using hEntry

theorem tracked_flaggedAddress : (HackOp.upsertAddress flaggedAddress).Tracked hackEnv seededStore where
  rows a row _ b hBefore := by cases hBefore
  received := receivedNonneg_of_entries (by decide +kernel)
  pairs _ := Iff.rfl

theorem tracked_paymentToFlagged :
    (HackOp.edge (.upsertBatch [paymentToFlagged])).Tracked hackEnv flaggedStore := by
  have hChunks : chunkArray hackEnv.store.d1BatchSize [paymentToFlagged] = [[paymentToFlagged]] := rfl
  show CreditsNonneg _ (batchCredits (chunkArray _ _) _) ∧ PaymentsTracked _ (chunkArray _ _) _
  rw [hChunks]
  refine ⟨?_, fun pair h => ?_, ?_⟩
  · have hCredits : batchCredits [[paymentToFlagged]] flaggedStore.edges = [(name "h", 1000)] := by
      decide +kernel
    rw [hCredits]
    intro front hFront
    rcases List.prefix_cons_iff.mp hFront with rfl | ⟨rest, rfl, hRest⟩
    · exact receivedNonneg_of_entries (by decide +kernel)
    · rw [List.prefix_nil.mp hRest]
      exact receivedNonneg_of_entries (by decide +kernel)
  · have hBefore : victimPairs flaggedStore.addresses flaggedStore.edges = [] := by decide +kernel
    have hPaid : paidBy flaggedStore.addresses (inRows [[paymentToFlagged]].flatten) =
        victimPairs flaggedStore.addresses (upsertedEdges [[paymentToFlagged]].flatten flaggedStore.edges) := by
      decide +kernel
    rw [hBefore, hPaid] at h
    exact h.resolve_left List.not_mem_nil
  · intro front chunk back hSplit row hRow hStored
    cases front with
    | nil =>
      rw [List.nil_append, List.cons.injEq] at hSplit
      rw [← hSplit.1] at hRow hStored
      have hNone : storedAmounts [paymentToFlagged] flaggedStore.edges paymentToFlagged.key = none := by
        decide +kernel
      rw [List.mem_singleton.mp (List.mem_of_mem_filter hRow)] at hStored
      change (storedAmounts [paymentToFlagged] flaggedStore.edges paymentToFlagged.key).isSome = true at hStored
      rw [hNone] at hStored
      cases hStored
    | cons first front => simp at hSplit

theorem hackStep {guard : HackOp → Db → Ctl Mem Err → Prop} (op : HackOp) {db : Db}
    (hGuard : guard op db ⟨{}, []⟩)
    (hOk : (op.run hackEnv db ⟨{}, []⟩).res.toOption.map id = some ()) :
    OpStep (HackOp.run hackEnv) guard db ((op.run hackEnv).final db ⟨{}, []⟩) := by
  obtain ⟨_, hRes, -⟩ := exists_ok hOk
  exact ⟨op, ⟨{}, []⟩, hGuard, hRes, rfl⟩

theorem hackReconciled_paid : HackReconciled paidStore :=
  @hackReconciled_of_run hackEnv paidStore
    (.head (hackStep (.upsertAddress flaggedAddress) tracked_flaggedAddress (by decide +kernel))
      (.single (hackStep (.edge (.upsertBatch [paymentToFlagged])) tracked_paymentToFlagged
        (by decide +kernel))))

/-- The hacker's victim stays when the hacker is unflagged. -/
theorem hackReconciled_unflagged_stale : ¬ ∀ (env : Env) (db : Db),
    OpRun (HackOp.run env) (fun _ _ _ => True) seededStore db → HackReconciled db := by
  intro h
  have hRun : OpRun (HackOp.run hackEnv) (fun _ _ _ => True) seededStore unflaggedStore :=
    .head (hackStep (.upsertAddress flaggedAddress) trivial (by decide +kernel))
      (.head (hackStep (.edge (.upsertBatch [paymentToFlagged])) trivial (by decide +kernel))
        (.single (hackStep (.upsertAddress { address := name "h", isFlaggedHacker := some false })
          trivial (by decide +kernel))))
  have hVictim := (h _ _ hRun).2 ("coldcard", name "v")
  revert hVictim
  decide +kernel

end Bloodhound.Ops
