import Bloodhound.Lib.Observe
import Bloodhound.Store.EdgeRows

/-!
# What an edge batch works on

The tables that `upsertEdgesBatch` reads and writes, looked up by key, without the inbound
totals: nothing that the batch reads depends on them. The operations of a batch are alike
under this observation, so a batch does the same on two stores that look the same.
-/

namespace Bloodhound.Store

open Journal Journal.Op

/-- A row without its inbound total. -/
def AddressRow.exceptInbound (row : AddressRow) : AddressRow := { row with inboundSats := 0 }

@[ext]
structure BatchView where
  edges : EdgeKey → Option EdgeRow
  addresses : Address → Option AddressRow
  peaks : Address × Address → Option Int
  hackStats : HackId → Option HackStatsRow
  hackVictims : HackId × Address → Option Unit
  totalInSats : Int
  totalOutSats : Int

def Db.batchView (db : Db) : BatchView where
  edges k := db.edges.lookup k
  addresses a := (db.addresses.lookup a).map (·.exceptInbound)
  peaks k := db.peaks.lookup k
  hackStats id := db.hackStats.lookup id
  hackVictims k := db.hackVictims.lookup k
  totalInSats := db.scheduler.totalInSats
  totalOutSats := db.scheduler.totalOutSats

/-- The statements that may change it. -/
def Stmt.inBatchView : Stmt → Bool
  | .address (.addInboundSats _ _) => false
  | .address _ => true
  | .edge _ => true
  | .peak _ => true
  | .hackStats _ => true
  | .insertHackVictim _ _ => true
  | .scheduler (.adjustEdgeTotals _ _) => true
  | _ => false

/-! ## Statements act on what is observed -/

section Congr

variable {t t' : Table.Rows Address AddressRow}

/-- Two tables of addresses that differ in inbound totals only. -/
def SameRows (t t' : Table.Rows Address AddressRow) : Prop :=
  ∀ a, (t.lookup a).map (·.exceptInbound) = (t'.lookup a).map (·.exceptInbound)

theorem map_map_exceptInbound {g : AddressRow → AddressRow}
    (hg : ∀ r, (g r).exceptInbound = (g r.exceptInbound).exceptInbound) {o o' : Option AddressRow}
    (h : o.map (·.exceptInbound) = o'.map (·.exceptInbound)) :
    (o.map g).map (·.exceptInbound) = (o'.map g).map (·.exceptInbound) := by
  cases o with
  | none =>
    cases o' with
    | none => rfl
    | some r' => cases h
  | some r =>
    cases o' with
    | none => cases h
    | some r' =>
      have hr : r.exceptInbound = r'.exceptInbound := Option.some.inj h
      show some (g r).exceptInbound = some (g r').exceptInbound
      rw [hg r, hg r', hr]

theorem SameRows.modify (h : SameRows t t') (a : Address) {g : AddressRow → AddressRow}
    (hg : ∀ r, (g r).exceptInbound = (g r.exceptInbound).exceptInbound) :
    SameRows (Table.modify a g t) (Table.modify a g t') := by
  intro b
  rw [Table.lookup_modify, Table.lookup_modify]
  split
  · exact map_map_exceptInbound hg (h b)
  · exact h b

theorem SameRows.mapRows (h : SameRows t t') {g : Address → AddressRow → AddressRow}
    (hg : ∀ a r, (g a r).exceptInbound = (g a r.exceptInbound).exceptInbound) :
    SameRows (Table.mapRows g t) (Table.mapRows g t') := by
  intro b
  rw [Table.lookup_mapRows, Table.lookup_mapRows]
  exact map_map_exceptInbound (hg b) (h b)

theorem SameRows.exec (h : SameRows t t') (i : AddressStmt) : SameRows (i.exec t) (i.exec t') := by
  cases i with
  | upsert data =>
    intro b
    rw [lookup_upsert, lookup_upsert]
    have hb := h b
    split
    · generalize t.lookup b = o at hb ⊢
      generalize t'.lookup b = o' at hb ⊢
      cases o with
      | none =>
        cases o' with
        | none => rfl
        | some r' => cases hb
      | some r =>
        cases o' with
        | none => cases hb
        | some r' =>
          have hr : r.exceptInbound = r'.exceptInbound := Option.some.inj hb
          have hu : ∀ r : AddressRow,
              (data.updated r).exceptInbound = (data.updated r.exceptInbound).exceptInbound :=
            fun _ => rfl
          simp only [Option.elim_some, Option.map_some]
          rw [hu r, hu r', hr]
    · exact hb
  | delete a =>
    intro b
    have hErase : ∀ t : Table.Rows Address AddressRow,
        (t.erase a).lookup b = if b = a then none else t.lookup b := by
      intro t
      split
      · next hb => rw [hb, AList.lookup_erase]
      · next hb => exact AList.lookup_erase_ne hb
    show ((t.erase a).lookup b).map _ = ((t'.erase a).lookup b).map _
    rw [hErase, hErase]
    split
    · rfl
    · exact h b
  | zeroInboundSats => exact h.mapRows fun _ _ => rfl
  | zeroHackerTotalReceived =>
    refine h.mapRows fun _ r => ?_
    show (if r.isFlaggedHacker then _ else _ : AddressRow).exceptInbound = _
    cases hr : r.isFlaggedHacker <;> simp [AddressRow.exceptInbound, hr]
  | _ => exact h.modify _ fun _ => rfl

/-- Additions to inbound totals are not observed. -/
theorem sameRows_addInboundSats (a : Address) (d : Int) :
    SameRows ((AddressStmt.addInboundSats a d).exec t) t := by
  intro b
  show ((Table.modify _ _ t).lookup b).map _ = _
  rw [Table.lookup_modify]
  split
  · rw [Option.map_map]
    rfl
  · rfl

end Congr

theorem edges_exec_congr {t t' : Table.Rows EdgeKey EdgeRow} (h : ∀ k, t.lookup k = t'.lookup k)
    (i : EdgeStmt) (k : EdgeKey) : (i.exec t).lookup k = (i.exec t').lookup k := by
  cases i with
  | upsert data => rw [lookup_upsertEdge, lookup_upsertEdge, h]
  | deleteTouching a =>
    show (Table.filter _ t).lookup k = (Table.filter _ t').lookup k
    rw [Table.lookup_filter, Table.lookup_filter, h]
  | deleteHackTrace =>
    show (Table.filter _ t).lookup k = (Table.filter _ t').lookup k
    rw [Table.lookup_filter, Table.lookup_filter, h]

theorem peaks_exec_congr {t t' : Table.Rows (Address × Address) Int}
    (h : ∀ k, t.lookup k = t'.lookup k) (i : PeakStmt) (k : Address × Address) :
    (i.exec t).lookup k = (i.exec t').lookup k := by
  cases i with
  | raise hacker source v =>
    show (t.insert _ _).lookup k = (t'.insert _ _).lookup k
    rw [Table.lookup_insert_if, Table.lookup_insert_if, h, h]
  | set hacker source v =>
    show (Table.modify _ _ t).lookup k = (Table.modify _ _ t').lookup k
    rw [Table.lookup_modify, Table.lookup_modify, h]
  | delete hacker source =>
    show (t.erase _).lookup k = (t'.erase _).lookup k
    by_cases hk : k = (hacker, source)
    · rw [hk, AList.lookup_erase, AList.lookup_erase]
    · rw [AList.lookup_erase_ne hk, AList.lookup_erase_ne hk, h]

theorem hackStats_exec_congr {t t' : Table.Rows HackId HackStatsRow}
    (h : ∀ k, t.lookup k = t'.lookup k) (i : HackStatsStmt) (k : HackId) :
    (i.exec t).lookup k = (i.exec t').lookup k := by
  cases i with
  | ensure id =>
    show (t.insert _ _).lookup k = (t'.insert _ _).lookup k
    rw [Table.lookup_insert_if, Table.lookup_insert_if, h, h]
  | adjust id field d =>
    show (Table.modify _ _ t).lookup k = (Table.modify _ _ t').lookup k
    rw [Table.lookup_modify, Table.lookup_modify, h]

theorem observes_batchView : Observes Stmt.inBatchView Db.batchView where
  congr i db db' h := by
    have hEdges : ∀ k, db.edges.lookup k = db'.edges.lookup k := congrFun (congrArg BatchView.edges h)
    have hAddresses : SameRows db.addresses db'.addresses :=
      congrFun (congrArg BatchView.addresses h)
    have hPeaks : ∀ k, db.peaks.lookup k = db'.peaks.lookup k :=
      congrFun (congrArg BatchView.peaks h)
    have hStats : ∀ k, db.hackStats.lookup k = db'.hackStats.lookup k :=
      congrFun (congrArg BatchView.hackStats h)
    have hVictims : ∀ k, db.hackVictims.lookup k = db'.hackVictims.lookup k :=
      congrFun (congrArg BatchView.hackVictims h)
    have hIn : db.scheduler.totalInSats = db'.scheduler.totalInSats :=
      congrArg BatchView.totalInSats h
    have hOut : db.scheduler.totalOutSats = db'.scheduler.totalOutSats :=
      congrArg BatchView.totalOutSats h
    cases i with
    | address s =>
      exact BatchView.ext (funext hEdges) (funext (hAddresses.exec s)) (funext hPeaks)
        (funext hStats) (funext hVictims) hIn hOut
    | edge s =>
      exact BatchView.ext (funext (edges_exec_congr hEdges s)) (funext hAddresses) (funext hPeaks)
        (funext hStats) (funext hVictims) hIn hOut
    | peak s =>
      exact BatchView.ext (funext hEdges) (funext hAddresses) (funext (peaks_exec_congr hPeaks s))
        (funext hStats) (funext hVictims) hIn hOut
    | hackStats s =>
      exact BatchView.ext (funext hEdges) (funext hAddresses) (funext hPeaks)
        (funext (hackStats_exec_congr hStats s)) (funext hVictims) hIn hOut
    | insertHackVictim id a =>
      refine BatchView.ext (funext hEdges) (funext hAddresses) (funext hPeaks) (funext hStats)
        (funext fun k => ?_) hIn hOut
      show (db.hackVictims.insert _ _).lookup k = (db'.hackVictims.insert _ _).lookup k
      rw [Table.lookup_insert_if, Table.lookup_insert_if, hVictims]
    | scheduler s =>
      cases s with
      | adjustEdgeTotals a b =>
        refine BatchView.ext (funext hEdges) (funext hAddresses) (funext hPeaks) (funext hStats)
          (funext hVictims) ?_ ?_
        · show max 0 (db.scheduler.totalInSats + a) = max 0 (db'.scheduler.totalInSats + a)
          rw [hIn]
        · show max 0 (db.scheduler.totalOutSats + b) = max 0 (db'.scheduler.totalOutSats + b)
          rw [hOut]
      | _ => exact h
    | job s => cases s <;> exact h
    | _ => exact h
  hidden i db h := by
    cases i with
    | address s =>
      cases s with
      | addInboundSats a d =>
        exact BatchView.ext rfl (funext (sameRows_addInboundSats a d)) rfl rfl rfl rfl rfl
      | _ => cases h
    | scheduler s =>
      cases s with
      | adjustEdgeTotals a b => cases h
      | _ => rfl
    | transaction => rfl
    | syncState => rfl
    | deleteSyncState => rfl
    | job s => cases s <;> rfl
    | _ => cases h

/-! ## The operations of a batch -/

section Alike

/-- Alike under the observation of a batch. -/
abbrev BatchAlike {α : Type} (p q : StoreM α) : Prop := Alike Stmt.inBatchView Db.batchView p q

variable {db db' : Db}

theorem edges_of_batchView (h : db.batchView = db'.batchView) (k : EdgeKey) :
    db.edges.lookup k = db'.edges.lookup k := congrFun (congrArg BatchView.edges h) k

theorem addresses_of_batchView (h : db.batchView = db'.batchView) (a : Address) :
    (db.addresses.lookup a).map (·.exceptInbound) = (db'.addresses.lookup a).map (·.exceptInbound) :=
  congrFun (congrArg BatchView.addresses h) a

theorem peaks_of_batchView (h : db.batchView = db'.batchView) (k : Address × Address) :
    db.peaks.lookup k = db'.peaks.lookup k := congrFun (congrArg BatchView.peaks h) k

theorem alike_executeSqlBatch (env : Env) (stmts : List Stmt) :
    BatchAlike (executeSqlBatch env stmts) (executeSqlBatch env stmts) := by
  unfold executeSqlBatch
  split
  · exact alike_pure ()
  · split
    · exact alike_step _ fun _ _ _ => rfl
    · exact alike_forEach observes_batchView fun i _ => alike_run i

theorem alike_adjustCounter (c : Counter) (d : Int) :
    BatchAlike (adjustCounter c d) (adjustCounter c d) :=
  alike_when fun _ => alike_run _

theorem alike_adjustHackStatsCounter (id : HackId) (field : HackStatsField) (d : Int) :
    BatchAlike (adjustHackStatsCounter id field d) (adjustHackStatsCounter id field d) :=
  alike_when fun _ => (alike_run _).bind observes_batchView fun _ => alike_run _

theorem alike_adjustEdgeTotalsCounters (a b : Int) :
    BatchAlike (adjustEdgeTotalsCounters a b) (adjustEdgeTotalsCounters a b) :=
  alike_when fun _ => alike_run _

theorem alike_adjustHackerActive (before : Option AddressRow) (after : AddressRow) (d : Int) :
    BatchAlike (adjustHackerActive before after d) (adjustHackerActive before after d) :=
  (alike_adjustCounter _ _).bind observes_batchView fun _ =>
    alike_forEach observes_batchView fun _ _ => alike_when fun _ =>
      alike_adjustHackStatsCounter _ _ _

theorem adjustHackerActive_exceptInbound (row : AddressRow) (d : Int) :
    adjustHackerActive (some row) row d =
      adjustHackerActive (some row.exceptInbound) row.exceptInbound d := by
  unfold adjustHackerActive
  split <;> rfl

theorem alike_applyTotalReceivedDelta (a : Address) (d : Int) :
    BatchAlike (applyTotalReceivedDelta a d) (applyTotalReceivedDelta a d) := by
  refine alike_when fun _ => ?_
  unfold getAddress
  have hRead : ∀ {k : Option AddressRow → StoreM Unit}, (∀ o, k o = k (o.map (·.exceptInbound))) →
      (query (fun db : Db => db.addresses.lookup a) >>= k) =
        (query (fun db : Db => (db.addresses.lookup a).map (·.exceptInbound)) >>= k) :=
    fun hk => query_bind_congr fun _ => hk _
  rw [hRead fun o => ?_]
  · refine (alike_query fun _ _ h => addresses_of_batchView h a).bind observes_batchView
      fun before => (alike_run _).bind observes_batchView fun _ =>
      alike_forEach observes_batchView fun row _ => ?_
    exact (alike_when fun _ => alike_adjustHackerActive _ _ _).bind observes_batchView fun _ =>
      alike_when fun _ => alike_adjustHackStatsCounter _ _ _
  · cases o with
    | none => rfl
    | some row =>
      have hActive : adjustHackerActive (some row) row =
          adjustHackerActive (some row.exceptInbound) row.exceptInbound :=
        funext fun d => adjustHackerActive_exceptInbound row d
      simp only [Option.map_some, Option.toList_some, forEach, hActive]
      rfl

theorem completes_adjustPollDueOrMarkDirty (d : Int) (maxDepth minIntervalSec : Nat)
    (floor : Int) : (adjustPollDueOrMarkDirty d maxDepth minIntervalSec floor).Completes := by
  refine completes_when fun _ => (completes_query _).bind fun state => (completes_mem _).bind
    fun _ => (completes_mem _).bind fun _ => ?_
  split
  · exact completes_run _
  · exact completes_run _

theorem completes_applyInboundSatsDelta (a : Address) (d : Int) :
    (applyInboundSatsDelta a d).Completes :=
  completes_when fun _ => (completes_query _).bind fun _ => (completes_query _).bind fun _ =>
    (completes_run _).bind fun _ => completes_forEach fun _ _ => completes_when fun _ =>
      (completes_query _).bind fun _ => (completes_mem _).bind fun _ => completes_when fun _ =>
        completes_adjustPollDueOrMarkDirty _ _ _ _

theorem hidden_adjustPollDueOrMarkDirty (d : Int) (maxDepth minIntervalSec : Nat)
    (floor : Int) : (adjustPollDueOrMarkDirty d maxDepth minIntervalSec floor).Emits
      fun i => i.inBatchView = false := by
  refine emits_when fun _ => (emits_query _).bind fun state => emits_now.bind fun _ =>
    emits_now.bind fun _ => ?_
  split
  · exact emits_run rfl
  · exact emits_run rfl

theorem hidden_applyInboundSatsDelta (a : Address) (d : Int) :
    (applyInboundSatsDelta a d).Emits fun i => i.inBatchView = false :=
  emits_when fun _ => (emits_query _).bind fun _ => (emits_query _).bind fun _ =>
    (emits_run (P := fun i : Stmt => i.inBatchView = false) rfl).bind fun _ =>
      emits_forEach fun _ _ => emits_when fun _ => (emits_query _).bind fun _ =>
        emits_now.bind fun _ => emits_when fun _ => hidden_adjustPollDueOrMarkDirty _ _ _ _

theorem alike_tryInsertHackVictim (id : HackId) (a : Address) :
    BatchAlike (tryInsertHackVictim id a) (tryInsertHackVictim id a) :=
  alike_step _ fun db db' h => by
    have hVictims : db.hackVictims.lookup (id, a) = db'.hackVictims.lookup (id, a) :=
      congrFun (congrArg BatchView.hackVictims h) (id, a)
    show (db.hackVictims.lookup (id, a)).isNone = (db'.hackVictims.lookup (id, a)).isNone
    rw [hVictims]

theorem alike_countNewVictims (rows : List EdgeUpsertData) :
    BatchAlike (countNewVictims rows) (countNewVictims rows) := by
  refine alike_when fun _ => ?_
  have hRead : ∀ {k : (Address → Option AddressRow) → StoreM Unit},
      (∀ o, k o = k fun a => (o a).map (·.exceptInbound)) →
      (query (fun (db : Db) a => db.addresses.lookup a) >>= k) =
        (query (fun (db : Db) a => (db.addresses.lookup a).map (·.exceptInbound)) >>= k) :=
    fun hk => query_bind_congr fun _ => hk _
  rw [hRead fun hackers => ?_]
  · refine (alike_query fun _ _ h => funext (addresses_of_batchView h)).bind observes_batchView
      fun hackers => alike_forEach observes_batchView fun row _ =>
      alike_forEach observes_batchView fun hacker _ => ?_
    exact (alike_tryInsertHackVictim _ _).bind observes_batchView fun inserted =>
      alike_when fun _ => alike_adjustHackStatsCounter _ _ _
  · congr 1
    funext row
    dsimp only
    cases hackers row.toAddress with
    | none => rfl
    | some hacker =>
      rw [Option.map_some, Option.filter_some, Option.filter_some]
      cases hf : hacker.isFlaggedHacker <;> simp [AddressRow.exceptInbound, hf, forEach]

/-- The largest payment depends on the lookups only. -/
theorem maxPayment_congr (h : ∀ k, db.edges.lookup k = db'.edges.lookup k) (hacker source : Address) :
    maxPayment db hacker source = maxPayment db' hacker source := by
  have hMem : ∀ (d : Db) (v : Int), (v ∈ d.edges.entries.filterMap fun e =>
      if e.1.toAddress = hacker ∧ e.1.fromAddress = source ∧ e.2.direction = .inToHacker then
        some e.2.amountSats else none) ↔ ∃ k row, d.edges.lookup k = some row ∧
      (if k.toAddress = hacker ∧ k.fromAddress = source ∧ row.direction = .inToHacker then
        some row.amountSats else none) = some v := by
    intro d v
    rw [List.mem_filterMap]
    constructor
    · rintro ⟨⟨k, row⟩, he, hv⟩
      exact ⟨k, row, Table.lookup_eq_some_iff.mpr he, hv⟩
    · rintro ⟨k, row, hk, hv⟩
      exact ⟨⟨k, row⟩, Table.lookup_eq_some_iff.mp hk, hv⟩
  have hMax : ∀ l l' : List Int, (∀ v, v ∈ l ↔ v ∈ l') → l.max? = l'.max? := by
    intro l l' hl
    apply Option.ext
    intro a
    rw [List.max?_eq_some_iff, List.max?_eq_some_iff]
    simp only [hl]
  unfold maxPayment
  rw [hMax _ _ fun v => ?_]
  rw [hMem, hMem]
  simp only [h]

theorem alike_applyHackerVictimPeakDelta (hacker source : Address) (new old : Int) :
    BatchAlike (applyHackerVictimPeakDelta hacker source new old)
      (applyHackerVictimPeakDelta hacker source new old) := by
  refine alike_when fun _ => ?_
  split
  · exact alike_run _
  · refine (alike_query fun _ _ h => peaks_of_batchView h _).bind observes_batchView fun peak =>
      alike_when fun _ => ?_
    refine (alike_query fun _ _ h => maxPayment_congr (edges_of_batchView h) _ _).bind
      observes_batchView fun _ => alike_run _

/-- The peaks of a sub-batch depend on the old amounts of its payments to hackers only. -/
theorem alike_applyPeakDeltas {old old' : EdgeKey → Option Int} {chunk : List EdgeUpsertData}
    (h : ∀ row ∈ inRows chunk, old row.key = old' row.key) :
    BatchAlike (applyPeakDeltas old chunk) (applyPeakDeltas old' chunk) := by
  refine alike_forEach observes_batchView fun row hr => ?_
  rw [h row hr]
  exact (alike_applyHackerVictimPeakDelta _ _ _ _).tryCatch _ _

theorem delta_congr {old old' : EdgeKey → Option Int} {row : EdgeUpsertData}
    (h : old row.key = old' row.key) : row.delta old = row.delta old' := by
  unfold EdgeUpsertData.delta
  rw [h]

theorem deltaByTarget_congr {old old' : EdgeKey → Option Int} {rows : List EdgeUpsertData}
    (h : ∀ row ∈ rows, old row.key = old' row.key) :
    deltaByTarget old rows = deltaByTarget old' rows := by
  unfold deltaByTarget
  rw [List.map_congr_left fun row hr => by rw [delta_congr (h row hr)]]

/-- What is observed of the derived values depends on the same. -/
theorem alike_applyEdgeDeltas {old old' : EdgeKey → Option Int} {chunk : List EdgeUpsertData}
    (h : ∀ row ∈ inRows chunk, old row.key = old' row.key) :
    BatchAlike (applyEdgeDeltas old chunk) (applyEdgeDeltas old' chunk) := by
  have hInbound : ∀ old, (forEach (deltaByTarget old (outRows chunk)) fun e =>
      applyInboundSatsDelta e.1 e.2).Completes :=
    fun _ => completes_forEach fun _ _ => completes_applyInboundSatsDelta _ _
  have hHidden : ∀ old, (forEach (deltaByTarget old (outRows chunk)) fun e =>
      applyInboundSatsDelta e.1 e.2).Emits fun i => i.inBatchView = false :=
    fun _ => emits_forEach fun _ _ => hidden_applyInboundSatsDelta _ _
  unfold applyEdgeDeltas
  rw [deltaByTarget_congr h, List.filter_congr fun row hr => by rw [h row hr]]
  exact (alike_forEach observes_batchView fun _ _ => alike_applyTotalReceivedDelta _ _).bind
    observes_batchView fun _ => (alike_hidden (hInbound _) (hInbound _) (hHidden _)
      (hHidden _)).bind observes_batchView fun _ => (alike_countNewVictims _).bind
    observes_batchView fun _ => alike_applyPeakDeltas h

end Alike

end Bloodhound.Store
