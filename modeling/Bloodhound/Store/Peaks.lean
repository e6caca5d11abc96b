import Bloodhound.Lib.Maximum
import Bloodhound.Store.EdgeOps

/-!
# Peaks of victims

The row of a hacker and a sender in `hacker_victim_peaks` against the payments from the one
to the other: there is a row exactly where there is a payment, and it holds the largest
amount (`PeaksExact`). A batch processes its payments one after another when all its rows
are already written. As long as no peak has been computed again, the peaks are those of the
table in which the payments still to come hold their old amounts; a peak that was computed
again is the one of the written table. At the end the two are the same.
-/

namespace Bloodhound.Store

open Journal Journal.Op
open Maximum (IsMax)

/-- The amount of the payment under a key. -/
def paymentAmount (t : Table.Rows EdgeKey EdgeRow) (k : EdgeKey) : Option Int :=
  ((t.lookup k).filter (·.direction = .inToHacker)).map (·.amountSats)

/-- The keys of the edges from a sender to a hacker. -/
def Between (hacker source : Address) (k : EdgeKey) : Prop :=
  k.toAddress = hacker ∧ k.fromAddress = source

/-- Every peak is the largest payment, and there is none without a payment. -/
def PeaksExact (db : Db) : Prop := ∀ h v,
  IsMax (Between h v) (paymentAmount db.edges) (db.peaks.lookup (h, v))

/-- A sub-batch that the peaks can follow: positive payments whose keys occur once and for whose
keys the stored payment was read, and outputs that replace no payment. -/
structure PeakRows (chunk : List EdgeUpsertData) (t : Table.Rows EdgeKey EdgeRow) : Prop where
  positive : ∀ row ∈ inRows chunk, 0 < row.amountSats
  once : OnceIn chunk (inRows chunk)
  read : ∀ row ∈ inRows chunk, storedAmounts chunk t row.key = paymentAmount t row.key
  outputs : ∀ row ∈ outRows chunk, paymentAmount t row.key = none

def PeakChunks : List (List EdgeUpsertData) → Table.Rows EdgeKey EdgeRow → Prop
  | [], _ => True
  | chunk :: rest, t => PeakRows chunk t ∧ PeakChunks rest (upsertedEdges chunk t)

/-- No statement fails, a batch can be followed sub-batch by sub-batch, and no payment is deleted. -/
def PeaksSafe (env : Env) : EdgeGuard
  | .upsertBatch rows, db, c => c.faults = [] ∧
      PeakChunks (chunkArray env.store.d1BatchSize rows) db.edges
  | .deleteTouching a, db, _ => ∀ k r, db.edges.lookup k = some r → r.direction = .inToHacker →
      apartFrom a k r = true
  | .deleteHackTrace, db, _ => ∀ k r, db.edges.lookup k = some r → r.direction ≠ .inToHacker
  | .recalcReceived _, _, _ => True

/-! ## The largest payment -/

theorem paymentAmount_eq_some {t : Table.Rows EdgeKey EdgeRow} {k : EdgeKey} {v : Int} :
    paymentAmount t k = some v ↔
      ∃ row, t.lookup k = some row ∧ row.direction = .inToHacker ∧ row.amountSats = v := by
  unfold paymentAmount
  rw [Option.map_eq_some_iff]
  simp only [Option.filter_eq_some_iff, decide_eq_true_eq, and_assoc]

/-- `maxPayment` computes the largest payment. -/
theorem isMax_maxPayment (db : Db) {h v : Address} {k : EdgeKey} {a : Int} (hk : Between h v k)
    (ha : paymentAmount db.edges k = some a) :
    IsMax (Between h v) (paymentAmount db.edges) (some (maxPayment db h v)) := by
  have hMem : ∀ b : Int, (b ∈ db.edges.entries.filterMap fun e =>
      if e.1.toAddress = h ∧ e.1.fromAddress = v ∧ e.2.direction = .inToHacker then
        some e.2.amountSats else none) ↔ b ∈ Maximum.values (Between h v) (paymentAmount db.edges) := by
    intro b
    rw [List.mem_filterMap]
    constructor
    · rintro ⟨⟨j, row⟩, he, hb⟩
      by_cases hc : j.toAddress = h ∧ j.fromAddress = v ∧ row.direction = .inToHacker
      · rw [if_pos hc] at hb
        exact ⟨j, ⟨hc.1, hc.2.1⟩, paymentAmount_eq_some.mpr
          ⟨row, Table.lookup_eq_some_iff.mpr he, hc.2.2, Option.some.inj hb⟩⟩
      · rw [if_neg hc] at hb
        cases hb
    · rintro ⟨j, ⟨hTo, hFrom⟩, hb⟩
      obtain ⟨row, hRow, hDir, hAmount⟩ := paymentAmount_eq_some.mp hb
      exact ⟨⟨j, row⟩, Table.lookup_eq_some_iff.mp hRow, by rw [if_pos ⟨hTo, hFrom, hDir⟩, hAmount]⟩
  unfold maxPayment
  generalize (db.edges.entries.filterMap fun e =>
    if e.1.toAddress = h ∧ e.1.fromAddress = v ∧ e.2.direction = .inToHacker then
      some e.2.amountSats else none) = l at hMem
  have hNe : a ∈ l := (hMem a).mpr ⟨k, hk, ha⟩
  cases hMax : l.max? with
  | none =>
    rw [List.max?_eq_none_iff.mp hMax] at hNe
    cases hNe
  | some m =>
    rw [List.max?_eq_some_iff] at hMax
    refine ⟨fun b hb => ?_, fun hNone => by cases hNone⟩
    rw [← Option.some.inj hb]
    exact ⟨(hMem m).mp hMax.1, fun b hb => hMax.2 b ((hMem b).mpr hb)⟩

/-! ## Processing the payments of a sub-batch -/

section Processing

variable {t t' : Table.Rows EdgeKey EdgeRow} {rest : List EdgeUpsertData} {row : EdgeUpsertData}

/-- The payments of a table in which the rows still to come hold their old amounts. -/
def pendingAmount (t t' : Table.Rows EdgeKey EdgeRow) (rest : List EdgeUpsertData) (k : EdgeKey) :
    Option Int :=
  if k ∈ rest.map (·.key) then paymentAmount t k else paymentAmount t' k

/-- The state while the payments `rest` are still to come. -/
structure Processing (t t' : Table.Rows EdgeKey EdgeRow) (rest : List EdgeUpsertData) (db : Db) :
    Prop where
  edges : db.edges = t'
  peaks : ∀ h v, IsMax (Between h v) (pendingAmount t t' rest) (db.peaks.lookup (h, v)) ∨
    IsMax (Between h v) (paymentAmount t') (db.peaks.lookup (h, v))

/-- Processing a row puts its new amount in. -/
theorem pendingAmount_cons (hNotMem : row.key ∉ rest.map (·.key))
    (hNew : paymentAmount t' row.key = some row.amountSats) :
    pendingAmount t t' rest =
      Function.update (pendingAmount t t' (row :: rest)) row.key (some row.amountSats) := by
  funext k
  unfold pendingAmount
  by_cases hk : k = row.key
  · rw [hk, Function.update_self, if_neg hNotMem, hNew]
  · rw [Function.update_of_ne hk]
    simp [hk]

theorem pendingAmount_self : pendingAmount t t' (row :: rest) row.key = paymentAmount t row.key := by
  unfold pendingAmount
  rw [if_pos]
  simp

/-- A statement on one peak, by what it makes of that peak. -/
theorem processing_exec {db : Db} (h : Processing t t' (row :: rest) db)
    (hNotMem : row.key ∉ rest.map (·.key)) (hNew : paymentAmount t' row.key = some row.amountSats)
    {s : PeakStmt} (hOther : ∀ k, k ≠ (row.toAddress, row.fromAddress) →
      (s.exec db.peaks).lookup k = db.peaks.lookup k)
    (hSelf : IsMax (Between row.toAddress row.fromAddress) (pendingAmount t t' rest)
        ((s.exec db.peaks).lookup (row.toAddress, row.fromAddress)) ∨
      IsMax (Between row.toAddress row.fromAddress) (paymentAmount t')
        ((s.exec db.peaks).lookup (row.toAddress, row.fromAddress))) :
    Processing t t' rest (exec (Stmt.peak s) db) where
  edges := h.edges
  peaks a b := by
    show IsMax _ _ ((s.exec db.peaks).lookup (a, b)) ∨ IsMax _ _ ((s.exec db.peaks).lookup (a, b))
    by_cases hab : (a, b) = (row.toAddress, row.fromAddress)
    · cases hab
      exact hSelf
    · rw [hOther _ hab, pendingAmount_cons hNotMem hNew]
      have hNot : ¬ Between a b row.key := fun hb => hab (by rw [← hb.1, ← hb.2]; rfl)
      exact (h.peaks a b).imp (fun hm => hm.update_of_not hNot _) id

/-- A row whose peak stays as it is. -/
theorem processing_skip {db : Db} (h : Processing t t' (row :: rest) db)
    (hNotMem : row.key ∉ rest.map (·.key)) (hNew : paymentAmount t' row.key = some row.amountSats)
    (hSelf : IsMax (Between row.toAddress row.fromAddress) (pendingAmount t t' rest)
        (db.peaks.lookup (row.toAddress, row.fromAddress)) ∨
      IsMax (Between row.toAddress row.fromAddress) (paymentAmount t')
        (db.peaks.lookup (row.toAddress, row.fromAddress))) :
    Processing t t' rest db where
  edges := h.edges
  peaks a b := by
    by_cases hab : (a, b) = (row.toAddress, row.fromAddress)
    · cases hab
      exact hSelf
    · rw [pendingAmount_cons hNotMem hNew]
      have hNot : ¬ Between a b row.key := fun hb => hab (by rw [← hb.1, ← hb.2]; rfl)
      exact (h.peaks a b).imp (fun hm => hm.update_of_not hNot _) id

/-- A payment that is at least as large as before raises its peak. -/
theorem processing_raise {db : Db} (h : Processing t t' (row :: rest) db)
    (hNotMem : row.key ∉ rest.map (·.key)) (hNew : paymentAmount t' row.key = some row.amountSats)
    (hOld : ∀ b, paymentAmount t row.key = some b → b ≤ row.amountSats) :
    Processing t t' rest
      (exec (Stmt.peak (.raise row.toAddress row.fromAddress row.amountSats)) db) := by
  have hKey : Between row.toAddress row.fromAddress row.key := ⟨rfl, rfl⟩
  have hLookup : ((PeakStmt.raise row.toAddress row.fromAddress row.amountSats).exec db.peaks).lookup
      (row.toAddress, row.fromAddress) = some ((db.peaks.lookup (row.toAddress, row.fromAddress)).elim
        row.amountSats (max · row.amountSats)) := AList.lookup_insert _
  refine processing_exec h hNotMem hNew (fun k hk => AList.lookup_insert_ne hk) ?_
  rw [hLookup]
  rcases h.peaks row.toAddress row.fromAddress with hm | hm
  · rw [pendingAmount_cons hNotMem hNew]
    exact Or.inl (hm.raise hKey (by rwa [pendingAmount_self]))
  · refine Or.inr ?_
    obtain ⟨m, hPeak⟩ := hm.exists_of_mem hKey hNew
    rw [hPeak] at hm ⊢
    show IsMax _ _ (some (max m row.amountSats))
    rwa [max_eq_left (hm.le hKey hNew)]

/-- A payment that has become smaller has its peak computed again where it may have been the
largest. -/
theorem processing_lower {db : Db} (h : Processing t t' (row :: rest) db)
    (hNotMem : row.key ∉ rest.map (·.key)) (hNew : paymentAmount t' row.key = some row.amountSats)
    {o p : Int} (hOld : paymentAmount t row.key = some o) (hLess : row.amountSats < o)
    (hPeak : db.peaks.lookup (row.toAddress, row.fromAddress) = some p) (hAbove : o < p) :
    Processing t t' rest db := by
  refine processing_skip h hNotMem hNew ?_
  rcases h.peaks row.toAddress row.fromAddress with hm | hm
  · rw [pendingAmount_cons hNotMem hNew]
    rw [hPeak] at hm ⊢
    refine Or.inl (hm.lower (fun c hc => ?_) (by omega))
    rw [pendingAmount_self, hOld] at hc
    cases hc
    exact hAbove
  · exact Or.inr hm

theorem processing_recompute {db : Db} (h : Processing t t' (row :: rest) db)
    (hNotMem : row.key ∉ rest.map (·.key)) (hNew : paymentAmount t' row.key = some row.amountSats)
    (hPos : 0 < row.amountSats) {p : Int}
    (hPeak : db.peaks.lookup (row.toAddress, row.fromAddress) = some p) :
    Processing t t' rest (exec (Stmt.peak
      (if maxPayment db row.toAddress row.fromAddress ≤ 0 then
        .delete row.toAddress row.fromAddress
      else .set row.toAddress row.fromAddress
        (maxPayment db row.toAddress row.fromAddress))) db) := by
  have hKey : Between row.toAddress row.fromAddress row.key := ⟨rfl, rfl⟩
  have hMax := isMax_maxPayment db hKey (by rw [h.edges, hNew])
  have hLe := hMax.le hKey (by rw [h.edges, hNew])
  rw [if_neg (by omega)]
  have hModify : ∀ k, ((PeakStmt.set row.toAddress row.fromAddress
      (maxPayment db row.toAddress row.fromAddress)).exec db.peaks).lookup k =
      if k = (row.toAddress, row.fromAddress) then (db.peaks.lookup k).map fun _ =>
        maxPayment db row.toAddress row.fromAddress else db.peaks.lookup k :=
    fun k => Table.lookup_modify _ k _ _
  refine processing_exec h hNotMem hNew (fun k hk => by rw [hModify, if_neg hk]) (Or.inr ?_)
  rw [hModify, if_pos rfl, hPeak, Option.map_some, ← h.edges]
  exact hMax

/-- One payment of a sub-batch, without faults. -/
theorem total_applyPeak (hNotMem : row.key ∉ rest.map (·.key))
    (hNew : paymentAmount t' row.key = some row.amountSats) (hPos : 0 < row.amountSats) :
    Total (Processing t t' (row :: rest))
      (applyHackerVictimPeakDelta row.toAddress row.fromAddress row.amountSats
        ((paymentAmount t row.key).getD 0)) fun _ => Processing t t' rest := by
  have hKey : Between row.toAddress row.fromAddress row.key := ⟨rfl, rfl⟩
  refine total_when (fun _ => ?_) fun hNot => absurd (Or.inl hPos) hNot
  split
  · next hLe =>
    refine total_run fun db h => processing_raise h hNotMem hNew fun b hb => ?_
    rw [hb] at hLe
    exact hLe
  · next hLess =>
    -- the old amount was above the new one, so there was a payment
    obtain ⟨o, hOld⟩ : ∃ o, paymentAmount t row.key = some o := by
      cases ho : paymentAmount t row.key with
      | some o => exact ⟨o, rfl⟩
      | none =>
        rw [ho, Option.getD_none] at hLess
        omega
    rw [hOld, Option.getD_some] at hLess ⊢
    have hSome : ∀ db, Processing t t' (row :: rest) db →
        ∃ p, db.peaks.lookup (row.toAddress, row.fromAddress) = some p := by
      intro db h
      rcases h.peaks row.toAddress row.fromAddress with hm | hm
      · exact hm.exists_of_mem hKey (by rw [pendingAmount_self, hOld])
      · exact hm.exists_of_mem hKey hNew
    refine Total.bind (Q := fun peak db => Processing t t' (row :: rest) db ∧
      peak = db.peaks.lookup (row.toAddress, row.fromAddress)) (total_query fun db h => ⟨h, rfl⟩)
      fun peak => total_when (fun _ => ?_) fun hNot db h => ?_
    · refine Total.bind (Q := fun n db => Processing t t' (row :: rest) db ∧
        n = maxPayment db row.toAddress row.fromAddress) (total_query fun db h => ⟨h.1, rfl⟩)
        fun n => total_run fun db h => ?_
      obtain ⟨p, hp⟩ := hSome db h.1
      rw [h.2]
      exact processing_recompute h.1 hNotMem hNew hPos hp
    · obtain ⟨p, hp⟩ := hSome db h.1
      rw [h.2, hp] at hNot
      have hAbove : o < p := by simpa using hNot
      exact processing_lower h.1 hNotMem hNew hOld (by omega) hp hAbove

end Processing

/-! ## The rest of a sub-batch -/

/-- A statement that writes neither edges nor peaks. -/
def Stmt.Aside (i : Stmt) : Prop :=
  ∀ db : Db, (exec i db).edges = db.edges ∧ (exec i db).peaks = db.peaks

theorem aside_of_isCounter (i : Stmt) (h : i.isCounter) : i.Aside := by
  cases i with
  | scheduler | hackStats | insertHackVictim => exact fun _ => ⟨rfl, rfl⟩
  | _ => cases h

theorem aside_address (s : AddressStmt) : (Stmt.address s).Aside := fun _ => ⟨rfl, rfl⟩

theorem Processing.of_aside {t t' : Table.Rows EdgeKey EdgeRow} {rest : List EdgeUpsertData}
    {i : Stmt} (hi : i.Aside) {db : Db} (h : Processing t t' rest db) :
    Processing t t' rest (exec i db) where
  edges := (hi db).1.trans h.edges
  peaks a b := by
    have hPeaks : (exec i db).peaks = db.peaks := (hi db).2
    rw [hPeaks]
    exact h.peaks a b

theorem aside_applyTotalReceivedDelta (a : Address) (d : Int) :
    (applyTotalReceivedDelta a d).Emits Stmt.Aside := by
  have hActive : ∀ (before : Option AddressRow) (after : AddressRow) (d : Int),
      (adjustHackerActive before after d).Emits Stmt.Aside := fun before after d =>
    (emits_adjustCounter aside_of_isCounter _ _).bind fun _ => emits_forEach fun _ _ =>
      emits_when fun _ => emits_adjustHackStatsCounter aside_of_isCounter _ _ _
  refine emits_when fun _ => (emits_query _).bind fun before =>
    (emits_run (P := Stmt.Aside) (aside_address _)).bind fun _ => emits_forEach fun row _ => ?_
  exact (emits_adjustOnChange (hActive _ _) _ _).bind fun _ =>
    emits_when fun _ => emits_adjustHackStatsCounter aside_of_isCounter _ _ _

theorem aside_applyInboundSatsDelta (a : Address) (d : Int) :
    (applyInboundSatsDelta a d).Emits Stmt.Aside :=
  emits_when fun _ => (emits_query _).bind fun _ => (emits_query _).bind fun _ =>
    (emits_run (P := Stmt.Aside) (aside_address _)).bind fun _ => emits_forEach fun _ _ =>
      emits_when fun _ => (emits_query _).bind fun _ => emits_now.bind fun _ =>
        emits_when fun _ => emits_adjustPollDueOrMarkDirty aside_of_isCounter _ _ _ _

theorem aside_countNewVictims (rows : List EdgeUpsertData) :
    (countNewVictims rows).Emits Stmt.Aside :=
  emits_when fun _ => (emits_query _).bind fun _ => emits_forEach fun _ _ =>
    emits_forEach fun _ _ => (emits_tryInsertHackVictim aside_of_isCounter _ _).bind fun _ =>
      emits_when fun _ => emits_adjustHackStatsCounter aside_of_isCounter _ _ _

section Chunk

variable {chunk : List EdgeUpsertData} {t : Table.Rows EdgeKey EdgeRow}

theorem PeakRows.nodup (h : PeakRows chunk t) : ((inRows chunk).map (·.key)).Nodup := by
  rw [List.nodup_iff_count_le_one]
  intro k
  by_cases hk : k ∈ (inRows chunk).map (·.key)
  · obtain ⟨row, hRow, rfl⟩ := List.mem_map.mp hk
    have hSub : ((inRows chunk).map (·.key)).Sublist (chunk.map (·.key)) :=
      List.filter_sublist.map _
    exact (hSub.count_le _).trans_eq (h.once row hRow)
  · rw [List.count_eq_zero_of_not_mem hk]
    exact Nat.zero_le 1

/-- A payment is stored with its amount once the rows are written. -/
theorem PeakRows.written (h : PeakRows chunk t) {row : EdgeUpsertData} (hRow : row ∈ inRows chunk) :
    paymentAmount (upsertedEdges chunk t) row.key = some row.amountSats := by
  obtain ⟨hMem, hDir⟩ := mem_inRows.mp hRow
  have hSettled : row.Settled (upsertedEdges chunk t) :=
    settled_upsertedEdges (fun row' hr' hKey => h.once.unique hRow hMem hr' hKey) t (Or.inr hMem)
  obtain ⟨stored, hs, hAmount, hStored⟩ := lookup_of_settled hSettled
  exact paymentAmount_eq_some.mpr ⟨stored, hs, hStored.trans hDir, hAmount⟩

/-- Outputs leave a key without a payment where it is. -/
theorem paymentAmount_of_outputs {rows : List EdgeUpsertData} {k : EdgeKey}
    (hRows : ∀ row ∈ rows, row.key = k → row.direction = .outFromHacker)
    (hNone : (∃ row ∈ rows, row.key = k) → paymentAmount t k = none) :
    paymentAmount (upsertedEdges rows t) k = paymentAmount t k := by
  induction rows generalizing t with
  | nil => rfl
  | cons row rows ih =>
    have hTail : ∀ r ∈ rows, r.key = k → r.direction = .outFromHacker := fun r hr =>
      hRows r (List.mem_cons_of_mem _ hr)
    have hHead : paymentAmount ((EdgeStmt.upsert row).exec t) k = paymentAmount t k := by
      by_cases hk : k = row.key
      · have hOut : row.direction = .outFromHacker := hRows row List.mem_cons_self hk.symm
        rw [hNone ⟨row, List.mem_cons_self, hk.symm⟩]
        unfold paymentAmount
        rw [lookup_upsertEdge, if_pos hk]
        cases t.lookup k <;> simp [EdgeUpsertData.inserted, EdgeUpsertData.updated, hOut]
      · unfold paymentAmount
        rw [lookup_upsertEdge, if_neg hk]
    rw [upsertedEdges_cons, ih hTail fun ⟨r, hr, hKey⟩ => ?_, hHead]
    rw [hHead, hNone ⟨r, List.mem_cons_of_mem _ hr, hKey⟩]

/-- When the rows are written, every payment of the sub-batch is still to come. -/
theorem PeakRows.processing (h : PeakRows chunk t) {db : Db}
    (hEdges : db.edges = upsertedEdges chunk t)
    (hPeaks : ∀ a b, IsMax (Between a b) (paymentAmount t) (db.peaks.lookup (a, b))) :
    Processing t (upsertedEdges chunk t) (inRows chunk) db where
  edges := hEdges
  peaks a b := by
    refine Or.inl ((hPeaks a b).congr fun k _ => ?_)
    unfold pendingAmount
    split
    · rfl
    · next hk =>
      have hOut : ∀ row ∈ chunk, row.key = k → row.direction = .outFromHacker := by
        intro row hRow hKey
        cases hd : row.direction with
        | outFromHacker => rfl
        | inToHacker => exact absurd (List.mem_map.mpr ⟨row, mem_inRows.mpr ⟨hRow, hd⟩, hKey⟩) hk
      refine (paymentAmount_of_outputs hOut fun ⟨row, hRow, hKey⟩ => ?_).symm
      rw [← hKey]
      exact h.outputs row (mem_outRows.mpr ⟨hRow, hOut row hRow hKey⟩)

theorem total_applyPeakDeltas (h : PeakRows chunk t) :
    Total (Processing t (upsertedEdges chunk t) (inRows chunk))
      (applyPeakDeltas (storedAmounts chunk t) chunk)
      fun _ => Processing t (upsertedEdges chunk t) [] := by
  refine total_forEach_rest fun row rest hSplit => ?_
  obtain ⟨front, hFront⟩ := hSplit
  have hRow : row ∈ inRows chunk := by
    rw [hFront]
    exact List.mem_append_right _ List.mem_cons_self
  have hNotMem : row.key ∉ rest.map (·.key) := by
    have hNodup := h.nodup
    rw [hFront, List.map_append, List.map_cons] at hNodup
    exact (List.nodup_cons.mp hNodup.of_append_right).1
  rw [h.read row hRow]
  exact (total_applyPeak hNotMem (h.written hRow) (h.positive row hRow)).tryCatch

/-- One sub-batch, without faults. -/
theorem total_upsertEdgesChunk (env : Env) (h : PeakRows chunk t) :
    Total (fun db => db.edges = t ∧ PeaksExact db) (upsertEdgesChunk env chunk)
      fun _ db => db.edges = upsertedEdges chunk t ∧ PeaksExact db := by
  have hKeep : ∀ {p : StoreM Unit}, p.Completes → p.Emits Stmt.Aside →
      Total (Processing t (upsertedEdges chunk t) (inRows chunk)) p
        fun _ => Processing t (upsertedEdges chunk t) (inRows chunk) := fun hp he =>
    hp.total he fun i hi db hdb => hdb.of_aside hi
  refine Total.bind (Q := fun old db => old = storedAmounts chunk t ∧ db.edges = t ∧ PeaksExact db)
    (total_query fun db hdb => ⟨by rw [hdb.1], hdb⟩) fun old => ?_
  refine Total.bind (Q := fun _ db => old = storedAmounts chunk t ∧
    Processing t (upsertedEdges chunk t) (inRows chunk) db) ?_ fun _ => ?_
  · rintro db m ⟨hOld, hEdges, hExact⟩
    refine ⟨(), _, m, runs_executeSqlBatch env _ db m, hOld, h.processing ?_ fun a b => ?_⟩
    · rw [← hEdges, ← core_edges, core_replay, List.filterMap_map]
      have hStmts : chunk.filterMap (Stmt.core? ∘ fun data => Stmt.edge (.upsert data)) =
          edgeStmts chunk := congrFun List.filterMap_eq_map chunk
      rw [hStmts]
      exact edges_replay_edgeStmts chunk db.core
    · have hPeaks : (replay (chunk.map fun data => Stmt.edge (.upsert data)) db).peaks = db.peaks := by
        refine replay_frame (f := Db.peaks) (fun i hi db => ?_) db
        obtain ⟨data, _, rfl⟩ := List.mem_map.mp hi
        rfl
      rw [hPeaks, ← hEdges]
      exact hExact a b
  · refine Total.bind (Q := fun _ db => db.edges = upsertedEdges chunk t ∧ PeaksExact db) ?_
      fun _ => total_pure _ fun _ hdb => hdb
    intro db m hdb
    obtain ⟨rfl, hProcessing⟩ := hdb
    have hBody : Total (Processing t (upsertedEdges chunk t) (inRows chunk))
        (applyEdgeDeltas (storedAmounts chunk t) chunk)
        fun _ => Processing t (upsertedEdges chunk t) [] := by
      refine Total.bind (hKeep (completes_forEach fun e _ =>
        (alike_applyTotalReceivedDelta e.1 e.2).completes)
        (emits_forEach fun e _ => aside_applyTotalReceivedDelta e.1 e.2)) fun _ => ?_
      refine Total.bind (hKeep (completes_forEach fun e _ => completes_applyInboundSatsDelta e.1 e.2)
        (emits_forEach fun e _ => aside_applyInboundSatsDelta e.1 e.2)) fun _ => ?_
      refine Total.bind (hKeep (alike_countNewVictims _).completes (aside_countNewVictims _)) fun _ => ?_
      exact total_applyPeakDeltas h
    have hPost : Total (Processing t (upsertedEdges chunk t) (inRows chunk))
        (applyEdgeDeltas (storedAmounts chunk t) chunk)
        fun _ db => db.edges = upsertedEdges chunk t ∧ PeaksExact db := by
      refine hBody.post fun _ db hDone => ⟨hDone.edges, fun a b => ?_⟩
      rw [hDone.edges]
      rcases hDone.peaks a b with hm | hm
      · exact hm.congr fun k _ => if_neg (List.not_mem_nil)
      · exact hm
    exact hPost db m hProcessing

end Chunk

/-! ## Runs -/

theorem peaksExact_of_aside {i : Stmt} (hi : i.Aside) {db : Db} (h : PeaksExact db) :
    PeaksExact (exec i db) := by
  intro a b
  have hEdges : (exec i db).edges = db.edges := (hi db).1
  have hPeaks : (exec i db).peaks = db.peaks := (hi db).2
  rw [hEdges, hPeaks]
  exact h a b

theorem total_upsertEdgesChunks (env : Env) {chunks : List (List EdgeUpsertData)}
    {t : Table.Rows EdgeKey EdgeRow} (h : PeakChunks chunks t) (a b : Int) :
    Total (fun db => db.edges = t ∧ PeaksExact db) (upsertEdgesChunks env chunks a b)
      fun _ => PeaksExact := by
  induction chunks generalizing t a b with
  | nil => exact total_pure _ fun _ hdb => hdb.2
  | cons chunk rest ih =>
    exact (total_upsertEdgesChunk env h.1).bind fun d => ih h.2 (a + d.1) (b + d.2)

theorem peaksExact_upsertBatch {env : Env} {rows : List EdgeUpsertData} {db : Db} {c : Ctl Mem Err}
    (hSafe : PeaksSafe env (.upsertBatch rows) db c) (hExact : PeaksExact db) :
    PeaksExact ((upsertEdgesBatch env rows).final db c) := by
  obtain ⟨hFaults, hChunks⟩ := hSafe
  have hTotal : Total (fun s => s.edges = db.edges ∧ PeaksExact s) (upsertEdgesBatch env rows)
      fun _ => PeaksExact := by
    refine total_when (fun _ => ?_) fun _ s hs => hs.2
    refine Total.bind (total_upsertEdgesChunks env hChunks 0 0) fun totals => ?_
    refine Completes.total (completes_when fun _ => completes_run _) (S := Stmt.Aside)
      (emits_when fun _ => emits_run fun _ => ⟨rfl, rfl⟩) fun i hi s hs => peaksExact_of_aside hi hs
  obtain ⟨m, faults⟩ := c
  cases hFaults
  obtain ⟨_, _, hDone⟩ := hTotal.final (m := m) ⟨rfl, hExact⟩
  exact hDone

/-- A deletion of edges that are no payments leaves the payments. -/
theorem peaksExact_of_deletion {keep : EdgeKey → EdgeRow → Bool} {db db' : Db}
    (hEdges : db'.edges = Table.filter keep db.edges) (hPeaks : db'.peaks = db.peaks)
    (hKeep : ∀ k r, db.edges.lookup k = some r → r.direction = .inToHacker → keep k r = true)
    (hExact : PeaksExact db) : PeaksExact db' := by
  intro a b
  rw [hPeaks]
  refine (hExact a b).congr fun k _ => ?_
  unfold paymentAmount
  rw [hEdges, Table.lookup_filter]
  cases hs : db.edges.lookup k with
  | none => rfl
  | some r =>
    by_cases hd : r.direction = .inToHacker
    · simp [Option.filter_some, hd, hKeep k r hs hd]
    · simp [Option.filter_some, hd]

/-- One operation keeps the peaks exact. -/
theorem peaksExact_step {env : Env} (op : EdgeOp) (db : Db) (c : Ctl Mem Err)
    (hSafe : PeaksSafe env op db c) (hOk : (op.run env db c).res = .ok ()) (hExact : PeaksExact db) :
    PeaksExact ((op.run env).final db c) := by
  cases op with
  | upsertBatch rows => exact peaksExact_upsertBatch hSafe hExact
  | deleteTouching a =>
    have hDeletes := deletes_deleteEdgesTouchingAddress hOk
    exact peaksExact_of_deletion hDeletes.edges hDeletes.peaks hSafe hExact
  | deleteHackTrace =>
    rw [final_deleteHackTrace hOk]
    have hEdges : EdgeStmt.deleteHackTrace.exec db.edges = Table.filter (fun _ r =>
        !(r.direction = .inToHacker || r.direction = .outFromHacker)) db.edges := rfl
    exact peaksExact_of_deletion hEdges rfl (fun k r hk hd => absurd hd (hSafe k r hk)) hExact
  | recalcReceived hackers =>
    have hAside : (recalcTotalReceivedFor hackers).Emits Stmt.Aside := by
      refine emits_forEach fun a _ => (emits_query _).bind fun _ => (emits_query _).bind fun _ =>
        (emits_run (P := Stmt.Aside) (aside_address _)).bind fun _ => emits_forEach fun _ _ =>
        emits_when fun _ => (emits_adjustHackStatsCounter aside_of_isCounter _ _ _).bind fun _ =>
        emits_adjustOnChange (emits_adjustHackStatsCounter aside_of_isCounter _ _) _ _
    exact replay_inv (P := PeaksExact) (fun i hi s hs => peaksExact_of_aside (hAside db c i hi) hs)
      hExact

/-- In every run whose operations all meet the condition, the peaks stay exact. -/
theorem peaksExact_of_run {env : Env} {db db' : Db} (h : EdgeRun env (PeaksSafe env) db db')
    (hExact : PeaksExact db) : PeaksExact db' :=
  opRun_invariant peaksExact_step h hExact

/-! ## A victim that is deleted -/

/-- A victim pays a hacker. -/
def victimPayment : EdgeUpsertData where
  fromAddress := name "v"
  toAddress := name "h"
  txid := name "t"
  amountSats := 200000
  direction := .inToHacker

def peakEnv : Env := { provider := .ofTxs [] }

def storedPayment : Db := (upsertEdgesBatch peakEnv [victimPayment]).final .initial ⟨{}, []⟩

def victimDeleted : Db := (deleteEdgesTouchingAddress (name "v")).final storedPayment ⟨{}, []⟩

theorem peaksExact_initial : PeaksExact .initial := by
  intro h v
  constructor
  · intro a ha
    cases ha
  intro _
  refine Set.eq_empty_iff_forall_notMem.mpr fun a ha => ?_
  obtain ⟨k, _, hk⟩ := ha
  cases hk

theorem edgeRun_storedPayment {guard : EdgeGuard}
    (hGuard : guard (.upsertBatch [victimPayment]) .initial ⟨{}, []⟩) :
    EdgeRun peakEnv guard .initial storedPayment :=
  .single ⟨.upsertBatch [victimPayment], ⟨{}, []⟩, hGuard, rfl, rfl⟩

theorem edgeRun_victimDeleted : EdgeRun peakEnv (fun _ _ _ => True) storedPayment victimDeleted :=
  .single ⟨.deleteTouching (name "v"), ⟨{}, []⟩, trivial, rfl, rfl⟩

/-- The deletion of the victim's edges leaves its peak. -/
theorem peaks_victimDeleted_stale : PeaksExact .initial ∧
    EdgeRun peakEnv (fun _ _ _ => True) .initial victimDeleted ∧ ¬ PeaksExact victimDeleted := by
  have hPeak : victimDeleted.peaks.lookup (name "h", name "v") = some 200000 := by decide +kernel
  have hEdges : victimDeleted.edges.entries = [] := by decide +kernel
  refine ⟨peaksExact_initial, (edgeRun_storedPayment trivial).trans edgeRun_victimDeleted, fun h => ?_⟩
  obtain ⟨⟨k, _, hk⟩, _⟩ := (h (name "h") (name "v")).1 200000 hPeak
  obtain ⟨row, hRow, _⟩ := paymentAmount_eq_some.mp hk
  have hMem := Table.lookup_eq_some_iff.mp hRow
  rw [hEdges] at hMem
  cases hMem

/-- A payment that is stored for the first time gets its peak. -/
theorem peaks_storedPayment_exact : PeaksExact storedPayment := by
  have hGuard : PeaksSafe peakEnv (.upsertBatch [victimPayment]) .initial ⟨{}, []⟩ := by
    refine ⟨rfl, ⟨?_, ?_, ?_, ?_⟩, trivial⟩
    · decide
    · intro row hr
      rw [List.mem_singleton.mp hr]
      rfl
    · decide
    · decide
  exact peaksExact_of_run (edgeRun_storedPayment hGuard) peaksExact_initial

end Bloodhound.Store
