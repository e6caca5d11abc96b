import Bloodhound.Ops.Hackers
import Bloodhound.Store.PollDue

/-!
# Due polls over runs

Runs of the operations that write addresses, edges and poll states after the monitor has counted the due
polls, with the clock fixed. The cached count stays exact where every operation does to the due
addresses what its adjustment assumes of it (`pollDueExact_of_run`): an address that becomes eligible or
ceases to be is due, and what is deleted or recomputed leaves the due addresses.
-/

namespace Bloodhound.Ops

open Store
open Journal Journal.Op

/-! ## Rows -/

section Rows

variable {φ : Prop} {nowMs : Nat} {params : PollParams} {t : AddressTable} {y : SyncTable}

theorem poll_upsertAddress (data : AddressUpsertData)
    (hDue : φ → DueOnChange nowMs params (y.lookup data.address) (t.lookup data.address)
      (((AddressStmt.upsert data).exec t).lookup data.address)) :
    PollTriple (PollOff φ nowMs params t y 0) (upsertAddress data)
      fun _ => PollOff φ nowMs params ((AddressStmt.upsert data).exec t) y 0 := by
  refine (poll_getAddress data.address).bind fun existing => memTriple_of_fact fun hExisting => ?_
  subst hExisting
  refine (poll_writeAddress (.upsert data)).bind fun _ => ?_
  rw [dueTotal_row fun b hb => lookup_upsert_ne hb, zero_add, add_sub_cancel_left]
  refine (poll_still (still_when fun _ => still_run rfl)).bind fun _ => ?_
  refine (poll_getAddress data.address).bind fun updated => memTriple_of_fact fun hUpdated => ?_
  have hRow : updated = some ((t.lookup data.address).elim data.inserted data.updated) := by
    rw [hUpdated, lookup_upsert, if_pos rfl]
  rw [← hUpdated] at hDue ⊢
  rw [hRow] at hDue ⊢
  refine MemTriple.bind ?_ fun _ => memTriple_pure () fun _ _ hs => hs
  refine (poll_still (still_adjustCounter _ _)).bind fun _ => ?_
  refine (poll_still (still_applyAddressStatsDelta _ _)).bind fun _ => ?_
  exact poll_maybeMark hDue (fun _ => (add_zero _).symm) fun _ => dueTotal_nonneg

theorem poll_setExpandStatus (a : Address) (status : ExpandStatus)
    (hDue : φ → DueOnChange nowMs params (y.lookup a) (t.lookup a)
      (((AddressStmt.setExpandStatus a status).exec t).lookup a)) :
    PollTriple (PollOff φ nowMs params t y 0) (setExpandStatus a status)
      fun _ => PollOff φ nowMs params ((AddressStmt.setExpandStatus a status).exec t) y 0 := by
  refine (poll_getAddress a).bind fun existing => memTriple_of_fact fun hExisting => ?_
  subst hExisting
  refine (poll_writeAddress (.setExpandStatus a status)).bind fun _ => ?_
  have hRows : ∀ b, b ≠ a → ((AddressStmt.setExpandStatus a status).exec t).lookup b = t.lookup b := by
    intro b hb
    unfold AddressStmt.exec
    rw [Table.lookup_modify, if_neg hb]
  have hWritten : ((AddressStmt.setExpandStatus a status).exec t).lookup a =
      (t.lookup a).map ({ · with expandStatus := status }) := by
    unfold AddressStmt.exec
    rw [Table.lookup_modify, if_pos rfl]
  rw [dueTotal_row hRows, zero_add, add_sub_cancel_left]
  cases hRow : t.lookup a with
  | none =>
    rw [hWritten, hRow, Option.map_none, sub_self]
    exact memTriple_pure () fun _ _ hs => hs
  | some row =>
    refine MemTriple.bind ?_ fun _ => memTriple_pure () fun _ _ hs => hs
    refine (poll_still (still_adjustCounter _ _)).bind fun _ => ?_
    refine (poll_still (still_adjustOnChange (still_adjustCounter _) _ _)).bind fun _ => ?_
    refine (poll_getAddress a).bind fun updated => memTriple_of_fact fun hUpdated => ?_
    rw [← hUpdated, hRow] at hDue
    rw [← hUpdated]
    rw [hWritten, hRow, Option.map_some] at hUpdated
    subst hUpdated
    refine MemTriple.bind ?_ fun _ => memTriple_pure () fun _ _ hs => hs
    exact poll_maybeMark hDue (fun _ => (add_zero _).symm) fun _ => dueTotal_nonneg

theorem poll_insertRowIfMissing (data : AddressUpsertData) :
    PollTriple (PollOff φ nowMs params t y 0) (insertRowIfMissing data) fun inserted s m =>
      inserted = (t.lookup data.address).isNone ∧
        PollOff φ nowMs params (if inserted then (AddressStmt.upsert data).exec t else t) y
          (if inserted then dueShare nowMs params y data.address (some data.inserted) else 0) s m := by
  refine memTriple_bounded fun db => ?_
  split
  · next hRow =>
    refine memTriple_step (fun s m h => ⟨?_, h.2⟩) fun _ _ _ => trivial
    rw [← h.2.table, h.1]
    exact (Option.isNone_eq_false_iff.mpr hRow).symm
  · next hRow =>
    rw [Bool.not_eq_true, Option.isSome_eq_false_iff, Option.isNone_iff_eq_none] at hRow
    refine memTriple_step (fun s m h => ?_) fun _ _ _ => trivial
    have hMissing : t.lookup data.address = none := by rw [← h.2.table, h.1, hRow]
    have hWritten := h.2.writeAddress (.upsert data)
    rw [dueTotal_row fun b hb => lookup_upsert_ne hb, lookup_upsert, if_pos rfl, hMissing, zero_add,
      add_sub_cancel_left] at hWritten
    exact ⟨by rw [hMissing]; rfl, hWritten.settle fun hφ => ⟨hφ, sub_zero _⟩⟩

theorem poll_insertAddressIfMissing (data : AddressUpsertData)
    (hDue : φ → t.lookup data.address = none →
      DueOnChange nowMs params (y.lookup data.address) none (some data.inserted)) :
    PollTriple (PollOff φ nowMs params t y 0) (insertAddressIfMissing data)
      fun _ s m => ∃ t', PollOff φ nowMs params t' y 0 s m := by
  refine (poll_insertRowIfMissing data).bind fun inserted => memTriple_of_fact fun hInserted => ?_
  cases inserted with
  | false =>
    refine MemTriple.bind (memTriple_when (fun h => absurd h.1 Bool.false_ne_true) fun _ _ _ hs => hs)
      fun _ => MemTriple.bind (memTriple_when (fun h => absurd h Bool.false_ne_true) fun _ _ _ hs => hs)
      fun _ => memTriple_pure false fun _ _ hs => ⟨t, hs⟩
  | true =>
    have hMissing : t.lookup data.address = none := Option.isNone_iff_eq_none.mp hInserted.symm
    refine (poll_still (still_when fun _ => still_adjustCounter _ _)).bind fun _ => ?_
    refine MemTriple.bind (Q := fun _ => PollOff φ nowMs params ((AddressStmt.upsert data).exec t) y 0)
      (memTriple_when (fun _ => ?_) fun h => absurd rfl h) fun _ => memTriple_pure true fun _ _ hs => ⟨_, hs⟩
    refine (poll_getAddress data.address).bind fun row => memTriple_of_fact fun hRow => ?_
    change row = ((AddressStmt.upsert data).exec t).lookup data.address at hRow
    rw [lookup_upsert, if_pos rfl, hMissing] at hRow
    subst hRow
    refine MemTriple.bind ?_ fun _ => memTriple_pure () fun _ _ hs => hs
    refine (poll_still (still_applyAddressStatsDelta _ _)).bind fun _ => ?_
    refine poll_maybeMark (fun hφ => hDue hφ hMissing) (fun _ => ?_) fun _ => dueTotal_nonneg
    exact ((add_zero _).trans (sub_zero _)).symm

/-! ### Batches -/

theorem poll_executeUpserts (env : Env) {owed : Int} (rows : List AddressUpsertData) :
    PollTriple (PollOff φ nowMs params t y owed)
      (executeSqlBatch env (rows.map fun data => .address (.upsert data)))
      fun _ => PollOff φ nowMs params (upsertedRows rows t) y
        (owed + (dueTotal nowMs params (upsertedRows rows t) y - dueTotal nowMs params t y)) := by
  unfold executeSqlBatch
  split
  · next hNone =>
    rw [List.map_eq_nil_iff] at hNone
    subst hNone
    refine memTriple_pure () fun _ _ h => h.settle fun hφ => ⟨hφ, ?_⟩
    rw [show upsertedRows [] t = t from rfl, sub_self, add_zero]
  · split
    · refine memTriple_step (fun s m h => ?_) fun _ _ _ => trivial
      rw [replay_upserts]
      obtain ⟨-, -, rfl, rfl, -, -⟩ := id h
      exact h.write (s := { s with addresses := upsertedRows rows s.addresses }) rfl
    · rename_i hSome _
      clear hSome
      induction rows generalizing t owed with
      | nil =>
        refine memTriple_pure () fun _ _ h => h.settle fun hφ => ⟨hφ, ?_⟩
        rw [show upsertedRows [] t = t from rfl, sub_self, add_zero]
      | cons data rows ih =>
        refine (poll_writeAddress (.upsert data)).bind fun _ => ih.post fun _ _ _ h =>
          h.settle fun hφ => ⟨hφ, ?_⟩
        rw [show upsertedRows (data :: rows) t = upsertedRows rows ((AddressStmt.upsert data).exec t) from rfl]
        ring

theorem poll_upsertRows (env : Env) (rows : List AddressUpsertData) :
    PollTriple (PollOff φ nowMs params t y 0)
      (forEach (chunkArray env.store.d1BatchSize rows) fun chunk =>
        executeSqlBatch env (chunk.map fun data => .address (.upsert data)))
      fun _ => PollOff φ nowMs params (upsertedRows rows t) y
        (dueTotal nowMs params (upsertedRows rows t) y - dueTotal nowMs params t y) := by
  have hLoop : ∀ (chunks : List (List AddressUpsertData)) (t₁ : AddressTable),
      PollTriple (PollOff φ nowMs params t₁ y (dueTotal nowMs params t₁ y - dueTotal nowMs params t y))
        (forEach chunks fun chunk => executeSqlBatch env (chunk.map fun data => .address (.upsert data)))
        fun _ => PollOff φ nowMs params (upsertedRows chunks.flatten t₁) y
          (dueTotal nowMs params (upsertedRows chunks.flatten t₁) y - dueTotal nowMs params t y) := by
    intro chunks
    induction chunks with
    | nil => exact fun t₁ => memTriple_pure () fun _ _ h => h
    | cons chunk rest ih =>
      intro t₁
      have hRows : upsertedRows (chunk :: rest).flatten t₁ =
          upsertedRows rest.flatten (upsertedRows chunk t₁) := List.foldl_append
      rw [hRows]
      refine MemTriple.bind ((poll_executeUpserts env chunk).post fun _ _ _ h =>
        h.settle fun hφ => ⟨hφ, ?_⟩) fun _ => ih (upsertedRows chunk t₁)
      ring
  have hAll := hLoop (chunkArray env.store.d1BatchSize rows) t
  rw [flatten_chunkArray, sub_self] at hAll
  exact hAll

theorem poll_loadAddresses (as : List Address) {owed : Int} :
    PollTriple (PollOff φ nowMs params t y owed) (loadAddressesByList as) fun read s m =>
      (∀ a ∈ as, read a = t.lookup a) ∧ PollOff φ nowMs params t y owed s m :=
  memTriple_step (fun _ _ h => ⟨fun _ ha => (if_pos ha).trans (h.table ▸ rfl), h⟩) fun _ _ _ => trivial

theorem poll_upsertAddressesBatch (env : Env) (rows : List AddressUpsertData)
    (hDue : φ → ∀ a, DueOnChange nowMs params (y.lookup a) (t.lookup a) ((upsertedRows rows t).lookup a)) :
    PollTriple (PollOff φ nowMs params t y 0) (upsertAddressesBatch env rows)
      fun _ s m => ∃ t', PollOff φ nowMs params t' y 0 s m := by
  refine memTriple_when (fun _ => ?_) fun _ _ _ hs => ⟨t, hs⟩
  refine (poll_loadAddresses _).bind fun before => memTriple_of_fact fun hBefore => ?_
  refine (poll_upsertRows env rows).bind fun _ => ?_
  refine (poll_still (still_when fun _ => still_run rfl)).bind fun _ => ?_
  refine (poll_loadAddresses _).bind fun after => memTriple_of_fact fun hAfter => ?_
  have hNodup : (rows.map (·.address)).dedup.reverse.Nodup := List.nodup_reverse.mpr (List.nodup_dedup _)
  have hSeen : ∀ a, a ∈ (rows.map (·.address)).dedup.reverse ↔ a ∈ rows.map (·.address) := fun a => by
    rw [List.mem_reverse, List.mem_dedup]
  have hRows : ∀ a, a ∉ (rows.map (·.address)).dedup.reverse →
      (upsertedRows rows t).lookup a = t.lookup a :=
    fun a ha => lookup_upsertedRows (fun hMem => ha ((hSeen a).mpr hMem)) t
  generalize (rows.map (·.address)).dedup.reverse = seen at hNodup hSeen hRows
  generalize upsertedRows rows t = t' at hDue hAfter hRows
  rw [dueTotal_apart hNodup hRows, add_sub_cancel_left]
  refine MemTriple.bind (Q := fun _ => PollOff φ nowMs params t' y 0) ?_ fun _ =>
    (poll_still (still_adjustCounter _ _)).post fun _ _ _ hs => ⟨t', hs⟩
  refine memTriple_forEach_rest (I := fun rest => PollOff φ nowMs params t' y (rest.map fun a =>
    dueShare nowMs params y a (t'.lookup a) - dueShare nowMs params y a (t.lookup a)).sum)
    fun a rest hMem => ?_
  obtain ⟨front, hFront⟩ := hMem
  have hIn : a ∈ rows.map (·.address) :=
    (hSeen a).mp (hFront ▸ List.mem_append_right front List.mem_cons_self)
  rw [hBefore a hIn, hAfter a hIn]
  refine (poll_still (still_forEach fun row _ => still_applyAddressStatsDelta _ _)).bind fun _ => ?_
  refine poll_maybeMark (fun hφ => hDue hφ a) (fun _ => ?_) fun _ => dueChanges_le ?_
  · rw [List.map_cons, List.sum_cons]
  · exact (hFront ▸ hNodup).of_append_right.of_cons

end Rows

/-! ## Polls and deletions -/

section Polls

variable {φ : Prop} {nowMs : Nat} {params : PollParams} {t : AddressTable} {y : SyncTable}

/-- The change of the total when the poll state of one address changes. -/
theorem dueTotal_sync {y' : SyncTable} {a : Address} (h : ∀ b, b ≠ a → y'.lookup b = y.lookup b) :
    dueTotal nowMs params t y' = dueTotal nowMs params t y +
      (dueShare nowMs params y' a (t.lookup a) - dueShare nowMs params y a (t.lookup a)) := by
  unfold dueTotal
  rw [Table.sum_erase _ a t, Table.sum_erase _ a t, elim_dueShare, elim_dueShare]
  have hRest : Table.sum (fun b row => dueShare nowMs params y' b (some row)) (t.erase a) =
      Table.sum (fun b row => dueShare nowMs params y b (some row)) (t.erase a) := by
    refine congrArg List.sum (List.map_congr_left fun e he => ?_)
    have hNe : e.1 ≠ a := fun hEq => by
      have hMem := Table.lookup_eq_some_iff.mpr he
      rw [hEq, AList.lookup_erase] at hMem
      cases hMem
    show dueShare nowMs params y' e.1 (some e.2) = dueShare nowMs params y e.1 (some e.2)
    rw [dueShare_eq, dueShare_eq, h e.1 hNe]
  rw [hRest]
  ring

theorem dueTotal_record (a : Address) (row : SyncStateRow) :
    dueTotal nowMs params t (y.insert a row) = dueTotal nowMs params t y +
      (dueShare nowMs params (y.insert a row) a (t.lookup a) - dueShare nowMs params y a (t.lookup a)) :=
  dueTotal_sync fun _ hb => AList.lookup_insert_ne hb

theorem poll_writeSync (a : Address) (row : SyncStateRow) {owed : Int} :
    PollTriple (PollOff φ nowMs params t y owed) (Journal.Op.run (Stmt.syncState a row)) fun _ =>
      PollOff φ nowMs params t (y.insert a row)
        (owed + (dueTotal nowMs params t (y.insert a row) - dueTotal nowMs params t y)) := by
  refine memTriple_run (fun s m h => ?_) fun _ _ _ => trivial
  obtain ⟨-, -, rfl, rfl, -, -⟩ := id h
  exact h.write (s := Journal.exec (Stmt.syncState a row) s) rfl

/-- An address that has just been polled is not due at a positive interval. -/
theorem dueShare_recorded {a : Address} {existing : Option SyncStateRow} {data : Option SyncPollData}
    (hInterval : 0 < params.minIntervalSec) (row : Option AddressRow) :
    dueShare nowMs params (y.insert a (recordedSync existing data nowMs)) a row = 0 := by
  rw [dueShare_eq, AList.lookup_insert]
  have hPolled : pollCountsAsDue (some (recordedSync existing data nowMs)) params.minIntervalSec nowMs =
      false := by
    simp [pollCountsAsDue, recordedSync]
    omega
  rw [hPolled, Bool.and_false, if_neg Bool.false_ne_true]

/-- The address is counted where the poll finds it due. -/
theorem dueShare_of_interval {a : Address} {state : SchedulerState} (hParams : state.pollParams = params)
    (hDepth : state.downstreamTreeMaxDepth = params.maxDepth) (hInterval : 0 < params.minIntervalSec)
    (row : Option AddressRow) : dueShare nowMs params y a row =
      if wasPollDue row (y.lookup a) state nowMs then 1 else 0 := by
  subst hParams
  rw [dueShare_eq]
  unfold wasPollDue
  rw [hDepth]
  change 0 < state.downstreamPollIntervalSec at hInterval
  rw [decide_eq_true hInterval, Bool.and_true]
  by_cases hZero : state.pollParams.maxDepth = 0
  · rw [isPollEligible_depth_zero hZero, hZero]
    rfl
  · rw [decide_eq_true (Nat.pos_of_ne_zero hZero), Bool.true_and]
    rfl

theorem poll_recordSyncPoll (a : Address) (data : Option SyncPollData)
    (hDue : φ → 0 < params.minIntervalSec ∨
      dueShare nowMs params (y.insert a (recordedSync (y.lookup a) data nowMs)) a (t.lookup a) =
        dueShare nowMs params y a (t.lookup a)) :
    PollTriple (PollOff φ nowMs params t y 0) (recordSyncPoll a data)
      fun _ s m => ∃ y', PollOff φ nowMs params t y' 0 s m := by
  refine (poll_getAddress a).bind fun addr => memTriple_of_fact fun hAddr => ?_
  refine (poll_getSyncState a).bind fun existing => memTriple_of_fact fun hExisting => ?_
  refine poll_getSchedulerState.bind fun state => memTriple_of_fact fun hState => ?_
  subst hAddr hExisting
  refine MemTriple.pre (P := fun s m => PollOff φ nowMs params t y 0 s m ∧ True ∧
    (m.clock ≠ [] → True)) ?_ fun _ _ h => ⟨h, trivial, fun _ => trivial⟩
  refine poll_now.bind fun reading => poll_now.bind fun ts => ?_
  have hShare := @dueShare_of_interval nowMs params y a state hState.1 hState.2
  obtain ⟨rfl, hDepth⟩ := hState
  by_cases hTimes : reading = nowMs ∧ ts = nowMs
  · rw [hTimes.1, hTimes.2]
    refine MemTriple.pre (P := PollOff φ nowMs state.pollParams t y 0) ?_ fun _ _ h => h.1
    refine (poll_writeSync a _).bind fun _ => ?_
    rw [dueTotal_record, zero_add, add_sub_cancel_left]
    generalize hSync : y.insert a (recordedSync (y.lookup a) data nowMs) = y' at hDue
    refine MemTriple.post (Q := fun _ => PollOff φ nowMs state.pollParams t y' 0) ?_ fun _ _ _ hs => ⟨y', hs⟩
    refine memTriple_when (fun hWas => ?_) fun hWas s m hOff => hOff.settle fun hφ => ⟨hφ, ?_⟩
    · rw [hDepth]
      refine poll_adjustPollDue (fun _ => ?_) fun _ => dueTotal_nonneg
      have hInterval : 0 < state.pollParams.minIntervalSec := by
        simp [wasPollDue] at hWas
        exact hWas.1.1.2
      rw [← hSync, dueShare_recorded hInterval, hShare hInterval, if_pos hWas, zero_sub, add_zero]
    · by_cases hInterval : 0 < state.pollParams.minIntervalSec
      · rw [← hSync, dueShare_recorded hInterval, hShare hInterval, if_neg hWas, sub_zero]
      · rw [(hDue hφ).resolve_left hInterval, sub_self]
  · refine MemTriple.pre (P := PollOff False nowMs state.pollParams t y 0) ?_ fun s m h =>
      h.1.exhausted (by_contra fun hLasts => hTimes ⟨(h.2.2 hLasts).1.2, (h.2.2 hLasts).2⟩) 0
    refine (poll_writeSync a _).bind fun _ => ?_
    refine memTriple_when (fun _ => ?_) fun _ _ _ hOff => ⟨_, hOff.settle False.elim⟩
    rw [hDepth]
    exact (poll_adjustPollDue False.elim False.elim).post fun _ _ _ hOff => ⟨_, hOff.of_false⟩

theorem poll_deleteAddress (a : Address)
    (hDue : φ → ∀ row, t.lookup a = some row → row.pollDue params nowMs (y.lookup a) = false) :
    PollTriple (PollOff φ nowMs params t y 0) (deleteAddress a)
      fun _ => PollOff φ nowMs params (t.erase a) (y.erase a) 0 := by
  have hTotal : φ → dueTotal nowMs params (t.erase a) (y.erase a) = dueTotal nowMs params t y := by
    intro hφ
    rw [dueTotal_sync (y := y) (a := a) fun b hb => AList.lookup_erase_ne hb,
      dueTotal_row (t := t) (a := a) fun b hb => AList.lookup_erase_ne hb, AList.lookup_erase]
    have hNone : dueShare nowMs params y a (t.lookup a) = 0 := by
      cases hRow : t.lookup a with
      | none => rfl
      | some row => exact if_neg (by rw [Option.any_some, hDue hφ row hRow]; exact Bool.false_ne_true)
    have hGone : ∀ y : SyncTable, dueShare nowMs params y a none = 0 := fun _ => rfl
    rw [hNone, hGone, hGone]
    ring
  refine MemTriple.bind (Q := fun _ => PollOff φ nowMs params t (y.erase a)
    (dueTotal nowMs params t (y.erase a) - dueTotal nowMs params t y)) ?_ fun _ => ?_
  · refine memTriple_run (fun s m h => ?_) fun _ _ _ => trivial
    obtain ⟨-, -, rfl, rfl, -, -⟩ := id h
    exact (h.write (s := Journal.exec (Stmt.deleteSyncState a) s) rfl).settle fun hφ => ⟨hφ, zero_add _⟩
  · refine (poll_writeAddress (.delete a)).post fun _ _ _ h => h.settle fun hφ => ⟨hφ, ?_⟩
    show _ + (dueTotal nowMs params (t.erase a) (y.erase a) - _) = _
    rw [hTotal hφ]
    ring

/-- The given inbound totals leave every address due that is, and no other one. -/
def InboundKept (nowMs : Nat) (params : PollParams) (t : AddressTable) (y : SyncTable)
    (inbound : Address → AddressRow → Int) : Prop :=
  ∀ a row, t.lookup a = some row →
    (row.withInbound (inbound a row)).pollDue params nowMs (y.lookup a) = row.pollDue params nowMs (y.lookup a)

theorem InboundKept.total {inbound : Address → AddressRow → Int}
    (h : InboundKept nowMs params t y inbound) {t' : AddressTable}
    (hRows : ∀ a, isPollEligible params (t'.lookup a) =
      isPollEligible params ((t.lookup a).map fun row => row.withInbound (inbound a row))) :
    dueTotal nowMs params t' y = dueTotal nowMs params t y := by
  refine dueTotal_congr fun a => (dueShare_congr (hRows a)).trans ?_
  cases hRow : t.lookup a with
  | none => rfl
  | some row =>
    unfold dueShare
    rw [Option.map_some, Option.any_some, Option.any_some, h a row hRow]

/-- The inbound totals that are recomputed after the edges of an address are deleted. -/
def inboundTargets (db : Db) (a : Address) : List Address :=
  (db.edges.entries.filter fun e =>
    e.2.direction = .outFromHacker && (e.1.fromAddress = a || e.1.toAddress = a)).map (·.1.toAddress)

theorem poll_recalcInbound (targets : List Address) (db : Db) :
    PollTriple (fun s m => s.edges = db.edges ∧ PollOff φ nowMs params t y 0 s m)
      (recalcInboundSatsFor targets) fun _ s m => ∃ t',
        (∀ b, t'.lookup b = if b ∈ targets then (t.lookup b).map (·.withInbound (sumOutInto db b))
          else t.lookup b) ∧
        PollOff φ nowMs params t' y (dueTotal nowMs params t' y - dueTotal nowMs params t y) s m := by
  let I : List Address → Db → Mem → Prop := fun rest s m => ∃ t',
    (∀ b, t'.lookup b = if b ∈ targets ∧ b ∉ rest then (t.lookup b).map (·.withInbound (sumOutInto db b))
      else t.lookup b) ∧ s.edges = db.edges ∧
    PollOff φ nowMs params t' y (dueTotal nowMs params t' y - dueTotal nowMs params t y) s m
  have hLoop : PollTriple (I targets.dedup) (recalcInboundSatsFor targets) fun _ => I [] := by
    refine memTriple_forEach_rest fun a rest hMem => ?_
    obtain ⟨front, hFront⟩ := hMem
    have hIn : a ∈ targets :=
      List.mem_dedup.mp (hFront ▸ List.mem_append_right front List.mem_cons_self)
    have hNotIn : a ∉ rest :=
      (List.nodup_cons.mp ((hFront ▸ List.nodup_dedup targets : (front ++ a :: rest).Nodup).of_append_right)).1
    refine memTriple_exists fun t₁ => memTriple_of_fact fun hRows => ?_
    refine MemTriple.bind (Q := fun total s m => total = sumOutInto db a ∧ s.edges = db.edges ∧
      PollOff φ nowMs params t₁ y (dueTotal nowMs params t₁ y - dueTotal nowMs params t y) s m)
      (memTriple_step (fun s m h => ⟨?_, h⟩) fun _ _ _ => trivial) fun total => memTriple_of_fact fun hTotal => ?_
    · unfold sumOutInto
      rw [h.1]
    subst hTotal
    refine memTriple_run (fun s m h => ⟨(AddressStmt.setInboundSats a (sumOutInto db a)).exec t₁, fun b => ?_,
      h.1, (h.2.writeAddress _).settle fun hφ => ⟨hφ, by ring⟩⟩) fun _ _ _ => trivial
    unfold AddressStmt.exec
    rw [Table.lookup_modify]
    by_cases hb : b = a
    · subst hb
      rw [if_pos rfl, hRows b, if_neg fun h => h.2 List.mem_cons_self, if_pos ⟨hIn, hNotIn⟩]
      rfl
    · rw [if_neg hb, hRows b]
      simp only [List.mem_cons, hb, false_or]
  refine (hLoop.post fun _ s m h => ?_).pre fun s m h => ⟨t, fun b => ?_, h.1, h.2.settle fun hφ => ⟨hφ, ?_⟩⟩
  · obtain ⟨t', hRows, -, hOff⟩ := h
    exact ⟨t', fun b => by rw [hRows b]; simp only [List.not_mem_nil, not_false_eq_true, and_true], hOff⟩
  · rw [if_neg fun hb => hb.2 (List.mem_dedup.mpr hb.1)]
  · rw [sub_self]

theorem poll_deleteEdgesTouching (a : Address) (db : Db)
    (hDue : φ → InboundKept nowMs params t y fun b row =>
      if b ∈ inboundTargets db a then sumOutInto { db with edges := EdgeStmt.exec (.deleteTouching a) db.edges } b
      else row.inboundSats) :
    PollTriple (fun s m => s.edges = db.edges ∧ PollOff φ nowMs params t y 0 s m)
      (deleteEdgesTouchingAddress a) fun _ s m => ∃ t', PollOff φ nowMs params t' y 0 s m := by
  refine MemTriple.bind (Q := fun targets s m => targets = inboundTargets db a ∧ s.edges = db.edges ∧
    PollOff φ nowMs params t y 0 s m) (memTriple_step (fun s m h => ⟨?_, h⟩) fun _ _ _ => trivial)
    fun targets => memTriple_of_fact fun hTargets => ?_
  · unfold inboundTargets
    rw [h.1]
  subst hTargets
  generalize hLeft : { db with edges := EdgeStmt.exec (.deleteTouching a) db.edges } = left at hDue
  refine MemTriple.bind (Q := fun _ s m => s.edges = left.edges ∧ PollOff φ nowMs params t y 0 s m)
    (memTriple_run (fun s m h => ⟨?_, h.2.exec rfl⟩) fun _ _ _ => trivial) fun _ => ?_
  · rw [← hLeft, ← h.1]
    rfl
  refine (poll_recalcInbound _ left).post fun _ s m h => ?_
  obtain ⟨t', hRows, hOff⟩ := h
  refine ⟨t', hOff.settle fun hφ => ⟨hφ, ?_⟩⟩
  rw [(hDue hφ).total fun b => ?_, sub_self]
  rw [hRows b]
  split
  · rfl
  · cases t.lookup b <;> rfl

theorem poll_deleteHackTrace (hDue : φ → InboundKept nowMs params t y fun _ _ => 0) :
    PollTriple (PollOff φ nowMs params t y 0) deleteHackTraceEdges
      fun _ s m => ∃ t', PollOff φ nowMs params t' y 0 s m := by
  refine (poll_still (still_run rfl)).bind fun _ => (poll_writeAddress .zeroInboundSats).post
    fun _ _ _ hOff => ⟨_, hOff.settle fun hφ => ⟨hφ, ?_⟩⟩
  rw [(hDue hφ).total fun b => ?_, sub_self, add_zero]
  unfold AddressStmt.exec
  rw [Table.lookup_mapRows]
  rfl

end Polls

/-! ## Inbound totals from edges -/

section Inbound

variable {φ : Prop} {nowMs : Nat} {params : PollParams}

theorem inboundSum_addition (b a : Address) (d : Int) :
    inboundSum b (inboundStmts (a, d)) = if a = b then d else 0 := by
  have hTotal := inboundSum_inboundStmts b [(a, d)]
  rw [List.flatMap_singleton] at hTotal
  rw [hTotal, Tally.total_cons, Tally.total_nil, add_zero]

/-- The additions of some statements to the inbound totals, at the end of the operation that executes
them. -/
theorem poll_inbound_final {p : StoreM Unit} {stmts : List Core} {db : Db} {c : Ctl Mem Err}
    (hDrift : ∀ before, PollTriple (PollDrift φ nowMs params db.syncState before) p
      fun _ => PollDrift φ nowMs params db.syncState before)
    (hStart : PollOff φ nowMs params db.addresses db.syncState 0 db c.mem) (hOk : (p db c).res = .ok ())
    (hStmts : ∀ i ∈ stmts, i.OfBatch) (hCore : (p.final db c).core = replay stmts db.core)
    (hDue : φ → 0 < params.minIntervalSec ∨ InboundKept nowMs params db.addresses db.syncState
      fun a row => row.inboundSats + inboundSum a stmts) :
    ∃ t', PollOff φ nowMs params t' db.syncState 0 (p.final db c) (p db c).ctl.mem := by
  have hZero : drift params (dueTotal nowMs params db.addresses db.syncState)
      (dueTotal nowMs params db.addresses db.syncState) = 0 := by
    rw [drift, sub_self, ite_self]
  obtain ⟨t', hOff⟩ := (hDrift _ db c ⟨db.addresses, hZero ▸ hStart⟩).1 () hOk
  refine ⟨t', hOff.settle fun hφ => ⟨hφ, ?_⟩⟩
  rcases hDue hφ with hInterval | hKept
  · rw [drift, if_pos hInterval]
  · have hSame : dueTotal nowMs params t' db.syncState = dueTotal nowMs params db.addresses db.syncState := by
      refine hKept.total fun a => ?_
      rw [← hOff.table, ← core_addresses, hCore, lookup_replay_ofBatch hStmts, core_addresses]
      cases db.addresses.lookup a <;> rfl
    rw [hSame, hZero]

end Inbound

/-! ## Runs -/

/-- `countDownstreamTreeNodes`: for another depth the tree is counted anew. -/
def countDownstreamTreeNodes (maxDepth : Nat) (db : Db) : Db :=
  if db.scheduler.downstreamTreeMaxDepth = maxDepth then db
  else
    { db with
      scheduler :=
        { db.scheduler with
          downstreamTreeMaxDepth := maxDepth
          counter := fun c => if c = .downstreamTree then
              db.addresses.entries.countP fun e => isDownstreamTreeNode e.2.role e.2.hopFromHacker maxDepth
            else db.scheduler.counter c } }

/-- The store after the count of due polls is refreshed. -/
def refreshPollDue (params : PollParams) (nowMs : Nat) (db : Db) : Db :=
  { db with
    scheduler :=
      { db.scheduler with
        downstreamPollDueCount := countDownstreamPollDue db params nowMs
        downstreamPollDueAt := some nowMs
        downstreamPollMaxDepth := params.maxDepth
        downstreamPollIntervalSec := params.minIntervalSec
        downstreamPollMinExpandSats := params.minExpandSats
        monitorSnapshotDirty := false } }

/-- The store after a call of `getDownstreamMonitorStatsCached` that refreshes. -/
def refreshedMonitor (params : PollParams) (nowMs : Nat) (db : Db) : Db :=
  refreshPollDue params nowMs (countDownstreamTreeNodes params.maxDepth db)

/-- `getDownstreamMonitorStatsCached`: the count of due polls and the store after the call. -/
def getDownstreamMonitorStatsCached (params : PollParams) (forceRefresh : Bool) (nowMs : Nat) (db : Db) :
    Int × Db :=
  let params := { params with minExpandSats := max 0 params.minExpandSats }
  let counted := countDownstreamTreeNodes params.maxDepth db
  if counted.scheduler.freshFor params nowMs && !forceRefresh then
    (counted.scheduler.downstreamPollDueCount, counted)
  else
    (countDownstreamPollDue counted params nowMs, refreshedMonitor params nowMs db)

inductive PollOp where
  | upsertAddress (data : AddressUpsertData)
  | upsertAddressesBatch (rows : List AddressUpsertData)
  | insertAddressIfMissing (data : AddressUpsertData)
  | setExpandStatus (address : Address) (status : ExpandStatus)
  | addInboundSats (address : Address) (delta : Int)
  | upsertEdgesBatch (rows : List EdgeUpsertData)
  | deleteAddress (address : Address)
  | deleteEdgesTouching (address : Address)
  | deleteHackTrace
  | recordSyncPoll (address : Address) (data : Option SyncPollData)

/-- The operation, without its result. -/
def PollOp.run (env : Env) : PollOp → StoreM Unit
  | .upsertAddress data => Store.upsertAddress data
  | .upsertAddressesBatch rows => Store.upsertAddressesBatch env rows
  | .insertAddressIfMissing data => do
    let _ ← Store.insertAddressIfMissing data
    pure ()
  | .setExpandStatus address status => Store.setExpandStatus address status
  | .addInboundSats address delta => Store.addInboundSats address delta
  | .upsertEdgesBatch rows => Store.upsertEdgesBatch env rows
  | .deleteAddress address => Ops.deleteAddress address
  | .deleteEdgesTouching address => Store.deleteEdgesTouchingAddress address
  | .deleteHackTrace => Store.deleteHackTraceEdges
  | .recordSyncPoll address data => Store.recordSyncPoll address data

/-- What the operation does to the due addresses is what its adjustments assume of it. -/
def PollOp.Accounted (env : Env) (nowMs : Nat) (db : Db) (params : PollParams) : PollOp → Prop
  | .upsertAddress data => DueOnChange nowMs params (db.syncState.lookup data.address)
    (db.addresses.lookup data.address) (((AddressStmt.upsert data).exec db.addresses).lookup data.address)
  | .upsertAddressesBatch rows => ∀ a, DueOnChange nowMs params (db.syncState.lookup a)
    (db.addresses.lookup a) ((upsertedRows rows db.addresses).lookup a)
  | .insertAddressIfMissing data => db.addresses.lookup data.address = none →
    DueOnChange nowMs params (db.syncState.lookup data.address) none (some data.inserted)
  | .setExpandStatus a status => DueOnChange nowMs params (db.syncState.lookup a) (db.addresses.lookup a)
    (((AddressStmt.setExpandStatus a status).exec db.addresses).lookup a)
  | .addInboundSats a delta => 0 < params.minIntervalSec ∨
    InboundKept nowMs params db.addresses db.syncState fun b row =>
      row.inboundSats + if a = b then delta else 0
  | .upsertEdgesBatch rows => 0 < params.minIntervalSec ∨
    InboundKept nowMs params db.addresses db.syncState fun b row =>
      row.inboundSats + chunksInbound (chunkArray env.store.d1BatchSize rows) db.edges b
  | .deleteAddress a => ∀ row, db.addresses.lookup a = some row →
    row.pollDue params nowMs (db.syncState.lookup a) = false
  | .deleteEdgesTouching a => InboundKept nowMs params db.addresses db.syncState fun b row =>
    if b ∈ inboundTargets db a then
      sumOutInto { db with edges := EdgeStmt.exec (.deleteTouching a) db.edges } b
    else row.inboundSats
  | .deleteHackTrace => InboundKept nowMs params db.addresses db.syncState fun _ _ => 0
  | .recordSyncPoll a data => 0 < params.minIntervalSec ∨
    dueShare nowMs params (db.syncState.insert a (recordedSync (db.syncState.lookup a) data nowMs)) a
      (db.addresses.lookup a) = dueShare nowMs params db.syncState a (db.addresses.lookup a)

/-- The cached count is not served any more, or the operation is accounted for. -/
def PollOp.Safe (env : Env) (nowMs : Nat) (db : Db) (op : PollOp) : Prop :=
  db.scheduler.freshFor db.scheduler.pollParams nowMs = true →
    op.Accounted env nowMs db db.scheduler.pollParams

/-- An admitted operation that returns, with the clock fixed, or a request for the monitor's counts. -/
inductive PollStep (env : Env) (nowMs : Nat) (guard : Db → PollOp → Prop) : Db → Db → Prop
  | op {db : Db} {op : PollOp} {c : Ctl Mem Err} (hGuard : guard db op)
      (hClock : ∀ reading ∈ c.mem.clock, reading = nowMs) (hOk : (op.run env db c).res = .ok ())
      (hLasts : (op.run env db c).ctl.mem.clock ≠ []) : PollStep env nowMs guard db ((op.run env).final db c)
  | monitor (params : PollParams) (forceRefresh : Bool) (db : Db) :
      PollStep env nowMs guard db (getDownstreamMonitorStatsCached params forceRefresh nowMs db).2

/-- The cached count is exact, and its depth is that of the counted tree. -/
structure PollCached (nowMs : Nat) (db : Db) : Prop where
  depth : db.scheduler.downstreamTreeMaxDepth = db.scheduler.downstreamPollMaxDepth
  exact : PollDueExact nowMs db

theorem eq_of_freshFor {state : SchedulerState} {params : PollParams} {nowMs : Nat}
    (h : state.freshFor params nowMs = true) : params = state.pollParams := by
  simp only [SchedulerState.freshFor, SchedulerState.pollDueFresh, Bool.and_eq_true,
    decide_eq_true_eq] at h
  cases params
  simp only [SchedulerState.pollParams, PollParams.mk.injEq]
  exact ⟨h.1.1.1.1.symm, h.1.1.1.2.symm, h.1.1.2.symm⟩

theorem pollCached_refresh (params : PollParams) (nowMs : Nat) {db : Db}
    (hDepth : db.scheduler.downstreamTreeMaxDepth = params.maxDepth) :
    PollCached nowMs (refreshPollDue params nowMs db) := by
  refine ⟨hDepth, fun params' h => ?_⟩
  rw [eq_of_freshFor h]
  rfl

theorem depth_countDownstreamTreeNodes (maxDepth : Nat) (db : Db) :
    (countDownstreamTreeNodes maxDepth db).scheduler.downstreamTreeMaxDepth = maxDepth := by
  unfold countDownstreamTreeNodes
  split
  · assumption
  · rfl

theorem pollCached_monitor (params : PollParams) (forceRefresh : Bool) {nowMs : Nat} {db : Db}
    (h : PollCached nowMs db) :
    PollCached nowMs (getDownstreamMonitorStatsCached params forceRefresh nowMs db).2 := by
  unfold getDownstreamMonitorStatsCached
  dsimp only
  split
  · next hFresh =>
    rw [Bool.and_eq_true] at hFresh
    have hSame : countDownstreamTreeNodes params.maxDepth db = db := by
      have hParams := congrArg PollParams.maxDepth (eq_of_freshFor hFresh.1)
      refine if_pos (h.depth.trans (Eq.trans ?_ hParams.symm))
      unfold countDownstreamTreeNodes
      split <;> rfl
    rwa [hSame]
  · exact pollCached_refresh _ nowMs (depth_countDownstreamTreeNodes _ db)

/-- At the start of an operation nothing is owed. -/
theorem PollCached.off {nowMs : Nat} {db : Db} (h : PollCached nowMs db) {m : Mem}
    (hClock : ∀ reading ∈ m.clock, reading = nowMs) :
    PollOff (db.scheduler.freshFor db.scheduler.pollParams nowMs = true) nowMs db.scheduler.pollParams
      db.addresses db.syncState 0 db m :=
  ⟨rfl, h.depth, rfl, rfl, hClock, fun _ hFresh =>
    ⟨hFresh, by rw [h.exact _ hFresh, dueTotal_eq, add_zero]⟩⟩

/-- At its end nothing is, while the clock lasts. -/
theorem pollCached_of_off {φ : Prop} {nowMs : Nat} {params : PollParams} {t : AddressTable}
    {y : SyncTable} {db : Db} {m : Mem} (h : PollOff φ nowMs params t y 0 db m) (hLasts : m.clock ≠ []) :
    PollCached nowMs db := by
  obtain ⟨hParams, hDepth, rfl, rfl, -, hCount⟩ := h
  refine ⟨hDepth.trans (congrArg PollParams.maxDepth hParams).symm, fun params' hFresh => ?_⟩
  have hEq : params' = params := (eq_of_freshFor hFresh).trans hParams
  subst hEq
  obtain ⟨-, hExact⟩ := hCount hLasts hFresh
  rw [← dueTotal_eq, ← hExact, add_zero]

theorem pollCached_op {env : Env} {nowMs : Nat} {db : Db} {op : PollOp} {c : Ctl Mem Err}
    (h : PollCached nowMs db) (hSafe : op.Safe env nowMs db)
    (hClock : ∀ reading ∈ c.mem.clock, reading = nowMs) (hOk : (op.run env db c).res = .ok ())
    (hLasts : (op.run env db c).ctl.mem.clock ≠ []) : PollCached nowMs ((op.run env).final db c) := by
  have hStart := h.off hClock
  unfold PollOp.Safe at hSafe
  generalize db.scheduler.pollParams = params at hStart hSafe
  generalize (db.scheduler.freshFor params nowMs = true) = φ at hStart hSafe
  have hOf : ∀ {P : Db → Mem → Prop}, P db c.mem → PollTriple P (op.run env)
      (fun _ s m => ∃ t' y', PollOff φ nowMs params t' y' 0 s m) →
      PollCached nowMs ((op.run env).final db c) := by
    intro P hP hTriple
    obtain ⟨t', y', hEnd⟩ := (hTriple db c hP).1 () hOk
    exact pollCached_of_off hEnd hLasts
  cases op with
  | upsertAddress data =>
    exact hOf hStart ((poll_upsertAddress data hSafe).post fun _ _ _ hOff => ⟨_, _, hOff⟩)
  | upsertAddressesBatch rows =>
    exact hOf hStart ((poll_upsertAddressesBatch env rows hSafe).post fun _ _ _ ⟨t', hOff⟩ => ⟨t', _, hOff⟩)
  | insertAddressIfMissing data =>
    exact hOf hStart ((poll_insertAddressIfMissing data hSafe).bind fun _ =>
      memTriple_pure () fun _ _ ⟨t', hOff⟩ => ⟨t', _, hOff⟩)
  | setExpandStatus a status =>
    exact hOf hStart ((poll_setExpandStatus a status hSafe).post fun _ _ _ hOff => ⟨_, _, hOff⟩)
  | addInboundSats a delta =>
    have hCore := core_final (a := ()) (writes_applyInboundSatsDelta a delta db) hOk
    obtain ⟨t', hEnd⟩ := poll_inbound_final (fun before => drift_applyInbound a delta) hStart hOk
      ofBatch_inboundStmts hCore fun hφ => by
        simp only [inboundSum_addition]
        exact hSafe hφ
    exact pollCached_of_off hEnd hLasts
  | upsertEdgesBatch rows =>
    have hCore := @core_upsertEdgesBatch env rows db c hOk
    obtain ⟨t', hEnd⟩ := poll_inbound_final (fun before => drift_upsertEdgesBatch env rows) hStart hOk
      ofBatch_batchStmts hCore fun hφ => by
        simp only [inboundSum_batchStmts]
        exact hSafe hφ
    exact pollCached_of_off hEnd hLasts
  | deleteAddress a => exact hOf hStart ((poll_deleteAddress a hSafe).post fun _ _ _ hOff => ⟨_, _, hOff⟩)
  | deleteEdgesTouching a =>
    exact hOf ⟨rfl, hStart⟩ ((poll_deleteEdgesTouching a db hSafe).post fun _ _ _ ⟨t', hOff⟩ => ⟨t', _, hOff⟩)
  | deleteHackTrace =>
    exact hOf hStart ((poll_deleteHackTrace hSafe).post fun _ _ _ ⟨t', hOff⟩ => ⟨t', _, hOff⟩)
  | recordSyncPoll a data =>
    exact hOf hStart ((poll_recordSyncPoll a data hSafe).post fun _ _ _ ⟨y', hOff⟩ => ⟨_, y', hOff⟩)

/-- After a refresh the cached count stays exact in every run whose operations are accounted for. -/
theorem pollDueExact_of_run {env : Env} {nowMs : Nat} {params : PollParams} {db db' : Db}
    (hRun : Relation.ReflTransGen (PollStep env nowMs fun db op => op.Safe env nowMs db)
      (refreshedMonitor params nowMs db) db') : PollDueExact nowMs db' := by
  have hCached : PollCached nowMs db' := by
    induction hRun with
    | refl => exact pollCached_refresh params nowMs (depth_countDownstreamTreeNodes _ db)
    | tail _ step ih =>
      cases step with
      | op hGuard hClock hOk hLasts => exact pollCached_op ih hGuard hClock hOk hLasts
      | monitor params forceRefresh => exact pollCached_monitor params forceRefresh ih
  exact hCached.exact

/-! ### An address that is not due -/

def pollEnv : Env := { provider := .ofTxs [] }

def pollParams : PollParams := ⟨5, 60, 0⟩

def pollCtl : Ctl Mem Err := ⟨{ clock := List.replicate 8 1000000 }, []⟩

def afterPollOp (op : PollOp) (db : Db) : Db := (op.run pollEnv).final db pollCtl

def downstreamAt (a : Address) : AddressUpsertData where
  address := a
  role := some .downstream
  hopFromHacker := some (some 1)

/-- Two downstream addresses after a refresh, one of which has just been polled. -/
def onePolled : Db :=
  afterPollOp (.recordSyncPoll (name "e") none) (afterPollOp (.upsertAddress (downstreamAt (name "e")))
    (afterPollOp (.upsertAddress (downstreamAt (name "d"))) (refreshedMonitor pollParams 1000000 .initial)))

theorem pollStep_afterPollOp {guard : Db → PollOp → Prop} {op : PollOp} {db : Db} (hGuard : guard db op)
    (hOk : (op.run pollEnv db pollCtl).res.toOption.map id = some ())
    (hLasts : (op.run pollEnv db pollCtl).ctl.mem.clock ≠ []) :
    PollStep pollEnv 1000000 guard db (afterPollOp op db) := by
  obtain ⟨_, hRes, _⟩ := exists_ok hOk
  exact .op hGuard (fun reading hMem => List.eq_of_mem_replicate hMem) hRes hLasts

/-- A new address is never polled, so the one that it adds to the count is due. -/
theorem pollDueExact_newAddress : PollDueExact 1000000
    (afterPollOp (.upsertAddress (downstreamAt (name "d"))) (refreshedMonitor pollParams 1000000 .initial)) :=
  pollDueExact_of_run (Relation.ReflTransGen.single (pollStep_afterPollOp
    (fun _ _ => ⟨by decide +kernel, by decide +kernel⟩) (by decide +kernel) (by decide +kernel)))

/-- The crawl of the address that has just been polled takes the other one out of the count. -/
theorem pollDueExact_polledExpanding : ¬ ∀ (env : Env) (nowMs : Nat) (params : PollParams) (db db' : Db),
    Relation.ReflTransGen (PollStep env nowMs fun _ _ => True) (refreshedMonitor params nowMs db) db' →
    PollDueExact nowMs db' := by
  intro h
  have hRun : Relation.ReflTransGen (PollStep pollEnv 1000000 fun _ _ => True)
      (refreshedMonitor pollParams 1000000 .initial)
      (afterPollOp (.setExpandStatus (name "e") .expanding) onePolled) :=
    (((Relation.ReflTransGen.single (pollStep_afterPollOp trivial (by decide +kernel) (by decide +kernel))).tail
      (pollStep_afterPollOp trivial (by decide +kernel) (by decide +kernel))).tail
      (pollStep_afterPollOp trivial (by decide +kernel) (by decide +kernel))).tail
      (pollStep_afterPollOp trivial (by decide +kernel) (by decide +kernel))
  have hCount := h _ _ _ _ _ hRun pollParams (by decide +kernel)
  revert hCount
  decide +kernel

end Bloodhound.Ops
