import Mathlib.Data.List.Dedup
import Bloodhound.Lib.Triple
import Bloodhound.Store.Totals

/-!
# Counters of addresses

The counters of the scheduler row against the table `addresses` (`AddressExact`). A write of rows
owes each counter the change of what these rows contribute (`AddressOff`), and the adjustments
that follow it settle what is owed.

* `triple_upsertAddress_exact`, `triple_upsertAddressesBatch_exact`,
  `triple_insertAddressIfMissing_exact`, `triple_setExpandStatus_exact` and
  `triple_resetStuckExpandStatuses_exact`: these methods keep the counters exact.
* `triple_recalcTotalReceived_exact`: this one does where it changes no activity.
-/

namespace Bloodhound.Store

open Journal Journal.Op

/-! ## Counts -/

def Counter.isAddress : Counter → Bool
  | .crawlPending | .crawlExpanded | .victim | .hackerActive | .downstreamTree => true
  | _ => false

/-- The row is one of those that the counter counts, for the depth of the downstream tree. -/
def AddressRow.counts (row : AddressRow) (maxDepth : Nat) : Counter → Bool
  | .crawlPending => row.crawlPending
  | .crawlExpanded => isExpandedStatus row.expandStatus
  | .victim => row.role = .victim
  | .hackerActive => isHackerActive row.isFlaggedHacker row.totalReceivedSats
  | .downstreamTree => isDownstreamTreeNode row.role row.hopFromHacker maxDepth
  | _ => false

/-- The count of a counter, recomputed from the table. -/
def addressCount (db : Db) (c : Counter) : Nat :=
  db.addresses.entries.countP fun e => e.2.counts db.scheduler.downstreamTreeMaxDepth c

/-- The counters of addresses are the recomputed counts. -/
def AddressExact (db : Db) : Prop :=
  ∀ c, c.isAddress → db.scheduler.counter c = addressCount db c

/-- What a row contributes to a counter. -/
def AddressRow.share (maxDepth : Nat) (c : Counter) (row : AddressRow) : Int :=
  if row.counts maxDepth c then 1 else 0

def addressShare (maxDepth : Nat) (c : Counter) (row : Option AddressRow) : Int :=
  row.elim 0 (·.share maxDepth c)

abbrev AddressTable : Type := Table.Rows Address AddressRow

def addressTotal (maxDepth : Nat) (c : Counter) (t : AddressTable) : Int :=
  Table.sum (fun _ row => row.share maxDepth c) t

/-- The change of the contribution of an address. -/
def shareChange (maxDepth : Nat) (before after : Option AddressRow) (c : Counter) : Int :=
  addressShare maxDepth c after - addressShare maxDepth c before

theorem share_nonneg_address (maxDepth : Nat) (c : Counter) (row : AddressRow) :
    0 ≤ row.share maxDepth c := by
  unfold AddressRow.share
  split <;> decide

theorem addressShare_nonneg (maxDepth : Nat) (c : Counter) (row : Option AddressRow) :
    0 ≤ addressShare maxDepth c row := by
  cases row with
  | none => exact le_rfl
  | some row => exact share_nonneg_address maxDepth c row

/-- A sum of indicators is a count. -/
theorem sum_map_indicator {α : Type} (p : α → Bool) (l : List α) :
    (l.map fun x => if p x then (1 : Int) else 0).sum = l.countP p := by
  induction l with
  | nil => rfl
  | cons x l ih =>
    rw [List.map_cons, List.sum_cons, ih, List.countP_cons]
    by_cases h : p x = true
    · simp [h, add_comm]
    · simp [h]

theorem addressTotal_eq (db : Db) (c : Counter) :
    addressTotal db.scheduler.downstreamTreeMaxDepth c db.addresses = addressCount db c :=
  sum_map_indicator _ db.addresses.entries

/-- The change of a total, by the rows under which two tables may differ. -/
theorem addressTotal_apart {maxDepth : Nat} {c : Counter} {as : List Address} (hNodup : as.Nodup)
    {t t' : AddressTable} (h : ∀ a, a ∉ as → t'.lookup a = t.lookup a) :
    addressTotal maxDepth c t' = addressTotal maxDepth c t +
      (as.map fun a => shareChange maxDepth (t.lookup a) (t'.lookup a) c).sum :=
  Table.sum_apart hNodup h

/-- The shares of some addresses are part of the total. -/
theorem changes_le_total (maxDepth : Nat) (c : Counter) {as : List Address} (hNodup : as.Nodup)
    (t t' : AddressTable) :
    (as.map fun a => shareChange maxDepth (t.lookup a) (t'.lookup a) c).sum ≤
      addressTotal maxDepth c t' := by
  refine le_trans (List.sum_le_sum fun a _ => ?_)
    (Table.sum_lookups_le (fun _ row _ => share_nonneg_address maxDepth c row) hNodup)
  have hBefore := addressShare_nonneg maxDepth c (t.lookup a)
  show addressShare maxDepth c (t'.lookup a) - addressShare maxDepth c (t.lookup a) ≤
    addressShare maxDepth c (t'.lookup a)
  omega

theorem addressTotal_congr {maxDepth : Nat} {c : Counter} {t t' : AddressTable}
    (h : ∀ a, addressShare maxDepth c (t'.lookup a) = addressShare maxDepth c (t.lookup a)) :
    addressTotal maxDepth c t' = addressTotal maxDepth c t := Table.sum_eq_of_values h

theorem addressTotal_nonneg (maxDepth : Nat) (c : Counter) (t : AddressTable) :
    0 ≤ addressTotal maxDepth c t :=
  changes_le_total maxDepth c List.nodup_nil ∅ t

/-! ## Owed counters -/

/-- The table and the depth are the given ones, and each counter of addresses misses what it is
owed. -/
structure AddressOff (maxDepth : Nat) (t : AddressTable) (owed : Counter → Int) (db : Db) : Prop where
  depth : db.scheduler.downstreamTreeMaxDepth = maxDepth
  table : db.addresses = t
  counters : ∀ c, c.isAddress → db.scheduler.counter c + owed c = addressTotal maxDepth c t

section Owed

variable {maxDepth : Nat} {t : AddressTable} {owed owed' : Counter → Int} {db : Db}

theorem addressExact_iff : AddressExact db ↔
    AddressOff db.scheduler.downstreamTreeMaxDepth db.addresses (fun _ => 0) db := by
  constructor
  · intro h
    refine ⟨rfl, rfl, fun c hc => ?_⟩
    rw [h c hc, addressTotal_eq, add_zero]
  · intro h c hc
    have hCounter := h.counters c hc
    rw [addressTotal_eq, add_zero] at hCounter
    exact hCounter

theorem AddressOff.congr (h : AddressOff maxDepth t owed db)
    (hOwed : ∀ c, c.isAddress → owed c = owed' c) : AddressOff maxDepth t owed' db :=
  ⟨h.depth, h.table, fun c hc => hOwed c hc ▸ h.counters c hc⟩

theorem AddressOff.exact (h : AddressOff maxDepth t owed db)
    (hOwed : ∀ c, c.isAddress → owed c = 0) : AddressExact db := by
  refine addressExact_iff.mpr ?_
  rw [h.depth, h.table]
  exact h.congr hOwed

/-- What a write of the listed rows owes. -/
theorem AddressExact.write (h : AddressExact db) {s : Db} {as : List Address} (hNodup : as.Nodup)
    (hRows : ∀ a, a ∉ as → s.addresses.lookup a = db.addresses.lookup a)
    (hScheduler : s.scheduler = db.scheduler) :
    AddressOff db.scheduler.downstreamTreeMaxDepth s.addresses (fun c => (as.map fun a =>
      shareChange db.scheduler.downstreamTreeMaxDepth (db.addresses.lookup a)
        (s.addresses.lookup a) c).sum) s := by
  refine ⟨by rw [hScheduler], rfl, fun c hc => ?_⟩
  rw [hScheduler, addressTotal_apart hNodup hRows, h c hc, addressTotal_eq]

/-- A statement that writes neither addresses nor their counters. -/
def ApartFromAddresses (i : Stmt) : Prop :=
  ∀ db : Db, (exec i db).addresses = db.addresses ∧
    (exec i db).scheduler.downstreamTreeMaxDepth = db.scheduler.downstreamTreeMaxDepth ∧
    ∀ c : Counter, c.isAddress → (exec i db).scheduler.counter c = db.scheduler.counter c

theorem AddressOff.exec (h : AddressOff maxDepth t owed db) {i : Stmt} (hi : ApartFromAddresses i) :
    AddressOff maxDepth t owed (exec i db) where
  depth := (hi db).2.1.trans h.depth
  table := (hi db).1.trans h.table
  counters c hc := by rw [(hi db).2.2 c hc]; exact h.counters c hc

theorem triple_apart {α : Type} {p : StoreM α} (h : p.Emits ApartFromAddresses) :
    Triple (AddressOff maxDepth t owed) p (fun _ => AddressOff maxDepth t owed) fun _ _ => True :=
  (triple_of_emits h fun _ hi _ hs => hs.exec hi).conseq (fun _ h => h) (fun _ _ h => h)
    fun _ _ _ => trivial

theorem apart_of_isBeside {i : Stmt} (hi : i.isBeside) : ApartFromAddresses i := by
  intro db
  cases i with
  | scheduler s => cases s <;> first | exact ⟨rfl, rfl, fun _ _ => rfl⟩ | cases hi
  | hackStats | insertHackVictim => exact ⟨rfl, rfl, fun _ _ => rfl⟩
  | _ => cases hi

theorem triple_beside {p : StoreM Unit} (h : Beside p) :
    Triple (AddressOff maxDepth t owed) p (fun _ => AddressOff maxDepth t owed) fun _ _ => True :=
  triple_apart (h.mono fun _ hi => apart_of_isBeside hi)

/-- An adjustment by a part of what a counter is owed; the rest is within the total. -/
theorem triple_adjustCounter {c : Counter} {d rest : Int} (hOwed : owed c = d + rest)
    (hRest : rest ≤ addressTotal maxDepth c t) (hAddress : c.isAddress = true) :
    Triple (AddressOff maxDepth t owed) (adjustCounter c d)
      (fun _ => AddressOff maxDepth t (Function.update owed c rest)) fun _ _ => True := by
  refine triple_when (fun _ => triple_run (fun db h => ?_) fun _ _ _ => trivial) fun hZero db h => ?_
  · refine ⟨h.depth, h.table, fun c' hc' => ?_⟩
    have hOff := h.counters c' hc'
    show (if c' = c then max 0 (db.scheduler.counter c + d) else db.scheduler.counter c') + _ = _
    by_cases hEq : c' = c
    · subst hEq
      rw [if_pos rfl, Function.update_self]
      omega
    · rw [if_neg hEq, Function.update_of_ne hEq]
      exact hOff
  · rw [not_not] at hZero
    refine h.congr fun c' _ => ?_
    by_cases hEq : c' = c
    · rw [hEq, Function.update_self, hOwed, hZero, zero_add]
    · rw [Function.update_of_ne hEq]

theorem triple_adjustOnChange {c : Counter} {was is : Bool} {rest : Int} {adjust : Int → StoreM Unit}
    (hOwed : owed c = (if is then 1 else 0) - (if was then 1 else 0) + rest)
    (hAdjust : ∀ d, owed c = d + rest → Triple (AddressOff maxDepth t owed) (adjust d)
      (fun _ => AddressOff maxDepth t (Function.update owed c rest)) fun _ _ => True) :
    Triple (AddressOff maxDepth t owed) (adjustOnChange adjust was is)
      (fun _ => AddressOff maxDepth t (Function.update owed c rest)) fun _ _ => True := by
  refine triple_when (fun hNe => hAdjust _ ?_) fun hEq db h => h.congr fun c' _ => ?_
  · cases was <;> cases is <;> simp at hNe hOwed ⊢ <;> omega
  · rw [not_not] at hEq
    subst hEq
    by_cases hc : c' = c
    · rw [hc, Function.update_self, hOwed]
      omega
    · rw [Function.update_of_ne hc]

end Owed

/-! ## The adjustments for a row -/

theorem addressShare_eq (maxDepth : Nat) (c : Counter) (row : Option AddressRow) :
    addressShare maxDepth c row = if row.any (·.counts maxDepth c) then 1 else 0 := by
  cases row <;> rfl

theorem shareChange_some (maxDepth : Nat) (c : Counter) (before : Option AddressRow)
    (after : AddressRow) : shareChange maxDepth before (some after) c =
      (if after.counts maxDepth c then 1 else 0) -
        if before.any (·.counts maxDepth c) then 1 else 0 := by
  unfold shareChange
  rw [addressShare_eq, addressShare_eq]
  rfl

/-- No row counts in a tree of depth zero. -/
theorem addressShare_depth_zero (row : Option AddressRow) :
    addressShare 0 .downstreamTree row = 0 := by
  rw [addressShare_eq]
  refine if_neg fun h => ?_
  cases row with
  | none => cases h
  | some row => simp [AddressRow.counts, isDownstreamTreeNode] at h

section Settle

variable {maxDepth : Nat} {t : AddressTable} {owed rest : Counter → Int}

/-- An adjustment of a counter where it counts the row before or after the change, but not both. -/
theorem triple_settle (c : Counter) (rest : Counter → Int) (before : Option AddressRow)
    (after : AddressRow) {adjust : Int → StoreM Unit} {was is : Bool}
    (hWas : was = before.any (·.counts maxDepth c)) (hIs : is = after.counts maxDepth c)
    (hOwed : owed c = shareChange maxDepth before (some after) c + rest c)
    (hAdjust : ∀ d, owed c = d + rest c → Triple (AddressOff maxDepth t owed) (adjust d)
      (fun _ => AddressOff maxDepth t (Function.update owed c (rest c))) fun _ _ => True) :
    Triple (AddressOff maxDepth t owed) (adjustOnChange adjust was is)
      (fun _ => AddressOff maxDepth t (Function.update owed c (rest c))) fun _ _ => True := by
  subst hWas hIs
  refine triple_adjustOnChange ?_ hAdjust
  rw [hOwed, shareChange_some]

theorem triple_adjustHackerActive {before : Option AddressRow} {after : AddressRow} {d : Int}
    (hOwed : owed .hackerActive = d + rest .hackerActive)
    (hRest : rest .hackerActive ≤ addressTotal maxDepth .hackerActive t) :
    Triple (AddressOff maxDepth t owed) (adjustHackerActive before after d)
      (fun _ => AddressOff maxDepth t (Function.update owed .hackerActive (rest .hackerActive)))
      fun _ _ => True := by
  refine (triple_adjustCounter hOwed hRest rfl).bind fun _ => triple_beside ?_
  exact emits_forEach fun row _ => emits_when fun _ => beside_adjustHackStatsCounter _ _ _

/-- What `applyAddressStatsDelta` leaves owed: the crawl-pending count, which its callers adjust,
and what other rows owe. -/
theorem triple_applyAddressStatsDelta {before : Option AddressRow} {after : AddressRow}
    (hOwed : ∀ c, c.isAddress → c ≠ .crawlPending →
      owed c = shareChange maxDepth before (some after) c + rest c)
    (hPending : owed .crawlPending = rest .crawlPending)
    (hRest : ∀ c, c.isAddress → rest c ≤ addressTotal maxDepth c t) :
    Triple (AddressOff maxDepth t owed) (applyAddressStatsDelta before after)
      (fun _ => AddressOff maxDepth t rest) fun _ _ => True := by
  refine Triple.bind (Q := fun state s => AddressOff maxDepth t owed s ∧
    state.downstreamTreeMaxDepth = maxDepth)
    (triple_query (fun s hs => ⟨hs, hs.depth⟩) fun _ _ _ => trivial) fun state => ?_
  refine triple_of_fact fun hDepth => ?_
  dsimp only
  rw [hDepth]
  have hSettled : ∀ (c : Counter) (owed' : Counter → Int) (was is : Bool), c.isAddress = true →
      c ≠ .crawlPending → owed' c = owed c → was = before.any (·.counts maxDepth c) →
      is = after.counts maxDepth c → Triple (AddressOff maxDepth t owed') (adjustOnChange (adjustCounter c) was is)
        (fun _ => AddressOff maxDepth t (Function.update owed' c (rest c))) fun _ _ => True := by
    intro c owed' was is hc hc' hSame hWas hIs
    refine triple_settle c rest before after hWas hIs (hSame.trans (hOwed c hc hc')) fun d hd => ?_
    exact triple_adjustCounter hd (hRest c hc) hc
  refine Triple.bind (hSettled .victim _ _ _ rfl (by decide) rfl rfl rfl) fun _ => ?_
  refine Triple.bind (hSettled .crawlExpanded _ _ _ rfl (by decide) rfl rfl rfl) fun _ => ?_
  refine Triple.bind (Q := fun _ => AddressOff maxDepth t _)
    (triple_when (fun _ => hSettled .downstreamTree _ _ _ rfl (by decide) rfl rfl rfl)
      fun hZero s hs => hs.congr fun c hc => ?_) fun _ => ?_
  · by_cases hEq : c = .downstreamTree
    · subst hEq
      rw [Function.update_self]
      have hDepthZero : maxDepth = 0 := by omega
      show owed .downstreamTree = rest .downstreamTree
      rw [hOwed _ hc (by decide), shareChange, hDepthZero, addressShare_depth_zero,
        addressShare_depth_zero, sub_zero, zero_add]
    · rw [Function.update_of_ne hEq]
  refine Triple.bind (triple_settle .hackerActive rest _ _ rfl rfl
    (hOwed .hackerActive rfl (by decide)) fun d hd => triple_adjustHackerActive hd (hRest _ rfl))
    fun _ => ?_
  refine ((triple_beside (beside_reconcileHackStatsForAddress _ _)).bind fun _ =>
    triple_beside (emits_when fun _ => beside_run rfl)).post fun _ s hs => hs.congr fun c hc => ?_
  cases c <;> first | rfl | exact hPending | cases hc

theorem crawlPendingDelta_eq (maxDepth : Nat) (before after : Option AddressRow) :
    crawlPendingDelta before after = shareChange maxDepth before after .crawlPending := by
  unfold shareChange
  rw [addressShare_eq, addressShare_eq]
  rfl

theorem triple_adjustForRow {before : Option AddressRow} {after : AddressRow} :
    Triple (AddressOff maxDepth t
        (Function.update (shareChange maxDepth before (some after)) .crawlPending 0))
      (adjustForRow before after) (fun _ => AddressOff maxDepth t fun _ => 0) fun _ _ => True := by
  refine (triple_applyAddressStatsDelta (fun c _ hc => ?_) (Function.update_self _ _ _)
    fun c _ => addressTotal_nonneg _ _ _).bind fun _ =>
    triple_beside (beside_maybeMarkMonitorSnapshotDirty _ _)
  rw [Function.update_of_ne hc, add_zero]

/-- All that the change of one row owes. -/
theorem triple_adjustForChange {before : Option AddressRow} {after : AddressRow} :
    Triple (AddressOff maxDepth t (shareChange maxDepth before (some after)))
      (do
        adjustCrawlPendingCount (crawlPendingDelta before (some after))
        adjustForRow before after)
      (fun _ => AddressOff maxDepth t fun _ => 0) fun _ _ => True := by
  refine (triple_adjustCounter ?_ (addressTotal_nonneg _ _ _) rfl).bind fun _ => triple_adjustForRow
  rw [crawlPendingDelta_eq maxDepth, add_zero]

end Settle

/-! ## One address -/

/-- A write of one row owes the change of that row. -/
theorem AddressExact.execRow {db : Db} (h : AddressExact db) (a : Address) {i : AddressStmt}
    (hRows : ∀ b, b ≠ a → (i.exec db.addresses).lookup b = db.addresses.lookup b) :
    AddressOff db.scheduler.downstreamTreeMaxDepth (i.exec db.addresses)
      (shareChange db.scheduler.downstreamTreeMaxDepth (db.addresses.lookup a)
        ((i.exec db.addresses).lookup a)) (exec (Stmt.address i) db) := by
  refine (h.write (s := exec (Stmt.address i) db) (List.nodup_singleton a) (fun b hb => hRows b ?_)
    rfl).congr fun c _ => by rw [List.map_singleton, List.sum_singleton]; rfl
  exact fun hEq => hb (List.mem_singleton.mpr hEq)

theorem triple_writeRow {db : Db} (h : AddressExact db) (a : Address) {i : AddressStmt}
    (hRows : ∀ b, b ≠ a → (i.exec db.addresses).lookup b = db.addresses.lookup b) :
    Triple (fun s => s = db) (run (Stmt.address i) : StoreM Unit)
      (fun _ => AddressOff db.scheduler.downstreamTreeMaxDepth (i.exec db.addresses)
        (shareChange db.scheduler.downstreamTreeMaxDepth (db.addresses.lookup a)
          ((i.exec db.addresses).lookup a))) fun _ _ => True := by
  refine triple_run (fun s hs => ?_) fun _ _ _ => trivial
  subst hs
  exact h.execRow a hRows

theorem triple_readRow (a : Address) (db : Db) : Triple (fun s => s = db) (getAddress a)
    (fun row s => s = db ∧ row = db.addresses.lookup a) fun _ _ => True :=
  triple_query (fun s hs => by subst hs; exact ⟨rfl, rfl⟩) fun _ _ _ => trivial

theorem triple_readWritten (a : Address) {maxDepth : Nat} {t : AddressTable} {owed : Counter → Int} :
    Triple (AddressOff maxDepth t owed) (getAddress a)
      (fun row s => AddressOff maxDepth t owed s ∧ row = t.lookup a) fun _ _ => True :=
  triple_query (fun s hs => ⟨hs, by rw [hs.table]⟩) fun _ _ _ => trivial

theorem triple_settled {maxDepth : Nat} {t : AddressTable} {owed : Counter → Int} {α : Type}
    {p : StoreM α} (h : Triple (AddressOff maxDepth t owed) p
      (fun _ => AddressOff maxDepth t fun _ => 0) fun _ _ => True) :
    Triple (AddressOff maxDepth t owed) p (fun _ => AddressExact) fun _ _ => True :=
  h.post fun _ _ hs => hs.exact fun _ _ => rfl

theorem apart_invalidateFlaggedHackersCache :
    ApartFromAddresses (.scheduler .invalidateFlaggedHackersCache) :=
  fun _ => ⟨rfl, rfl, fun _ _ => rfl⟩

theorem lookup_upsert_ne {data : AddressUpsertData} {t : AddressTable} {b : Address}
    (hb : b ≠ data.address) : ((AddressStmt.upsert data).exec t).lookup b = t.lookup b := by
  rw [lookup_upsert, if_neg hb]

theorem triple_upsertAddress_exact (data : AddressUpsertData) :
    Triple AddressExact (upsertAddress data) (fun _ => AddressExact) fun _ _ => True := by
  refine triple_of_state fun db hExact => (triple_readRow _ db).bind fun existing => ?_
  refine triple_of_fact fun hExisting => ?_
  subst hExisting
  refine (triple_writeRow hExact data.address fun b hb => lookup_upsert_ne hb).bind fun _ => ?_
  refine (triple_apart (emits_when fun _ =>
    emits_run apart_invalidateFlaggedHackersCache)).bind fun _ => ?_
  refine (triple_readWritten data.address).bind fun updated => triple_of_fact fun hUpdated => ?_
  have hRow : updated = some ((db.addresses.lookup data.address).elim data.inserted data.updated) := by
    rw [hUpdated, lookup_upsert, if_pos rfl]
  rw [← hUpdated, hRow]
  refine triple_settled ((triple_adjustForChange).bind fun _ => triple_pure () fun _ hs => hs)

theorem triple_setExpandStatus_exact (address : Address) (status : ExpandStatus) :
    Triple AddressExact (setExpandStatus address status) (fun _ => AddressExact)
      fun _ _ => True := by
  refine triple_of_state fun db hExact => (triple_readRow _ db).bind fun existing => ?_
  refine triple_of_fact fun hExisting => ?_
  subst hExisting
  refine (triple_writeRow hExact address fun b hb => ?_).bind fun _ => ?_
  · unfold AddressStmt.exec
    rw [Table.lookup_modify, if_neg hb]
  have hWritten : ((AddressStmt.setExpandStatus address status).exec db.addresses).lookup address =
      (db.addresses.lookup address).map ({ · with expandStatus := status }) := by
    unfold AddressStmt.exec
    rw [Table.lookup_modify, if_pos rfl]
  rw [hWritten]
  cases db.addresses.lookup address with
  | none => exact triple_pure () fun s hs => hs.exact fun c _ => sub_self _
  | some row =>
    refine Triple.bind ?_ fun _ => triple_pure () fun _ hs => hs
    have hPending : shareChange db.scheduler.downstreamTreeMaxDepth (some row)
        (some { row with expandStatus := status }) .crawlPending =
        crawlPendingDelta (some row) (some { row with expandStatus := status }) + 0 := by
      rw [crawlPendingDelta_eq db.scheduler.downstreamTreeMaxDepth, add_zero]
    refine (triple_adjustCounter hPending (addressTotal_nonneg _ _ _) rfl).bind fun _ => ?_
    refine Triple.bind (triple_settle .crawlExpanded (fun _ => 0) (some row)
      { row with expandStatus := status } rfl rfl ?_ fun d hd =>
        triple_adjustCounter hd (addressTotal_nonneg _ _ _) rfl) fun _ => ?_
    · exact (add_zero _).symm
    refine Triple.bind (triple_apart (emits_query _)) fun updated => ?_
    refine (triple_beside (emits_forEach fun after _ =>
      beside_maybeMarkMonitorSnapshotDirty _ _)).post fun _ s hs => hs.exact fun c _ => ?_
    cases c <;> first | rfl | exact sub_self _

theorem triple_insertAddressIfMissing_exact (data : AddressUpsertData) :
    Triple AddressExact (insertAddressIfMissing data) (fun _ => AddressExact)
      fun _ _ => True := by
  refine triple_of_state fun db hExact => ?_
  generalize hDepth : db.scheduler.downstreamTreeMaxDepth = maxDepth
  generalize hTable : (AddressStmt.upsert data).exec db.addresses = t
  have hInsert : Triple (fun s => s = db) (insertRowIfMissing data)
      (fun inserted s => if inserted then AddressOff maxDepth t
        (shareChange maxDepth none (some data.inserted)) s ∧
          t.lookup data.address = some data.inserted else AddressExact s) fun _ _ => True := by
    refine triple_bounded fun s hs => ?_
    subst hs
    split
    · exact triple_step (fun s' hs' => hs' ▸ hExact) fun _ _ _ => trivial
    · next hMissing =>
      rw [Bool.not_eq_true, Option.isSome_eq_false_iff, Option.isNone_iff_eq_none] at hMissing
      have hRow : t.lookup data.address = some data.inserted := by
        rw [← hTable, lookup_upsert, if_pos rfl, hMissing]
        rfl
      have hWrite := hExact.execRow data.address (i := .upsert data) fun b hb => lookup_upsert_ne hb
      rw [hDepth, hTable, hMissing, hRow] at hWrite
      exact triple_step (fun s' hs' => ⟨hs' ▸ hWrite, hRow⟩) fun _ _ _ => trivial
  refine hInsert.bind fun inserted => ?_
  cases inserted with
  | false =>
    refine Triple.bind (triple_when (fun h => absurd h.1 Bool.false_ne_true) fun _ s hs => hs)
      fun _ => Triple.bind (triple_when (fun h => absurd h Bool.false_ne_true) fun _ s hs => hs)
      fun _ => triple_pure false fun _ hs => hs
  | true =>
    refine Triple.pre (triple_of_fact (P := AddressOff maxDepth t _) fun hRow => ?_) fun s hs => hs
    have hShare : shareChange maxDepth none (some data.inserted) .crawlPending =
        (if isCrawlPendingEligible (data.role.getD .unknown) (data.expandStatus.getD .pending)
        then 1 else 0) - 0 := shareChange_some maxDepth .crawlPending none data.inserted
    refine Triple.bind (Q := fun _ => AddressOff maxDepth t (Function.update _ .crawlPending 0))
      (triple_when (fun h => triple_adjustCounter ?_ (addressTotal_nonneg _ _ _) rfl)
        fun h s hs => hs.congr fun c _ => ?_) fun _ => ?_
    · rw [hShare, if_pos h.2, sub_zero, add_zero]
    · by_cases hc : c = .crawlPending
      · rw [hc, Function.update_self, hShare, if_neg fun hPending => h ⟨rfl, hPending⟩, sub_zero]
      · rw [Function.update_of_ne hc]
    refine Triple.bind (triple_settled (triple_when (fun _ => ?_) fun h => absurd rfl h))
      fun _ => triple_pure true fun _ hs => hs
    refine (triple_readWritten data.address).bind fun row => triple_of_fact fun hRead => ?_
    rw [hRead, hRow]
    exact triple_adjustForRow.bind fun _ => triple_pure () fun _ hs => hs

/-! ## Batches -/

/-- The table after some upserts. -/
def upsertedRows (rows : List AddressUpsertData) (t : AddressTable) : AddressTable :=
  rows.foldl (fun t data => (AddressStmt.upsert data).exec t) t

theorem replay_upserts (rows : List AddressUpsertData) (db : Db) :
    replay (rows.map fun data => Stmt.address (.upsert data)) db =
      { db with addresses := upsertedRows rows db.addresses } := by
  induction rows generalizing db with
  | nil => rfl
  | cons data rows ih => exact ih (Journal.exec (Stmt.address (.upsert data)) db)

theorem lookup_upsertedRows {rows : List AddressUpsertData} {a : Address}
    (ha : a ∉ rows.map (·.address)) (t : AddressTable) :
    (upsertedRows rows t).lookup a = t.lookup a := by
  induction rows generalizing t with
  | nil => rfl
  | cons data rows ih =>
    rw [List.map_cons, List.mem_cons, not_or] at ha
    exact (ih ha.2 _).trans (lookup_upsert_ne ha.1)

/-- The rows outside the list are the earlier ones, and no row has left the table. -/
structure Upserted (db : Db) (as : List Address) (s : Db) : Prop where
  scheduler : s.scheduler = db.scheduler
  apart : ∀ a, a ∉ as → s.addresses.lookup a = db.addresses.lookup a
  kept : ∀ a, s.addresses.lookup a = none → db.addresses.lookup a = none

theorem Upserted.exec {db s : Db} {as : List Address} (h : Upserted db as s)
    {data : AddressUpsertData} (hData : data.address ∈ as) :
    Upserted db as (exec (Stmt.address (.upsert data)) s) where
  scheduler := h.scheduler
  apart a ha := by
    have hNe : a ≠ data.address := fun hEq => ha (hEq ▸ hData)
    exact (lookup_upsert_ne hNe).trans (h.apart a ha)
  kept a ha := by
    refine h.kept a ?_
    change ((AddressStmt.upsert data).exec s.addresses).lookup a = none at ha
    rw [lookup_upsert] at ha
    split at ha
    · cases ha
    · exact ha

theorem triple_upsertRows (env : Env) (db : Db) (rows : List AddressUpsertData) :
    Triple (fun s => s = db)
      (forEach (chunkArray env.store.d1BatchSize rows) fun chunk =>
        executeSqlBatch env (chunk.map fun data => .address (.upsert data)))
      (fun _ => Upserted db (rows.map (·.address))) fun _ _ => True := by
  refine Triple.conseq (triple_of_emits (P := Upserted db (rows.map (·.address)))
    (S := fun i => ∃ data ∈ rows, i = .address (.upsert data)) ?_ ?_) ?_ (fun _ _ h => h)
    fun _ _ _ => trivial
  · refine emits_forEach fun chunk hChunk => emits_executeSqlBatch env fun i hi => ?_
    obtain ⟨data, hData, rfl⟩ := List.mem_map.mp hi
    refine ⟨data, ?_, rfl⟩
    rw [← flatten_chunkArray env.store.d1BatchSize rows]
    exact List.mem_flatten.mpr ⟨chunk, hChunk, hData⟩
  · rintro _ ⟨data, hData, rfl⟩ s hs
    exact hs.exec (List.mem_map_of_mem hData)
  · rintro s rfl
    exact ⟨rfl, fun _ _ => rfl, fun _ h => h⟩

section Batch

variable {maxDepth : Nat} {t : AddressTable}

/-- What is owed after the adjustments for all but the addresses still to come. -/
def batchOwed (maxDepth : Nat) (t₀ t : AddressTable) (seen rest : List Address) (c : Counter) : Int :=
  ((if c = .crawlPending then seen else rest).map fun a =>
    shareChange maxDepth (t₀.lookup a) (t.lookup a) c).sum

/-- The adjustments of the batch for one address. -/
theorem triple_settleAddress {before after : Option AddressRow} (hKept : after = none → before = none)
    {owed rest : Counter → Int}
    (hOwed : ∀ c, c.isAddress → c ≠ .crawlPending → owed c = shareChange maxDepth before after c + rest c)
    (hPending : owed .crawlPending = rest .crawlPending)
    (hRest : ∀ c, c.isAddress → rest c ≤ addressTotal maxDepth c t) :
    Triple (AddressOff maxDepth t owed)
      (do
        forEach after.toList fun row => applyAddressStatsDelta before row
        maybeMarkMonitorSnapshotDirty before after)
      (fun _ => AddressOff maxDepth t rest) fun _ _ => True := by
  refine Triple.bind ?_ fun _ => triple_beside (beside_maybeMarkMonitorSnapshotDirty _ _)
  cases after with
  | none =>
    rw [hKept rfl] at hOwed
    refine triple_pure () fun s hs => hs.congr fun c hc => ?_
    by_cases hc' : c = .crawlPending
    · rw [hc', hPending]
    · rw [hOwed c hc hc', shareChange, sub_self, zero_add]
  | some row =>
    exact (triple_applyAddressStatsDelta hOwed hPending hRest).bind fun _ => triple_pure () fun _ hs => hs

theorem batchOwed_le_total {t₀ : AddressTable} {seen rest : List Address} (hSeen : seen.Nodup)
    (hRest : rest.Nodup) (c : Counter) : batchOwed maxDepth t₀ t seen rest c ≤ addressTotal maxDepth c t := by
  unfold batchOwed
  split
  · exact changes_le_total maxDepth c hSeen t₀ t
  · exact changes_le_total maxDepth c hRest t₀ t

/-- The loop over the distinct addresses settles all but the crawl-pending count. -/
theorem triple_settleBatch {t₀ : AddressTable} {seen : List Address} (hNodup : seen.Nodup)
    {before after : Address → Option AddressRow} (hBefore : ∀ a ∈ seen, before a = t₀.lookup a)
    (hAfter : ∀ a ∈ seen, after a = t.lookup a) (hKept : ∀ a, t.lookup a = none → t₀.lookup a = none) :
    Triple (AddressOff maxDepth t (batchOwed maxDepth t₀ t seen seen))
      (forEach seen fun address => do
        forEach (after address).toList fun row => applyAddressStatsDelta (before address) row
        maybeMarkMonitorSnapshotDirty (before address) (after address))
      (fun _ => AddressOff maxDepth t (batchOwed maxDepth t₀ t seen [])) fun _ _ => True := by
  refine triple_forEach_rest (I := fun rest => AddressOff maxDepth t (batchOwed maxDepth t₀ t seen rest))
    fun a rest hMem => ?_
  obtain ⟨front, hFront⟩ := hMem
  have hRest : (a :: rest).Nodup := (hFront ▸ hNodup).of_append_right
  have hIn : a ∈ seen := hFront ▸ List.mem_append_right front List.mem_cons_self
  rw [hBefore a hIn, hAfter a hIn]
  refine triple_settleAddress (hKept a) (fun c _ hc => ?_) rfl
    fun c _ => batchOwed_le_total hNodup hRest.of_cons c
  rw [batchOwed, batchOwed, if_neg hc, if_neg hc, List.map_cons, List.sum_cons]

theorem triple_upsertAddressesBatch_exact (env : Env) (rows : List AddressUpsertData) :
    Triple AddressExact (upsertAddressesBatch env rows) (fun _ => AddressExact)
      fun _ _ => True := by
  refine triple_of_state fun db hExact => triple_when (fun _ => ?_) fun _ s hs => hs ▸ hExact
  generalize hAs : rows.map (·.address) = as
  have hUpsert := triple_upsertRows env db rows
  rw [hAs] at hUpsert
  have hNodup : as.dedup.reverse.Nodup := List.nodup_reverse.mpr (List.nodup_dedup as)
  have hSeen : ∀ a, a ∈ as.dedup.reverse ↔ a ∈ as := fun a => by
    rw [List.mem_reverse, List.mem_dedup]
  generalize as.dedup.reverse = seen at hNodup hSeen
  refine Triple.bind (Q := fun read s => s = db ∧ ∀ a ∈ seen, read a = db.addresses.lookup a)
    (triple_query (fun s hs => ⟨hs, fun a ha => hs ▸ if_pos ((hSeen a).mp ha)⟩) fun _ _ _ => trivial)
    fun before => triple_of_fact fun hBefore => ?_
  refine hUpsert.bind fun _ => triple_of_state fun db₁ hUpserted => ?_
  have hOff : AddressOff db.scheduler.downstreamTreeMaxDepth db₁.addresses
      (batchOwed db.scheduler.downstreamTreeMaxDepth db.addresses db₁.addresses seen seen) db₁ :=
    (hExact.write hNodup (fun a ha => hUpserted.apart a fun h => ha ((hSeen a).mpr h))
      hUpserted.scheduler).congr fun c _ => by rw [batchOwed, ite_self]
  generalize db.scheduler.downstreamTreeMaxDepth = maxDepth at hOff
  have hKept := hUpserted.kept
  generalize db₁.addresses = t at hOff hKept
  refine Triple.pre (P := AddressOff maxDepth t _) ?_ fun s hs => hs ▸ hOff
  refine (triple_apart (emits_when fun _ =>
    emits_run apart_invalidateFlaggedHackersCache)).bind fun _ => ?_
  refine Triple.bind (Q := fun read s => AddressOff maxDepth t _ s ∧ ∀ a ∈ seen, read a = t.lookup a)
    (triple_query (fun s hs => ⟨hs, fun a ha => hs.table ▸ if_pos ((hSeen a).mp ha)⟩)
      fun _ _ _ => trivial) fun after => triple_of_fact fun hAfter => ?_
  refine (triple_settleBatch hNodup hBefore hAfter hKept).bind fun _ => triple_settled ?_
  refine (triple_adjustCounter ?_ (addressTotal_nonneg _ _ _) rfl).post fun _ s hs =>
    hs.congr fun c _ => ?_
  · rw [batchOwed, if_pos rfl, add_zero]
    refine congrArg List.sum (List.map_congr_left fun a ha => ?_)
    rw [hBefore a ha, hAfter a ha, crawlPendingDelta_eq maxDepth]
  · by_cases hc : c = .crawlPending
    · rw [hc, Function.update_self]
    · rw [Function.update_of_ne hc, batchOwed, if_neg hc, List.map_nil, List.sum_nil]

end Batch

/-! ## The reset of stuck rows -/

def isStuck (row : AddressRow) : Bool := row.expandStatus = .queued || row.expandStatus = .expanding

theorem mem_stuckAddresses {db : Db} {a : Address} {row : AddressRow} :
    (a, row) ∈ stuckAddresses db ↔ db.addresses.lookup a = some row ∧ isStuck row := by
  unfold stuckAddresses
  rw [Table.lookup_eq_some_iff, List.mem_map]
  constructor
  · rintro ⟨e, he, hEq⟩
    obtain ⟨hMem, hStuck⟩ := List.mem_filter.mp he
    cases hEq
    exact ⟨hMem, hStuck⟩
  · rintro ⟨hMem, hStuck⟩
    exact ⟨⟨a, row⟩, List.mem_filter.mpr ⟨hMem, hStuck⟩, rfl⟩

theorem nodup_stuckAddresses (db : Db) : ((stuckAddresses db).map (·.1)).Nodup := by
  unfold stuckAddresses
  rw [List.map_map]
  exact db.addresses.nodupKeys.sublist List.filter_sublist

def AddressRow.reset (row : AddressRow) : AddressRow := { row with expandStatus := .pending }

theorem lookup_reset (a b : Address) (t : AddressTable) :
    ((AddressStmt.setExpandStatus a .pending).exec t).lookup b =
      if b = a then (t.lookup b).map AddressRow.reset else t.lookup b :=
  Table.lookup_modify a b _ t

/-- The rows after the reset of some addresses. -/
theorem replay_reset (es : List (Address × AddressRow)) (db : Db) :
    (replay (es.map fun e => Stmt.address (.setExpandStatus e.1 .pending)) db).scheduler =
      db.scheduler ∧
    ∀ b, (replay (es.map fun e => Stmt.address (.setExpandStatus e.1 .pending)) db).addresses.lookup b
      = if b ∈ es.map (·.1) then (db.addresses.lookup b).map AddressRow.reset
        else db.addresses.lookup b := by
  induction es generalizing db with
  | nil => exact ⟨rfl, fun b => rfl⟩
  | cons e es ih =>
    rw [List.map_cons, replay_cons]
    obtain ⟨hScheduler, hRows⟩ := ih (exec (Stmt.address (.setExpandStatus e.1 .pending)) db)
    refine ⟨hScheduler, fun b => ?_⟩
    have hFirst : (exec (Stmt.address (.setExpandStatus e.1 .pending)) db).addresses.lookup b =
        if b = e.1 then (db.addresses.lookup b).map AddressRow.reset else db.addresses.lookup b :=
      lookup_reset e.1 b db.addresses
    rw [hRows b, hFirst]
    by_cases hEq : b = e.1
    · rw [if_pos hEq, Option.map_map, List.map_cons, if_pos (List.mem_cons.mpr (.inl hEq))]
      exact ite_self _
    · rw [if_neg hEq]
      simp only [List.map_cons, List.mem_cons, hEq, false_or]

/-- A stuck row is counted in no crawl status; after its reset it may be pending. -/
theorem shareChange_reset {row : AddressRow} (hStuck : isStuck row) (maxDepth : Nat) (c : Counter) :
    shareChange maxDepth (some row) (some row.reset) c =
      if c = .crawlPending ∧ isCrawlPendingEligible row.role .pending then 1 else 0 := by
  rw [shareChange_some]
  have hStatus : row.expandStatus = .queued ∨ row.expandStatus = .expanding := by
    simpa [isStuck] using hStuck
  have hPending : row.counts maxDepth .crawlPending = false := by
    rcases hStatus with h | h <;> simp [AddressRow.counts, AddressRow.crawlPending,
      isCrawlPendingEligible, h]
  have hExpanded : row.counts maxDepth .crawlExpanded = false := by
    rcases hStatus with h | h <;> simp [AddressRow.counts, isExpandedStatus, h]
  cases c with
  | crawlPending =>
    simp only [Option.any_some, hPending, Bool.false_eq_true, if_false, sub_zero, true_and]
    rfl
  | crawlExpanded =>
    simp only [Option.any_some, hExpanded, Bool.false_eq_true, if_false, sub_zero]
    rfl
  | _ => exact (sub_self _).trans (if_neg fun h => nomatch h.1).symm

/-- The reset owes the crawl-pending count the stuck rows that are eligible. -/
theorem AddressExact.reset {db : Db} (h : AddressExact db) :
    AddressOff db.scheduler.downstreamTreeMaxDepth
      (replay ((stuckAddresses db).map fun e => Stmt.address (.setExpandStatus e.1 .pending))
        db).addresses
      (Function.update (fun _ => 0) .crawlPending
        ((stuckAddresses db).countP fun e => isCrawlPendingEligible e.2.role .pending))
      (replay ((stuckAddresses db).map fun e => Stmt.address (.setExpandStatus e.1 .pending)) db) := by
  obtain ⟨hScheduler, hRows⟩ := replay_reset (stuckAddresses db) db
  refine (h.write (nodup_stuckAddresses db) (fun a ha => (hRows a).trans (if_neg ha))
    hScheduler).congr fun c _ => ?_
  have hShares : ∀ e ∈ stuckAddresses db, shareChange db.scheduler.downstreamTreeMaxDepth
      (db.addresses.lookup e.1) ((replay ((stuckAddresses db).map fun e =>
        Stmt.address (.setExpandStatus e.1 .pending)) db).addresses.lookup e.1) c =
      if c = .crawlPending ∧ isCrawlPendingEligible e.2.role .pending then 1 else 0 := by
    intro e he
    obtain ⟨hRow, hStuck⟩ := mem_stuckAddresses.mp he
    rw [hRows e.1, if_pos (List.mem_map_of_mem he), hRow]
    exact shareChange_reset hStuck _ c
  rw [List.map_map]
  refine (congrArg List.sum (List.map_congr_left hShares)).trans ?_
  by_cases hc : c = .crawlPending
  · rw [hc, Function.update_self, ← sum_map_indicator]
    simp only [true_and]
  · rw [Function.update_of_ne hc]
    simp [hc]

theorem triple_resetStuckExpandStatuses_exact :
    Triple AddressExact resetStuckExpandStatuses (fun _ => AddressExact) fun _ _ => True := by
  refine triple_of_state fun db hExact => ?_
  refine Triple.bind (Q := fun stuck s => s = db ∧ stuck = stuckAddresses db)
    (triple_query (fun s hs => ⟨hs, hs ▸ rfl⟩) fun _ _ _ => trivial) fun stuck =>
    triple_of_fact fun hStuck => ?_
  subst hStuck
  have hReset := hExact.reset
  generalize db.scheduler.downstreamTreeMaxDepth = maxDepth at hReset
  generalize hRows : (replay ((stuckAddresses db).map fun e =>
    Stmt.address (.setExpandStatus e.1 .pending)) db).addresses = t at hReset
  generalize (stuckAddresses db).countP (fun e => isCrawlPendingEligible e.2.role .pending) = pending
    at hReset ⊢
  refine Triple.bind (Q := fun _ => AddressOff maxDepth t
      (Function.update (fun _ => 0) .crawlPending pending)) (triple_bounded fun s hs =>
    triple_step (fun s' hs' => ?_) fun _ _ _ => trivial) fun changed => ?_
  · subst hs hs'
    exact hReset
  refine Triple.bind (triple_settled ((triple_adjustCounter ?_ (addressTotal_nonneg _ _ _) rfl).post
    fun _ s hs => hs.congr fun c _ => ?_)) fun _ => triple_pure changed fun _ hs => hs
  · rw [Function.update_self, add_zero]
  · by_cases hc : c = .crawlPending
    · rw [hc, Function.update_self]
    · rw [Function.update_of_ne hc, Function.update_of_ne hc]

/-! ## The recalculated total -/

theorem triple_recalcTotalReceived_exact (hacker : Address) :
    Triple (fun db => AddressExact db ∧ ∀ row, db.addresses.lookup hacker = some row →
        isHackerActive row.isFlaggedHacker (sumInToHacker db hacker) =
          isHackerActive row.isFlaggedHacker row.totalReceivedSats)
      (recalcTotalReceived hacker) (fun _ => AddressExact) fun _ _ => True := by
  refine triple_of_state fun db h => ?_
  obtain ⟨hExact, hActive⟩ := h
  refine (triple_readRow hacker db).bind fun before => triple_of_fact fun hBefore => ?_
  refine Triple.bind (Q := fun total s => s = db ∧ total = sumInToHacker db hacker)
    (triple_query (fun s hs => ⟨hs, hs ▸ rfl⟩) fun _ _ _ => trivial) fun total =>
    triple_of_fact fun hTotal => ?_
  refine (triple_writeRow hExact hacker fun b hb => ?_).bind fun _ => ?_
  · unfold AddressStmt.exec
    rw [Table.lookup_modify, if_neg hb]
  refine (triple_beside (emits_forEach fun row _ => emits_when fun _ => ?_)).post fun _ s hs =>
    hs.exact fun c _ => ?_
  · exact (beside_adjustHackStatsCounter _ _ _).bind fun _ =>
      emits_adjustOnChange (fun d => beside_adjustHackStatsCounter _ _ d) _ _
  · have hWritten : ((AddressStmt.setTotalReceivedSats hacker total).exec db.addresses).lookup hacker =
        (db.addresses.lookup hacker).map ({ · with totalReceivedSats := total }) := by
      unfold AddressStmt.exec
      rw [Table.lookup_modify, if_pos rfl]
    rw [hWritten]
    cases hRow : db.addresses.lookup hacker with
    | none => exact sub_self _
    | some row =>
      rw [Option.map_some, shareChange_some]
      have hSame := hActive row hRow
      rw [← hTotal] at hSame
      cases c with
      | hackerActive =>
        simp only [AddressRow.counts, hSame, Option.any_some]
        exact sub_self _
      | _ => exact sub_self _

end Bloodhound.Store
