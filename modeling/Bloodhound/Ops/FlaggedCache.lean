import Bloodhound.Ops.AddressOps

/-!
# The cached list of flagged hackers

`listHackersCached` answers from a list that the scheduler row holds, as long as its time is recent.
The writers of flags drop the list; an insertion of a missing address as flagged does not, nor does
the deletion of a flagged one.

* `listHackersCached_of_run`: in a run that avoids these two while a list is stored, the answer is
  always the set of flagged addresses.
-/

namespace Bloodhound.Ops

open Indexer Store Journal Journal.Op

/-! ## The cache -/

/-- `FlaggedHackerCacheEntry`, for the modelled columns. -/
structure FlaggedHackerCacheEntry where
  address : Address
  role : Role
  hackId : HackId
  isFlaggedHacker : Bool
  totalReceivedSats : Int
  deriving DecidableEq

/-- A store with the column `flaggedHackersCacheJson`; its time is a column of the scheduler row. -/
structure CachedStore where
  db : Db
  flaggedHackersCacheJson : List FlaggedHackerCacheEntry

def cacheAt (db : Db) : Option Nat := db.scheduler.flaggedHackersCacheAt

/-- `listHackers` without a filter. -/
def listHackers (db : Db) : List FlaggedHackerCacheEntry :=
  ((db.addresses.entries.filter (·.2.isFlaggedHacker)).map fun e =>
    { address := e.1
      role := e.2.role
      hackId := e.2.hackId
      isFlaggedHacker := e.2.isFlaggedHacker
      totalReceivedSats := e.2.totalReceivedSats }).insertionSort
    fun e e' => e'.totalReceivedSats ≤ e.totalReceivedSats

def filterFlaggedHackersCache (activeOnly : Bool) (rows : List FlaggedHackerCacheEntry) :
    List FlaggedHackerCacheEntry :=
  if activeOnly then rows.filter (0 < ·.totalReceivedSats) else rows

/-- `refreshFlaggedHackersCache`: the list and its time are stored by one statement. -/
def refreshFlaggedHackersCache (at_ : Nat) (s : CachedStore) : CachedStore where
  db := { s.db with scheduler := { s.db.scheduler with flaggedHackersCacheAt := some at_ } }
  flaggedHackersCacheJson := listHackers s.db

/-- `listHackersCached`: the time of the call decides whether the list is recent. -/
def listHackersCached (maxAgeSec nowMs at_ : Nat) (activeOnly : Bool) (s : CachedStore) :
    List FlaggedHackerCacheEntry × CachedStore :=
  if isCacheFresh (cacheAt s.db) maxAgeSec nowMs then
    (filterFlaggedHackersCache activeOnly s.flaggedHackersCacheJson, s)
  else (filterFlaggedHackersCache activeOnly (listHackers s.db), refreshFlaggedHackersCache at_ s)

/-- The set of `getHackerAddressSet`. -/
def cachedAddresses (rows : List FlaggedHackerCacheEntry) : List Address := rows.map (·.address)

/-- The store after an operation, which drops the list with its time. -/
def CachedStore.after (s : CachedStore) (db : Db) : CachedStore where
  db := db
  flaggedHackersCacheJson := if cacheAt db = none then [] else s.flaggedHackersCacheJson

/-- A stored list is the set of flagged addresses. -/
def CachedStore.Coherent (s : CachedStore) : Prop :=
  (cacheAt s.db).isSome → ∀ a, a ∈ cachedAddresses s.flaggedHackersCacheJson ↔ isFlagged s.db a = true

theorem mem_listHackers (db : Db) (a : Address) :
    a ∈ cachedAddresses (listHackers db) ↔ isFlagged db a = true := by
  unfold cachedAddresses listHackers isFlagged
  rw [List.mem_map]
  constructor
  · rintro ⟨e, he, rfl⟩
    obtain ⟨entry, hEntry, rfl⟩ := List.mem_map.mp ((List.mem_insertionSort _).mp he)
    obtain ⟨hMem, hFlagged⟩ := List.mem_filter.mp hEntry
    rw [Table.lookup_eq_some_iff.mpr hMem]
    exact hFlagged
  · intro h
    obtain ⟨row, hRow, hFlagged⟩ := (Option.any_eq_true _ _).mp h
    refine ⟨_, (List.mem_insertionSort _).mpr (List.mem_map_of_mem (List.mem_filter.mpr
      ⟨Table.lookup_eq_some_iff.mp hRow, hFlagged⟩)), rfl⟩

theorem coherent_list {s : CachedStore} (h : s.Coherent) (maxAgeSec nowMs at_ : Nat) (activeOnly : Bool) :
    (listHackersCached maxAgeSec nowMs at_ activeOnly s).2.Coherent := by
  unfold listHackersCached
  split
  · exact h
  · exact fun _ a => mem_listHackers s.db a

theorem mem_listHackersCached {s : CachedStore} (h : s.Coherent) (maxAgeSec nowMs at_ : Nat)
    (a : Address) :
    a ∈ cachedAddresses (listHackersCached maxAgeSec nowMs at_ false s).1 ↔ isFlagged s.db a = true := by
  unfold listHackersCached
  split
  · next hFresh =>
    unfold isCacheFresh at hFresh
    obtain ⟨time, hTime, _⟩ := (Option.any_eq_true _ _).mp hFresh
    exact h (by rw [hTime]; rfl) a
  · exact mem_listHackers s.db a

/-! ## Flags and statements -/

/-- The list was dropped, or the flags are those it was made of. -/
def CacheKept (db s : Db) : Prop :=
  cacheAt s = none ∨ cacheAt s = cacheAt db ∧ ∀ a, isFlagged s a = isFlagged db a

theorem CacheKept.refl (db : Db) : CacheKept db db := Or.inr ⟨rfl, fun _ => rfl⟩

theorem CacheKept.trans {db s s' : Db} (h : CacheKept db s) (h' : CacheKept s s') : CacheKept db s' := by
  rcases h' with h' | h'
  · exact Or.inl h'
  · rcases h with h | h
    · exact Or.inl (h'.1.trans h)
    · exact Or.inr ⟨h'.1.trans h.1, fun a => (h'.2 a).trans (h.2 a)⟩

theorem CacheKept.coherent {s : CachedStore} {db : Db} (hs : s.Coherent) (h : CacheKept s.db db) :
    (s.after db).Coherent := by
  intro hSome a
  have hNot : ¬ cacheAt db = none := fun hNone => by
    rw [show cacheAt (s.after db).db = none from hNone] at hSome
    cases hSome
  rcases h with h | h
  · exact absurd h hNot
  · show a ∈ cachedAddresses (if cacheAt db = none then _ else _) ↔ isFlagged db a = true
    rw [if_neg hNot, h.2 a]
    exact hs (by rw [← h.1]; exact hSome) a

/-- A statement that writes no flag, and no time of the list. -/
def LeavesFlags (i : Stmt) : Prop := ∀ db, CacheKept db (exec i db)

theorem leavesFlags_of_addresses {i : Stmt} (hAddresses : ∀ db, (exec i db).addresses = db.addresses)
    (hAt : ∀ db, cacheAt (exec i db) = none ∨ cacheAt (exec i db) = cacheAt db) : LeavesFlags i := by
  intro db
  refine (hAt db).imp_right fun h => ⟨h, fun a => ?_⟩
  unfold isFlagged
  rw [hAddresses]

theorem leavesFlags_of_isCounter (i : Stmt) (hi : i.isCounter) : LeavesFlags i := by
  refine leavesFlags_of_addresses (fun db => ?_) fun db => ?_
  · cases i with
    | address => cases hi
    | _ => rfl
  · cases i with
    | scheduler s =>
      cases s with
      | invalidateFlaggedHackersCache => exact Or.inl rfl
      | _ => exact Or.inr rfl
    | _ => exact Or.inr rfl

theorem leavesFlags_job (s : JobStmt) : LeavesFlags (.job s) := fun _ => Or.inr ⟨rfl, fun _ => rfl⟩

/-- An update of a row that keeps its flag. -/
theorem leavesFlags_modify {s : AddressStmt} {address : Address} {f : AddressRow → AddressRow}
    (hs : ∀ t, s.exec t = Table.modify address f t) (hf : ∀ r, (f r).isFlaggedHacker = r.isFlaggedHacker) :
    LeavesFlags (.address s) := by
  refine fun db => Or.inr ⟨rfl, fun a => ?_⟩
  show ((s.exec db.addresses).lookup a).any _ = (db.addresses.lookup a).any _
  rw [hs, Table.lookup_modify]
  split
  · cases db.addresses.lookup a with
    | none => rfl
    | some row => exact hf row
  · rfl

theorem triple_leavesFlags {α : Type} {p : StoreM α} (h : p.Emits LeavesFlags) (db : Db) :
    Triple (CacheKept db) p (fun _ => CacheKept db) fun _ _ => True :=
  (triple_of_emits h fun _ hi _ hs => hs.trans (hi _)).conseq (fun _ h => h) (fun _ _ h => h)
    fun _ _ _ => trivial

/-- No statement stores a list. -/
theorem exec_noCache (i : Stmt) (db : Db) (h : cacheAt db = none) : cacheAt (exec i db) = none := by
  cases i with
  | scheduler s =>
    cases s with
    | invalidateFlaggedHackersCache => rfl
    | _ => exact h
  | _ => exact h

theorem triple_noCache {α : Type} (p : StoreM α) :
    Triple (fun s => cacheAt s = none) p (fun _ s => cacheAt s = none) fun _ _ => True :=
  (triple_of_emits (S := fun _ => True) (fun _ _ _ _ => trivial) fun _ _ s hs => exec_noCache _ s hs).conseq
    (fun _ h => h) (fun _ _ h => h) fun _ _ _ => trivial

/-! ## Operations -/

theorem isFlagged_upsert (data : AddressUpsertData) (db : Db) (a : Address) :
    isFlagged (exec (Stmt.address (.upsert data)) db) a =
      if a = data.address then data.isFlaggedHacker.getD (isFlagged db a) else isFlagged db a := by
  show ((db.addresses.insert data.address _).lookup a).any _ = _
  rw [Table.lookup_insert_if]
  split
  · next h =>
    subst h
    unfold isFlagged
    cases db.addresses.lookup data.address with
    | none => rfl
    | some row => rfl
  · rfl

/-- The upsert gives another flag than the stored one. -/
def ChangesFlag (db : Db) (data : AddressUpsertData) : Prop :=
  data.isFlaggedHacker.any (· != isFlagged db data.address) = true

theorem isFlagged_upsert_same {db s : Db} {data : AddressUpsertData} (h : ¬ ChangesFlag db data)
    (hs : ∀ a, isFlagged s a = isFlagged db a) (a : Address) :
    isFlagged (exec (Stmt.address (.upsert data)) s) a = isFlagged db a := by
  rw [isFlagged_upsert, hs]
  split
  · next hEq =>
    subst hEq
    unfold ChangesFlag at h
    cases hFlag : data.isFlaggedHacker with
    | none => rfl
    | some b =>
      rw [hFlag] at h
      simpa using h
  · rfl

/-- An upsert drops the list where it changes a flag. -/
theorem triple_upsertAddress (data : AddressUpsertData) (db : Db) :
    Triple (fun s => s = db) (upsertAddress data)
      (fun _ s => CacheKept db s ∧ (ChangesFlag db data → cacheAt s = none)) fun _ _ => True := by
  have hRest : ∀ existing : Option AddressRow, (do
      let updated ← getAddress data.address
      forEach updated.toList fun row => do
        adjustCrawlPendingCount (crawlPendingDelta existing (some row))
        adjustForRow existing row : StoreM Unit).Emits LeavesFlags := fun existing =>
    (emits_query _).bind fun updated => emits_forEach fun row _ =>
      (emits_adjustCounter leavesFlags_of_isCounter _ _).bind fun _ =>
        emits_adjustForRow leavesFlags_of_isCounter _ _
  refine Triple.bind (Q := fun existing s => s = db ∧ existing = db.addresses.lookup data.address)
    (triple_query (fun s hs => ⟨hs, hs ▸ rfl⟩) fun _ _ _ => trivial) fun existing =>
    triple_of_fact fun hExisting => ?_
  subst hExisting
  by_cases hChanges : ChangesFlag db data
  · refine Triple.bind (Q := fun _ _ => True) (triple_run (fun _ _ => trivial) fun _ _ _ => trivial)
      fun _ => Triple.bind (Q := fun _ s => cacheAt s = none) (triple_when (fun _ => triple_run
        (fun _ _ => rfl) fun _ _ _ => trivial) fun hNot => absurd hChanges hNot) fun _ => ?_
    exact (triple_noCache _).post fun _ s h => ⟨Or.inl h, fun _ => h⟩
  · refine Triple.bind (Q := fun _ => CacheKept db) (triple_run (fun s hs => ?_) fun _ _ _ => trivial)
      fun _ => Triple.bind (Q := fun _ => CacheKept db) (triple_when (fun h => absurd h hChanges)
        fun _ _ h => h) fun _ => ?_
    · subst hs
      exact Or.inr ⟨rfl, isFlagged_upsert_same hChanges fun _ => rfl⟩
    · exact (triple_leavesFlags (hRest _) db).post fun _ _ h => ⟨h, fun h => absurd h hChanges⟩

/-- A batch drops the list where one of its rows gives another flag than the one stored before. -/
theorem triple_upsertAddressesBatch (env : Env) (rows : List AddressUpsertData) (db : Db) :
    Triple (fun s => s = db) (upsertAddressesBatch env rows) (fun _ => CacheKept db) fun _ _ => True := by
  refine triple_when (fun _ => ?_) fun _ s hs => hs ▸ CacheKept.refl db
  refine Triple.bind (Q := fun before s => s = db ∧ before = fun address =>
      if address ∈ rows.map (·.address) then db.addresses.lookup address else none)
    (triple_query (fun s hs => ⟨hs, hs ▸ rfl⟩) fun _ _ _ => trivial) fun before =>
    triple_of_fact fun hBefore => ?_
  subst hBefore
  have hDirty : (rows.any fun data => data.isFlaggedHacker.any (· !=
      (if data.address ∈ rows.map (·.address) then db.addresses.lookup data.address else none).any
        (·.isFlaggedHacker))) = true ↔ ∃ data ∈ rows, ChangesFlag db data := by
    rw [List.any_eq_true]
    refine exists_congr fun data => and_congr_right fun hData => ?_
    rw [if_pos (List.mem_map_of_mem hData)]
    exact Iff.rfl
  by_cases hChanges : ∃ data ∈ rows, ChangesFlag db data
  · refine Triple.bind (Q := fun _ _ => True) (fun _ _ _ => ⟨fun _ _ => trivial, fun _ _ => trivial⟩)
      fun _ => Triple.bind (Q := fun _ s => cacheAt s = none) (triple_when (fun _ => triple_run
        (fun _ _ => rfl) fun _ _ _ => trivial) fun hNot => absurd (hDirty.mpr hChanges) hNot) fun _ => ?_
    exact (triple_noCache _).post fun _ s h => Or.inl h
  · refine Triple.bind (Q := fun _ s => cacheAt s = cacheAt db ∧ ∀ a, isFlagged s a = isFlagged db a)
      ((triple_forEach fun chunk hChunk => ?_).pre fun s hs => hs ▸ ⟨rfl, fun _ => rfl⟩) fun _ => ?_
    · refine (triple_of_emits (S := fun i => ∃ data ∈ rows, i = .address (.upsert data))
        (emits_executeSqlBatch env fun i hi => ?_) fun i hi s hs => ?_).conseq (fun _ h => h)
          (fun _ _ h => h) fun _ _ _ => trivial
      · obtain ⟨data, hData, rfl⟩ := List.mem_map.mp hi
        refine ⟨data, ?_, rfl⟩
        rw [← flatten_chunkArray env.store.d1BatchSize rows]
        exact List.mem_flatten_of_mem hChunk hData
      · obtain ⟨data, hData, rfl⟩ := hi
        exact ⟨hs.1, isFlagged_upsert_same (fun h => hChanges ⟨data, hData, h⟩) hs.2⟩
    · refine Triple.bind (Q := fun _ => CacheKept db) (triple_when (fun h => absurd (hDirty.mp h) hChanges)
        fun _ s hs => Or.inr hs) fun _ => triple_leavesFlags ?_ db
      refine (emits_query _).bind fun after => Emits.bind (emits_forEach fun address _ => ?_) fun _ =>
        emits_adjustCounter leavesFlags_of_isCounter _ _
      exact (emits_forEach fun row _ => emits_applyAddressStatsDelta leavesFlags_of_isCounter _ _).bind
        fun _ => emits_maybeMarkMonitorSnapshotDirty leavesFlags_of_isCounter _ _

/-- A list is stored, and an insertion of the address as flagged would add a row. -/
def MissesInsert (db : Db) (address : Address) (flagged : Bool) : Prop :=
  cacheAt db ≠ none ∧ flagged = true ∧ (db.addresses.lookup address).isSome = false

theorem triple_insertAddressIfMissing (data : AddressUpsertData) {db : Db}
    (h : ¬ MissesInsert db data.address (data.isFlaggedHacker.getD false)) :
    Triple (fun s => s = db) (insertAddressIfMissing data) (fun inserted s => CacheKept db s ∧
      inserted = !(db.addresses.lookup data.address).isSome) fun _ _ => True := by
  have hRow : Triple (fun s => s = db) (insertRowIfMissing data) (fun inserted s => CacheKept db s ∧
      inserted = !(db.addresses.lookup data.address).isSome) fun _ _ => True := by
    refine triple_bounded fun s hs => ?_
    subst hs
    cases hStored : (s.addresses.lookup data.address).isSome with
    | true =>
      rw [if_pos rfl]
      exact triple_step (fun s' hs' => ⟨hs' ▸ CacheKept.refl _, rfl⟩) fun _ _ _ => trivial
    | false =>
      rw [if_neg Bool.false_ne_true]
      refine triple_step (fun s' hs' => ⟨?_, rfl⟩) fun _ _ _ => trivial
      subst hs'
      by_cases hNone : cacheAt s' = none
      · exact Or.inl (exec_noCache _ _ hNone)
      · refine Or.inr ⟨rfl, fun a => ?_⟩
        show isFlagged (exec (Stmt.address (.upsert data)) s') a = _
        rw [isFlagged_upsert]
        split
        · next hEq =>
          -- a new row that is not flagged, where there was none
          have hFlag : data.isFlaggedHacker.getD false = false := by
            by_contra hFlagged
            exact h ⟨hNone, Bool.not_eq_false _ ▸ hFlagged, hStored⟩
          have hOld : isFlagged s' a = false := by
            unfold isFlagged
            rw [hEq, Option.isSome_eq_false_iff.mp hStored |> Option.isNone_iff_eq_none.mp]
            rfl
          rw [hOld]
          exact hFlag
        · rfl
  refine hRow.bind fun inserted => triple_of_fact fun hInserted => ?_
  have hRest : (do
      when (inserted ∧ isCrawlPendingEligible (data.role.getD .unknown) (data.expandStatus.getD .pending))
        (adjustCrawlPendingCount 1)
      when inserted do
        let row ← getAddress data.address
        forEach row.toList fun row => adjustForRow none row
      pure inserted : StoreM Bool).Emits LeavesFlags :=
    (emits_when fun _ => emits_adjustCounter leavesFlags_of_isCounter _ _).bind fun _ =>
      (emits_when fun _ => (emits_query _).bind fun _ => emits_forEach fun _ _ =>
        emits_adjustForRow leavesFlags_of_isCounter _ _).bind fun _ => emits_pure _
  refine ((triple_leavesFlags hRest db).and (triple_result (φ := fun b => b = inserted) fun _ =>
    triple_result fun _ => triple_pure _ fun _ _ => rfl)).conseq (fun _ h => ⟨h, trivial⟩)
      (fun b _ h => ⟨h.1, h.2.trans hInserted⟩) fun _ _ _ => trivial

theorem leavesFlags_enqueueSourceBackfill (env : Env) (address : Address) :
    (enqueueSourceBackfill env address).Emits LeavesFlags :=
  (emits_enqueueJobIfAbsent (queueCounters leavesFlags_of_isCounter)
    (leavesFlags_of_isCounter _ rfl) env (fun _ _ _ _ => leavesFlags_job _) none _).bind
    fun _ => emits_pure _

/-- The ingestion keeps the list unless it inserts a row while a list is stored. -/
theorem triple_ingestSourceHacker {env : Env} {address : Address} {hackId : HackId} {db : Db}
    (h : ¬ MissesInsert db address true) :
    Triple (fun s => s = db) (ingestSourceHacker env address hackId) (fun _ => CacheKept db)
      fun _ _ => True := by
  refine (triple_insertAddressIfMissing
    { sourceHacker address hackId with expandStatus := some .pending } h).bind fun inserted =>
      triple_of_fact fun _ => ?_
  split
  · exact (triple_leavesFlags (leavesFlags_enqueueSourceBackfill env address) db).bind fun _ =>
      triple_pure _ fun _ h => h
  · refine Triple.bind (Q := fun _ => CacheKept db) (triple_query (fun _ h => h) fun _ _ _ => trivial)
      fun existing => ?_
    split
    · exact triple_pure _ fun _ h => h
    · refine Triple.bind (Q := fun _ => CacheKept db) (triple_of_state fun s hs =>
        (triple_upsertAddress _ s).post fun _ _ h => hs.trans h.1) fun _ => ?_
      exact (triple_leavesFlags (leavesFlags_enqueueSourceBackfill env address) db).bind fun _ =>
        triple_pure _ fun _ h => h

theorem triple_ingestSourceHackerIfMissing {env : Env} {address : Address} {hackId : HackId} {db : Db}
    (h : ¬ MissesInsert db address true) :
    Triple (fun s => s = db) (ingestSourceHackerIfMissing env address hackId) (fun _ => CacheKept db)
      fun _ _ => True := by
  refine (triple_insertAddressIfMissing
    { sourceHacker address hackId with expandStatus := some .pending } h).bind fun inserted =>
      triple_of_fact fun _ => ?_
  split
  · exact (triple_leavesFlags (leavesFlags_enqueueSourceBackfill env address) db).bind fun _ =>
      triple_pure _ fun _ h => h
  · exact triple_pure _ fun _ h => h

/-- A list is stored, and the address is in it by its flag. -/
def MissesDelete (db : Db) (address : Address) : Prop :=
  cacheAt db ≠ none ∧ isFlagged db address = true

theorem triple_deleteAddress {address : Address} {db : Db} (h : ¬ MissesDelete db address) :
    Triple (fun s => s = db) (deleteAddress address) (fun _ => CacheKept db) fun _ _ => True := by
  refine Triple.bind (Q := fun _ s => s.addresses = db.addresses ∧ s.scheduler = db.scheduler)
    (triple_run (fun s hs => hs ▸ ⟨rfl, rfl⟩) fun _ _ _ => trivial) fun _ =>
    triple_run (fun s hs => ?_) fun _ _ _ => trivial
  have hAt : cacheAt (exec (Stmt.address (.delete address)) s) = cacheAt db :=
    congrArg SchedulerState.flaggedHackersCacheAt hs.2
  by_cases hNone : cacheAt db = none
  · exact Or.inl (hAt.trans hNone)
  · refine Or.inr ⟨hAt, fun a => ?_⟩
    show ((s.addresses.erase address).lookup a).any _ = _
    by_cases hEq : a = address
    · subst hEq
      rw [AList.lookup_erase]
      exact (Bool.eq_false_iff.mpr fun hFlagged => h ⟨hNone, hFlagged⟩).symm
    · rw [AList.lookup_erase_ne hEq, hs.1]
      rfl

theorem triple_addHacker (env : Env) (address : Address) (hackId : HackId) (db : Db) :
    Triple (fun s => s = db) (addHacker env address hackId) (fun _ => CacheKept db)
      fun _ _ => True := by
  refine Triple.bind ((triple_upsertAddress _ db).post fun _ _ h => h.1) fun _ =>
    Triple.bind (triple_leavesFlags ?_ db) fun _ => triple_pure _ fun _ h => h
  exact emits_enqueueJobIfAbsent (queueCounters leavesFlags_of_isCounter)
    (leavesFlags_of_isCounter _ rfl) env (fun _ _ _ _ => leavesFlags_job _) none _

/-- A removal takes a flag and drops the list, or does nothing. -/
theorem triple_removeHacker_kept (hacker : Address) (pruneExclusive : Bool) (db : Db) :
    Triple (fun s => s = db) (removeHacker hacker pruneExclusive) (fun _ => CacheKept db)
      fun _ _ => True := by
  refine Triple.bind (Q := fun existing s => s = db ∧ existing.any (·.isFlaggedHacker) =
    isFlagged db hacker) (triple_query (fun s hs => ⟨hs, hs ▸ rfl⟩) fun _ _ _ => trivial)
    fun existing => triple_of_fact fun hExisting => ?_
  split
  · next hFlagged =>
    rw [hExisting] at hFlagged
    have hChanges : ChangesFlag db { address := hacker, isFlaggedHacker := some false } := by
      show (false != isFlagged db hacker) = true
      rw [hFlagged]
      rfl
    have hUnflag := (triple_upsertAddress { address := hacker, isFlaggedHacker := some false } db).post
      fun _ _ h => h.2 hChanges
    unfold removeFlagged
    cases pruneExclusive with
    | true =>
      simp only [if_true]
      refine Triple.bind (Q := fun _ s => s = db) (triple_query (fun _ h => h) fun _ _ _ => trivial)
        fun victims => Triple.bind ((triple_collectDownstreamAddresses hacker db).post fun _ _ h => h.1)
          fun downstream => ?_
      exact hUnflag.bind fun _ => (triple_noCache _).post fun _ _ h => Or.inl h
    | false =>
      simp only [Bool.false_eq_true, if_false]
      exact Triple.bind (triple_pure [] fun _ h => h) fun _ => Triple.bind (triple_pure [] fun _ h => h)
        fun _ => hUnflag.bind fun _ => (triple_noCache _).post fun _ _ h => Or.inl h
  · exact triple_pure _ fun s hs => hs ▸ CacheKept.refl db

/-! ## Runs -/

/-- Where a list is stored, the operation neither inserts a flagged row beside it nor deletes one. -/
def AddressOp.KeepsList : AddressOp → Db → Prop
  | .insertAddressIfMissing data, db =>
    ¬ MissesInsert db data.address (data.isFlaggedHacker.getD false)
  | .ingestSourceHacker address _, db | .ingestSourceHackerIfMissing address _, db =>
    ¬ MissesInsert db address true
  | .deleteAddress address, db => ¬ MissesDelete db address
  | _, _ => True

theorem cacheKept_of_op {env : Env} {op : AddressOp} {db : Db} {c : Ctl Mem Err}
    (hKeeps : op.KeepsList db) (hOk : (op.run env db c).res = .ok ()) :
    CacheKept db ((op.run env).final db c) := by
  have hDiscard : ∀ {α : Type} {p : StoreM α}, Triple (fun s => s = db) p (fun _ => CacheKept db)
      (fun _ _ => True) → Triple (fun s => s = db) (p >>= fun _ => (pure () : StoreM Unit))
        (fun _ => CacheKept db) fun _ _ => True := fun hp => hp.bind fun _ => triple_pure () fun _ h => h
  have hStatus : ∀ a status, LeavesFlags (.address (.setExpandStatus a status)) := fun _ _ =>
    leavesFlags_modify (fun _ => rfl) fun _ => rfl
  have hEmits : ∀ {p : StoreM Unit}, p.Emits LeavesFlags → Triple (fun s => s = db) p
      (fun _ => CacheKept db) fun _ _ => True := fun h =>
    (triple_leavesFlags h db).pre fun _ hs => hs ▸ CacheKept.refl db
  have hCounter := leavesFlags_of_isCounter
  cases op with
  | upsertAddress data => exact ((triple_upsertAddress data db).post fun _ _ h => h.1).ok rfl hOk
  | upsertAddressesBatch rows => exact (triple_upsertAddressesBatch env rows db).ok rfl hOk
  | insertAddressIfMissing data =>
    exact (hDiscard ((triple_insertAddressIfMissing _ hKeeps).post fun _ _ h => h.1)).ok rfl hOk
  | setExpandStatus address status =>
    refine (hEmits ?_).ok rfl hOk
    exact (emits_query _).bind fun existing => (emits_run (hStatus _ _)).bind fun _ =>
      emits_forEach fun row _ => (emits_adjustCounter hCounter _ _).bind fun _ =>
        (emits_adjustOnChange (emits_adjustCounter hCounter _) _ _).bind fun _ =>
          (emits_query _).bind fun _ => emits_forEach fun _ _ =>
            emits_maybeMarkMonitorSnapshotDirty hCounter _ _
  | resetStuckExpandStatuses =>
    refine (hEmits ?_).ok rfl hOk
    refine Emits.bind (Emits.bind (emits_query _) fun stuck => Emits.bind (emits_bounded fun s =>
      emits_step _ fun i hi => ?_) fun changed => (emits_adjustCounter hCounter _ _).bind fun _ =>
        emits_pure _) fun _ => emits_pure _
    obtain ⟨e, _, rfl⟩ := List.mem_map.mp hi
    exact hStatus _ _
  | recalcTotalReceived hacker =>
    refine (hEmits ?_).ok rfl hOk
    have hSet : ∀ v, LeavesFlags (.address (.setTotalReceivedSats hacker v)) := fun _ =>
      leavesFlags_modify (fun _ => rfl) fun _ => rfl
    exact (emits_query _).bind fun before => (emits_query _).bind fun total =>
      (emits_run (hSet total)).bind fun _ => emits_forEach fun row _ => emits_when fun _ =>
        (emits_adjustHackStatsCounter hCounter _ _ _).bind fun _ =>
          emits_adjustOnChange (emits_adjustHackStatsCounter hCounter _ _) _ _
  | deleteAddress address => exact (triple_deleteAddress hKeeps).ok rfl hOk
  | ingestSourceHacker address hackId => exact (hDiscard (triple_ingestSourceHacker hKeeps)).ok rfl hOk
  | ingestSourceHackerIfMissing address hackId =>
    exact (hDiscard (triple_ingestSourceHackerIfMissing hKeeps)).ok rfl hOk
  | addHacker address hackId => exact (hDiscard (triple_addHacker env address hackId db)).ok rfl hOk
  | removeHacker address prune => exact (hDiscard (triple_removeHacker_kept address prune db)).ok rfl hOk

/-- An operation on addresses where the guard admits it, or a call of `listHackersCached`. -/
inductive CacheStep (env : Env) (guard : AddressOp → Db → Prop) : CachedStore → CachedStore → Prop
  | op {s : CachedStore} (op : AddressOp) (c : Ctl Mem Err) (hGuard : guard op s.db)
    (hOk : (op.run env s.db c).res = .ok ()) : CacheStep env guard s (s.after ((op.run env).final s.db c))
  | list {s : CachedStore} (maxAgeSec nowMs at_ : Nat) (activeOnly : Bool) :
    CacheStep env guard s (listHackersCached maxAgeSec nowMs at_ activeOnly s).2

abbrev CacheRun (env : Env) (guard : AddressOp → Db → Prop) : CachedStore → CachedStore → Prop :=
  Relation.ReflTransGen (CacheStep env guard)

theorem coherent_of_run {env : Env} {s s' : CachedStore} (hStart : s.Coherent)
    (h : CacheRun env AddressOp.KeepsList s s') : s'.Coherent := by
  induction h with
  | refl => exact hStart
  | tail _ hStep ih =>
    cases hStep with
    | op op c hKeeps hOk => exact (cacheKept_of_op hKeeps hOk).coherent ih
    | list maxAgeSec nowMs at_ activeOnly => exact coherent_list ih maxAgeSec nowMs at_ activeOnly

/-- In a run of operations that return, all of them through one store object, which neither inserts nor
deletes a flagged address beside a stored list, every call of `listHackersCached` returns the flagged
addresses. -/
theorem listHackersCached_of_run {env : Env} {s s' : CachedStore} (hStart : s.Coherent)
    (h : CacheRun env AddressOp.KeepsList s s') (maxAgeSec nowMs at_ : Nat) (a : Address) :
    a ∈ cachedAddresses (listHackersCached maxAgeSec nowMs at_ false s').1 ↔ isFlagged s'.db a = true :=
  mem_listHackersCached (coherent_of_run hStart h) maxAgeSec nowMs at_ a

/-! ### A source that names a new hacker -/

def cacheEnv : Env := { provider := .ofTxs [] }

def emptyStore : CachedStore := ⟨.initial, []⟩

/-- A call of `listHackersCached` at time zero, which stores a list where there is none. -/
def listed (s : CachedStore) : CachedStore := (listHackersCached 120 0 0 false s).2

def operated (op : AddressOp) (s : CachedStore) : CachedStore :=
  s.after ((op.run cacheEnv).final s.db ⟨{}, []⟩)

theorem cacheStep_operated {guard : AddressOp → Db → Prop} {op : AddressOp} {s : CachedStore}
    (hGuard : guard op s.db) (hOk : ((op.run cacheEnv s.db ⟨{}, []⟩).res.toOption.map id) = some ()) :
    CacheStep cacheEnv guard s (operated op s) := by
  obtain ⟨_, hOk, _⟩ := exists_ok hOk
  exact .op op ⟨{}, []⟩ hGuard hOk

/-- The hacker of a source, inserted beside the stored list, is flagged and not returned. -/
theorem listHackersCached_newSourceHacker :
    ¬ ∀ (s s' : CachedStore), s.Coherent → CacheRun cacheEnv (fun _ _ => True) s s' →
      ∀ maxAgeSec nowMs at_ a,
        a ∈ cachedAddresses (listHackersCached maxAgeSec nowMs at_ false s').1 ↔
          isFlagged s'.db a = true := by
  intro h
  have hIngest : CacheStep cacheEnv (fun _ _ => True) (listed emptyStore)
      (operated (.ingestSourceHacker (name "h") "coldcard") (listed emptyStore)) :=
    cacheStep_operated trivial (by decide +kernel)
  have hList : CacheStep cacheEnv (fun _ _ => True) emptyStore (listed emptyStore) := .list 120 0 0 false
  have hRun := (Relation.ReflTransGen.single hList).tail hIngest
  have hSame := h emptyStore _ (fun hSome => by cases hSome) hRun 120 0 0 (name "h")
  have hFlagged : isFlagged (operated (.ingestSourceHacker (name "h") "coldcard")
      (listed emptyStore)).db (name "h") = true := by decide +kernel
  have hMissing : name "h" ∉ cachedAddresses (listHackersCached 120 0 0 false (operated
      (.ingestSourceHacker (name "h") "coldcard") (listed emptyStore))).1 := by decide +kernel
  exact hMissing (hSame.mpr hFlagged)

/-- A hacker that the operator adds is returned beside a list that was stored before. -/
theorem listHackersCached_addedHacker :
    name "h" ∈ cachedAddresses (listHackersCached 120 0 0 false (operated
      (.addHacker (name "h") "coldcard") (listed emptyStore))).1 := by
  have hAdd : CacheStep cacheEnv AddressOp.KeepsList (listed emptyStore)
      (operated (.addHacker (name "h") "coldcard") (listed emptyStore)) :=
    cacheStep_operated trivial (by decide +kernel)
  have hRun : CacheRun cacheEnv AddressOp.KeepsList emptyStore _ :=
    (Relation.ReflTransGen.single (.list 120 0 0 false)).tail hAdd
  exact (listHackersCached_of_run (fun hSome => by cases hSome) hRun 120 0 0 (name "h")).mpr
    (by decide +kernel)

end Bloodhound.Ops
