import Bloodhound.Sources.BatchSync
import Bloodhound.Store.Admission

/-!
# Enqueueing the batches of a source

Where `source_sync_state` records the hash of a list, and where a payload is going to record it, every
address of the list has a row or is in an active batch job. The synchronisation of a fetched list keeps
this (`triple_syncSourceList`): a refused batch finds the latch set or sets it, and no later batch of
the list is admitted.
-/

namespace Bloodhound.Sources

open Indexer Store Ops
open Journal Journal.Op

/-! ## Coverage -/

def Stored (s : SyncStore) (a : Address) : Prop := (s.db.addresses.lookup a).isSome

def ActiveJob (db : Db) (id : Nat) : Prop := ∃ row, db.jobs.lookup id = some row ∧ row.active = true

/-- The job is an active batch job with this payload. -/
def ActiveBatch (s : SyncStore) (id : Nat) (p : BatchPayload) : Prop :=
  s.payloads id = some p ∧ ActiveJob s.db id

/-- The address has a row or is in an active batch job. -/
def Covered (s : SyncStore) (a : Address) : Prop :=
  Stored s a ∨ ∃ id p, ActiveBatch s id p ∧ a ∈ p.addresses

/-- Rows stay, and active batch jobs stay active with their payloads. -/
structure Kept (s s' : SyncStore) : Prop where
  stored : ∀ a, Stored s a → Stored s' a
  payloads : ∀ id p, s.payloads id = some p → s'.payloads id = some p
  active : ∀ id p, ActiveBatch s id p → ActiveJob s'.db id

theorem Kept.refl (s : SyncStore) : Kept s s := ⟨fun _ h => h, fun _ _ h => h, fun _ _ h => h.2⟩

theorem Kept.batch {s s' : SyncStore} (h : Kept s s') {id : Nat} {p : BatchPayload}
    (hBatch : ActiveBatch s id p) : ActiveBatch s' id p :=
  ⟨h.payloads id p hBatch.1, h.active id p hBatch⟩

theorem Kept.trans {s s' s'' : SyncStore} (h : Kept s s') (h' : Kept s' s'') : Kept s s'' :=
  ⟨fun a ha => h'.stored a (h.stored a ha), fun id p hp => h'.payloads id p (h.payloads id p hp),
    fun id p hBatch => h'.active id p (h.batch hBatch)⟩

theorem Kept.covered {s s' : SyncStore} (h : Kept s s') {a : Address} (ha : Covered s a) :
    Covered s' a := by
  rcases ha with ha | ⟨id, p, hBatch, ha⟩
  · exact Or.inl (h.stored a ha)
  · exact Or.inr ⟨id, p, h.batch hBatch, ha⟩

section Synced

variable (digest : List Address → String) (lists : Set SourceList)

/-- Every served list of the source with the hash is covered. -/
def CoversHash (source : Source) (hash : String) (s : SyncStore) : Prop :=
  ∀ l ∈ lists, l.source = source → l.contentHash digest = hash → ∀ a ∈ l.addresses, Covered s a

/-- What a recorded hash, and a payload that will record one, promise. -/
structure Synced (s : SyncStore) : Prop where
  finalize : ∀ id p, s.payloads id = some p → p.finalize = true →
    CoversHash digest lists p.source p.contentHash s
  recorded : ∀ source hash, (s.sync source).lastContentHash = some hash →
    CoversHash digest lists source hash s
  vaults : ∀ id p, s.payloads id = some p → p.source = .coldcardSweepWatch → p.downstream = []

end Synced

variable {digest : List Address → String} {lists : Set SourceList} {env : Env}

theorem CoversHash.mono {source : Source} {hash : String} {s s' : SyncStore}
    (h : CoversHash digest lists source hash s) (hKept : Kept s s') :
    CoversHash digest lists source hash s' :=
  fun l hl hSource hHash a ha => hKept.covered (h l hl hSource hHash a ha)

/-! ## Statements -/

/-- The statement deletes no row of an address and ends no job. -/
def Keeps : Stmt → Prop
  | .address (.delete _) => False
  | .job (.complete _ _) | .job (.deleteActiveForAddress _) => False
  | .job .deleteActive | .job (.pruneDone _ _) => False
  | _ => True

theorem keeps_of_isCounter (i : Stmt) (h : i.isCounter) : Keeps i := by
  cases i with
  | address s => cases h
  | job s => cases h
  | _ => trivial

theorem isSome_lookup_exec {i : AddressStmt} (hi : Keeps (.address i)) {t : Table.Rows Address AddressRow}
    {a : Address} (h : (t.lookup a).isSome) : ((i.exec t).lookup a).isSome := by
  cases i with
  | delete => exact hi.elim
  | upsert data =>
    rw [lookup_upsert]
    split
    · rfl
    · exact h
  | zeroInboundSats | zeroHackerTotalReceived =>
    unfold AddressStmt.exec
    rw [Table.lookup_mapRows, Option.isSome_map]
    exact h
  | _ =>
    unfold AddressStmt.exec
    rw [Table.lookup_modify]
    split
    · rwa [Option.isSome_map]
    · exact h

theorem activeJob_exec {i : Stmt} (hi : Keeps i) {db : Db} {id : Nat} (hId : id < db.jobs.nextId)
    (h : ActiveJob db id) : ActiveJob (exec i db) id := by
  obtain ⟨row, hRow, hActive⟩ := h
  have hInserted : ∀ row' : JobRow, (db.jobs.insertRow row').lookup id = some row := by
    intro row'
    rw [lookup_insertRow, if_neg hId.ne, hRow]
  have hUpdated : ∀ (id' : Nat) (f : JobRow → JobRow), (∀ r, r.active = true → (f r).active = true) →
      ∃ row', (db.jobs.update id' f).lookup id = some row' ∧ row'.active = true := by
    intro id' f hf
    rw [lookup_update]
    split
    · exact ⟨f row, by rw [hRow, Option.map_some], hf row hActive⟩
    · exact ⟨row, hRow, hActive⟩
  cases i with
  | job s =>
    cases s with
    | insert => exact ⟨row, hInserted _, hActive⟩
    | insertIfAbsent job priority runAfter createdAt types address =>
      refine ⟨row, ?_, hActive⟩
      show (if db.jobs.hasActive types address then db.jobs else _ : JobTable).lookup id = some row
      split
      · exact hRow
      · exact hInserted _
    | claim =>
      refine hUpdated _ _ fun r hr => ?_
      split
      · rfl
      · exact hr
    | requeue | reclaim => exact hUpdated _ _ fun r _ => rfl
    | clearReclaim => exact hUpdated _ _ fun r hr => hr
    | _ => exact hi.elim
  | _ => exact ⟨row, hRow, hActive⟩

theorem payloads_exec (i : Stmt) (payload : Option BatchPayload) (s : SyncStore) {id : Nat}
    (hId : id < s.db.jobs.nextId) :
    (exec (SyncStmt.store i payload) s).payloads id = s.payloads id :=
  if_neg fun h => absurd h.1 (by omega)

theorem kept_exec {i : Stmt} (hi : Keeps i) (payload : Option BatchPayload) (s : SyncStore) :
    Kept s (exec (SyncStmt.store i payload) s) where
  stored a ha := by
    cases i with
    | address stmt => exact isSome_lookup_exec hi ha
    | _ => exact ha
  payloads id p hp := (payloads_exec i payload s (s.fresh id p hp)).trans hp
  active id p hBatch := activeJob_exec hi (s.fresh id p hBatch.1) hBatch.2

theorem payload_exec_none {i : Stmt} {s : SyncStore} {id : Nat} {p : BatchPayload}
    (h : (exec (SyncStmt.store i none) s).payloads id = some p) : s.payloads id = some p := by
  change s.insertedPayloads _ none id = some p at h
  unfold SyncStore.insertedPayloads at h
  split at h
  · cases h
  · exact h

theorem Synced.exec_store {s : SyncStore} (h : Synced digest lists s) {i : Stmt} (hi : Keeps i) :
    Synced digest lists (exec (SyncStmt.store i none) s) where
  finalize id p hp hFinal := (h.finalize id p (payload_exec_none hp) hFinal).mono (kept_exec hi none s)
  recorded source hash hRecorded := (h.recorded source hash hRecorded).mono (kept_exec hi none s)
  vaults id p hp := h.vaults id p (payload_exec_none hp)

theorem kept_sourceSync (source : Source) (count : Option Nat) (hash : Option String) (s : SyncStore) :
    Kept s (exec (SyncStmt.sourceSync source count hash) s) :=
  ⟨fun _ h => h, fun _ _ h => h, fun _ _ h => h.2⟩

theorem Synced.exec_sourceSync {s : SyncStore} (h : Synced digest lists s) {source : Source}
    {hash : String} (hCovers : CoversHash digest lists source hash s) (count : Option Nat) :
    Synced digest lists (exec (SyncStmt.sourceSync source count (some hash)) s) where
  finalize id p hp hFinal := (h.finalize id p hp hFinal).mono (kept_sourceSync source count _ s)
  vaults := h.vaults
  recorded source' hash' hRecorded := by
    refine CoversHash.mono (s := s) ?_ (kept_sourceSync source count _ s)
    change (Function.update s.sync source _ source').lastContentHash = some hash' at hRecorded
    by_cases hEq : source' = source
    · subst hEq
      rw [Function.update_self] at hRecorded
      cases hRecorded
      exact hCovers
    · rw [Function.update_of_ne hEq] at hRecorded
      exact h.recorded source' hash' hRecorded

/-! ## Operations -/

/-- The invariant, with what is kept of an earlier state. -/
def Safe (digest : List Address → String) (lists : Set SourceList) (s₀ s : SyncStore) : Prop :=
  Synced digest lists s ∧ Kept s₀ s

theorem emits_onStore {α : Type} {p : StoreM α} {S : Stmt → Prop} (h : p.Emits S) :
    (onStore p).Emits fun i => ∃ j, S j ∧ i = .store j none := h.lift fun i hi => ⟨i, hi, rfl⟩

section Safe

variable {s₀ : SyncStore}

theorem triple_onStore {α : Type} {p : StoreM α} (h : p.Emits Keeps) :
    Triple (Safe digest lists s₀) (onStore p) (fun _ => Safe digest lists s₀)
      fun _ => Safe digest lists s₀ := by
  refine triple_of_emits (emits_onStore h) ?_
  rintro _ ⟨i, hi, rfl⟩ s hs
  exact ⟨hs.1.exec_store hi, hs.2.trans (kept_exec hi none s)⟩

end Safe

/-! ## The enqueue of a batch -/

/-- The job of the payload is in the queue, which was open before. -/
structure Placed (payload : BatchPayload) (s s' : SyncStore) : Prop where
  latch : s.db.latched = false
  payloads : s'.payloads = Function.update s.payloads s.db.jobs.nextId (some payload)
  active : ActiveJob s'.db s.db.jobs.nextId

/-- What an enqueue writes: jobs with the payload, and no row of an address. -/
structure Enqueues (payload : BatchPayload) (s s' : SyncStore) : Prop where
  kept : Kept s s'
  sync : s'.sync = s.sync
  nextId : s.db.jobs.nextId ≤ s'.db.jobs.nextId
  payloads : ∀ id, s'.payloads id =
    if s.db.jobs.nextId ≤ id ∧ id < s'.db.jobs.nextId then some payload else s.payloads id

theorem Enqueues.trans {payload : BatchPayload} {s s' s'' : SyncStore} (h : Enqueues payload s s')
    (h' : Enqueues payload s' s'') : Enqueues payload s s'' where
  kept := h.kept.trans h'.kept
  sync := h'.sync.trans h.sync
  nextId := h.nextId.trans h'.nextId
  payloads id := by
    rw [h'.payloads, h.payloads]
    have hFirst := h.nextId
    have hSecond := h'.nextId
    split_ifs <;> first | rfl | omega

theorem enqueues_exec {i : Stmt} (hi : Keeps i) (payload : BatchPayload) (s : SyncStore) :
    Enqueues payload s (exec (SyncStmt.store i (some payload)) s) where
  kept := kept_exec hi _ s
  sync := rfl
  nextId := nextId_le_exec i s.db
  payloads _ := rfl

theorem triple_enqueues (env : Env) (payload : BatchPayload) (s₀ : SyncStore) :
    Triple (fun s => s = s₀) (enqueueBatchJob env payload) (fun _ => Enqueues payload s₀)
      fun _ => Enqueues payload s₀ := by
  have hEmits : (Store.enqueueJob env payload.source.job payload.source.priority none false :
      StoreM (Option Nat)).Emits Keeps :=
    emits_enqueueJob (fun i hi => keeps_of_isCounter i (isCounter_of_isQueueCounter hi)) trivial env
      (fun _ _ => trivial) none false
  refine triple_related (S := fun i => ∃ j, Keeps j ∧ i = SyncStmt.store j (some payload))
    (R := Enqueues payload) (fun s => ?_) (fun h h' => h.trans h') (hEmits.lift fun i hi => ⟨i, hi, rfl⟩) ?_ s₀
  · exact ⟨Kept.refl s, rfl, le_rfl, fun id => (if_neg fun h => absurd h.1 (by omega)).symm⟩
  · rintro _ ⟨i, hi, rfl⟩ s
    exact enqueues_exec hi payload s

theorem capReached_sync {source : Source} {db : Db} : ¬ CapReached env source.job db := by
  intro h
  cases source <;> cases h <;> contradiction

/-- A sync job is admitted to an open queue with room, and to no other. -/
theorem open_of_admitted {source : Source} {db db' : Db} {allowed : Bool}
    (h : Admission env source.job false db allowed db') (hAllowed : allowed = true) :
    db.latched = false ∧ db.depth < env.store.maxQueueDepth := by
  cases h with
  | bypassed h => cases h
  | latched => cases source <;> exact absurd hAllowed (by decide)
  | capped => cases hAllowed
  | full => cases source <;> exact absurd hAllowed (by decide)
  | room _ hLatch _ hDepth => exact ⟨hLatch, hDepth⟩

theorem latched_of_refused {source : Source} {db db' : Db} {allowed : Bool}
    (h : Admission env source.job false db allowed db') (hAllowed : allowed = false) :
    db'.latched = true ∧ ¬ (db.latched = false ∧ db.depth < env.store.maxQueueDepth) := by
  cases h with
  | bypassed => cases hAllowed
  | latched _ hLatch => exact ⟨hLatch, fun hRoom => by rw [hLatch] at hRoom; cases hRoom.1⟩
  | capped _ _ hCap => exact absurd hCap capReached_sync
  | full _ _ _ hDepth => exact ⟨rfl, fun hRoom => by omega⟩
  | room => cases hAllowed

theorem placed_of_insertRow {payload : BatchPayload} {s₀ s : SyncStore} {row : JobRow}
    (hEnqueues : Enqueues payload s₀ s) (hLatch : s₀.db.latched = false)
    (hJobs : s.db.jobs = s₀.db.jobs.insertRow row) (hActive : row.active = true) :
    Placed payload s₀ s where
  latch := hLatch
  payloads := by
    funext id
    rw [hEnqueues.payloads, hJobs, nextId_insertRow]
    by_cases hId : id = s₀.db.jobs.nextId
    · rw [hId, Function.update_self, if_pos ⟨le_rfl, Nat.lt_succ_self _⟩]
    · rw [Function.update_of_ne hId, if_neg fun h => hId (by omega)]
  active := ⟨row, by rw [hJobs, lookup_insertRow, if_pos rfl], hActive⟩

theorem payloads_of_sameJobs {payload : BatchPayload} {s₀ s : SyncStore}
    (hEnqueues : Enqueues payload s₀ s) (hJobs : s.db.jobs.nextId = s₀.db.jobs.nextId) :
    s.payloads = s₀.payloads := by
  funext id
  rw [hEnqueues.payloads, hJobs]
  exact if_neg fun h => absurd h.1 (by omega)

/-- A batch is enqueued or refused; a refused one finds the latch set or sets it. -/
theorem triple_enqueueBatchJob (env : Env) (payload : BatchPayload) (s₀ : SyncStore) :
    Triple (fun s => s = s₀) (enqueueBatchJob env payload)
      (fun _ s => (Kept s₀ s ∧ s.sync = s₀.sync) ∧ (Placed payload s₀ s ∨
        (s.payloads = s₀.payloads ∧ s.db.latched = true ∧
          ¬ (s₀.db.latched = false ∧ s₀.db.depth < env.store.maxQueueDepth))))
      fun _ s => (Kept s₀ s ∧ s.sync = s₀.sync) ∧
        (Placed payload s₀ s ∨ s.payloads = s₀.payloads) := by
  have hStore : Triple (fun s : SyncStore => s.db = s₀.db) (enqueueBatchJob env payload)
      (fun id s => EnqueueOutcome env payload.source.job false False s₀.db id s.db)
      fun _ s => EnqueueFailure env payload.source.job false s₀.db s.db :=
    Triple.lift (fun _ _ => rfl)
      (triple_enqueueJob env payload.source.job payload.source.priority none s₀.db false)
  refine ((triple_enqueues env payload s₀).and hStore).conseq (fun s hs => ⟨hs, by rw [hs]⟩) ?_ ?_
  · rintro id s ⟨hEnqueues, hOutcome⟩
    refine ⟨⟨hEnqueues.kept, hEnqueues.sync⟩, ?_⟩
    generalize hDb : s.db = db at hOutcome
    cases hOutcome with
    | refused h =>
      obtain ⟨hLatch, hRoom⟩ := latched_of_refused h rfl
      refine Or.inr ⟨payloads_of_sameJobs hEnqueues ?_, hDb ▸ hLatch, hRoom⟩
      rw [hDb, h.jobs]
    | duplicate _ hDuplicate => exact hDuplicate.elim
    | inserted row h hJob hActive hJobs hLatch =>
      exact Or.inl (placed_of_insertRow hEnqueues (open_of_admitted h rfl).1 (hDb ▸ hJobs) hActive)
  · rintro e s ⟨hEnqueues, hFailure⟩
    refine ⟨⟨hEnqueues.kept, hEnqueues.sync⟩, ?_⟩
    generalize hDb : s.db = db at hFailure
    cases hFailure with
    | before hJobs =>
      refine Or.inr (payloads_of_sameJobs hEnqueues ?_)
      rw [hDb, hJobs]
    | inserted row h hJob hActive hJobs =>
      exact Or.inl (placed_of_insertRow hEnqueues (open_of_admitted h rfl).1 (hDb ▸ hJobs) hActive)

/-! ## A batch that is placed -/

section Placed

variable {payload : BatchPayload} {s s' : SyncStore}

theorem Placed.batch (h : Placed payload s s') : ActiveBatch s' s.db.jobs.nextId payload :=
  ⟨by rw [h.payloads, Function.update_self], h.active⟩

theorem Placed.covered (h : Placed payload s s') {a : Address} (ha : a ∈ payload.addresses) :
    Covered s' a := Or.inr ⟨_, payload, h.batch, ha⟩

theorem synced_of_sameBatches (hSynced : Synced digest lists s) (hKept : Kept s s') (hSync : s'.sync = s.sync)
    (hPayloads : s'.payloads = s.payloads) : Synced digest lists s' where
  finalize id p hp hFinal := (hSynced.finalize id p (hPayloads ▸ hp) hFinal).mono hKept
  vaults id p hp := hSynced.vaults id p (hPayloads ▸ hp)
  recorded source hash hRecorded := (hSynced.recorded source hash (hSync ▸ hRecorded)).mono hKept

/-- A placed batch that finalizes must be the last part of what it covers. -/
theorem Placed.synced (h : Placed payload s s') (hSynced : Synced digest lists s) (hKept : Kept s s')
    (hSync : s'.sync = s.sync) (hVaults : payload.source = .coldcardSweepWatch → payload.downstream = [])
    (hFinal : payload.finalize = true → CoversHash digest lists payload.source payload.contentHash s') :
    Synced digest lists s' where
  finalize id p hp hFinalP := by
    rw [h.payloads] at hp
    by_cases hId : id = s.db.jobs.nextId
    · rw [hId, Function.update_self] at hp
      cases hp
      exact hFinal hFinalP
    · rw [Function.update_of_ne hId] at hp
      exact (hSynced.finalize id p hp hFinalP).mono hKept
  recorded source hash hRecorded := (hSynced.recorded source hash (hSync ▸ hRecorded)).mono hKept
  vaults id p hp := by
    rw [h.payloads] at hp
    by_cases hId : id = s.db.jobs.nextId
    · rw [hId, Function.update_self] at hp
      cases hp
      exact hVaults
    · rw [Function.update_of_ne hId] at hp
      exact hSynced.vaults id p hp

end Placed

/-! ## The batches of a list -/

theorem exists_chunk {α : Type} {size : Nat} (hSize : 0 < size) {items : List α} {a : α}
    (ha : a ∈ items) : ∃ chunk ∈ chunkArray size items, a ∈ chunk := by
  obtain ⟨i, hi, rfl⟩ := List.mem_iff_getElem.mp ha
  have hMax : max 1 size = size := by omega
  unfold chunkArray
  rw [hMax]
  have hBelow := Nat.div_mul_le_self i size
  have hAbove := Nat.lt_div_mul_add (a := i) hSize
  refine ⟨(items.drop (i / size * size)).take size, List.mem_map.mpr ⟨i / size, ?_, rfl⟩, ?_⟩
  · rw [List.mem_range, Nat.lt_iff_add_one_le, Nat.le_div_iff_mul_le hSize, Nat.add_mul]
    omega
  · refine List.mem_iff_getElem.mpr ⟨i - i / size * size, ?_, ?_⟩
    · rw [List.length_take, List.length_drop]
      omega
    · rw [List.getElem_take, List.getElem_drop]
      congr 1
      omega

section Batches

variable {data : SourceData} {perJob addressCount : Nat}

theorem batch_of_list {p : BatchPayload} (hp : p ∈ batchPayloads data perJob addressCount) :
    p.source = data.source ∧ p.contentHash = data.contentHash := by
  unfold batchPayloads at hp
  dsimp only at hp
  rw [List.mem_mapIdx] at hp
  obtain ⟨i, hi, rfl⟩ := hp
  have hJob := List.getElem_mem hi
  simp only [List.mem_append, List.mem_map] at hJob
  rcases hJob with (⟨chunk, _, hEq⟩ | ⟨chunk, _, hEq⟩) | ⟨chunk, _, hEq⟩ <;> rw [← hEq] <;>
    exact ⟨rfl, rfl⟩

theorem chunkArray_nil {α : Type} (size : Nat) : chunkArray size ([] : List α) = [] := by
  unfold chunkArray
  rw [Nat.div_eq_of_lt (by rw [List.length_nil]; omega)]
  rfl

theorem downstream_of_list (hNone : data.downstream = []) {p : BatchPayload}
    (hp : p ∈ batchPayloads data perJob addressCount) : p.downstream = [] := by
  unfold batchPayloads at hp
  dsimp only at hp
  rw [List.mem_mapIdx] at hp
  obtain ⟨i, hi, rfl⟩ := hp
  have hJob := List.getElem_mem hi
  simp only [List.mem_append, List.mem_map] at hJob
  rcases hJob with (⟨chunk, _, hEq⟩ | ⟨chunk, _, hEq⟩) | ⟨chunk, hChunk, _⟩
  · rw [← hEq]
  · rw [← hEq]
  · rw [hNone, chunkArray_nil] at hChunk
    cases hChunk

theorem last_of_finalize {front rest : List BatchPayload} {p : BatchPayload}
    (h : batchPayloads data perJob addressCount = front ++ p :: rest) (hFinal : p.finalize = true) :
    rest = [] := by
  unfold batchPayloads at h
  dsimp only at h
  generalize hJobs : (chunkArray perJob data.collectors).map _ ++ _ ++ _ = jobs at h
  have hLength := congrArg List.length h
  rw [List.length_mapIdx, List.length_append, List.length_cons] at hLength
  have hAt := congrArg (·[front.length]?) h
  simp only [List.getElem?_mapIdx, List.getElem?_append_right le_rfl, Nat.sub_self,
    List.getElem?_cons_zero, Option.map_eq_some_iff] at hAt
  obtain ⟨job, _, rfl⟩ := hAt
  have hLast : front.length + 1 = jobs.length := of_decide_eq_true hFinal
  exact List.eq_nil_of_length_eq_zero (by omega)

theorem exists_batch (hPerJob : 0 < perJob) {a : Address}
    (ha : a ∈ data.collectors ++ data.victims ++ data.downstream) :
    ∃ p ∈ batchPayloads data perJob addressCount, a ∈ p.addresses := by
  unfold batchPayloads
  dsimp only
  generalize hJobs : (chunkArray perJob data.collectors).map _ ++ _ ++ _ = jobs
  have hNumbered : ∀ job ∈ jobs, a ∈ job.addresses → ∃ p ∈ jobs.mapIdx fun i job =>
      { job with
        finalize := decide (i + 1 = jobs.length)
        lastAddressCount := if i + 1 = jobs.length then some addressCount else none
        chunkIndex := i + 1
        chunkTotal := jobs.length }, a ∈ p.addresses := by
    intro job hJob hIn
    obtain ⟨i, hi, rfl⟩ := List.mem_iff_getElem.mp hJob
    exact ⟨_, List.mem_mapIdx.mpr ⟨i, hi, rfl⟩, hIn⟩
  rw [List.mem_append, List.mem_append] at ha
  subst hJobs
  rcases ha with (ha | ha) | ha <;> obtain ⟨chunk, hChunk, hIn⟩ := exists_chunk hPerJob ha
  · refine hNumbered _ (List.mem_append_left _ (List.mem_append_left _ (List.mem_map_of_mem hChunk))) ?_
    simpa [BatchPayload.addresses] using hIn
  · refine hNumbered _ (List.mem_append_left _ (List.mem_append_right _ (List.mem_map_of_mem hChunk))) ?_
    simpa [BatchPayload.addresses] using hIn
  · refine hNumbered _ (List.mem_append_right _ (List.mem_map_of_mem hChunk)) ?_
    simpa [BatchPayload.addresses] using hIn

/-- What the loop over the batches keeps: a refused batch closes the queue for the ones after it, and
until then every address is covered or in a batch still to come. -/
def Enqueueing (digest : List Address → String) (lists : Set SourceList) (data : SourceData)
    (rest : List BatchPayload) (s : SyncStore) : Prop :=
  Synced digest lists s ∧ (s.db.latched = true ∨ ∀ l ∈ lists, l.source = data.source →
    l.contentHash digest = data.contentHash → ∀ a ∈ l.addresses,
      Covered s a ∨ ∃ p ∈ rest, a ∈ p.addresses)

theorem triple_nextBatch {p : BatchPayload} {rest : List BatchPayload} (hSource : p.source = data.source)
    (hHash : p.contentHash = data.contentHash) (hDownstream : p.downstream = [])
    (hLast : p.finalize = true → rest = []) :
    Triple (Enqueueing digest lists data (p :: rest))
      (do
        let _ ← enqueueBatchJob env p
        pure ())
      (fun _ => Enqueueing digest lists data rest) fun _ => Synced digest lists := by
  refine triple_of_state fun s ⟨hSynced, hPart⟩ => ?_
  have hMoved : ∀ s', Kept s s' → Placed p s s' → ∀ l ∈ lists, l.source = data.source →
      l.contentHash digest = data.contentHash → ∀ a ∈ l.addresses,
        Covered s' a ∨ ∃ p ∈ rest, a ∈ p.addresses := by
    intro s' hKept hPlaced l hl hl' hlHash a ha
    rcases hPart with hLatch | hPart
    · rw [hPlaced.latch] at hLatch
      cases hLatch
    rcases hPart l hl hl' hlHash a ha with hCovered | ⟨q, hq, hIn⟩
    · exact Or.inl (hKept.covered hCovered)
    · rcases List.mem_cons.mp hq with rfl | hq
      · exact Or.inl (hPlaced.covered hIn)
      · exact Or.inr ⟨q, hq, hIn⟩
  have hSyncedAfter : ∀ s', Kept s s' → s'.sync = s.sync → Placed p s s' → Synced digest lists s' := by
    intro s' hKept hSync hPlaced
    refine hPlaced.synced hSynced hKept hSync (fun _ => hDownstream) fun hFinal l hl hl' hlHash a ha => ?_
    rcases hMoved s' hKept hPlaced l hl (hl'.trans hSource) (hlHash.trans hHash) a ha with h | ⟨q, hq, _⟩
    · exact h
    · rw [hLast hFinal] at hq
      cases hq
  refine ((triple_enqueueBatchJob env p s).conseq (fun _ h => h) ?_ ?_).bind fun _ =>
    triple_pure () fun _ hs => hs
  · rintro id s' ⟨⟨hKept, hSync⟩, hPlaced | ⟨hPayloads, hLatch, _⟩⟩
    · exact ⟨hSyncedAfter s' hKept hSync hPlaced, Or.inr (hMoved s' hKept hPlaced)⟩
    · exact ⟨synced_of_sameBatches hSynced hKept hSync hPayloads, Or.inl hLatch⟩
  · rintro e s' ⟨⟨hKept, hSync⟩, hPlaced | hPayloads⟩
    · exact hSyncedAfter s' hKept hSync hPlaced
    · exact synced_of_sameBatches hSynced hKept hSync hPayloads

theorem triple_enqueueBatchJobs (hPerJob : 0 < perJob) (hNone : data.downstream = []) :
    Triple (fun s => Synced digest lists s ∧ ∀ l ∈ lists, l.source = data.source →
        l.contentHash digest = data.contentHash → ∀ a ∈ l.addresses,
          Covered s a ∨ a ∈ data.collectors ++ data.victims ++ data.downstream)
      (enqueueBatchJobs env data perJob addressCount) (fun _ => Synced digest lists)
      fun _ => Synced digest lists := by
  unfold enqueueBatchJobs
  dsimp only
  have hBatch : ∀ a ∈ data.collectors ++ data.victims ++ data.downstream,
      ∃ p ∈ batchPayloads data perJob addressCount, a ∈ p.addresses := fun a ha => exists_batch hPerJob ha
  split
  · next hEmpty =>
    refine triple_run (fun s hs => hs.1.exec_sourceSync (fun l hl hl' hHash a ha => ?_) _)
      fun s hs _ => hs.1
    rcases hs.2 l hl hl' hHash a ha with h | h
    · exact h
    · obtain ⟨p, hp, _⟩ := hBatch a h
      rw [hEmpty] at hp
      cases hp
  · refine ((triple_forEach_rest (I := Enqueueing digest lists data) fun p rest hSplit => ?_).pre
      fun s hs => ⟨hs.1, Or.inr fun l hl hl' hHash a ha => ?_⟩).post fun _ s hs => hs.1
    · obtain ⟨front, hSplit⟩ := hSplit
      have hIn : p ∈ batchPayloads data perJob addressCount :=
        hSplit ▸ List.mem_append_right front List.mem_cons_self
      exact triple_nextBatch (batch_of_list hIn).1 (batch_of_list hIn).2 (downstream_of_list hNone hIn)
        (last_of_finalize hSplit)
    · rcases hs.2 l hl hl' hHash a ha with h | h
      · exact Or.inl h
      · exact Or.inr (hBatch a h)

theorem mem_addresses_of_sameHash (hDigest : Set.InjOn digest (SourceList.sorted '' lists))
    {l l' : SourceList} (hl : l ∈ lists) (hl' : l' ∈ lists)
    (hHash : l'.contentHash digest = l.contentHash digest) {a : Address} (ha : a ∈ l'.addresses) :
    a ∈ l.addresses := by
  have hSorted : l'.sorted = l.sorted := hDigest ⟨l', hl', rfl⟩ ⟨l, hl, rfl⟩ hHash
  have hIn : a ∈ l'.sorted := List.mem_mergeSort.mpr ha
  rw [hSorted] at hIn
  exact List.mem_mergeSort.mp hIn

/-- Every address of a fetched list has a row, or is one of those that are ingested. -/
theorem stored_or_ingested (s : SyncStore) (l : SourceList) {a : Address} (ha : a ∈ l.addresses) :
    Stored s a ∨ a ∈ partitionSourceHackers s.db (l.fetched digest).collectors ++
      partitionSourceMissing s.db (l.fetched digest).victims := by
  by_cases hRow : Stored s a
  · exact Or.inl hRow
  rw [Stored, Bool.not_eq_true, Option.isSome_eq_false_iff, Option.isNone_iff_eq_none] at hRow
  refine Or.inr (List.mem_append.mpr ?_)
  by_cases hCollector : a ∈ l.collectors
  · exact Or.inl (List.mem_filter.mpr ⟨hCollector, by rw [hRow]; rfl⟩)
  · refine Or.inr (List.mem_filter.mpr ⟨List.mem_filter.mpr ⟨?_, decide_eq_true hCollector⟩, ?_⟩)
    · exact (List.mem_append.mp ha).resolve_left hCollector
    · rw [hRow]
      rfl

/-- The synchronisation of a fetched list, wherever it stops; served lists with one hash are one list. -/
theorem triple_syncSourceList (hPerJob : 0 < perJob) (hDigest : Set.InjOn digest (SourceList.sorted '' lists))
    {l : SourceList} (hl : l ∈ lists) (othersUnchanged : Bool) :
    Triple (Synced digest lists) (syncSourceList env digest perJob l othersUnchanged)
      (fun _ => Synced digest lists) fun _ => Synced digest lists := by
  refine triple_of_state fun s hSynced => ?_
  have hSame : ∀ s', s' = s → Synced digest lists s' := fun s' hs => hs ▸ hSynced
  refine Triple.bind (Q := fun prev s' => s' = s ∧ prev = s.sync l.source)
    (triple_query (fun s' hs => ⟨hs, by rw [hs]; rfl⟩) fun s' hs _ => hSame s' hs) fun prev =>
    triple_of_fact fun hPrev => ?_
  split
  · next hUnchanged =>
    refine triple_when (fun _ => triple_run (fun s' hs => ?_) fun s' hs _ => hSame s' hs)
      fun _ s' hs => hSame s' hs
    subst hs
    exact hSynced.exec_sourceSync (hSynced.recorded _ _ (hPrev ▸ hUnchanged)) none
  refine Triple.bind (Q := fun existing s' => s' = s ∧ existing = s.db)
    (triple_query (fun s' hs => ⟨hs, by rw [hs]⟩) fun s' hs _ => hSame s' hs) fun existing =>
    triple_of_fact fun hExisting => ?_
  subst hExisting
  dsimp only
  have hPart : ∀ l' ∈ lists, l'.source = l.source → l'.contentHash digest = l.contentHash digest →
      ∀ a ∈ l'.addresses, Stored s a ∨ a ∈ partitionSourceHackers s.db (l.fetched digest).collectors ++
        partitionSourceMissing s.db (l.fetched digest).victims := fun l' hl' _ hHash a ha =>
    stored_or_ingested s l (mem_addresses_of_sameHash hDigest hl hl' hHash ha)
  split
  · next hNone =>
    refine triple_run (fun s' hs => ?_) fun s' hs _ => hSame s' hs
    subst hs
    refine hSynced.exec_sourceSync (fun l' hl' hSource hHash a ha => ?_) _
    rcases hPart l' hl' hSource hHash a ha with h | h
    · exact Or.inl h
    · rw [hNone.1, hNone.2.1] at h
      cases h
  · refine (triple_enqueueBatchJobs hPerJob rfl).pre fun s' hs => ?_
    subst hs
    refine ⟨hSynced, fun l' hl' hSource hHash a ha => ?_⟩
    rcases hPart l' hl' hSource hHash a ha with h | h
    · exact Or.inl (Or.inl h)
    · exact Or.inr (List.mem_append_left _ h)

end Batches

end Bloodhound.Sources
