import Bloodhound.Indexer.Effects
import Bloodhound.Sources.SyncCoverage

/-!
# A synchronised source has no lost address

Wherever `source_sync_state` records the hash of a list, every address of the list has a row or is in
an active batch job (`covered_of_run`), in every run in which slices are not empty and what a batch
leaves is admitted to the queue.
-/

namespace Bloodhound.Sources

open Indexer Store Ops
open Journal Journal.Op

variable {digest : List Address → String} {lists : Set SourceList} {env : Env}

/-! ## The loops of a batch -/

section Loops

variable {s₀ : SyncStore}

/-- What follows the statement of `insertAddressIfMissing`. -/
theorem keeps_afterInsert (data : AddressUpsertData) (inserted : Bool) :
    (do
      when (inserted ∧ isCrawlPendingEligible (data.role.getD .unknown) (data.expandStatus.getD .pending))
        (adjustCrawlPendingCount 1)
      when inserted do
        let row ← getAddress data.address
        forEach row.toList fun row => adjustForRow none row
      pure inserted : StoreM Bool).Emits Keeps :=
  (emits_when fun _ => emits_adjustCounter keeps_of_isCounter _ _).bind fun _ =>
    Emits.bind (emits_when fun _ => Emits.bind (emits_query _) fun _ =>
      emits_forEach fun row _ => emits_adjustForRow keeps_of_isCounter none row) fun _ => emits_pure _

theorem keeps_insertAddressIfMissing (data : AddressUpsertData) :
    (insertAddressIfMissing data).Emits Keeps := by
  refine Emits.bind (emits_bounded fun db => ?_) (keeps_afterInsert data)
  split
  · exact emits_step _ fun i hi => nomatch hi
  · refine emits_step _ fun i hi => ?_
    rw [List.mem_singleton.mp hi]
    trivial

theorem triple_keepsRow {α : Type} {p : StoreM α} (h : p.Emits Keeps) (a : Address) :
    Triple (fun db => (db.addresses.lookup a).isSome) p (fun _ db => (db.addresses.lookup a).isSome)
      fun _ _ => True := by
  refine (triple_of_emits h fun i hi db hRow => ?_).conseq (fun _ h => h) (fun _ _ h => h)
    fun _ _ _ => trivial
  cases i with
  | address stmt => exact isSome_lookup_exec hi hRow
  | _ => exact hRow

theorem triple_insertAddressIfMissing (data : AddressUpsertData) :
    Triple (fun _ => True) (insertAddressIfMissing data)
      (fun _ db => (db.addresses.lookup data.address).isSome) fun _ _ => True := by
  refine Triple.bind (Q := fun _ db => (db.addresses.lookup data.address).isSome)
    (triple_bounded fun db _ => ?_) fun inserted => triple_keepsRow (keeps_afterInsert data inserted) _
  split
  · next hRow => exact triple_step (fun s hs => hs ▸ hRow) fun _ _ _ => trivial
  · refine triple_step (fun s _ => ?_) fun _ _ _ => trivial
    show (((AddressStmt.upsert data).exec s.addresses).lookup data.address).isSome
    rw [lookup_upsert, if_pos rfl]
    rfl

theorem keeps_afterCollector (env : Env) (address : Address) (hackId : HackId) (inserted : Bool) :
    (if inserted then do
        enqueueSourceBackfill env address
        pure true
      else do
        let existing ← getAddress address
        if existing.any (·.isFlaggedHacker) then pure false
        else do
          upsertAddress (sourceHacker address hackId)
          enqueueSourceBackfill env address
          pure true : StoreM Bool).Emits Keeps := by
  have hBackfill : (enqueueSourceBackfill env address).Emits Keeps :=
    (emits_enqueueJobIfAbsent (queueCounters keeps_of_isCounter) trivial env (fun _ _ _ _ => trivial)
      none _).bind fun _ => emits_pure _
  split
  · exact hBackfill.bind fun _ => emits_pure _
  refine Emits.bind (emits_query _) fun existing => ?_
  split
  · exact emits_pure _
  · exact (emits_upsertAddress keeps_of_isCounter trivial).bind fun _ => hBackfill.bind fun _ =>
      emits_pure _

/-- An ingestion that returns leaves a row of its address. -/
def Ingests (ingest : Address → SyncM Unit) : Prop :=
  ∀ (digest : List Address → String) (lists : Set SourceList) (s₀ : SyncStore) (a : Address),
    Triple (Safe digest lists s₀) (ingest a) (fun _ s => Safe digest lists s₀ s ∧ Stored s a)
      fun _ => Safe digest lists s₀

theorem ingests_onStore {op : Address → StoreM Bool} (hEmits : ∀ a, (op a).Emits Keeps)
    (hRow : ∀ a, Triple (fun _ => True) (op a) (fun _ db => (db.addresses.lookup a).isSome)
      fun _ _ => True) : Ingests fun a => onStore (op a) >>= fun _ => pure () := by
  intro digest lists s₀ a
  have hStored : Triple (fun _ => True) (onStore (op a)) (fun _ s => Stored s a) fun _ _ => True :=
    Triple.lift (fun _ _ => rfl) (hRow a)
  exact (((triple_onStore (hEmits a)).and hStored).conseq (fun _ h => ⟨h, trivial⟩) (fun _ _ h => h)
    fun _ _ h => h.1).bind fun _ => triple_pure () fun _ hs => hs

theorem ingests_collector (env : Env) : Ingests (ingestCollector env) :=
  ingests_onStore
    (fun a => (keeps_insertAddressIfMissing _).bind (keeps_afterCollector env a "coldcard"))
    fun a => (triple_insertAddressIfMissing
      { sourceHacker a "coldcard" with expandStatus := some .pending }).bind fun inserted =>
      triple_keepsRow (keeps_afterCollector env a "coldcard" inserted) a

theorem ingests_missing (role : Role) (status : Option ExpandStatus) :
    Ingests (ingestMissing role status) :=
  ingests_onStore (fun _ => keeps_insertAddressIfMissing _) fun a =>
    triple_insertAddressIfMissing { address := a, role := some role, expandStatus := status }

theorem triple_ingestUntil {ingest : Address → SyncM Unit} (h : Ingests ingest) (as : List Address) :
    Triple (Safe digest lists s₀) (ingestUntil ingest as)
      (fun rest s => Safe digest lists s₀ s ∧ ∀ a ∈ as, Stored s a ∨ a ∈ rest.getD [])
      fun _ => Safe digest lists s₀ := by
  induction as generalizing s₀ with
  | nil => exact triple_pure _ fun s hs => ⟨hs, fun a ha => nomatch ha⟩
  | cons a rest ih =>
    refine (triple_onStore (emits_mem _)).bind fun canUse => ?_
    split
    · refine (h digest lists s₀ a).bind fun _ => triple_of_state fun s ⟨hSafe, hStored⟩ => ?_
      refine (@ih s).conseq (fun s' hs => by subst hs; exact ⟨hSafe.1, Kept.refl s'⟩) ?_
        fun e s' hs => ⟨hs.1, hSafe.2.trans hs.2⟩
      rintro left s' ⟨hSafe', hLeft⟩
      refine ⟨⟨hSafe'.1, hSafe.2.trans hSafe'.2⟩, fun b hb => ?_⟩
      rcases List.mem_cons.mp hb with rfl | hb
      · exact Or.inl (hSafe'.2.stored b hStored)
      · exact hLeft b hb
    · exact triple_pure _ fun s hs => ⟨hs, fun b hb => Or.inr hb⟩

/-- The same after other addresses have got their rows. -/
theorem triple_ingestMore {ingest : Address → SyncM Unit} (h : Ingests ingest)
    (stored as : List Address) :
    Triple (fun s => Safe digest lists s₀ s ∧ ∀ a ∈ stored, Stored s a) (ingestUntil ingest as)
      (fun rest s => Safe digest lists s₀ s ∧ (∀ a ∈ stored, Stored s a) ∧
        ∀ a ∈ as, Stored s a ∨ a ∈ rest.getD [])
      fun _ => Safe digest lists s₀ := by
  refine triple_of_state fun s ⟨hSafe, hStored⟩ => ?_
  have hFrom : Triple (Safe digest lists s) _ _ _ := triple_ingestUntil h as
  refine hFrom.conseq (fun s' hs => by subst hs; exact ⟨hSafe.1, .refl s'⟩)
    (fun rest s' hs => ⟨⟨hs.1.1, hSafe.2.trans hs.1.2⟩, fun a ha => hs.1.2.stored a (hStored a ha), hs.2⟩)
    fun e s' hs => ⟨hs.1, hSafe.2.trans hs.2⟩

/-- What is left of a batch: the same list, with the addresses that have no row yet. -/
def Left (s : SyncStore) (p : BatchPayload) : Option BatchPayload → Prop
  | none => ∀ a ∈ p.addresses, Stored s a
  | some q => (∀ a ∈ p.addresses, Stored s a ∨ a ∈ q.addresses) ∧ q.source = p.source ∧
    q.contentHash = p.contentHash ∧ q.finalize = p.finalize ∧
    (q.source = .coldcardSweepWatch → q.downstream = p.downstream)

theorem Left.of_collectors {s : SyncStore} {p : BatchPayload} {rest : List Address}
    (h : ∀ a ∈ p.collectors, Stored s a ∨ a ∈ rest) : Left s p (some { p with collectors := rest }) := by
  refine ⟨fun a ha => ?_, rfl, rfl, rfl, fun _ => rfl⟩
  simp only [BatchPayload.addresses, List.mem_append] at ha ⊢
  rcases ha with (ha | ha) | ha
  · exact (h a ha).imp_right fun hIn => Or.inl (Or.inl hIn)
  · exact Or.inr (Or.inl (Or.inr ha))
  · exact Or.inr (Or.inr ha)

theorem Left.of_victims {s : SyncStore} {p : BatchPayload} {rest : List Address}
    (hStored : ∀ a ∈ p.collectors, Stored s a) (h : ∀ a ∈ p.victims, Stored s a ∨ a ∈ rest) :
    Left s p (some { p with collectors := [], victims := rest }) := by
  refine ⟨fun a ha => ?_, rfl, rfl, rfl, fun _ => rfl⟩
  simp only [BatchPayload.addresses, List.mem_append] at ha ⊢
  rcases ha with (ha | ha) | ha
  · exact Or.inl (hStored a ha)
  · exact (h a ha).imp_right fun hIn => Or.inl (Or.inr hIn)
  · exact Or.inr (Or.inr ha)

theorem triple_ingestColdcardWatchBatch (env : Env) {p : BatchPayload}
    (hSource : p.source = .coldcardwatch) :
    Triple (Safe digest lists s₀) (ingestColdcardWatchBatch env p)
      (fun left s => Safe digest lists s₀ s ∧ Left s p left) fun _ => Safe digest lists s₀ := by
  refine (triple_ingestUntil (ingests_collector env) p.collectors).bind fun collectors => ?_
  cases collectors with
  | some rest => exact triple_pure _ fun s hs => ⟨hs.1, .of_collectors hs.2⟩
  | none =>
    refine ((triple_ingestMore (ingests_missing .victim none) p.collectors p.victims).pre fun s hs =>
      ⟨hs.1, fun a ha => (hs.2 a ha).resolve_right List.not_mem_nil⟩).bind fun victims => ?_
    cases victims with
    | some rest => exact triple_pure _ fun s hs => ⟨hs.1, .of_victims hs.2.1 hs.2.2⟩
    | none =>
      refine ((triple_ingestMore (ingests_missing .downstream _) (p.collectors ++ p.victims)
        p.downstream).pre fun s hs => ⟨hs.1, fun a ha => ?_⟩).bind fun downstream =>
          triple_pure _ fun s hs => ⟨hs.1, ?_⟩
      · rcases List.mem_append.mp ha with ha | ha
        · exact hs.2.1 a ha
        · exact (hs.2.2 a ha).resolve_right List.not_mem_nil
      · cases downstream with
        | none =>
          intro a ha
          rcases List.mem_append.mp ha with ha | ha
          · exact hs.2.1 a ha
          · exact (hs.2.2 a ha).resolve_right List.not_mem_nil
        | some rest =>
          refine ⟨fun a ha => ?_, rfl, rfl, rfl, fun hSweep => ?_⟩
          · rcases List.mem_append.mp ha with ha | ha
            · exact Or.inl (hs.2.1 a ha)
            · exact hs.2.2 a ha
          · cases hSource.symm.trans hSweep

/-- A payload of the sweep watch has no downstream addresses. -/
theorem triple_ingestColdcardSweepWatchBatch (env : Env) {p : BatchPayload} (hNone : p.downstream = []) :
    Triple (Safe digest lists s₀) (ingestColdcardSweepWatchBatch env p)
      (fun left s => Safe digest lists s₀ s ∧ Left s p left) fun _ => Safe digest lists s₀ := by
  refine (triple_ingestUntil (ingests_collector env) p.collectors).bind fun collectors => ?_
  cases collectors with
  | some rest => exact triple_pure _ fun s hs => ⟨hs.1, .of_collectors hs.2⟩
  | none =>
    refine ((triple_ingestMore (ingests_missing .victim none) p.collectors p.victims).pre fun s hs =>
      ⟨hs.1, fun a ha => (hs.2 a ha).resolve_right List.not_mem_nil⟩).bind fun vaults =>
        triple_pure _ fun s hs => ⟨hs.1, ?_⟩
    cases vaults with
    | some rest => exact .of_victims hs.2.1 hs.2.2
    | none =>
      intro a ha
      rw [BatchPayload.addresses, hNone, List.append_nil] at ha
      rcases List.mem_append.mp ha with ha | ha
      · exact hs.2.1 a ha
      · exact (hs.2.2 a ha).resolve_right List.not_mem_nil

theorem triple_ingestBatch (env : Env) {p : BatchPayload}
    (hVaults : p.source = .coldcardSweepWatch → p.downstream = []) :
    Triple (Safe digest lists s₀) (ingestBatch env p)
      (fun left s => Safe digest lists s₀ s ∧ Left s p left) fun _ => Safe digest lists s₀ := by
  unfold ingestBatch
  split
  · next hSource => exact triple_ingestColdcardWatchBatch env hSource
  · next hSource => exact triple_ingestColdcardSweepWatchBatch env (hVaults hSource)

end Loops

/-! ## The end of a batch job -/

/-- The queue takes a batch: the latch is clear and the depth below the limit. -/
def HasRoom (env : Env) (s : SyncStore) : Prop :=
  s.db.latched = false ∧ s.db.depth < env.store.maxQueueDepth

/-- The address is covered without the batch job. -/
def CoveredApart (id : Nat) (s : SyncStore) (a : Address) : Prop :=
  Stored s a ∨ ∃ id' p, id' ≠ id ∧ ActiveBatch s id' p ∧ a ∈ p.addresses

/-- The batch job may end: every address of its payload is covered without it. -/
def Settled (digest : List Address → String) (lists : Set SourceList) (id : Nat) (p : BatchPayload)
    (s : SyncStore) : Prop :=
  Synced digest lists s ∧ s.payloads id = some p ∧ ∀ a ∈ p.addresses, CoveredApart id s a

section Finish

variable {id : Nat} {p : BatchPayload}

theorem Settled.of_left {s : SyncStore} (hSynced : Synced digest lists s) (hPayload : s.payloads id = some p)
    (hLeft : Left s p none) : Settled digest lists id p s :=
  ⟨hSynced, hPayload, fun a ha => Or.inl (hLeft a ha)⟩

/-- What is left of a batch is in the queue. -/
theorem Settled.of_placed {s s' : SyncStore} {q : BatchPayload} (hSynced : Synced digest lists s)
    (hPayload : s.payloads id = some p) (hLeft : Left s p (some q)) (hKept : Kept s s')
    (hSync : s'.sync = s.sync) (hPlaced : Placed q s s') : Settled digest lists id p s' := by
  obtain ⟨hAddresses, hSource, hHash, hFinalize, hDownstream⟩ := hLeft
  have hNew : s.db.jobs.nextId ≠ id := fun h => absurd (s.fresh id p hPayload) (by omega)
  refine ⟨hPlaced.synced hSynced hKept hSync (fun hSweep => ?_) fun hFinal => ?_,
    hKept.payloads id p hPayload, fun a ha => ?_⟩
  · rw [hDownstream hSweep]
    exact hSynced.vaults id p hPayload (hSource.symm.trans hSweep)
  · rw [hSource, hHash]
    exact (hSynced.finalize id p hPayload (hFinalize.symm.trans hFinal)).mono hKept
  · rcases hAddresses a ha with h | h
    · exact Or.inl (hKept.stored a h)
    · exact Or.inr ⟨_, q, hNew, hPlaced.batch, h⟩

theorem triple_finishBatch (env : Env) {left : Option BatchPayload} {s₀ : SyncStore}
    (hSynced : Synced digest lists s₀) (hPayload : s₀.payloads id = some p) (hLeft : Left s₀ p left)
    (hRoom : left.isSome → HasRoom env s₀) :
    Triple (fun s => s = s₀) (finishBatch env p left) (fun _ => Settled digest lists id p)
      fun _ => Synced digest lists := by
  cases left with
  | none =>
    refine triple_when (fun hFinal => ?_) fun _ s hs => hs ▸ .of_left hSynced hPayload hLeft
    refine triple_run (fun s hs => ?_) fun s hs _ => hs ▸ hSynced
    subst hs
    exact .of_left (hSynced.exec_sourceSync (hSynced.finalize id p hPayload hFinal) _) hPayload hLeft
  | some q =>
    refine ((triple_enqueueBatchJob env q s₀).conseq (fun _ h => h) ?_ ?_).bind fun _ =>
      triple_pure () fun _ hs => hs
    · rintro _ s ⟨⟨hKept, hSync⟩, hPlaced | ⟨_, _, hRefused⟩⟩
      · exact .of_placed hSynced hPayload hLeft hKept hSync hPlaced
      · exact absurd (hRoom rfl) hRefused
    · rintro e s ⟨⟨hKept, hSync⟩, hPlaced | hPayloads⟩
      · exact (Settled.of_placed hSynced hPayload hLeft hKept hSync hPlaced).1
      · exact synced_of_sameBatches hSynced hKept hSync hPayloads

/-! ## The completion -/

theorem activeJob_complete {db : Db} {id' t : Nat} (hId : id' ≠ id) (h : ActiveJob db id') :
    ActiveJob (exec (Stmt.job (.complete id t)) db) id' := by
  obtain ⟨row, hRow, hActive⟩ := h
  refine ⟨row, ?_, hActive⟩
  show (db.jobs.update id _).lookup id' = some row
  rw [lookup_update, if_neg hId, hRow]

theorem CoveredApart.complete {s : SyncStore} {a : Address} {t : Nat} (h : CoveredApart id s a) :
    CoveredApart id (exec (SyncStmt.store (.job (.complete id t)) none) s) a := by
  rcases h with h | ⟨id', q, hId, hBatch, ha⟩
  · exact Or.inl h
  · refine Or.inr ⟨id', q, hId, ⟨?_, activeJob_complete hId hBatch.2⟩, ha⟩
    exact (payloads_exec _ none s (s.fresh id' q hBatch.1)).trans hBatch.1

theorem CoveredApart.covered {s : SyncStore} {a : Address} (h : CoveredApart id s a) : Covered s a :=
  h.imp_right fun ⟨id', q, _, hBatch, ha⟩ => ⟨id', q, hBatch, ha⟩

theorem Settled.apart {s : SyncStore} (h : Settled digest lists id p s) {a : Address} (ha : Covered s a) :
    CoveredApart id s a := by
  rcases ha with ha | ⟨id', q, hBatch, ha⟩
  · exact Or.inl ha
  · by_cases hId : id' = id
    · subst hId
      have hSame : q = p := Option.some.inj (hBatch.1.symm.trans h.2.1)
      exact h.2.2 a (hSame ▸ ha)
    · exact Or.inr ⟨id', q, hId, hBatch, ha⟩

theorem Settled.complete {s : SyncStore} (h : Settled digest lists id p s) (t : Nat) :
    Settled digest lists id p (exec (SyncStmt.store (.job (.complete id t)) none) s) := by
  have hCovers : ∀ source hash, CoversHash digest lists source hash s →
      CoversHash digest lists source hash (exec (SyncStmt.store (.job (.complete id t)) none) s) :=
    fun source hash hCovers l hl hSource hHash a ha =>
      (h.apart (hCovers l hl hSource hHash a ha)).complete.covered
  refine ⟨⟨fun id' q hq hFinal => ?_, fun source hash hRecorded => ?_, fun id' q hq => ?_⟩, ?_,
    fun a ha => (h.2.2 a ha).complete⟩
  · exact hCovers _ _ (h.1.finalize id' q (payload_exec_none hq) hFinal)
  · exact hCovers _ _ (h.1.recorded source hash hRecorded)
  · exact h.1.vaults id' q (payload_exec_none hq)
  · exact (payloads_exec _ none s (s.fresh id p h.2.1)).trans h.2.1

theorem Settled.exec_store {s : SyncStore} (h : Settled digest lists id p s) {i : Stmt} (hi : Keeps i) :
    Settled digest lists id p (exec (SyncStmt.store i none) s) := by
  have hKept := kept_exec hi none s
  refine ⟨h.1.exec_store hi, hKept.payloads id p h.2.1, fun a ha => ?_⟩
  rcases h.2.2 a ha with hStored | ⟨id', q, hId, hBatch, hIn⟩
  · exact Or.inl (hKept.stored a hStored)
  · exact Or.inr ⟨id', q, hId, hKept.batch hBatch, hIn⟩

theorem triple_completeBatchJob (id : Nat) (p : BatchPayload) :
    Triple (Settled digest lists id p) (onStore (completeJob id)) (fun _ => Settled digest lists id p)
      fun _ => Settled digest lists id p := by
  have hEmits : (completeJob id : StoreM Unit).Emits fun i => Keeps i ∨ ∃ t, i = .job (.complete id t) :=
    emits_completeJob (fun i hi => Or.inl (keeps_of_isCounter i (isCounter_of_isQueueCounter hi)))
      fun t => Or.inr ⟨t, rfl⟩
  refine triple_of_emits (emits_onStore hEmits) ?_
  rintro _ ⟨i, hi | ⟨t, rfl⟩, rfl⟩ s hs
  · exact hs.exec_store hi
  · exact hs.complete t

theorem synced_onStore {α : Type} {op : StoreM α} (h : op.Emits Keeps) :
    Triple (Synced digest lists) (onStore op) (fun _ => Synced digest lists)
      fun _ => Synced digest lists :=
  triple_of_state fun s hs =>
    (triple_onStore h : Triple (Safe digest lists s) _ _ _).conseq
      (fun s' hs' => by subst hs'; exact ⟨hs, .refl s'⟩) (fun _ _ h => h.1) fun _ _ h => h.1

theorem keeps_afterCompletion (env : Env) (inputs : JobInputs) :
    (JobRun.afterCompletion env inputs).Emits Keeps :=
  Emits.bind ((emits_query _).bind fun _ => emits_when fun _ => emits_run trivial) fun _ =>
    (emits_query _).bind fun _ => emits_when fun _ => emits_query _

theorem triple_finishBatchJob (env : Env) (inputs : JobInputs) {left : Option BatchPayload}
    {s₀ : SyncStore} (hSynced : Synced digest lists s₀) (hPayload : s₀.payloads id = some p)
    (hLeft : Left s₀ p left) (hRoom : left.isSome → HasRoom env s₀) :
    Triple (fun s => s = s₀) (finishBatchJob env inputs id p left) (fun _ => Synced digest lists)
      fun _ => Synced digest lists := by
  refine (triple_finishBatch env hSynced hPayload hLeft hRoom).bind fun _ => ?_
  refine ((triple_completeBatchJob id p).conseq (fun _ h => h) (fun _ _ h => h.1) fun _ _ h => h.1).bind
    fun _ => synced_onStore (keeps_afterCompletion env inputs)

end Finish

/-! ## The run of a batch job -/

/-- The run of a batch job up to the end of its loops: what the batch leaves. -/
def leftOfBatchJob (env : Env) (id : Nat) : SyncM (Option BatchPayload) := do
  let claimed ← claimBatchJob id
  match claimed with
  | some (_, payload) => ingestBatch env payload
  | none => pure none

/-- Where the batch leaves something, the queue takes it. -/
def AdmitsLeft (env : Env) (id : Nat) (s : SyncStore) (c : Ctl Mem Err) : Prop :=
  ∀ rest, (leftOfBatchJob env id s c).res = .ok (some rest) → HasRoom env ((leftOfBatchJob env id).final s c)

theorem triple_claimBatchJob (id : Nat) :
    Triple (Synced digest lists) (claimBatchJob id) (fun claimed s => Synced digest lists s ∧
      ∀ row p, claimed = some (row, p) → s.payloads id = some p) fun _ => Synced digest lists := by
  refine (synced_onStore (emits_mem _)).bind fun nowMs => (synced_onStore (emits_markJobRunning
    (fun i hi => keeps_of_isCounter i (isCounter_of_isQueueCounter hi)) trivial)).bind fun claimed => ?_
  refine Triple.bind (Q := fun payload s => Synced digest lists s ∧ payload = s.payloads id)
    (triple_query (fun s hs => ⟨hs, rfl⟩) fun s hs _ => hs) fun payload => triple_pure _ ?_
  rintro s ⟨hSynced, hPayload⟩
  refine ⟨hSynced, fun row p h => ?_⟩
  cases claimed with
  | none => cases h
  | some row' =>
    obtain ⟨q, hq, hEq⟩ := Option.map_eq_some_iff.mp h
    cases hEq
    exact hPayload.symm.trans hq

theorem AdmitsLeft.ingested {id : Nat} {s : SyncStore} {c : Ctl Mem Err} (h : AdmitsLeft env id s c)
    {row : JobRow} {p : BatchPayload} (hClaimed : (claimBatchJob id s c).res = .ok (some (row, p)))
    {rest : BatchPayload} (hLeft : (ingestBatch env p ((claimBatchJob id).final s c)
      (claimBatchJob id s c).ctl).res = .ok (some rest)) :
    HasRoom env ((ingestBatch env p).final ((claimBatchJob id).final s c) (claimBatchJob id s c).ctl) := by
  have hRest := h rest
  unfold leftOfBatchJob Op.final at hRest
  rw [bind_of_ok hClaimed] at hRest
  dsimp only at hRest
  rw [replay_append] at hRest
  exact hRest hLeft

/-- A run of a batch job keeps what the recorded hashes promise, wherever it stops. -/
theorem synced_processBatchJob (inputs : JobInputs) {id : Nat} {s : SyncStore} {c : Ctl Mem Err}
    (hSynced : Synced digest lists s) (hAdmits : AdmitsLeft env id s c) :
    Synced digest lists ((processBatchJob env inputs id).final s c) := by
  refine Ends.final (P := Synced digest lists)
    (((triple_claimBatchJob id).ends hSynced).bind fun claimed hClaimed hMid => ?_)
  match claimed with
  | none => exact (triple_pure () fun _ h => h).ends hMid.1
  | some (row, p) =>
    have hPayload := hMid.2 row p rfl
    have hIngest := ((triple_ingestBatch env (hMid.1.vaults id p hPayload)).conseq (fun _ h => h)
      (fun _ _ h => h) fun _ _ h => h.1).ends (c := (claimBatchJob id s c).ctl)
        ⟨hMid.1, .refl ((claimBatchJob id).final s c)⟩
    refine (hIngest.bind fun left hRes hLeft => ?_).tryCatch fun e =>
      synced_onStore (emits_onJobError keeps_of_isCounter (fun _ _ => trivial) _ _ _ e)
    refine (triple_finishBatchJob env inputs hLeft.1.1 (hLeft.1.2.payloads id p hPayload) hLeft.2
      fun hSome => ?_).ends rfl
    obtain ⟨rest, rfl⟩ := Option.isSome_iff_exists.mp hSome
    exact hAdmits.ingested hClaimed hRes

/-! ## Runs -/

/-- What may happen: the synchronisation of a fetched list, the run of a batch job whose rest the queue
takes, and anything else that keeps the rows of addresses and the active batch jobs. -/
inductive SyncStep (env : Env) (digest : List Address → String) (lists : Set SourceList) :
    SyncStore → SyncStore → Prop
  | sync {s : SyncStore} (c : Ctl Mem Err) {l : SourceList} (hl : l ∈ lists) {perJob : Nat}
      (hPerJob : 0 < perJob) (othersUnchanged : Bool) :
      SyncStep env digest lists s ((syncSourceList env digest perJob l othersUnchanged).final s c)
  | process {s : SyncStore} (c : Ctl Mem Err) (inputs : JobInputs) {id : Nat}
      (hAdmits : AdmitsLeft env id s c) :
      SyncStep env digest lists s ((processBatchJob env inputs id).final s c)
  | elsewhere {s s' : SyncStore} (hKept : Kept s s') (hPayloads : s'.payloads = s.payloads)
      (hSync : s'.sync = s.sync) : SyncStep env digest lists s s'

theorem SyncStep.synced (hDigest : Set.InjOn digest (SourceList.sorted '' lists)) {s s' : SyncStore}
    (h : SyncStep env digest lists s s') (hSynced : Synced digest lists s) : Synced digest lists s' := by
  cases h with
  | sync c hl hPerJob othersUnchanged =>
    exact Ends.final (P := Synced digest lists)
      ((triple_syncSourceList hPerJob hDigest hl othersUnchanged).ends hSynced)
  | process c inputs hAdmits => exact synced_processBatchJob inputs hSynced hAdmits
  | elsewhere hKept hPayloads hSync => exact synced_of_sameBatches hSynced hKept hSync hPayloads

/-- In a run from a store without batch jobs and recorded hashes, a list whose hash is recorded is
covered. -/
theorem covered_of_run (hDigest : Set.InjOn digest (SourceList.sorted '' lists)) {s s' : SyncStore}
    (hNoBatch : ∀ id, s.payloads id = none) (hNoHash : ∀ source, (s.sync source).lastContentHash = none)
    (hRun : Relation.ReflTransGen (SyncStep env digest lists) s s') {l : SourceList} (hl : l ∈ lists)
    (hRecorded : (s'.sync l.source).lastContentHash = some (l.contentHash digest)) :
    ∀ a ∈ l.addresses, Covered s' a := by
  have hSynced : Synced digest lists s' := by
    clear hRecorded
    induction hRun with
    | refl =>
      refine ⟨fun id p hp => ?_, fun source hash h => ?_, fun id p hp => ?_⟩
      · cases (hNoBatch id).symm.trans hp
      · cases (hNoHash source).symm.trans h
      · cases (hNoBatch id).symm.trans hp
    | tail _ step ih => exact step.synced hDigest ih
  exact hSynced.recorded l.source _ hRecorded l hl rfl rfl

/-! ### Two lists -/

def sourceEnv : Env where
  provider := .ofTxs []
  store := { maxQueueDepth := 2, queueSchedulingResumeDepth := 0, maxPendingExpandPerAddress := 0 }

def emptyStore : SyncStore where
  db := .initial
  payloads _ := none
  sync _ := {}
  fresh _ _ h := nomatch h

def batchInputs : JobInputs where
  calls := ⟨.ofTxs [], .ofTxs [], .ofTxs [], .ofTxs []⟩

def afterSync (digest : List Address → String) (perJob : Nat) (l : SourceList) : SyncStore :=
  (syncSourceList sourceEnv digest perJob l false).final emptyStore ⟨{}, []⟩

def afterBatch (id : Nat) (subrequests : List Bool) (s : SyncStore) : SyncStore :=
  (processBatchJob sourceEnv batchInputs id).final s ⟨{ subrequests }, []⟩

def watchedCollector : SourceList where
  source := .coldcardwatch
  collectors := [name "a"]
  victims := []

/-- The hash of the text of `watchedCollector`. -/
def collectorHash (_ : List Address) : String :=
  "ca978112ca1bbdcafac231b39a23dc4da786eff8147c4e72b9807785afee48bb"

theorem covered_watchedCollector :
    Covered (afterBatch 1 [] (afterSync collectorHash 1 watchedCollector)) (name "a") := by
  have hLeft : ((leftOfBatchJob sourceEnv 1 (afterSync collectorHash 1 watchedCollector)
      ⟨{}, []⟩).res.toOption.map id) = some none := by decide +kernel
  have hDigest : Set.InjOn collectorHash (SourceList.sorted '' {watchedCollector}) := by
    rintro _ ⟨l, rfl, rfl⟩ _ ⟨l', rfl, rfl⟩ _
    rfl
  have hSync : SyncStep sourceEnv collectorHash {watchedCollector} emptyStore
      (afterSync collectorHash 1 watchedCollector) :=
    .sync ⟨{}, []⟩ (Set.mem_singleton watchedCollector) Nat.one_pos false
  have hBatch : SyncStep sourceEnv collectorHash {watchedCollector}
      (afterSync collectorHash 1 watchedCollector)
      (afterBatch 1 [] (afterSync collectorHash 1 watchedCollector)) := by
    refine .process ⟨{}, []⟩ batchInputs fun rest hRest => ?_
    obtain ⟨_, hOk, rfl⟩ := exists_ok hLeft
    cases hOk.symm.trans hRest
  exact covered_of_run hDigest (fun _ => rfl) (fun _ => rfl)
    ((Relation.ReflTransGen.single hSync).tail hBatch) rfl (by decide +kernel) (name "a") (by decide)

def watchedCollectors : SourceList where
  source := .coldcardwatch
  collectors := [name "a", name "b", name "c"]
  victims := []

/-- The hash of the text of `watchedCollectors`. -/
def collectorsHash (_ : List Address) : String :=
  "ea7fb08b7a2dc4619ffb7c7bb38d95a2047935fa165d71b12efd3852a2e6d0cc"

/-- Of the batches of `a`, `b` and of `c`, the first one stops after `a`, whose backfill fills the
queue, so that `b` is refused; the second one records the hash. -/
def afterRefusal : SyncStore :=
  afterBatch 2 [] (afterBatch 1 [true, false] (afterSync collectorsHash 2 watchedCollectors))

theorem lostAddress :
    (afterRefusal.sync watchedCollectors.source).lastContentHash =
      some (watchedCollectors.contentHash collectorsHash) ∧
    name "b" ∈ watchedCollectors.addresses ∧ ¬ Covered afterRefusal (name "b") := by
  refine ⟨by decide +kernel, by decide, ?_⟩
  have hBatches : ∀ id < afterRefusal.db.jobs.nextId,
      (afterRefusal.db.jobs.lookup id).any (·.active) = true → afterRefusal.payloads id = none := by
    decide +kernel
  rintro (hStored | ⟨id, p, ⟨hPayload, row, hRow, hActive⟩, _⟩)
  · have hMissing : (afterRefusal.db.addresses.lookup (name "b")).isSome = false := by decide +kernel
    exact absurd hStored (Bool.eq_false_iff.mp hMissing)
  · have hNone := hBatches id (afterRefusal.fresh id p hPayload) (by rw [hRow]; exact hActive)
    cases hNone.symm.trans hPayload

end Bloodhound.Sources
