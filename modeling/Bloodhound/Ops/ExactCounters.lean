import Bloodhound.Ops.AddressOps
import Bloodhound.Store.AddressCounters

/-!
# Exact counters over runs

Operations on addresses keep the counters of addresses exact (`addressExact_of_run`), apart from the
deletion of a row that a counter counts and the recalculation of a total that changes whether a
hacker is active: these adjust no counter.
-/

namespace Bloodhound.Ops

open Indexer Store Journal Journal.Op

/-! ## Statements beside the addresses -/

theorem apart_of_isQueueCounter (i : Stmt) (hi : i.isQueueCounter) : ApartFromAddresses i := by
  intro db
  cases i with
  | scheduler s =>
    cases s with
    | adjust c d =>
      refine ⟨rfl, rfl, fun c' hc' => if_neg ?_⟩
      rintro rfl
      cases c' <;> simp [Counter.isAddress, Stmt.isQueueCounter, Counter.isQueue] at hc' hi
    | setLastCompletedJob | markJobDirty => exact ⟨rfl, rfl, fun _ _ => rfl⟩
    | _ => cases hi
  | _ => cases hi

theorem apart_job (s : JobStmt) : ApartFromAddresses (.job s) := fun _ => ⟨rfl, rfl, fun _ _ => rfl⟩

theorem apart_enqueueSourceBackfill (env : Env) (address : Address) :
    (enqueueSourceBackfill env address).Emits ApartFromAddresses :=
  (emits_enqueueJobIfAbsent apart_of_isQueueCounter (fun _ => ⟨rfl, rfl, fun _ _ => rfl⟩) env
    (fun _ _ _ _ => apart_job _) none _).bind fun _ => emits_pure ()

theorem addressExact_exec {db : Db} (h : AddressExact db) {i : Stmt} (hi : ApartFromAddresses i) :
    AddressExact (exec i db) := by
  obtain ⟨hTable, hDepth, hCounters⟩ := hi db
  intro c hc
  rw [hCounters c hc, h c hc, addressCount, addressCount, hTable, hDepth]

theorem triple_exactApart {α : Type} {p : StoreM α} (h : p.Emits ApartFromAddresses) :
    Triple AddressExact p (fun _ => AddressExact) fun _ _ => True :=
  (triple_of_emits h fun _ hi _ hs => addressExact_exec hs hi).conseq (fun _ h => h)
    (fun _ _ h => h) fun _ _ _ => trivial

/-! ## Sources -/

theorem triple_ingestSourceHackerIfMissing_exact (env : Env) (address : Address) (hackId : HackId) :
    Triple AddressExact (ingestSourceHackerIfMissing env address hackId) (fun _ => AddressExact)
      fun _ _ => True := by
  refine (triple_insertAddressIfMissing_exact _).bind fun inserted => ?_
  split
  · exact (triple_exactApart (apart_enqueueSourceBackfill env address)).bind fun _ =>
      triple_pure true fun _ hs => hs
  · exact triple_pure false fun _ hs => hs

theorem triple_ingestSourceHacker_exact (env : Env) (address : Address) (hackId : HackId) :
    Triple AddressExact (ingestSourceHacker env address hackId) (fun _ => AddressExact)
      fun _ _ => True := by
  refine (triple_insertAddressIfMissing_exact _).bind fun inserted => ?_
  split
  · exact (triple_exactApart (apart_enqueueSourceBackfill env address)).bind fun _ =>
      triple_pure true fun _ hs => hs
  refine (triple_exactApart (emits_query _)).bind fun existing => ?_
  split
  · exact triple_pure false fun _ hs => hs
  · exact (triple_upsertAddress_exact _).bind fun _ =>
      (triple_exactApart (apart_enqueueSourceBackfill env address)).bind fun _ =>
        triple_pure true fun _ hs => hs

theorem triple_addHacker_exact (env : Env) (address : Address) (hackId : HackId) :
    Triple AddressExact (addHacker env address hackId) (fun _ => AddressExact) fun _ _ => True :=
  (triple_upsertAddress_exact _).bind fun _ =>
    (triple_exactApart (emits_enqueueJobIfAbsent apart_of_isQueueCounter
      (fun _ => ⟨rfl, rfl, fun _ _ => rfl⟩) env (fun _ _ _ _ => apart_job _) none _)).bind fun _ =>
      triple_pure _ fun _ hs => hs

/-! ## Deletions -/

/-- No counter counts the row. -/
def Uncounted (db : Db) (row : AddressRow) : Prop :=
  ∀ c, c.isAddress → row.counts db.scheduler.downstreamTreeMaxDepth c = false

/-- The rows of the later state are those of the earlier one, but for their inbound totals. -/
structure Thinned (db s : Db) : Prop where
  depth : s.scheduler.downstreamTreeMaxDepth = db.scheduler.downstreamTreeMaxDepth
  counters : ∀ c : Counter, c.isAddress → s.scheduler.counter c = db.scheduler.counter c
  rows : ∀ a row, s.addresses.lookup a = some row → ∃ row', db.addresses.lookup a = some row' ∧
    ∀ maxDepth c, row.counts maxDepth c = row'.counts maxDepth c

theorem Thinned.refl (db : Db) : Thinned db db :=
  ⟨rfl, fun _ _ => rfl, fun _ row hRow => ⟨row, hRow, fun _ _ => rfl⟩⟩

theorem Thinned.exec {db s : Db} (h : Thinned db s) {i : Stmt} (hi : PruneStmt i) :
    Thinned db (exec i s) := by
  cases i with
  | edge => exact ⟨h.depth, h.counters, h.rows⟩
  | deleteSyncState => exact ⟨h.depth, h.counters, h.rows⟩
  | address stmt =>
    refine ⟨h.depth, h.counters, fun a row hRow => ?_⟩
    cases stmt with
    | delete b =>
      change (s.addresses.erase b).lookup a = some row at hRow
      refine h.rows a row ?_
      by_cases hEq : a = b
      · rw [hEq, AList.lookup_erase] at hRow
        cases hRow
      · rwa [AList.lookup_erase_ne hEq] at hRow
    | setInboundSats b total =>
      change (Table.modify b _ s.addresses).lookup a = some row at hRow
      rw [Table.lookup_modify] at hRow
      split at hRow
      · obtain ⟨row₁, hRow₁, rfl⟩ := Option.map_eq_some_iff.mp hRow
        obtain ⟨row', hRow', hCounts⟩ := h.rows a row₁ hRow₁
        refine ⟨row', hRow', fun maxDepth c => ?_⟩
        rw [← hCounts maxDepth c]
        cases c <;> rfl
      · exact h.rows a row hRow
    | _ => cases hi
  | _ => cases hi

/-- The deleted rows are counted nowhere. -/
theorem Thinned.exact {db s : Db} (h : Thinned db s) (hExact : AddressExact db)
    (hGone : ∀ a row, db.addresses.lookup a = some row → s.addresses.lookup a = none →
      Uncounted db row) : AddressExact s := by
  refine fun c hc => ?_
  have hTotal : addressTotal db.scheduler.downstreamTreeMaxDepth c s.addresses =
      addressTotal db.scheduler.downstreamTreeMaxDepth c db.addresses := by
    refine addressTotal_congr fun a => ?_
    cases hRow : s.addresses.lookup a with
    | some row =>
      obtain ⟨row', hRow', hCounts⟩ := h.rows a row hRow
      rw [hRow', addressShare_eq, addressShare_eq, Option.any_some, Option.any_some, hCounts]
    | none =>
      cases hOld : db.addresses.lookup a with
      | none => rfl
      | some row =>
        rw [addressShare_eq, addressShare_eq, Option.any_some, hGone a row hOld hRow c hc]
        rfl
  rw [h.counters c hc, hExact c hc, ← addressTotal_eq, ← addressTotal_eq, h.depth]
  exact hTotal.symm

theorem triple_deleteAddress_exact (address : Address) :
    Triple (fun db => AddressExact db ∧
        ∀ row, db.addresses.lookup address = some row → Uncounted db row)
      (deleteAddress address) (fun _ => AddressExact) fun _ _ => True := by
  refine Triple.bind (Q := fun _ db => AddressExact db ∧
      ∀ row, db.addresses.lookup address = some row → Uncounted db row)
    (triple_run (fun db h => ⟨addressExact_exec h.1 fun _ => ⟨rfl, rfl, fun _ _ => rfl⟩, h.2⟩)
      fun _ _ _ => trivial) fun _ => triple_of_state fun db h => ?_
  have hErased : ((AddressStmt.delete address).exec db.addresses).lookup address = none :=
    AList.lookup_erase address db.addresses
  refine (triple_writeRow h.1 address (i := .delete address) fun b hb =>
    AList.lookup_erase_ne hb).post fun _ s hs => hs.exact fun c hc => ?_
  rw [hErased, shareChange, addressShare_eq, addressShare_eq]
  cases hRow : db.addresses.lookup address with
  | none => rfl
  | some row =>
    rw [Option.any_some, h.2 row hRow c hc]
    rfl

section Removal

variable {hacker : Address} {db : Db}

/-- The depth and the rows of the other addresses stay. -/
structure OthersKept (hacker : Address) (db s : Db) : Prop where
  depth : s.scheduler.downstreamTreeMaxDepth = db.scheduler.downstreamTreeMaxDepth
  rows : ∀ a, a ≠ hacker → s.addresses.lookup a = db.addresses.lookup a

theorem OthersKept.exec_counter {s : Db} (h : OthersKept hacker db s) {i : Stmt} (hi : i.isCounter) :
    OthersKept hacker db (exec i s) := by
  cases i with
  | scheduler stmt =>
    refine ⟨?_, h.rows⟩
    rw [← h.depth]
    cases stmt <;> rfl
  | hackStats | insertHackVictim => exact ⟨h.depth, h.rows⟩
  | _ => cases hi

theorem triple_unflag_exact (hExact : AddressExact db) :
    Triple (fun s => s = db) (upsertAddress { address := hacker, isFlaggedHacker := some false })
      (fun _ s => AddressExact s ∧ OthersKept hacker db s) fun _ _ => True := by
  have hKeeps : Triple (OthersKept hacker db)
      (upsertAddress { address := hacker, isFlaggedHacker := some false })
      (fun _ => OthersKept hacker db) fun _ _ => True := by
    refine (triple_of_emits (S := fun i => ∀ s, OthersKept hacker db s → OthersKept hacker db (exec i s))
      (emits_upsertAddress (fun i hi s hs => hs.exec_counter hi) fun s hs => ⟨hs.depth, fun a ha => ?_⟩)
      fun i hi s hs => hi s hs).conseq (fun _ h => h) (fun _ _ h => h) fun _ _ _ => trivial
    exact (lookup_upsert_ne ha).trans (hs.rows a ha)
  refine ((triple_upsertAddress_exact _).and hKeeps).conseq ?_ (fun _ _ h => h) fun _ _ _ => trivial
  rintro s rfl
  exact ⟨hExact, rfl, fun _ _ => rfl⟩

theorem triple_cancelJobs_exact :
    Triple (fun s => AddressExact s ∧ OthersKept hacker db s) (deleteActiveJobsForAddress hacker : StoreM Unit)
      (fun _ s => AddressExact s ∧ OthersKept hacker db s) fun _ _ => True := by
  have hEmits : (deleteActiveJobsForAddress hacker : StoreM Unit).Emits ApartFromAddresses :=
    emits_deleteActiveJobsForAddress apart_of_isQueueCounter (apart_job _)
  refine (triple_of_emits hEmits fun i hi s hs => ?_).conseq (fun _ h => h) (fun _ _ h => h)
    fun _ _ _ => trivial
  obtain ⟨hTable, hDepth, _⟩ := hi s
  refine ⟨addressExact_exec hs.1 hi, hDepth.trans hs.2.depth, fun a ha => ?_⟩
  rw [hTable, hs.2.rows a ha]

/-- The removal unflags the hacker, and deletes rows after that. -/
theorem triple_removeFlagged_thinned (hExact : AddressExact db) :
    Triple (fun s => s = db) (removeFlagged hacker true)
      (fun _ s => ∃ db₁, AddressExact db₁ ∧ OthersKept hacker db db₁ ∧ Thinned db₁ s)
      fun _ _ => True := by
  have hReads : Triple (fun s => s = db) (listVictimAddressesForHacker hacker) (fun _ s => s = db)
      fun _ _ => True := triple_query (fun s hs => hs) fun _ _ _ => trivial
  have hCollect : Triple (fun s => s = db) (collectDownstreamAddresses hacker) (fun _ s => s = db)
      fun _ _ => True :=
    (triple_of_emits (S := fun _ => False) (emits_collectDownstreamAddresses hacker)
      fun _ hi => hi.elim).conseq (fun _ h => h) (fun _ _ h => h) fun _ _ _ => trivial
  refine hReads.bind fun victims => hCollect.bind fun downstream => (triple_unflag_exact hExact).bind
    fun _ => triple_cancelJobs_exact.bind fun _ => triple_of_state fun db₁ h₁ => ?_
  refine (triple_of_emits (S := PruneStmt) ?_ fun i hi s (hs : Thinned db₁ s) => hs.exec hi).conseq ?_
    (fun _ s hs => ⟨db₁, h₁.1, h₁.2, hs⟩) fun _ _ _ => trivial
  · exact (prunes_deleteEdges hacker).bind fun _ => (prunes_pruneVictims _ _ _).bind
      fun _ => (prunes_pruneDownstream _ _ _ _).bind fun _ => emits_pure _
  · rintro s rfl
    exact Thinned.refl s

/-- A removal that prunes keeps the counters exact where no exclusive address is counted. -/
theorem triple_removeFlagged_exact (hExact : AddressExact db) (hFlagged : flag db hacker = some true)
    (hUncounted : ∀ a row, Exclusive db hacker a → db.addresses.lookup a = some row → Uncounted db row) :
    Triple (fun s => s = db) (removeHacker hacker true) (fun _ => AddressExact) fun _ _ => True := by
  have hThinned : Triple (fun s => s = db) (removeHacker hacker true)
      (fun _ s => ∃ db₁, AddressExact db₁ ∧ OthersKept hacker db db₁ ∧ Thinned db₁ s)
      fun _ _ => True := by
    refine (triple_readRow hacker db).bind fun existing => triple_of_fact fun hExisting => ?_
    rw [if_pos (by rw [hExisting]; exact (isFlagged_iff db hacker).mpr hFlagged)]
    exact triple_removeFlagged_thinned hExact
  refine ((triple_removeHacker hFlagged).and hThinned).conseq (fun s hs => ⟨hs, hs⟩) ?_
    fun _ _ _ => trivial
  rintro _ s ⟨⟨pruned, hRemoved, hPruned⟩, db₁, hExact₁, hOthers, hThin⟩
  refine hThin.exact hExact₁ fun a row hRow hGone c hc => ?_
  have hFlag : flag s a = none := by rw [flag, hGone, Option.map_none]
  rw [hRemoved.flags] at hFlag
  rw [hOthers.depth]
  split at hFlag
  · next hMem =>
    have hExclusive := (hPruned a).mp hMem
    rw [hOthers.rows a hExclusive.flag.1] at hRow
    exact hUncounted a row hExclusive hRow c hc
  · split at hFlag
    · cases hFlag
    · next hNe =>
      rw [hOthers.rows a hNe] at hRow
      rw [flag, hRow] at hFlag
      cases hFlag

theorem triple_removeUnflagged {pruneExclusive : Bool} (hExact : AddressExact db)
    (hFlagged : flag db hacker ≠ some true) : Triple (fun s => s = db)
      (removeHacker hacker pruneExclusive) (fun _ => AddressExact) fun _ _ => True := by
  refine (triple_readRow hacker db).bind fun existing => triple_of_fact fun hExisting => ?_
  rw [if_neg fun h => hFlagged ((isFlagged_iff db hacker).mp (by rw [hExisting] at h; exact h))]
  exact triple_pure _ fun s hs => hs ▸ hExact

theorem triple_removeOnly_exact (hacker : Address) :
    Triple AddressExact (removeHacker hacker false) (fun _ => AddressExact) fun _ _ => True := by
  refine (triple_exactApart (emits_query _)).bind fun existing => ?_
  split
  · refine (triple_pure _ fun _ hs => hs).bind fun _ => (triple_pure _ fun _ hs => hs).bind fun _ =>
      (triple_upsertAddress_exact _).bind fun _ => (triple_exactApart ?_).bind fun _ =>
        triple_pure _ fun _ hs => hs
    exact emits_deleteActiveJobsForAddress apart_of_isQueueCounter (apart_job _)
  · exact triple_pure _ fun _ hs => hs

end Removal

/-! ## Runs -/

/-- The operation deletes no row that a counter counts, and recalculates no total such that a hacker
becomes active or inactive. -/
def AddressOp.Counted (db : Db) : AddressOp → Prop
  | .deleteAddress address => ∀ row, db.addresses.lookup address = some row → Uncounted db row
  | .recalcTotalReceived hacker => ∀ row, db.addresses.lookup hacker = some row →
    isHackerActive row.isFlaggedHacker (sumInToHacker db hacker) =
      isHackerActive row.isFlaggedHacker row.totalReceivedSats
  | .removeHacker hacker true => flag db hacker = some true → ∀ a row, Exclusive db hacker a →
    db.addresses.lookup a = some row → Uncounted db row
  | _ => True

theorem triple_addressOp_exact (env : Env) (op : AddressOp) :
    Triple (fun db => AddressExact db ∧ op.Counted db) (op.run env) (fun _ => AddressExact)
      fun _ _ => True := by
  have hDropped : ∀ {α : Type} {p : StoreM α} {P : Db → Prop},
      Triple P p (fun _ => AddressExact) (fun _ _ => True) →
      Triple P (do let _ ← p; pure ()) (fun _ => AddressExact) fun _ _ => True :=
    fun h => h.bind fun _ => triple_pure () fun _ hs => hs
  cases op with
  | upsertAddress data => exact (triple_upsertAddress_exact data).pre fun _ h => h.1
  | upsertAddressesBatch rows => exact (triple_upsertAddressesBatch_exact env rows).pre fun _ h => h.1
  | insertAddressIfMissing data =>
    exact hDropped ((triple_insertAddressIfMissing_exact data).pre fun _ h => h.1)
  | setExpandStatus address status =>
    exact (triple_setExpandStatus_exact address status).pre fun _ h => h.1
  | resetStuckExpandStatuses =>
    exact hDropped (triple_resetStuckExpandStatuses_exact.pre fun _ h => h.1)
  | recalcTotalReceived hacker => exact triple_recalcTotalReceived_exact hacker
  | deleteAddress address => exact triple_deleteAddress_exact address
  | ingestSourceHacker address hackId =>
    exact hDropped ((triple_ingestSourceHacker_exact env address hackId).pre fun _ h => h.1)
  | ingestSourceHackerIfMissing address hackId =>
    exact hDropped ((triple_ingestSourceHackerIfMissing_exact env address hackId).pre fun _ h => h.1)
  | addHacker address hackId =>
    exact hDropped ((triple_addHacker_exact env address hackId).pre fun _ h => h.1)
  | removeHacker hacker pruneExclusive =>
    refine hDropped (triple_of_state fun db h => ?_)
    by_cases hFlagged : flag db hacker = some true
    · cases pruneExclusive with
      | false => exact (triple_removeOnly_exact hacker).pre fun _ hs => hs ▸ h.1
      | true => exact triple_removeFlagged_exact h.1 hFlagged (h.2 hFlagged)
    · exact triple_removeUnflagged h.1 hFlagged

/-- The counters stay exact in every run whose operations return, delete no counted row and recalculate
no total across zero. -/
theorem addressExact_of_run {env : Env} {db db' : Db} (hExact : AddressExact db)
    (hRun : OpRun (AddressOp.run env) (fun op db _ => op.Counted db) db db') : AddressExact db' :=
  opRun_invariant (fun op _ _ hCounted hOk hs => (triple_addressOp_exact env op).ok ⟨hs, hCounted⟩ hOk)
    hRun hExact

/-! ### A deleted victim -/

def countedEnv : Env := { provider := .ofTxs [] }

def operatedOn (op : AddressOp) (db : Db) : Db := (op.run countedEnv).final db ⟨{}, []⟩

theorem opStep_operatedOn {guard : AddressOp → Db → Ctl Mem Err → Prop} {op : AddressOp} {db : Db}
    (hGuard : guard op db ⟨{}, []⟩)
    (hOk : (op.run countedEnv db ⟨{}, []⟩).res.toOption.map id = some ()) :
    OpStep (AddressOp.run countedEnv) guard db (operatedOn op db) := by
  obtain ⟨_, hRes, _⟩ := exists_ok hOk
  exact ⟨op, ⟨{}, []⟩, hGuard, hRes, rfl⟩

def victimAdded : AddressOp := .upsertAddress { address := name "v", role := some .victim }

theorem addressExact_initial : AddressExact .initial := by
  intro c _
  cases c <;> rfl

/-- The deletion of a victim leaves the count of victims at one. -/
theorem addressExact_deletedVictim : ¬ ∀ (env : Env) (db db' : Db), AddressExact db →
    OpRun (AddressOp.run env) (fun _ _ _ => True) db db' → AddressExact db' := by
  intro h
  have hRun : OpRun (AddressOp.run countedEnv) (fun _ _ _ => True) .initial
      (operatedOn (.deleteAddress (name "v")) (operatedOn victimAdded .initial)) :=
    (Relation.ReflTransGen.single (opStep_operatedOn trivial (by decide +kernel))).tail
      (opStep_operatedOn trivial (by decide +kernel))
  have hVictims := h _ _ _ addressExact_initial hRun .victim rfl
  revert hVictims
  decide +kernel

theorem addressExact_addedHacker :
    AddressExact (operatedOn (.addHacker (name "h") "coldcard") (operatedOn victimAdded .initial)) :=
  addressExact_of_run addressExact_initial
    ((Relation.ReflTransGen.single (opStep_operatedOn trivial (by decide +kernel))).tail
      (opStep_operatedOn trivial (by decide +kernel)))

end Bloodhound.Ops
