import Mathlib.Data.List.MinMax
import Bloodhound.Indexer.JobPick
import Bloodhound.Indexer.Worker
import Bloodhound.Store.QueueOrder

/-!
# The claims of a slot

`claimJobForSlot` of `processor.ts` with the queries of its claims. The first slot of a tick takes an old
maintenance job in some crons, else an ingest job or the next job of the queue; a later slot takes an
ingest job that needs no provider once a provider was called.

`triple_claimJobForSlot`: whatever the slot and its context, a claim takes a pending job whose time has
come, and leaves all else as it is; `claimJobForSlot_refines`: so the worker of `Indexer.Worker` may claim it.
-/

namespace Bloodhound.Indexer.Slots

open Store
open Journal (exec)
open Journal.Op (query Triple triple_pure triple_query triple_mem triple_step)
open Store.QueueOrder (ClaimAgeBoost OrderKey PendingJob claimKey orderKey jobWaitSec)

/-! ## The queries of the claims -/

def maintCosmeticJobTypes : List JobType :=
  [.pollHackerAddress, .pollDownstreamAddress, .syncColdcardwatch, .syncVercelTrackers,
    .syncBitqueryColdcard, .processTx, .refreshLiveBalance, .refreshBtcUsdPrice, .backfillOpReturn]

def toClaimAgeBoost (config : TickConfig) : ClaimAgeBoost where
  enabled := config.ageBoostEnabled
  intervalSec := config.ageBoostIntervalSec
  maxBoost := config.ageBoostMax
  eligibleTypes := maintCosmeticJobTypes

/-- The columns of a job that its place in the queue depends on. -/
def queued (j : JobEntry) : PendingJob :=
  ⟨j.1, j.2.job.type, j.2.priority, j.2.runAfter, j.2.createdAt⟩

/-- The runnable jobs with their rows. -/
def runnableEntries (db : Db) (ts : Nat) : List JobEntry :=
  (db.jobs.rows.entries.filter fun e => e.2.status = .pending && e.2.runAfter ≤ ts).map fun e => (e.1, e.2)

/-- The order of the claims is the lexicographic one. -/
instance : Preorder OrderKey := (Prod.Lex.instLinearOrder ℤ (ℕ ×ₗ ℕ)).toPartialOrder.toPreorder

def nextJob (config : TickConfig) (db : Db) (ts : Nat) : Option JobEntry :=
  (runnableEntries db ts).argmin fun j => claimKey (some (toClaimAgeBoost config)) ts (queued j)

/-- The jobs that a maintenance slice may take. -/
def agedEntries (minWaitSec : Nat) (excludeIds : List Nat) (db : Db) (ts : Nat) : List JobEntry :=
  (runnableEntries db ts).filter fun j => maintCosmeticJobTypes.contains j.2.job.type &&
    decide ((minWaitSec : Int) ≤ jobWaitSec ts (queued j)) && !excludeIds.contains j.1

def oldestAged (minWaitSec : Nat) (excludeIds : List Nat) (db : Db) (ts : Nat) : Option JobEntry :=
  (agedEntries minWaitSec excludeIds db ts).argmin fun j => j.2.createdAt

def ingestEntries (db : Db) (ts : Nat) : List JobEntry :=
  (runnableEntries db ts).filter fun j => isIngestJobType j.2.job.type

/-- The rows of `listPendingIngestCandidates` at a time. -/
def pendingIngestCandidates (limit : Nat) (db : Db) (ts : Nat) : List JobEntry :=
  ((ingestEntries db ts).insertionSort fun a b =>
    orderKey a.2.priority (queued a) ≤ orderKey b.2.priority (queued b)).take limit

def claimNextJob (config : TickConfig) : StoreM (Option JobEntry) :=
  claimSelected fun db ts => (nextJob config db ts).map (·.1)

def claimOldestMaintCosmeticJob (minWaitSec : Nat) (excludeIds : List Nat) : StoreM (Option JobEntry) :=
  if minWaitSec = 0 then pure none
  else claimSelected fun db ts => (oldestAged minWaitSec excludeIds db ts).map (·.1)

def claimIngestJobById (id : Nat) : StoreM (Option JobEntry) :=
  claimSelected fun db ts => ((ingestEntries db ts).find? fun j => decide (j.1 = id)).map (·.1)

def listPendingIngestCandidates (limit : Nat) : StoreM (List JobEntry) := do
  let ts ← now
  query fun db => pendingIngestCandidates limit db ts

/-! ## Slots -/

/-- `ClaimSlotResult`. -/
inductive ClaimSlotResult where
  | job (entry : JobEntry)
  | nothing
  | pairWait

def ClaimSlotResult.ofClaim : Option JobEntry → ClaimSlotResult
  | some entry => .job entry
  | none => .nothing

/-- The rows of `IngestCandidateCache`. -/
abbrev IngestCandidateCache : Type := Option (List JobEntry)

/-- What a slot knows of its tick; `remaining` is what the subrequest budget has left, none for no
limit. -/
structure SlotContext where
  chainSlotUsed : Bool
  pacingBlocked : Bool
  claimedIds : List Nat
  remaining : Option Nat
  candidateCache : IngestCandidateCache

def isPacingBlocked : StoreM Bool := do
  let state ← getSchedulerState
  match state.nextProviderCallAt with
  | none => pure false
  | some nextAt => do
    let nowMs ← now
    pure (decide (nowMs < nextAt))

/-- The candidates that are not claimed yet: those of the cache, or where none is left, of a new query. -/
def ingestCandidatesForPick (cache : IngestCandidateCache) (claimedIds : List Nat) :
    StoreM (List JobEntry × IngestCandidateCache) :=
  let unclaimed := List.filter fun j : JobEntry => !claimedIds.contains j.1
  let usable := unclaimed (cache.getD [])
  if usable ≠ [] then pure (usable, cache)
  else if cache.isSome ∧ claimedIds = [] then pure ([], cache)
  else do
    let rows ← listPendingIngestCandidates 32
    pure (unclaimed rows, some rows)

def claimNext (config : TickConfig) (cache : IngestCandidateCache) :
    StoreM (ClaimSlotResult × IngestCandidateCache) := do
  let job ← claimNextJob config
  pure (.ofClaim job, cache)

def claimPicked (pick : JobEntry) (cache : IngestCandidateCache) :
    StoreM (ClaimSlotResult × IngestCandidateCache) := do
  let job ← claimIngestJobById pick.1
  pure (.ofClaim job, cache)

section Slot

variable (config : TickConfig) (ctx : SlotContext)

/-- The options of a pick beside its preferences. -/
def pickOpts : PickIngestCandidateOpts where
  excludeIds := ctx.claimedIds
  maxEstimatedSubreq := estimateCap config ctx.remaining

/-- The claim of the first slot where no maintenance slice takes a job. -/
def claimFirst (pollSlice : Bool) : StoreM (ClaimSlotResult × IngestCandidateCache) :=
  if pollSlice then claimNext config ctx.candidateCache
  else do
    let (candidates, cache) ← ingestCandidatesForPick ctx.candidateCache ctx.claimedIds
    match pickIngestCandidate config.app { pickOpts config ctx with preferContinuation := true } candidates with
    | some pick => claimPicked pick cache
    | none => claimNext config cache

def maintSliceDue (state : SchedulerState) : Bool :=
  0 < config.maintSliceEveryNCrons && 0 < config.maintSliceMinWaitSec &&
    state.maintenanceCronCounter % config.maintSliceEveryNCrons = 0

/-- The claim of a maintenance slice, where one is due. -/
def claimAged (state : SchedulerState) : StoreM (Option JobEntry) :=
  if maintSliceDue config state then
    claimOldestMaintCosmeticJob config.maintSliceMinWaitSec ctx.claimedIds
  else pure none

def claimFirstSlot : StoreM (ClaimSlotResult × IngestCandidateCache) := do
  let state ← getSchedulerState
  let aged ← claimAged config ctx state
  match aged with
  | some job => pure (.job job, ctx.candidateCache)
  | none => claimFirst config ctx (0 < config.pollSliceEveryNCrons &&
      state.maintenanceCronCounter % config.pollSliceEveryNCrons = 0)

/-- A slot after which no provider may be called: it takes an ingest job that runs from its pages. -/
def claimPairSlot : StoreM (ClaimSlotResult × IngestCandidateCache) := do
  let (candidates, cache) ← ingestCandidatesForPick ctx.candidateCache ctx.claimedIds
  match pickIngestCandidate config.app
    { pickOpts config ctx with requireNoChainAtStart := true, preferProcessOnly := true } candidates with
  | some pick => claimPicked pick cache
  | none => pure (.pairWait, cache)

def claimFreeSlot : StoreM (ClaimSlotResult × IngestCandidateCache) := do
  let (candidates, cache) ← ingestCandidatesForPick ctx.candidateCache ctx.claimedIds
  match pickIngestCandidate config.app { pickOpts config ctx with preferProcessOnly := true } candidates with
  | some pick => claimPicked pick cache
  | none => claimNext config cache

def claimJobForSlot (slot : Nat) : StoreM (ClaimSlotResult × IngestCandidateCache) :=
  if slot = 0 then claimFirstSlot config ctx
  else if ctx.chainSlotUsed || ctx.pacingBlocked then claimPairSlot config ctx
  else claimFreeSlot config ctx

end Slot

/-! ## What a claim leaves -/

/-- The row of a claimed job. -/
def started (ts : Nat) (row : JobRow) : JobRow :=
  { row with status := .running, startedAt := some ts, completedAt := none }

/-- The state after a job was claimed. -/
def claimed (id ts : Nat) (db : Db) : Db :=
  exec (Stmt.scheduler (.adjust .pendingJob (-1))) (exec (Stmt.job (.claim id ts)) db)

theorem lookup_claimed {id ts : Nat} {db : Db} {row : JobRow} (hRow : db.jobs.lookup id = some row)
    (hPending : row.status = .pending) : (claimed id ts db).jobs.lookup id = some (started ts row) := by
  show (db.jobs.update id _).lookup id = _
  rw [lookup_update, if_pos rfl, hRow, Option.map_some, if_pos hPending]
  rfl

/-- The job of an id is pending, and its time has come. -/
structure Due (db : Db) (ts : Nat) (j : JobEntry) : Prop where
  row : db.jobs.lookup j.1 = some j.2
  pending : j.2.status = .pending
  due : j.2.runAfter ≤ ts

theorem mem_runnableEntries {db : Db} {ts : Nat} {j : JobEntry} : j ∈ runnableEntries db ts ↔ Due db ts j := by
  unfold runnableEntries
  constructor
  · intro hMem
    obtain ⟨e, he, rfl⟩ := List.mem_map.mp hMem
    obtain ⟨hEntry, hOpen⟩ := List.mem_filter.mp he
    rw [Bool.and_eq_true, decide_eq_true_eq, decide_eq_true_eq] at hOpen
    exact ⟨AList.mem_lookup_iff.mpr hEntry, hOpen.1, hOpen.2⟩
  · rintro ⟨hRow, hPending, hDue⟩
    refine List.mem_map.mpr ⟨⟨j.1, j.2⟩, List.mem_filter.mpr ⟨AList.mem_lookup_iff.mp hRow, ?_⟩, rfl⟩
    rw [Bool.and_eq_true, decide_eq_true_eq, decide_eq_true_eq]
    exact ⟨hPending, hDue⟩

theorem mem_runnable {db : Db} {ts : Nat} {j : JobEntry} (h : Due db ts j) : j.1 ∈ runnable db ts := by
  refine List.mem_map.mpr ⟨⟨j.1, j.2⟩, List.mem_filter.mpr ⟨AList.mem_lookup_iff.mp h.row, ?_⟩, rfl⟩
  rw [Bool.and_eq_true, decide_eq_true_eq, decide_eq_true_eq]
  exact ⟨h.pending, h.due⟩

/-- What the query of a claim selects, and what the claim leaves. -/
structure Taken (db : Db) (ts : Nat) (j : JobEntry) (r : Option JobEntry) (s : Db) : Prop where
  due : Due db ts j
  result : r = some (j.1, started ts j.2)
  state : s = claimed j.1 ts db

theorem triple_markJobRunning {db : Db} {ts : Nat} {j : JobEntry} (h : Due db ts j) :
    Triple (fun s => s = db) (markJobRunning j.1 ts : StoreM (Option JobRow))
      (fun r s => r = some (started ts j.2) ∧ s = claimed j.1 ts db) fun _ _ => True := by
  refine Triple.bind (Q := fun claims s => claims = true ∧ s = exec (Stmt.job (.claim j.1 ts)) db)
    (triple_step (fun s hs => ?_) fun _ _ _ => trivial) fun claims => ?_
  · subst hs
    refine ⟨?_, rfl⟩
    rw [h.row]
    simp [h.pending]
  · cases claims with
    | false => exact fun s c hs => nomatch hs.1
    | true =>
      refine Triple.bind (Q := fun _ s => s = claimed j.1 ts db)
        (triple_step (fun s hs => ?_) fun _ _ _ => trivial) fun _ => ?_
      · rw [hs.2]
        rfl
      · refine Triple.bind (Q := fun row s => row = some (started ts j.2) ∧ s = claimed j.1 ts db)
          (triple_query (fun s hs => ?_) fun _ _ _ => trivial) fun row => triple_pure _ fun s hs => ?_
        · subst hs
          exact ⟨lookup_claimed h.row h.pending, rfl⟩
        · rw [hs.1]
          exact ⟨rfl, hs.2⟩

/-- A claim whose query selects a runnable job, if any. -/
theorem triple_claimSelected {select : Db → Nat → Option JobEntry} {db : Db}
    (h : ∀ ts j, select db ts = some j → Due db ts j) :
    Triple (fun s => s = db) (claimSelected fun db ts => (select db ts).map (·.1) : StoreM (Option JobEntry))
      (fun r s => ∃ ts, (select db ts = none ∧ r = none ∧ s = db) ∨
        ∃ j, select db ts = some j ∧ Taken db ts j r s) fun _ _ => True := by
  refine Triple.bind (Q := fun _ s => s = db) triple_clock fun ts => ?_
  refine Triple.bind (Q := fun head s => head = (select db ts).map (·.1) ∧ s = db)
    (triple_query (fun s hs => ?_) fun _ _ _ => trivial) fun head => ?_
  · subst hs
    exact ⟨rfl, rfl⟩
  · refine Journal.Op.triple_of_state fun s hs => ?_
    obtain ⟨rfl, rfl⟩ := hs
    cases hSelect : select s ts with
    | none => exact triple_pure _ fun _ hs => ⟨ts, .inl ⟨hSelect, rfl, hs⟩⟩
    | some j =>
      refine Triple.bind (triple_markJobRunning (h ts j hSelect)) fun row => triple_pure _ fun s' hs' => ?_
      refine ⟨ts, .inr ⟨j, hSelect, h ts j hSelect, ?_, hs'.2⟩⟩
      rw [hs'.1]
      rfl

/-! ## What a slot leaves -/

/-- The result of a slot, and the state after it. -/
inductive Claims (db : Db) : ClaimSlotResult → Db → Prop where
  | job {ts : Nat} {j : JobEntry} (h : Due db ts j) :
    Claims db (.job (j.1, started ts j.2)) (claimed j.1 ts db)
  | nothing : Claims db .nothing db
  | pairWait : Claims db .pairWait db

/-- The entry is a row of the table as far as its job goes, or was one. -/
def Listed (db : Db) (j : JobEntry) : Prop :=
  j.1 < db.jobs.nextId ∧ ∀ row, db.jobs.lookup j.1 = some row → row.job = j.2.job

def CacheListed (db : Db) (cache : IngestCandidateCache) : Prop := ∀ j ∈ cache.getD [], Listed db j

theorem Due.listed {db : Db} {ts : Nat} {j : JobEntry} (h : Due db ts j) : Listed db j := by
  refine ⟨db.jobs.fresh j.1 (AList.lookup_isSome.mp ?_), fun row hRow => ?_⟩
  · rw [show db.jobs.rows.lookup j.1 = some j.2 from h.row]
    rfl
  · rw [Option.some_inj.mp (h.row.symm.trans hRow)]

/-- No statement changes the job of an id. -/
theorem listed_exec {i : Stmt} {db : Db} {j : JobEntry} (h : Listed db j) : Listed (exec i db) j := by
  have hInsert : ∀ row : JobRow, Listed { db with jobs := db.jobs.insertRow row } j := fun row => by
    refine ⟨h.1.trans (Nat.lt_succ_self _), fun row' hRow => ?_⟩
    rw [lookup_insertRow, if_neg (Nat.ne_of_lt h.1)] at hRow
    exact h.2 row' hRow
  have hUpdate : ∀ (id : Nat) (f : JobRow → JobRow), (∀ row, (f row).job = row.job) →
      Listed { db with jobs := db.jobs.update id f } j := fun id f hf => by
    refine ⟨h.1, fun row' hRow => ?_⟩
    rw [lookup_update] at hRow
    split at hRow
    · obtain ⟨row, hOld, rfl⟩ := Option.map_eq_some_iff.mp hRow
      rw [hf, h.2 row hOld]
    · exact h.2 row' hRow
  have hKeep : ∀ p : Nat → JobRow → Bool, Listed { db with jobs := db.jobs.keep p } j := fun p => by
    refine ⟨h.1, fun row' hRow => ?_⟩
    rw [lookup_keep] at hRow
    exact h.2 row' (Option.filter_eq_some_iff.mp hRow).1
  cases i with
  | job stmt =>
    cases stmt with
    | insert job priority runAfter createdAt => exact hInsert _
    | insertIfAbsent job priority runAfter createdAt types address =>
      change Listed { db with jobs := if db.jobs.hasActive types address then db.jobs else _ } j
      split
      · exact h
      · exact hInsert _
    | claim id ts =>
      refine hUpdate id _ fun row => ?_
      split <;> rfl
    | complete id ts => exact hUpdate id _ fun _ => rfl
    | requeue id attempts runAfter => exact hUpdate id _ fun _ => rfl
    | reclaim id count progress => exact hUpdate id _ fun _ => rfl
    | clearReclaim id => exact hUpdate id _ fun _ => rfl
    | deleteActiveForAddress a => exact hKeep _
    | deleteActive => exact hKeep _
    | pruneDone cutoff size => exact hKeep _
  | _ => exact h

theorem cacheListed_exec (i : Stmt) (db : Db) (cache : IngestCandidateCache) (h : CacheListed db cache) :
    CacheListed (exec i db) cache := fun j hj => listed_exec (h j hj)

theorem Claims.cacheListed {db s : Db} {r : ClaimSlotResult} (h : Claims db r s)
    {cache : IngestCandidateCache} (hCache : CacheListed db cache) : CacheListed s cache := by
  cases h with
  | job h => exact cacheListed_exec _ _ _ (cacheListed_exec _ _ _ hCache)
  | nothing | pairWait => exact hCache

section Parts

variable {config : TickConfig} {ctx : SlotContext} {cache : IngestCandidateCache} {db : Db}

/-- A claim by a query for runnable jobs. -/
theorem triple_ofClaim {select : Db → Nat → Option JobEntry}
    (h : ∀ ts j, select db ts = some j → Due db ts j)
    {R : JobEntry → Prop} (hR : ∀ ts j, select db ts = some j → R (j.1, started ts j.2)) :
    Triple (fun s => s = db) (do
      let job ← (claimSelected fun db ts => (select db ts).map (·.1) : StoreM (Option JobEntry))
      pure (ClaimSlotResult.ofClaim job, cache))
      (fun r s => Claims db r.1 s ∧ r.2 = cache ∧ ∀ e, r.1 = .job e → R e) fun _ _ => True := by
  refine (triple_claimSelected h).bind fun job => triple_pure _ fun s hs => ?_
  obtain ⟨ts, ⟨-, rfl, rfl⟩ | ⟨j, hSelect, hDue, rfl, rfl⟩⟩ := hs
  · exact ⟨.nothing, rfl, fun e he => by cases he⟩
  · refine ⟨.job hDue, rfl, fun e he => ?_⟩
    cases he
    exact hR ts j hSelect

theorem triple_claimNext : Triple (fun s => s = db) (claimNext config cache)
    (fun r s => Claims db r.1 s ∧ r.2 = cache) fun _ _ => True := by
  have hDue : ∀ ts j, nextJob config db ts = some j → Due db ts j := fun ts j hNext =>
    mem_runnableEntries.mp (List.argmin_mem hNext)
  exact (triple_ofClaim hDue (R := fun _ => True) fun _ _ _ => trivial).post
    fun _ _ hs => ⟨hs.1, hs.2.1⟩

/-- The claim of a listed candidate takes an ingest job, and its job is that of the candidate. -/
theorem triple_claimPicked {pick : JobEntry} (hPick : Listed db pick) :
    Triple (fun s => s = db) (claimPicked pick cache) (fun r s => Claims db r.1 s ∧ r.2 = cache ∧
      ∀ e, r.1 = .job e → isIngestJobType e.2.job.type = true ∧ e.2.job = pick.2.job) fun _ _ => True := by
  have hFound : ∀ ts j, (ingestEntries db ts).find? (fun j => decide (j.1 = pick.1)) = some j →
      Due db ts j ∧ isIngestJobType j.2.job.type = true ∧ j.1 = pick.1 := fun ts j hFind => by
    obtain ⟨hMem, hIngest⟩ := List.mem_filter.mp (List.mem_of_find?_eq_some hFind)
    have hId := List.find?_some hFind
    exact ⟨mem_runnableEntries.mp hMem, hIngest, of_decide_eq_true hId⟩
  refine triple_ofClaim (fun ts j hFind => (hFound ts j hFind).1) fun ts j hFind => ?_
  obtain ⟨hDue, hIngest, hId⟩ := hFound ts j hFind
  exact ⟨hIngest, hPick.2 j.2 (hId ▸ hDue.row)⟩

theorem mem_pendingIngestCandidates {limit ts : Nat} {j : JobEntry}
    (h : j ∈ pendingIngestCandidates limit db ts) : Due db ts j :=
  mem_runnableEntries.mp (List.mem_of_mem_filter
    ((List.perm_insertionSort _ _).subset (List.mem_of_mem_take h)))

theorem triple_listPendingIngestCandidates (limit : Nat) : Triple (fun s => s = db)
    (listPendingIngestCandidates limit) (fun rows s => s = db ∧ ∀ j ∈ rows, Listed db j)
      fun _ _ => True := by
  refine Triple.bind (Q := fun _ s => s = db) (triple_mem _ fun _ _ hs => hs) fun ts => ?_
  refine triple_query (fun s hs => ?_) fun _ _ _ => trivial
  subst hs
  exact ⟨rfl, fun j hj => (mem_pendingIngestCandidates hj).listed⟩

theorem triple_ingestCandidatesForPick (hCache : CacheListed db cache) (claimedIds : List Nat) :
    Triple (fun s => s = db) (ingestCandidatesForPick cache claimedIds)
      (fun r s => s = db ∧ (∀ j ∈ r.1, Listed db j) ∧ CacheListed db r.2) fun _ _ => True := by
  unfold ingestCandidatesForPick
  dsimp only
  split
  · exact triple_pure _ fun s hs => ⟨hs, fun j hj => hCache j (List.mem_of_mem_filter hj), hCache⟩
  · split
    · exact triple_pure _ fun s hs => ⟨hs, ⟨fun j hj => absurd hj List.not_mem_nil, hCache⟩⟩
    · refine (triple_listPendingIngestCandidates 32).bind fun rows => triple_pure _ fun s hs => ?_
      exact ⟨hs.1, fun j hj => hs.2 j (List.mem_of_mem_filter hj), hs.2⟩

/-- The result of a slot, from a state; a quiet slot takes an ingest job that runs from its pages. -/
structure Slotted (config : TickConfig) (quiet : Bool) (db : Db)
    (r : ClaimSlotResult × IngestCandidateCache) (s : Db) : Prop where
  claims : Claims db r.1 s
  cache : CacheListed db r.2
  paged : quiet = true → ∀ e, r.1 = .job e →
    isIngestJobType e.2.job.type = true ∧ jobNeedsChainCallAtStart config.app e.2.job = false

/-- A pick among the candidates, and what is done where none fits. -/
theorem triple_pickOr {quiet : Bool} {opts : PickIngestCandidateOpts} (hCache : CacheListed db cache)
    (hQuiet : quiet = true → opts.requireNoChainAtStart = true) (claimedIds : List Nat)
    {orElse : IngestCandidateCache → StoreM (ClaimSlotResult × IngestCandidateCache)}
    (hElse : ∀ cache, CacheListed db cache → Triple (fun s => s = db) (orElse cache)
      (Slotted config quiet db) fun _ _ => True) :
    Triple (fun s => s = db) (do
      let (candidates, cache) ← ingestCandidatesForPick cache claimedIds
      match pickIngestCandidate config.app opts candidates with
      | some pick => claimPicked pick cache
      | none => orElse cache) (Slotted config quiet db) fun _ _ => True := by
  refine (triple_ingestCandidatesForPick hCache claimedIds).bind fun found => ?_
  refine Journal.Op.triple_of_state fun s hs => ?_
  obtain ⟨rfl, hListed, hFound⟩ := hs
  cases hPick : pickIngestCandidate config.app opts found.1 with
  | none =>
    simp only [hPick]
    exact hElse found.2 hFound
  | some pick =>
    simp only [hPick]
    have hMem := List.mem_filter.mp (pickIngestCandidate_isPick hPick).mem
    refine (triple_claimPicked (hListed pick hMem.1)).post fun r s hs => ?_
    obtain ⟨hClaims, hSame, hJob⟩ := hs
    refine ⟨hClaims, hSame ▸ hFound, fun hIsQuiet e he => ⟨(hJob e he).1, ?_⟩⟩
    rw [(hJob e he).2]
    exact needs_of_eligible hMem.2 (hQuiet hIsQuiet)

theorem slotted_claimNext (hCache : CacheListed db cache) : Triple (fun s => s = db)
    (claimNext config cache) (Slotted config false db) fun _ _ => True :=
  triple_claimNext.post fun _ _ hs => ⟨hs.1, hs.2 ▸ hCache, fun hQuiet => absurd hQuiet Bool.false_ne_true⟩

theorem triple_claimFirst (hCache : CacheListed db ctx.candidateCache) (pollSlice : Bool) :
    Triple (fun s => s = db) (claimFirst config ctx pollSlice) (Slotted config false db)
      fun _ _ => True := by
  unfold claimFirst
  split
  · exact slotted_claimNext hCache
  · exact triple_pickOr hCache (fun hQuiet => absurd hQuiet Bool.false_ne_true) ctx.claimedIds
      fun cache => slotted_claimNext

theorem oldestAged_due {minWaitSec ts : Nat} {excludeIds : List Nat} {j : JobEntry}
    (h : oldestAged minWaitSec excludeIds db ts = some j) : Due db ts j :=
  mem_runnableEntries.mp (List.mem_of_mem_filter (List.argmin_mem h))

theorem triple_claimOldestMaintCosmeticJob (minWaitSec : Nat) (excludeIds : List Nat) :
    Triple (fun s => s = db) (claimOldestMaintCosmeticJob minWaitSec excludeIds)
      (fun r s => (r = none ∧ s = db) ∨ ∃ j, r = some j ∧ Claims db (.job j) s) fun _ _ => True := by
  unfold claimOldestMaintCosmeticJob
  split
  · exact triple_pure _ fun s hs => .inl ⟨rfl, hs⟩
  · refine (triple_claimSelected fun ts j => oldestAged_due).post fun r s hs => ?_
    obtain ⟨ts, ⟨-, rfl, rfl⟩ | ⟨j, -, hDue, rfl, rfl⟩⟩ := hs
    · exact .inl ⟨rfl, rfl⟩
    · exact .inr ⟨_, rfl, .job hDue⟩

theorem triple_claimFirstSlot (hCache : CacheListed db ctx.candidateCache) :
    Triple (fun s => s = db) (claimFirstSlot config ctx) (Slotted config false db) fun _ _ => True := by
  refine Triple.bind (Q := fun _ s => s = db) (triple_query (fun _ hs => hs) fun _ _ _ => trivial)
    fun state => ?_
  have hAged : Triple (fun s => s = db) (claimAged config ctx state)
      (fun r s => (r = none ∧ s = db) ∨ ∃ j, r = some j ∧ Claims db (.job j) s) fun _ _ => True := by
    unfold claimAged
    split
    · exact triple_claimOldestMaintCosmeticJob _ _
    · exact triple_pure _ fun s hs => .inl ⟨rfl, hs⟩
  refine hAged.bind fun aged => ?_
  cases aged with
  | none =>
    refine (triple_claimFirst hCache _).pre fun s hs => ?_
    obtain ⟨-, hSame⟩ | ⟨j, hSome, -⟩ := hs
    · exact hSame
    · cases hSome
  | some job =>
    refine triple_pure _ fun s hs => ?_
    obtain ⟨hNone, -⟩ | ⟨j, hSome, hClaims⟩ := hs
    · cases hNone
    · cases hSome
      exact ⟨hClaims, hCache, fun hQuiet => absurd hQuiet Bool.false_ne_true⟩

/-- Whatever its slot and its context, a claim takes a pending job whose time has come; after a provider
was called, an ingest job that runs from its pages. -/
theorem triple_claimJobForSlot (hCache : CacheListed db ctx.candidateCache) (slot : Nat) :
    Triple (fun s => s = db) (claimJobForSlot config ctx slot)
      (Slotted config (decide (slot ≠ 0) && (ctx.chainSlotUsed || ctx.pacingBlocked)) db)
      fun _ _ => True := by
  unfold claimJobForSlot
  by_cases hFirst : slot = 0
  · rw [if_pos hFirst, decide_eq_false (not_not.mpr hFirst), Bool.false_and]
    exact triple_claimFirstSlot hCache
  · rw [if_neg hFirst, decide_eq_true hFirst, Bool.true_and]
    cases hQuiet : ctx.chainSlotUsed || ctx.pacingBlocked with
    | true =>
      rw [if_pos rfl]
      exact triple_pickOr hCache (fun _ => rfl) ctx.claimedIds fun cache hCache =>
        triple_pure _ fun s hs => ⟨hs ▸ .pairWait, hCache, fun _ e he => by cases he⟩
    | false =>
      rw [if_neg Bool.false_ne_true]
      exact triple_pickOr hCache (fun hQuiet => absurd hQuiet Bool.false_ne_true) ctx.claimedIds
        fun cache => slotted_claimNext

end Parts

/-! ## Slots against the worker -/

def ClaimSlotResult.takenEntry : ClaimSlotResult → Option JobEntry
  | .job entry => some entry
  | .nothing | .pairWait => none

/-- The claim of the worker, with the pick that is its input there. -/
def workerClaim (pick : Nat) : StoreM (Option JobEntry) :=
  claimSelected fun db ts => (runnable db ts)[pick]?

theorem runs_markJobRunning {db : Db} {ts : Nat} {j : JobEntry} (h : Due db ts j) (m : Mem) :
    (markJobRunning j.1 ts : StoreM (Option JobRow)).Runs db m (some (started ts j.2))
      [.job (.claim j.1 ts), .scheduler (.adjust .pendingJob (-1))] m := by
  have hClaims : (db.jobs.lookup j.1).any (·.status = .pending) = true := by
    rw [h.row]
    simp [h.pending]
  refine Journal.Op.Runs.bind (Journal.Op.runs_step _ _ db m) ?_
  rw [hClaims, if_pos rfl]
  refine Journal.Op.Runs.bind (Journal.Op.runs_step _ _ _ m) ?_
  have hRow := @lookup_claimed j.1 ts _ _ h.row h.pending
  refine Journal.Op.Runs.bind (Journal.Op.runs_query _ _ m) ?_
  show (pure (((claimed j.1 ts db).jobs.lookup j.1).map _) : StoreM (Option JobRow)).Runs _ _ _ _ _
  rw [hRow]
  exact Journal.Op.runs_pure _ _ _

theorem runs_clock (ts : Nat) (db : Db) :
    (StoreMonad.clock : StoreM Nat).Runs db { clock := [ts] } ts [] {} := rfl

theorem workerClaim_of_due {db : Db} {ts : Nat} {j : JobEntry} (h : Due db ts j) :
    ∃ (pick : Nat) (c : Journal.Ctl Mem Err),
      (workerClaim pick db c).res = .ok (some (j.1, started ts j.2)) ∧
        (workerClaim pick).final db c = claimed j.1 ts db := by
  obtain ⟨pick, hPick⟩ := List.mem_iff_getElem?.mp (mem_runnable h)
  have hRuns : (workerClaim pick).Runs db { clock := [ts] } (some (j.1, started ts j.2))
      [.job (.claim j.1 ts), .scheduler (.adjust .pendingJob (-1))] { clock := [] } := by
    refine Journal.Op.Runs.bind (runs_clock ts db) ?_
    refine Journal.Op.Runs.bind (Journal.Op.runs_query _ db _) ?_
    simp only [Journal.replay_nil, hPick, Option.elim_some]
    exact Journal.Op.Runs.bind (runs_markJobRunning h _) (Journal.Op.runs_pure _ _ _)
  exact ⟨pick, ⟨{ clock := [ts] }, []⟩, congrArg Journal.Out.res hRuns,
    congrArg (fun o : Journal.Out Stmt Mem Err _ => Journal.replay o.log db) hRuns⟩

theorem workerClaim_nothing (db : Db) : ∃ (pick : Nat) (c : Journal.Ctl Mem Err),
    (workerClaim pick db c).res = .ok none ∧ (workerClaim pick).final db c = db := by
  have hRuns : (workerClaim (runnable db 0).length).Runs db { clock := [0] } none [] { clock := [] } := by
    refine Journal.Op.Runs.bind (runs_clock 0 db) ?_
    refine Journal.Op.Runs.bind (Journal.Op.runs_query _ db _) ?_
    simp only [Journal.replay_nil, List.getElem?_length, Option.elim_none]
    exact Journal.Op.runs_pure _ _ _
  exact ⟨_, ⟨{ clock := [0] }, []⟩, congrArg Journal.Out.res hRuns,
    congrArg (fun o : Journal.Out Stmt Mem Err _ => Journal.replay o.log db) hRuns⟩

/-- A slot that returns has done what the claim of the worker does for some pick: every policy of the
slots is a choice that the worker's process leaves open. -/
theorem claimJobForSlot_refines {config : TickConfig} {ctx : SlotContext} {slot : Nat} {db : Db}
    {c : Journal.Ctl Mem Err} (hCache : CacheListed db ctx.candidateCache)
    {r : ClaimSlotResult × IngestCandidateCache} (hOk : (claimJobForSlot config ctx slot db c).res = .ok r) :
    ∃ (pick : Nat) (c' : Journal.Ctl Mem Err), (workerClaim pick db c').res = .ok r.1.takenEntry ∧
      (workerClaim pick).final db c' = (claimJobForSlot config ctx slot).final db c := by
  have hClaims := ((triple_claimJobForSlot hCache slot).ok rfl hOk).claims
  generalize (claimJobForSlot config ctx slot).final db c = s at hClaims ⊢
  obtain ⟨result, cache⟩ := r
  cases hClaims with
  | job h => exact workerClaim_of_due h
  | nothing | pairWait => exact workerClaim_nothing db

/-! A queue with a job for the price of a bitcoin. -/

def priceRow : JobRow where
  job := .refreshBtcUsdPrice
  priority := 0
  runAfter := 0
  createdAt := 0

def priceDb : Db := exec (Stmt.job (.insert .refreshBtcUsdPrice 0 0 0)) .initial

theorem claimJobForSlot_refines_price :
    ∃ (pick : Nat) (c' : Journal.Ctl Mem Err),
      (workerClaim pick priceDb c').res = .ok (some (1, started 60000 priceRow)) ∧
        (workerClaim pick).final priceDb c' =
          (claimJobForSlot {} ⟨false, false, [], none, none⟩ 0).final priceDb
            ⟨{ clock := [60000, 60000] }, []⟩ :=
  @claimJobForSlot_refines {} ⟨false, false, [], none, none⟩ 0 priceDb ⟨{ clock := [60000, 60000] }, []⟩
    (fun _ hj => by cases hj) (.job (1, started 60000 priceRow), none) rfl

end Bloodhound.Indexer.Slots
