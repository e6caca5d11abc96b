import Bloodhound.Graph.Trace
import Bloodhound.Indexer.JobRun
import Bloodhound.Lib.Lift
import Bloodhound.Ops.AddressOps

/-!
# Synchronising a source in batches

`sources/coldcardwatch.ts`, `sources/coldcardSweepWatch.ts` and the sync jobs of `processor.ts`: the
new addresses of a fetched list are cut into batch jobs, of which the last one records the hash of the
list. The store is extended by the payloads of the batch jobs and by `source_sync_state`. The digest
of a list of addresses is a parameter.
-/

namespace Bloodhound.Sources

open Indexer Store Ops
open Journal Journal.Op

/-! ## Data -/

inductive Source where
  | coldcardwatch
  | coldcardSweepWatch
  deriving DecidableEq

/-- The addresses that a fetch reads from the pages of a source; the sweep watch has vaults for
victims. -/
structure SourceList where
  source : Source
  collectors : List Address
  victims : List Address
  deriving DecidableEq

def SourceList.addresses (l : SourceList) : List Address := l.collectors ++ l.victims

/-- The addresses in the order in which they are hashed. -/
def SourceList.sorted (l : SourceList) : List Address := l.addresses.mergeSort fun a b => a.1 ≤ b.1

/-- `ColdcardWatchData` and `ColdcardSweepWatchData`. -/
structure SourceData where
  source : Source
  collectors : List Address
  victims : List Address
  downstream : List Address
  contentHash : String

section Fetch

variable (digest : List Address → String)

def SourceList.contentHash (l : SourceList) : String := digest l.sorted

/-- What a fetch returns; a collector is no victim, and no page lists downstream addresses. -/
def SourceList.fetched (l : SourceList) : SourceData where
  source := l.source
  collectors := l.collectors
  victims := l.victims.filter (· ∉ l.collectors)
  downstream := []
  contentHash := l.contentHash digest

end Fetch

/-- `ColdcardWatchBatchPayload` and `ColdcardSweepWatchBatchPayload`. -/
structure BatchPayload where
  source : Source
  contentHash : String
  collectors : List Address := []
  victims : List Address := []
  downstream : List Address := []
  finalize : Bool := false
  lastAddressCount : Option Nat := none
  chunkIndex : Nat := 0
  chunkTotal : Nat := 0
  deriving DecidableEq

def BatchPayload.addresses (p : BatchPayload) : List Address :=
  p.collectors ++ p.victims ++ p.downstream

structure SourceSyncRow where
  lastAddressCount : Option Nat := none
  lastContentHash : Option String := none
  deriving DecidableEq

/-! ## The store -/

theorem nextId_insertRow (t : JobTable) (row : JobRow) : (t.insertRow row).nextId = t.nextId + 1 := rfl

/-- Ids are never used again. -/
theorem nextId_le_exec (i : Stmt) (db : Db) : db.jobs.nextId ≤ (exec i db).jobs.nextId := by
  cases i with
  | job s =>
    cases s with
    | insert => exact Nat.le_succ _
    | insertIfAbsent job priority runAfter createdAt types address =>
      show _ ≤ (if db.jobs.hasActive types address then db.jobs else _ : JobTable).nextId
      split
      · exact le_rfl
      · exact Nat.le_succ _
    | _ => exact le_rfl
  | _ => exact le_rfl

/-- The store with the payloads of the batch jobs, by their ids. -/
structure SyncStore where
  db : Db
  payloads : Nat → Option BatchPayload
  sync : Source → SourceSyncRow
  fresh : ∀ id p, payloads id = some p → id < db.jobs.nextId

/-- A statement of the store, with the payload of the job that it may insert, or the upsert of a row
of `source_sync_state`. -/
inductive SyncStmt where
  | store (stmt : Stmt) (payload : Option BatchPayload)
  | sourceSync (source : Source) (lastAddressCount : Option Nat) (lastContentHash : Option String)

/-- The payloads after a statement that may insert a job. -/
def SyncStore.insertedPayloads (s : SyncStore) (db : Db) (payload : Option BatchPayload) (id : Nat) :
    Option BatchPayload :=
  if s.db.jobs.nextId ≤ id ∧ id < db.jobs.nextId then payload else s.payloads id

def SyncStmt.exec : SyncStmt → SyncStore → SyncStore
  | .store i payload, s =>
    { s with
      db := Journal.exec i s.db
      payloads := s.insertedPayloads (Journal.exec i s.db) payload
      fresh := by
        intro id p hp
        unfold SyncStore.insertedPayloads at hp
        split at hp
        · next h => exact h.2
        · exact (s.fresh id p hp).trans_le (nextId_le_exec i s.db) }
  | .sourceSync source count hash, s =>
    { s with
      sync := Function.update s.sync source
        { lastAddressCount := count.or (s.sync source).lastAddressCount
          lastContentHash := hash.or (s.sync source).lastContentHash } }

instance : Statement SyncStmt SyncStore := ⟨SyncStmt.exec⟩

abbrev SyncM : Type → Type := Journal.Op SyncStmt SyncStore Mem Err

/-- An operation of the store; the jobs that it inserts are no batch jobs. -/
def onStore {α : Type} (p : StoreM α) : SyncM α := p.lift (.store · none) (·.db)

def getSourceSync (source : Source) : SyncM SourceSyncRow := query (·.sync source)

def upsertSourceSync (source : Source) (lastAddressCount : Option Nat) (lastContentHash : String) :
    SyncM Unit := run (.sourceSync source lastAddressCount (some lastContentHash))

/-! ## Enqueueing -/

def Source.job : Source → Job
  | .coldcardwatch => .syncColdcardwatch
  | .coldcardSweepWatch => .syncVercelTrackers

def Source.priority : Source → Int
  | .coldcardwatch => JobPriority.syncColdcardwatch
  | .coldcardSweepWatch => JobPriority.syncVercelTrackers

/-- `enqueueJob` for a batch: the id of the job, or nothing where it is refused. -/
def enqueueBatchJob (env : Env) (payload : BatchPayload) : SyncM (Option Nat) :=
  (Store.enqueueJob env payload.source.job payload.source.priority none false : StoreM (Option Nat)).lift
    (.store · (some payload)) (·.db)

/-- `chunkArray`: the slices of the given size, each the given size further, and never less than one. -/
def chunkArray {α : Type} (size : Nat) (items : List α) : List (List α) :=
  (List.range ((items.length + (max 1 size - 1)) / max 1 size)).map fun k =>
    (items.drop (k * max 1 size)).take size

/-- The payloads of a list; the last one finalizes. -/
def batchPayloads (data : SourceData) (perJob addressCount : Nat) : List BatchPayload :=
  let base : BatchPayload := { source := data.source, contentHash := data.contentHash }
  let jobs := (chunkArray perJob data.collectors).map ({ base with collectors := · }) ++
    (chunkArray perJob data.victims).map ({ base with victims := · }) ++
    (chunkArray perJob data.downstream).map ({ base with downstream := · })
  jobs.mapIdx fun i job =>
    { job with
      finalize := i + 1 = jobs.length
      lastAddressCount := if i + 1 = jobs.length then some addressCount else none
      chunkIndex := i + 1
      chunkTotal := jobs.length }

/-- `enqueueColdcardWatchBatchJobs` and `enqueueColdcardSweepWatchBatchJobs`. -/
def enqueueBatchJobs (env : Env) (data : SourceData) (perJob addressCount : Nat) : SyncM Unit :=
  let jobs := batchPayloads data perJob addressCount
  if jobs = [] then upsertSourceSync data.source (some addressCount) data.contentHash
  else forEach jobs fun payload => do
    let _ ← enqueueBatchJob env payload
    pure ()

/-! ## A fetched list -/

/-- `partitionSourceHackers`: the addresses that are not flagged yet. -/
def partitionSourceHackers (db : Db) (addresses : List Address) : List Address :=
  addresses.filter fun a => !(db.addresses.lookup a).any (·.isFlaggedHacker)

/-- `partitionSourceMissing`: the addresses without a row. -/
def partitionSourceMissing (db : Db) (addresses : List Address) : List Address :=
  addresses.filter fun a => (db.addresses.lookup a).isNone

/-- `syncColdcardwatch` with a fetched list, and what `syncVercelTrackers` does with the list of the
sweep watch: there an unchanged list is recorded again only where the other tracker is unchanged too. -/
def syncSourceList (env : Env) (digest : List Address → String) (perJob : Nat) (l : SourceList)
    (othersUnchanged : Bool) : SyncM Unit := do
  let data := l.fetched digest
  let prev ← getSourceSync data.source
  let addressCount := data.collectors.length + data.victims.length
  if prev.lastContentHash = some data.contentHash then
    when othersUnchanged (upsertSourceSync data.source none data.contentHash)
  else do
    let existing ← query (·.db)
    let collectors := partitionSourceHackers existing data.collectors
    let victims := partitionSourceMissing existing data.victims
    let downstream := partitionSourceMissing existing data.downstream
    if collectors = [] ∧ victims = [] ∧ downstream = [] then
      upsertSourceSync data.source (some addressCount) data.contentHash
    else
      enqueueBatchJobs env { data with collectors, victims, downstream } perJob addressCount

/-! ## A batch job -/

/-- A loop over addresses that stops where the budget of subrequests is exhausted; what is left then. -/
def ingestUntil (ingest : Address → SyncM Unit) : List Address → SyncM (Option (List Address))
  | [] => pure none
  | a :: rest => do
    let canUse ← onStore canUseSubrequest
    if canUse then do
      ingest a
      ingestUntil ingest rest
    else pure (some (a :: rest))

def ingestCollector (env : Env) (a : Address) : SyncM Unit := do
  let _ ← onStore (ingestSourceHacker env a "coldcard")
  pure ()

def ingestMissing (role : Role) (expandStatus : Option ExpandStatus) (a : Address) : SyncM Unit := do
  let _ ← onStore (insertAddressIfMissing { address := a, role := some role, expandStatus })
  pure ()

/-- The loops of `applyColdcardWatchSyncBatch`; the payload of what is left, if any. -/
def ingestColdcardWatchBatch (env : Env) (payload : BatchPayload) : SyncM (Option BatchPayload) := do
  let collectors ← ingestUntil (ingestCollector env) payload.collectors
  match collectors with
  | some rest => pure (some { payload with collectors := rest })
  | none => do
    let victims ← ingestUntil (ingestMissing .victim none) payload.victims
    match victims with
    | some rest => pure (some { payload with collectors := [], victims := rest })
    | none => do
      let status := (Graph.expandStatusToWrite none 0 env.config.minExpandSats).getD .pending
      let downstream ← ingestUntil (ingestMissing .downstream (some status)) payload.downstream
      pure (downstream.map fun rest =>
        { payload with collectors := [], victims := [], downstream := rest })

/-- The loops of `applyColdcardSweepWatchSyncBatch`. -/
def ingestColdcardSweepWatchBatch (env : Env) (payload : BatchPayload) : SyncM (Option BatchPayload) := do
  let collectors ← ingestUntil (ingestCollector env) payload.collectors
  match collectors with
  | some rest => pure (some { payload with collectors := rest })
  | none => do
    let vaults ← ingestUntil (ingestMissing .victim none) payload.victims
    pure (vaults.map fun rest => { payload with collectors := [], victims := rest })

def ingestBatch (env : Env) (payload : BatchPayload) : SyncM (Option BatchPayload) :=
  match payload.source with
  | .coldcardwatch => ingestColdcardWatchBatch env payload
  | .coldcardSweepWatch => ingestColdcardSweepWatchBatch env payload

/-- The end of `applyColdcardWatchSyncBatch` and of `applyColdcardSweepWatchSyncBatch`: what is left
becomes a job, and otherwise a batch that finalizes records the hash. -/
def finishBatch (env : Env) (payload : BatchPayload) : Option BatchPayload → SyncM Unit
  | some rest => do
    let _ ← enqueueBatchJob env rest
    pure ()
  | none =>
    when payload.finalize
      (upsertSourceSync payload.source (some (payload.lastAddressCount.getD 0)) payload.contentHash)

/-- The claim of a batch job; its row and its payload, where it is claimed. -/
def claimBatchJob (id : Nat) : SyncM (Option (JobRow × BatchPayload)) := do
  let nowMs ← onStore now
  let claimed ← onStore (markJobRunning id nowMs)
  let payload ← query (·.payloads id)
  pure (claimed.bind fun row => payload.map (row, ·))

/-- The `try` block of the loop of `processJobs` for a batch job, after the loops of the batch. -/
def finishBatchJob (env : Env) (inputs : JobInputs) (id : Nat) (payload : BatchPayload)
    (rest : Option BatchPayload) : SyncM Unit := do
  finishBatch env payload rest
  onStore (completeJob id)
  onStore (JobRun.afterCompletion env inputs)

/-- What the loop of `processJobs` does with a claimed batch job. -/
def processClaimedBatch (env : Env) (inputs : JobInputs) (id : Nat) :
    Option (JobRow × BatchPayload) → SyncM Unit
  | some (row, payload) =>
    (ingestBatch env payload >>= finishBatchJob env inputs id payload).tryCatch fun e =>
      onStore (JobRun.onJobError env.config inputs id row e)
  | none => pure ()

/-- A run of a batch job. -/
def processBatchJob (env : Env) (inputs : JobInputs) (id : Nat) : SyncM Unit :=
  claimBatchJob id >>= processClaimedBatch env inputs id

end Bloodhound.Sources
