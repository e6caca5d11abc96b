import Bloodhound.Store.SchedulerRow

/-!
# The cached scheduler row

A store that is the only writer of `scheduler_state` never holds a stale copy of the row
(`coherent_of_calls`): each write of the row is followed by the same change of the copy, or by its
removal. The methods that are not listed in `SchedulerCall` reach the row through these.
-/

namespace Bloodhound.SchedulerCache

open Indexer Store
open Journal Journal.Op

/-- The copy, where there is one, is the row of the database, or says that there is none. -/
def Coherent (db : Option SchedulerRow) (m : Memory) : Prop :=
  ∀ row, m.schedulerStateCache = some row → db = row

/-- The copy lags behind the row by one change. -/
def Behind (f : SchedulerRow → SchedulerRow) (db : Option SchedulerRow) (m : Memory) : Prop :=
  Coherent db (m.change f)

theorem change_id (m : Memory) : m.change id = m := by
  unfold Memory.change
  split
  · next row h =>
    cases m
    cases h
    rfl
  · rfl

theorem change_change (f g : SchedulerRow → SchedulerRow) (m : Memory) :
    (m.change f).change g = m.change (g ∘ f) := by
  obtain ⟨cache⟩ := m
  cases cache with
  | none => rfl
  | some row => cases row <;> rfl

theorem Coherent.behind {db : Option SchedulerRow} {m : Memory} (h : Coherent db m)
    (f : SchedulerRow → SchedulerRow) : Behind f (db.map f) m := by
  obtain ⟨cache⟩ := m
  intro row hRow
  cases cache with
  | none => cases hRow
  | some cached =>
    rw [h cached rfl]
    cases cached with
    | none =>
      cases hRow
      rfl
    | some cached =>
      cases hRow
      rfl

theorem coherent_of_behind {db : Option SchedulerRow} {m : Memory} (h : Behind id db m) : Coherent db m := by
  unfold Behind at h
  rwa [change_id] at h

/-! ## Writes -/

theorem memTriple_write (u : Update) :
    MemTriple Coherent (run u : CacheM Unit) (fun _ => Behind u.apply) Coherent :=
  memTriple_run (fun _ _ h => h.behind u.apply) fun _ _ h => h

/-- A change of the copy makes up for the first part of what it lags behind. -/
theorem memTriple_change {f g lag : SchedulerRow → SchedulerRow} (h : ∀ row, lag row = g (f row)) :
    MemTriple (Behind lag) (mem fun m => ((), m.change f) : CacheM Unit) (fun _ => Behind g) Coherent := by
  refine memTriple_mem _ fun db m hLag => ?_
  have hEq : lag = g ∘ f := funext h
  show Coherent db ((m.change f).change g)
  rw [change_change, ← hEq]
  exact hLag

theorem memTriple_lastChange {f lag : SchedulerRow → SchedulerRow} (h : ∀ row, lag row = f row) :
    MemTriple (Behind lag) (mem fun m => ((), m.change f) : CacheM Unit) (fun _ => Coherent) Coherent :=
  (memTriple_change (g := id) h).post fun _ _ _ => coherent_of_behind

/-- A write, and the same change of the copy. -/
theorem keepsMem_write {u : Update} {f : SchedulerRow → SchedulerRow} (h : ∀ row, u.apply row = f row) :
    KeepsMem Coherent (run u >>= fun _ => mem fun m => ((), m.change f) : CacheM Unit) :=
  (memTriple_write u).bind fun _ => memTriple_lastChange h

theorem keepsMem_getSchedulerState : KeepsMem Coherent getSchedulerState := by
  refine MemTriple.bind (Q := fun _ => Coherent) (memTriple_mem _ fun _ _ h => h) fun cached => ?_
  cases cached with
  | some row => exact memTriple_pure row fun _ _ h => h
  | none =>
    refine MemTriple.bind (Q := fun row db _ => row = db) (memTriple_step (fun db _ _ => rfl)
      fun _ _ h => h) fun row => memTriple_mem _ fun db _ hRow row' h => ?_
    cases h
    exact hRow.symm

/-- What `getSchedulerState` returns is the row of the database. -/
theorem memTriple_getSchedulerState :
    MemTriple Coherent getSchedulerState (fun row db _ => row = db) fun _ _ => True := by
  refine MemTriple.bind (Q := fun cached db m => Coherent db m ∧ cached = m.schedulerStateCache)
    (memTriple_mem _ fun _ _ h => ⟨h, rfl⟩) fun cached => ?_
  cases cached with
  | some row => exact memTriple_pure row fun _ _ h => (h.1 row h.2.symm).symm
  | none =>
    exact MemTriple.bind (Q := fun row db _ => row = db) (memTriple_step (fun db _ _ => rfl)
      fun _ _ _ => trivial) fun row => memTriple_mem _ fun _ _ hRow => hRow

theorem keepsMem_clear : KeepsMem Coherent clearSchedulerStateCache :=
  memTriple_mem _ fun _ _ _ _ h => nomatch h

theorem keepsMem_updateSchedulerState (data : List Assignment) :
    KeepsMem Coherent (updateSchedulerState data) := keepsMem_write fun _ => rfl

theorem keepsMem_markDirty (column : IntColumn) : KeepsMem Coherent (markDirty column) :=
  keepsMem_write fun _ => rfl

theorem keepsMem_clearTickLease : KeepsMem Coherent clearTickLease := keepsMem_write fun _ => rfl

/-! ## Counters -/

theorem clampedSum_zero (n : Nat) : clampedSum n 0 = n := by
  unfold clampedSum
  omega

theorem assign_self (row : SchedulerRow) (column : IntColumn) :
    row.assign [.int column (row.int column)] = row := by
  show { row with int := Function.update row.int column (row.int column) } = row
  rw [Function.update_eq_self]

/-- The copy as `bumpSchedulerCache` leaves it. -/
def bumped (field : IntColumn) (delta : Int) (row : SchedulerRow) : SchedulerRow :=
  row.assign [.int field (clampedSum (row.int field) delta)]

/-- A delta of zero is left out of the copy; the clamped sum in the row does not change it either. -/
theorem memTriple_bump {field : IntColumn} {delta : Int} {lag g : SchedulerRow → SchedulerRow}
    (h : ∀ row, lag row = g (bumped field delta row)) :
    MemTriple (Behind lag) (bumpSchedulerCache field delta) (fun _ => Behind g) Coherent := by
  unfold bumpSchedulerCache when
  split
  · exact memTriple_change h
  · next hZero =>
    have hLag : lag = g := by
      funext row
      rw [h, bumped, not_not.mp hZero, clampedSum_zero, assign_self]
    exact memTriple_pure () fun _ _ hs => hLag ▸ hs

theorem keepsMem_adjustCount (column : IntColumn) (delta : Int) :
    KeepsMem Coherent (adjustCount column delta) :=
  keepsMem_when fun _ => (memTriple_write _).bind fun _ =>
    (memTriple_bump (g := id) fun _ => rfl).post fun _ _ _ => coherent_of_behind

theorem keepsMem_adjustActiveJobCount (type : JobType) (delta : Int) :
    KeepsMem Coherent (adjustActiveJobCount type delta) := by
  unfold adjustActiveJobCount
  split
  · exact memTriple_pure () fun _ _ h => h
  · exact keepsMem_adjustCount _ _

theorem keepsMem_adjustEdgeTotalsCounters (totalInDelta totalOutDelta : Int) :
    KeepsMem Coherent (adjustEdgeTotalsCounters totalInDelta totalOutDelta) :=
  keepsMem_when fun _ => (memTriple_write _).bind fun _ =>
    (memTriple_bump (g := bumped .totalOutSats totalOutDelta) fun _ => rfl).bind fun _ =>
      (memTriple_bump (g := id) fun _ => rfl).post fun _ _ _ => coherent_of_behind

theorem keepsMem_incrementMaintenanceCronCounter :
    KeepsMem Coherent incrementMaintenanceCronCounter := by
  refine (memTriple_write _).bind fun _ => (memTriple_lastChange fun _ => rfl).bind fun _ => ?_
  exact keepsMem_getSchedulerState.bind fun state => memTriple_pure _ fun _ _ h => h

theorem keepsMem_adjustPollDueCountDelta (getTime : String → Option Int) (delta : Int)
    (params : PollParams) (nowMs : Int) (polledAt : String) :
    KeepsMem Coherent (adjustPollDueCountDelta getTime delta params nowMs polledAt) := by
  unfold adjustPollDueCountDelta
  split
  · exact memTriple_pure true fun _ _ h => h
  refine keepsMem_getSchedulerState.bind fun state => ?_
  split
  · refine (memTriple_write _).bind fun _ => ?_
    refine (memTriple_bump (g := fun row => row.assign [.text .downstreamPollDueAt (some polledAt)])
      fun _ => rfl).bind fun _ => (memTriple_lastChange fun _ => rfl).bind fun _ => ?_
    exact memTriple_pure true fun _ _ h => h
  · exact memTriple_pure false fun _ _ h => h

/-! ## The rotation -/

/-- The index that was used, from the one that is left, gives back the one that is left. -/
theorem next_of_used {next hackerCount : Nat} (h : next < hackerCount) :
    ((next + hackerCount - 1) % hackerCount + 1) % hackerCount = next := by
  cases next with
  | zero =>
    have hLast : (0 + hackerCount - 1) % hackerCount = hackerCount - 1 := by
      rw [Nat.zero_add, Nat.mod_eq_of_lt (Nat.sub_lt h Nat.one_pos)]
    rw [hLast, Nat.sub_add_cancel h, Nat.mod_self]
  | succ n =>
    have hBefore : (n + 1 + hackerCount - 1) % hackerCount = n := by
      rw [Nat.add_right_comm, Nat.add_sub_cancel, Nat.add_mod_right, Nat.mod_eq_of_lt (by omega)]
    rw [hBefore, Nat.mod_eq_of_lt h]

theorem keepsMem_claimNextHackerPollIndex (hackerCount : Nat) :
    KeepsMem Coherent (claimNextHackerPollIndex hackerCount) := by
  unfold claimNextHackerPollIndex
  split
  · exact memTriple_pure 0 fun _ _ h => h
  next hCount =>
  refine MemTriple.bind (Q := fun used db m => ∃ old, db = Option.map (advanceHackerPoll hackerCount).apply old ∧
    Coherent old m ∧ used = db.map fun row => (row.int .hackerPollIndex + hackerCount - 1) % hackerCount)
    (memTriple_step (fun db m h => ⟨db, rfl, h, rfl⟩) fun _ _ h => h) fun used => ?_
  cases used with
  | none =>
    refine MemTriple.bind (Q := fun _ => Coherent) (memTriple_mem _ fun _ _ _ _ h => nomatch h) fun _ => ?_
    exact keepsMem_getSchedulerState.bind fun state => memTriple_pure _ fun _ _ h => h
  | some used =>
    refine MemTriple.bind (Q := fun _ => Coherent) (memTriple_mem _ ?_) fun _ =>
      memTriple_pure used fun _ _ h => h
    rintro db m ⟨old, rfl, hCoherent, hUsed⟩
    cases old with
    | none => cases hUsed
    | some row =>
      have hNext : (used + 1) % hackerCount = (row.int .hackerPollIndex + 1) % hackerCount := by
        cases hUsed
        exact next_of_used (Nat.mod_lt _ (by omega))
      obtain ⟨cache⟩ := m
      intro cached hCached
      cases cache with
      | none => cases hCached
      | some copy =>
        have hCopy := hCoherent copy rfl
        subst hCopy
        cases hCached
        rw [hNext]
        rfl

/-! ## Conditional writes -/

theorem memTriple_runChanged (u : Update) :
    MemTriple Coherent (runChanged u) (fun changed db m =>
      (changed = true → Behind (fun row => row.assign (u.set row)) db m) ∧
        (changed = false → Coherent db m)) Coherent := by
  refine memTriple_step (fun db m h => ⟨fun hChanged => ?_, fun hSame => ?_⟩) fun _ _ h => h
  · cases db with
    | none => cases hChanged
    | some row =>
      have hApply : u.apply row = row.assign (u.set row) := if_pos hChanged
      show Behind _ (some (u.apply row)) m
      rw [hApply]
      exact h.behind fun row => row.assign (u.set row)
  · cases db with
    | none => exact h
    | some row =>
      have hApply : u.apply row = row := if_neg (Bool.not_eq_true _ ▸ hSame)
      show Coherent (some (u.apply row)) m
      rw [hApply]
      exact h

/-- A conditional update patches the copy where it has changed the row. -/
theorem keepsMem_conditional (data : List Assignment) (matching : SchedulerRow → Bool) :
    KeepsMem Coherent (do
      let changed ← runChanged { set := fun _ => data, matching }
      when (changed = true) (patchSchedulerCache data)
      pure changed) := by
  refine (memTriple_runChanged _).bind fun changed => ?_
  refine MemTriple.bind (Q := fun _ => Coherent) ?_ fun _ => memTriple_pure changed fun _ _ h => h
  unfold when
  split
  · next hChanged =>
    exact (memTriple_lastChange fun _ => rfl).pre fun db m h => h.1 hChanged
  · next hSame => exact memTriple_pure () fun _ _ h => h.2 (by simpa using hSame)

theorem keepsMem_maybeRefreshHackStatsDaily (today hacksJson : String) :
    KeepsMem Coherent (maybeRefreshHackStatsDaily today hacksJson) := by
  refine MemTriple.tryCatch (keepsMem_getSchedulerState.bind fun state => ?_) fun _ =>
    memTriple_pure false fun _ _ h => h
  split
  · exact memTriple_pure false fun _ _ h => h
  refine (keepsMem_conditional [.text .hackStatsDayUtc (some today)] _).bind fun claimed => ?_
  split
  · refine MemTriple.tryCatch ((keepsMem_query _).bind fun _ =>
      (keepsMem_updateSchedulerState _).bind fun _ => memTriple_pure true fun _ _ h => h) fun e => ?_
    exact (keepsMem_updateSchedulerState _).bind fun _ => memTriple_throw e fun _ _ h => h
  · exact memTriple_pure false fun _ _ h => h

/-! ## Quota -/

/-- An amount that is not given adds nothing, and the column is not in the update. -/
theorem keepsMem_addQuota {u : Update} {amounts : QuotaAmounts}
    (h : ∀ row, ∃ int : IntColumn → Nat, u.apply row = { row with int } ∧ ∀ column, int column =
      (row.assign (amounts.assignments row)).int column) :
    KeepsMem Coherent (run u >>= fun _ => addSchedulerQuotaCache amounts) := by
  refine keepsMem_write fun row => ?_
  obtain ⟨int, hApply, hInt⟩ := h row
  rw [hApply, funext hInt]
  rfl

theorem keepsMem_applyOverheadToSchedulerState (overheadReads overheadWrites : Nat) :
    KeepsMem Coherent (applyOverheadToSchedulerState overheadReads overheadWrites) :=
  keepsMem_when fun _ => keepsMem_addQuota fun row => ⟨_, rfl, fun column => by cases column <;> rfl⟩

theorem keepsMem_addQuotaUsage (source : UsageSource) (delta overhead : MeteredRows) (requests : Nat) :
    KeepsMem Coherent (addQuotaUsage source delta overhead requests) := by
  unfold addQuotaUsage
  cases source with
  | cron => exact keepsMem_addQuota fun row => ⟨_, rfl, fun column => by cases column <;> rfl⟩
  | api => exact keepsMem_addQuota fun row => ⟨_, rfl, fun column => by cases column <;> rfl⟩

theorem keepsMem_getQuotaSnapshot (today : String) : KeepsMem Coherent (getQuotaSnapshot today) :=
  keepsMem_getSchedulerState.bind fun _ => keepsMem_when fun _ => keepsMem_updateSchedulerState _

theorem keepsMem_flushQuotaUsage (source : UsageSource) (delta : MeteredRows) (requests : Nat)
    (today : String) (overhead tailOverhead : MeteredRows) :
    KeepsMem Coherent (flushQuotaUsage source delta requests today overhead tailOverhead) :=
  keepsMem_when fun _ => (keepsMem_getQuotaSnapshot today).bind fun _ =>
    (keepsMem_addQuotaUsage source delta overhead requests).bind fun _ =>
      keepsMem_when fun _ => keepsMem_applyOverheadToSchedulerState _ _

/-! ## Reads that may write -/

section Reads

variable (getTime : String → Option Int)

theorem keepsMem_clearExpiredD1QuotaPause (nowMs : Int) :
    KeepsMem Coherent (clearExpiredD1QuotaPause getTime nowMs) :=
  keepsMem_getSchedulerState.bind fun _ => keepsMem_when fun _ => keepsMem_updateSchedulerState _

theorem keepsMem_maybeUpdateLastCompletedJobCache (job : CompletedJob) :
    KeepsMem Coherent (maybeUpdateLastCompletedJobCache getTime job) :=
  keepsMem_getSchedulerState.bind fun _ => keepsMem_when fun _ => keepsMem_updateSchedulerState _

theorem keepsMem_seedLastCompletedJobCache (lastDoneJob : Option CompletedJob) :
    KeepsMem Coherent (seedLastCompletedJobCache getTime lastDoneJob) := by
  refine keepsMem_getSchedulerState.bind fun state => ?_
  split
  · exact (keepsMem_updateSchedulerState _).bind fun _ => memTriple_pure true fun _ _ h => h
  · exact memTriple_pure false fun _ _ h => h

theorem keepsMem_ensureApiThresholdDay (today : String) :
    KeepsMem Coherent (ensureApiThresholdDay today) := by
  refine keepsMem_getSchedulerState.bind fun state => ?_
  cases state with
  | none => exact memTriple_pure none fun _ _ h => h
  | some row =>
    dsimp only
    split
    · exact memTriple_pure (some row) fun _ _ h => h
    · exact (keepsMem_updateSchedulerState _).bind fun _ => memTriple_pure _ fun _ _ h => h

theorem keepsMem_recordApiThreshold (provider : ChainApiProviderId) (retryAfterAt : String)
    (strikeCount : Nat) (today ts : String) :
    KeepsMem Coherent (recordApiThreshold provider retryAfterAt strikeCount today ts) := by
  refine (keepsMem_ensureApiThresholdDay today).bind fun state => ?_
  cases provider with
  | esplora => exact keepsMem_updateSchedulerState _
  | mempool => exact keepsMem_updateSchedulerState _

theorem keepsMem_maybeMarkMonitorSnapshotDirty (before after : Option AddressRow) (nowMs : Int)
    (polledAt : String) :
    KeepsMem Coherent (maybeMarkMonitorSnapshotDirty getTime before after nowMs polledAt) :=
  keepsMem_getSchedulerState.bind fun _ => keepsMem_when fun _ =>
    (keepsMem_adjustPollDueCountDelta getTime _ _ nowMs polledAt).bind fun _ =>
      keepsMem_when fun _ => keepsMem_markDirty _

theorem keepsMem_ensureDownstreamTreeDepth (maxDepth count : Nat) :
    KeepsMem Coherent (ensureDownstreamTreeDepth maxDepth count) :=
  keepsMem_getSchedulerState.bind fun _ => keepsMem_when fun _ => keepsMem_updateSchedulerState _

theorem keepsMem_ensurePollDueCacheParams (params : PollParams) :
    KeepsMem Coherent (ensurePollDueCacheParams params) :=
  keepsMem_getSchedulerState.bind fun _ => keepsMem_when fun _ =>
    (keepsMem_updateSchedulerState _).bind fun _ => keepsMem_markDirty _

theorem keepsMem_getDownstreamMonitorStatsCached (params : PollParams) (forceRefresh : Bool)
    (inputs : MonitorInputs) :
    KeepsMem Coherent (getDownstreamMonitorStatsCached getTime params forceRefresh inputs) :=
  (keepsMem_ensureDownstreamTreeDepth _ _).bind fun _ => keepsMem_getSchedulerState.bind fun _ =>
    keepsMem_when fun _ => keepsMem_updateSchedulerState _

theorem keepsMem_refreshSyncSnapshot (params : PollParams) (inputs : SnapshotInputs) :
    KeepsMem Coherent (refreshSyncSnapshot getTime params inputs) :=
  keepsMem_getSchedulerState.bind fun _ => keepsMem_getSchedulerState.bind fun _ =>
    (keepsMem_getDownstreamMonitorStatsCached getTime params _ inputs.monitor).bind fun _ =>
      keepsMem_getSchedulerState.bind fun _ => keepsMem_updateSchedulerState _

theorem keepsMem_maybeRefreshSyncSnapshot (parse : String → Option ParsedSnapshot) (params : PollParams)
    (maxAgeSec : Nat) (nowMs : Int) (inputs : SnapshotInputs) :
    KeepsMem Coherent (maybeRefreshSyncSnapshot getTime parse params maxAgeSec nowMs inputs) :=
  keepsMem_getSchedulerState.bind fun _ => keepsMem_when fun _ =>
    keepsMem_refreshSyncSnapshot getTime params inputs

theorem keepsMem_applyAddressStatsDelta (before : Option AddressRow) (after : AddressRow) :
    KeepsMem Coherent (applyAddressStatsDelta before after) := by
  have hAdjust : ∀ (field : SchedulerCounter) (was is : Bool), KeepsMem Coherent
      (when (was ≠ is) (adjustSchedulerCounter field (if is then 1 else -1)) : CacheM Unit) :=
    fun field _ _ => keepsMem_when fun _ => keepsMem_adjustCount field.column _
  exact keepsMem_getSchedulerState.bind fun _ => (hAdjust _ _ _).bind fun _ =>
    (hAdjust _ _ _).bind fun _ => (keepsMem_when fun _ => hAdjust _ _ _).bind fun _ =>
      (hAdjust _ _ _).bind fun _ => keepsMem_when fun _ => keepsMem_updateSchedulerState _

theorem keepsMem_reconcileActiveJobCounts (counts : ActiveJobCounts) :
    KeepsMem Coherent (reconcileActiveJobCounts counts) :=
  (memTriple_write _).bind fun _ => memTriple_mem _ fun _ _ _ _ h => nomatch h

theorem keepsMem_reconcileCheapCounters (crawlPending pendingJob : Nat) (counts : ActiveJobCounts) :
    KeepsMem Coherent (reconcileCheapCounters crawlPending pendingJob counts) :=
  (keepsMem_updateSchedulerState _).bind fun _ => (keepsMem_updateSchedulerState _).bind fun _ =>
    keepsMem_reconcileActiveJobCounts counts

theorem keepsMem_reconcileStatsCounters (crawlPending pendingJob : Nat) (active : ActiveJobCounts)
    (counts : StatsCounts) :
    KeepsMem Coherent (reconcileStatsCounters crawlPending pendingJob active counts) :=
  (keepsMem_reconcileCheapCounters crawlPending pendingJob active).bind fun _ =>
    keepsMem_getSchedulerState.bind fun _ => keepsMem_updateSchedulerState _

theorem keepsMem_getRecentHackersActivity : KeepsMem Coherent getRecentHackersActivity := by
  refine MemTriple.bind (Q := fun _ => Coherent) (memTriple_mem _ fun _ _ h => h) fun cached => ?_
  cases cached with
  | some row => exact memTriple_pure _ fun _ _ h => h
  | none => exact keepsMem_query _

theorem keepsMem_flushRecentHackerActivity (merge : Option String → Option String) :
    KeepsMem Coherent (flushRecentHackerActivity merge) := by
  refine keepsMem_getRecentHackersActivity.bind fun existing => ?_
  split
  · exact memTriple_pure false fun _ _ h => h
  · exact (memTriple_write _).bind fun _ => (memTriple_lastChange fun _ => rfl).bind fun _ =>
      memTriple_pure true fun _ _ h => h

end Reads

/-! ## Calls -/

/-- A call of a method on the row, with what it is given and what it reads elsewhere. -/
inductive SchedulerCall where
  | clearSchedulerStateCache
  | getSchedulerState
  | updateSchedulerState (data : List Assignment)
  | setBtcUsdPrice (usd : Rat) (at_ : String)
  | setBtcUsdRefreshAttemptAt (at_ : String)
  | setCronIndexerPaused (paused : Bool)
  | setQueueSchedulingPaused (paused : Bool)
  | invalidateFlaggedHackersCache
  | refreshFlaggedHackersCache (rowsJson at_ : String)
  | setD1QuotaPaused (kind : D1QuotaKind) (retryAt : String)
  | clearExpiredD1QuotaPause (nowMs : Int)
  | setBackfillHealAuditIndex (index : Nat)
  | setHackerPollIndex (index : Nat)
  | incrementMaintenanceCronCounter
  | claimNextHackerPollIndex (hackerCount : Nat)
  | ensureApiThresholdDay (today : String)
  | recordApiThreshold (provider : ChainApiProviderId) (retryAfterAt : String) (strikeCount : Nat)
      (today ts : String)
  | clearProviderStrike (provider : ChainApiProviderId)
  | tryAcquireTickLease (nowIso untilIso : String)
  | clearTickLease
  | adjustCrawlPendingCount (delta : Int)
  | adjustPendingJobCount (delta : Int)
  | adjustActiveJobCount (type : JobType) (delta : Int)
  | afterJobInserted (type : JobType)
  | deleteActiveJobs
  | maybeUpdateLastCompletedJobCache (job : CompletedJob)
  | seedLastCompletedJobCache (lastDoneJob : Option CompletedJob)
  | markJobSnapshotDirty
  | markMonitorSnapshotDirty
  | markSyncSnapshotDirty
  | adjustPollDueCountDelta (delta : Int) (params : PollParams) (nowMs : Int) (polledAt : String)
  | maybeMarkMonitorSnapshotDirty (before after : Option AddressRow) (nowMs : Int) (polledAt : String)
  | adjustSchedulerCounter (field : SchedulerCounter) (delta : Int)
  | adjustEdgeTotalsCounters (totalInDelta totalOutDelta : Int)
  | applyAddressStatsDelta (before : Option AddressRow) (after : AddressRow)
  | reconcileDownstreamTreeCount (maxDepth count : Nat)
  | ensureDownstreamTreeDepth (maxDepth count : Nat)
  | ensurePollDueCacheParams (params : PollParams)
  | getDownstreamMonitorStatsCached (params : PollParams) (forceRefresh : Bool) (inputs : MonitorInputs)
  | refreshSyncSnapshot (params : PollParams) (inputs : SnapshotInputs)
  | maybeRefreshSyncSnapshot (params : PollParams) (maxAgeSec : Nat) (nowMs : Int)
      (inputs : SnapshotInputs)
  | reconcileCrawlPendingCount (count : Nat)
  | reconcilePendingJobCount (count : Nat)
  | reconcileActiveJobCounts (counts : ActiveJobCounts)
  | reconcileCheapCounters (crawlPending pendingJob : Nat) (counts : ActiveJobCounts)
  | reconcileStatsCounters (crawlPending pendingJob : Nat) (active : ActiveJobCounts)
      (counts : StatsCounts)
  | tryClaimHackStatsDay (today : String)
  | rollbackHackStatsDayClaim (previousDay : Option String)
  | maybeRefreshHackStatsDaily (today hacksJson : String)
  | getQuotaSnapshot (today : String)
  | applyOverheadToSchedulerState (overheadReads overheadWrites : Nat)
  | flushQuotaUsage (source : UsageSource) (delta : MeteredRows) (requests : Nat) (today : String)
      (overhead tailOverhead : MeteredRows)
  | getRecentHackersActivity
  | flushRecentHackerActivity (merge : Option String → Option String)

section Calls

variable (getTime : String → Option Int) (parse : String → Option ParsedSnapshot)

/-- The method, without its result. -/
def SchedulerCall.run : SchedulerCall → CacheM Unit
  | .clearSchedulerStateCache => SchedulerCache.clearSchedulerStateCache
  | .getSchedulerState => discard SchedulerCache.getSchedulerState
  | .updateSchedulerState data => SchedulerCache.updateSchedulerState data
  | .setBtcUsdPrice usd at_ => SchedulerCache.setBtcUsdPrice usd at_
  | .setBtcUsdRefreshAttemptAt at_ => SchedulerCache.setBtcUsdRefreshAttemptAt at_
  | .setCronIndexerPaused paused => SchedulerCache.setCronIndexerPaused paused
  | .setQueueSchedulingPaused paused => SchedulerCache.setQueueSchedulingPaused paused
  | .invalidateFlaggedHackersCache => SchedulerCache.invalidateFlaggedHackersCache
  | .refreshFlaggedHackersCache rowsJson at_ => SchedulerCache.refreshFlaggedHackersCache rowsJson at_
  | .setD1QuotaPaused kind retryAt => SchedulerCache.setD1QuotaPaused kind retryAt
  | .clearExpiredD1QuotaPause nowMs => SchedulerCache.clearExpiredD1QuotaPause getTime nowMs
  | .setBackfillHealAuditIndex index => SchedulerCache.setBackfillHealAuditIndex index
  | .setHackerPollIndex index => SchedulerCache.setHackerPollIndex index
  | .incrementMaintenanceCronCounter => discard SchedulerCache.incrementMaintenanceCronCounter
  | .claimNextHackerPollIndex hackerCount => discard (SchedulerCache.claimNextHackerPollIndex hackerCount)
  | .ensureApiThresholdDay today => discard (SchedulerCache.ensureApiThresholdDay today)
  | .recordApiThreshold provider retryAfterAt strikeCount today ts =>
    SchedulerCache.recordApiThreshold provider retryAfterAt strikeCount today ts
  | .clearProviderStrike provider => SchedulerCache.clearProviderStrike provider
  | .tryAcquireTickLease nowIso untilIso => discard (SchedulerCache.tryAcquireTickLease nowIso untilIso)
  | .clearTickLease => SchedulerCache.clearTickLease
  | .adjustCrawlPendingCount delta => SchedulerCache.adjustCrawlPendingCount delta
  | .adjustPendingJobCount delta => SchedulerCache.adjustPendingJobCount delta
  | .adjustActiveJobCount type delta => SchedulerCache.adjustActiveJobCount type delta
  | .afterJobInserted type => SchedulerCache.afterJobInserted type
  | .deleteActiveJobs => SchedulerCache.deleteActiveJobs
  | .maybeUpdateLastCompletedJobCache job => SchedulerCache.maybeUpdateLastCompletedJobCache getTime job
  | .seedLastCompletedJobCache lastDoneJob =>
    discard (SchedulerCache.seedLastCompletedJobCache getTime lastDoneJob)
  | .markJobSnapshotDirty => SchedulerCache.markJobSnapshotDirty
  | .markMonitorSnapshotDirty => SchedulerCache.markMonitorSnapshotDirty
  | .markSyncSnapshotDirty => SchedulerCache.markSyncSnapshotDirty
  | .adjustPollDueCountDelta delta params nowMs polledAt =>
    discard (SchedulerCache.adjustPollDueCountDelta getTime delta params nowMs polledAt)
  | .maybeMarkMonitorSnapshotDirty before after nowMs polledAt =>
    SchedulerCache.maybeMarkMonitorSnapshotDirty getTime before after nowMs polledAt
  | .adjustSchedulerCounter field delta => SchedulerCache.adjustSchedulerCounter field delta
  | .adjustEdgeTotalsCounters totalIn totalOut => SchedulerCache.adjustEdgeTotalsCounters totalIn totalOut
  | .applyAddressStatsDelta before after => SchedulerCache.applyAddressStatsDelta before after
  | .reconcileDownstreamTreeCount maxDepth count => SchedulerCache.reconcileDownstreamTreeCount maxDepth count
  | .ensureDownstreamTreeDepth maxDepth count => SchedulerCache.ensureDownstreamTreeDepth maxDepth count
  | .ensurePollDueCacheParams params => SchedulerCache.ensurePollDueCacheParams params
  | .getDownstreamMonitorStatsCached params forceRefresh inputs =>
    SchedulerCache.getDownstreamMonitorStatsCached getTime params forceRefresh inputs
  | .refreshSyncSnapshot params inputs => SchedulerCache.refreshSyncSnapshot getTime params inputs
  | .maybeRefreshSyncSnapshot params maxAgeSec nowMs inputs =>
    SchedulerCache.maybeRefreshSyncSnapshot getTime parse params maxAgeSec nowMs inputs
  | .reconcileCrawlPendingCount count => SchedulerCache.reconcileCrawlPendingCount count
  | .reconcilePendingJobCount count => SchedulerCache.reconcilePendingJobCount count
  | .reconcileActiveJobCounts counts => SchedulerCache.reconcileActiveJobCounts counts
  | .reconcileCheapCounters crawlPending pendingJob counts =>
    SchedulerCache.reconcileCheapCounters crawlPending pendingJob counts
  | .reconcileStatsCounters crawlPending pendingJob active counts =>
    SchedulerCache.reconcileStatsCounters crawlPending pendingJob active counts
  | .tryClaimHackStatsDay today => discard (SchedulerCache.tryClaimHackStatsDay today)
  | .rollbackHackStatsDayClaim previousDay => SchedulerCache.rollbackHackStatsDayClaim previousDay
  | .maybeRefreshHackStatsDaily today hacksJson =>
    discard (SchedulerCache.maybeRefreshHackStatsDaily today hacksJson)
  | .getQuotaSnapshot today => SchedulerCache.getQuotaSnapshot today
  | .applyOverheadToSchedulerState reads writes => SchedulerCache.applyOverheadToSchedulerState reads writes
  | .flushQuotaUsage source delta requests today overhead tailOverhead =>
    SchedulerCache.flushQuotaUsage source delta requests today overhead tailOverhead
  | .getRecentHackersActivity => discard SchedulerCache.getRecentHackersActivity
  | .flushRecentHackerActivity merge => discard (SchedulerCache.flushRecentHackerActivity merge)

/-- Every method keeps the copy coherent, wherever it stops. -/
theorem keepsMem_call (call : SchedulerCall) : KeepsMem Coherent (call.run getTime parse) := by
  cases call with
  | clearSchedulerStateCache => exact keepsMem_clear
  | getSchedulerState => exact keepsMem_getSchedulerState.discard
  | incrementMaintenanceCronCounter => exact keepsMem_incrementMaintenanceCronCounter.discard
  | claimNextHackerPollIndex hackerCount => exact (keepsMem_claimNextHackerPollIndex hackerCount).discard
  | ensureApiThresholdDay today => exact (keepsMem_ensureApiThresholdDay today).discard
  | recordApiThreshold => exact keepsMem_recordApiThreshold _ _ _ _ _
  | clearProviderStrike provider => cases provider <;> exact keepsMem_updateSchedulerState _
  | setD1QuotaPaused kind => cases kind <;> exact keepsMem_updateSchedulerState _
  | clearExpiredD1QuotaPause => exact keepsMem_clearExpiredD1QuotaPause getTime _
  | tryAcquireTickLease => exact (keepsMem_conditional _ _).discard
  | tryClaimHackStatsDay => exact (keepsMem_conditional _ _).discard
  | clearTickLease => exact keepsMem_clearTickLease
  | adjustCrawlPendingCount | adjustPendingJobCount | adjustSchedulerCounter =>
    exact keepsMem_adjustCount _ _
  | adjustActiveJobCount type delta => exact keepsMem_adjustActiveJobCount type delta
  | afterJobInserted type =>
    exact (keepsMem_adjustCount _ _).bind fun _ => keepsMem_adjustActiveJobCount type 1
  | maybeUpdateLastCompletedJobCache => exact keepsMem_maybeUpdateLastCompletedJobCache getTime _
  | seedLastCompletedJobCache => exact (keepsMem_seedLastCompletedJobCache getTime _).discard
  | markJobSnapshotDirty | markMonitorSnapshotDirty => exact keepsMem_markDirty _
  | markSyncSnapshotDirty => exact (keepsMem_markDirty _).bind fun _ => keepsMem_markDirty _
  | adjustPollDueCountDelta => exact (keepsMem_adjustPollDueCountDelta getTime _ _ _ _).discard
  | maybeMarkMonitorSnapshotDirty => exact keepsMem_maybeMarkMonitorSnapshotDirty getTime _ _ _ _
  | adjustEdgeTotalsCounters => exact keepsMem_adjustEdgeTotalsCounters _ _
  | applyAddressStatsDelta => exact keepsMem_applyAddressStatsDelta _ _
  | ensureDownstreamTreeDepth => exact keepsMem_ensureDownstreamTreeDepth _ _
  | ensurePollDueCacheParams => exact keepsMem_ensurePollDueCacheParams _
  | getDownstreamMonitorStatsCached => exact keepsMem_getDownstreamMonitorStatsCached getTime _ _ _
  | refreshSyncSnapshot => exact keepsMem_refreshSyncSnapshot getTime _ _
  | maybeRefreshSyncSnapshot => exact keepsMem_maybeRefreshSyncSnapshot getTime parse _ _ _ _
  | reconcileActiveJobCounts counts => exact keepsMem_reconcileActiveJobCounts counts
  | reconcileCheapCounters => exact keepsMem_reconcileCheapCounters _ _ _
  | reconcileStatsCounters => exact keepsMem_reconcileStatsCounters _ _ _ _
  | maybeRefreshHackStatsDaily => exact (keepsMem_maybeRefreshHackStatsDaily _ _).discard
  | getQuotaSnapshot => exact keepsMem_getQuotaSnapshot _
  | applyOverheadToSchedulerState => exact keepsMem_applyOverheadToSchedulerState _ _
  | flushQuotaUsage => exact keepsMem_flushQuotaUsage _ _ _ _ _ _
  | getRecentHackersActivity => exact keepsMem_getRecentHackersActivity.discard
  | flushRecentHackerActivity merge => exact (keepsMem_flushRecentHackerActivity merge).discard
  | _ => exact keepsMem_updateSchedulerState _

/-- From a store without a copy, after any calls, whatever fails in them, a copy that there is equals
the row of the database. -/
theorem coherent_of_calls {db : Option SchedulerRow} {after : Option SchedulerRow × Memory}
    (hCalls : Calls (SchedulerCall.run getTime parse) (db, {}) after) : Coherent after.1 after.2 :=
  calls_invariant (keepsMem_call getTime parse) hCalls fun _ h => nomatch h

end Calls

/-- No text is a date. -/
def noDate (_ : String) : Option Int := none

def noSnapshot (_ : String) : Option ParsedSnapshot := none

def afterCall (call : SchedulerCall) (before : Option SchedulerRow × Memory) : Option SchedulerRow × Memory :=
  ((call.run noDate noSnapshot).final before.1 ⟨before.2, []⟩,
    (call.run noDate noSnapshot before.1 ⟨before.2, []⟩).ctl.mem)

/-- The row of a leased tick. -/
def leasedRow : SchedulerRow where
  int _ := 1
  real _ := none
  text column := if column = .tickLeaseUntil then some "2026-01-02T00:00:00.000Z" else none

/-- A read, a lease that is refused, and an adjustment of the edge totals. -/
def leasedStore : Option SchedulerRow × Memory :=
  afterCall (.adjustEdgeTotalsCounters (-3) 0)
    (afterCall (.tryAcquireTickLease "2026-01-01T00:00:00.000Z" "2026-01-01T00:05:00.000Z")
      (afterCall .getSchedulerState (some leasedRow, {})))

theorem coherent_leasedStore : leasedStore.2.schedulerStateCache = some leasedStore.1 := by
  have hCalls : Calls (SchedulerCall.run noDate noSnapshot) (some leasedRow, {}) leasedStore :=
    ((Relation.ReflTransGen.single ⟨_, [], rfl⟩).tail ⟨_, [], rfl⟩).tail ⟨_, [], rfl⟩
  obtain ⟨row, hRow⟩ : ∃ row, leasedStore.2.schedulerStateCache = some row := ⟨_, rfl⟩
  rw [hRow, coherent_of_calls noDate noSnapshot hCalls row hRow]

end Bloodhound.SchedulerCache
