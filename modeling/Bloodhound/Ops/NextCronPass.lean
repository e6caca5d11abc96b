import Bloodhound.Ops.NextCronParts

/-!
# The preview of the next cron pass, against the pass

The preview lists what is due and has no active job. The pass makes fewer requests of some kinds and
others of other kinds, and the queue may refuse them. `previewNextCron_iff` says when the two agree
nevertheless.
-/

namespace Bloodhound.Ops

open Indexer Store Journal
open Indexer.Cron (tick status needsBackfill isComplete backfillPayload backfillRequest auditRequest
  refreshRequest pollRequest expandRequest pollDownstreamRequest queue expanded)

section Parts

variable {k : Cron} {low : BudgetLow} {db : Db}

/-! ### The lists as a whole -/

theorem rank_maintenanceJobs {key : JobKey} (hKey : key ∈ maintenanceJobs k low db keys) :
    rank key.1 = 1 := by
  obtain ⟨r, hr, rfl⟩ := Gate.exists_of_mem_admitted hKey
  obtain ⟨h, -, hr⟩ := List.mem_flatMap.mp hr
  have hAsk : ∀ {cond : Bool} {r' : Request}, r ∈ ask cond r' → r = r' := fun {cond r'} hMem => by
    cases cond with
    | true => exact List.mem_singleton.mp hMem
    | false => cases hMem
  unfold Cron.maintenanceRequests at hr
  rcases List.mem_append.mp hr with hFirst | hSecond
  · split at hFirst
    · rw [List.mem_singleton.mp hFirst]
      rfl
    · rw [hAsk hFirst]
      rfl
  · split at hSecond
    · cases hSecond
    · rcases List.mem_append.mp hSecond with hMem | hMem <;> rw [hAsk hMem] <;> rfl

theorem rank_dueMaintenance {key : JobKey} (hKey : key ∈ dueMaintenance k db) : rank key.1 = 1 := by
  obtain ⟨h, -, hKey⟩ := List.mem_flatMap.mp hKey
  rw [previewMaintain_eq] at hKey
  rcases List.mem_append.mp hKey with hKey | hKey <;> rcases List.mem_append.mp hKey with hKey | hKey <;>
    rw [mem_opt hKey] <;> rfl

/-- The jobs of a pass of each kind, against those of a preview. -/
theorem parts_eq_iff {s m e p s' m' o r e' p' : List JobKey}
    (hs : ∀ key ∈ s, rank key.1 = 0) (hm : ∀ key ∈ m, rank key.1 = 1) (he : ∀ key ∈ e, rank key.1 = 3)
    (hp : ∀ key ∈ p, rank key.1 = 4) (hs' : ∀ key ∈ s', rank key.1 = 0)
    (hm' : ∀ key ∈ m', rank key.1 = 1)
    (ho : ∀ key ∈ o, rank key.1 = 2) (hr : ∀ key ∈ r, rank key.1 = 1) (he' : ∀ key ∈ e', rank key.1 = 3)
    (hp' : ∀ key ∈ p', rank key.1 = 4) :
    s ++ m ++ e ++ p = s' ++ m' ++ o ++ r ++ e' ++ p' ↔
      s = s' ∧ m = m' ++ r ∧ o = [] ∧ e = e' ∧ p = p' := by
  have hOf : ∀ (i : Nat) {j : Nat} {l : List JobKey}, (∀ key ∈ l, rank key.1 = j) →
      l.filter (fun key => rank key.1 = i) = if j = i then l else [] := by
    intro i j l hl
    split
    · next hEq => exact List.filter_eq_self.mpr fun key hKey => by simp [hl key hKey, hEq]
    · next hNe => exact List.filter_eq_nil_iff.mpr fun key hKey => by simp [hl key hKey, hNe]
  constructor
  · intro hEq
    have hPart : ∀ i : Nat, _ := fun i => congrArg (List.filter fun key => rank key.1 = i) hEq
    simp only [List.filter_append, hOf _ hs, hOf _ hm, hOf _ he, hOf _ hp, hOf _ hs', hOf _ hm',
      hOf _ ho, hOf _ hr, hOf _ he', hOf _ hp'] at hPart
    exact ⟨by simpa using hPart 0, by simpa using hPart 1, by simpa using (hPart 2).symm,
      by simpa using hPart 3, by simpa using hPart 4⟩
  · rintro ⟨rfl, rfl, rfl, rfl, rfl⟩
    simp

theorem expanded_map (addresses : List Address) :
    expanded (addresses.map fun address => ((.expandDownstream, some address) : JobKey)) = addresses := by
  rw [expanded, List.filterMap_map]
  exact List.filterMap_some

/-- The jobs of a pass, part by part. -/
theorem scheduled_eq (hRebuild : k.rebuildActive db = false) (hBlocked : k.writeBlocked db = false)
    {s m o r : List JobKey} (hs : Gate.admitted (takes k.env db) Request.key [] (k.syncRequests low db) = s)
    (hm : maintenanceJobs k low db s = m)
    (ho : opt (backfillsOpReturn k low db (s ++ m).length) (.backfillOpReturn, none) = o)
    (hr : ((resumed k low db (s ++ m ++ o)).toList.map fun address =>
      (.backfillHackerAddress, some address)) = r) :
    k.scheduled low db = s ++ m ++ o ++ r ++
      ((expansions k low db (s ++ m ++ o ++ r).length).map fun address =>
        (.expandDownstream, some address)) ++
      ((downstreamPolls k low db ((s ++ m ++ o ++ r).length +
        (expansions k low db (s ++ m ++ o ++ r).length).length)
        (expansions k low db (s ++ m ++ o ++ r).length)).map fun address =>
          (.pollDownstreamAddress, some address)) := by
  have hSyncs : ∀ key ∈ s, rank key.1 = 0 := fun key hKey => by
    rw [← hs, syncJobs_eq] at hKey
    split at hKey
    · exact rank_dueSyncs (List.mem_of_mem_take hKey)
    · cases hKey
  have hSome : ∀ key ∈ s ++ m, rank key.1 < 2 := fun key hKey => by
    rcases List.mem_append.mp hKey with hMem | hMem
    · rw [hSyncs key hMem]
      decide
    · rw [rank_maintenanceJobs (hm ▸ hMem)]
      decide
  have hMore : ∀ key ∈ s ++ m ++ o ++ r, rank key.1 < 3 := fun key hKey => by
    rcases List.mem_append.mp hKey with hKey | hMem
    · rcases List.mem_append.mp hKey with hMem | hMem
      · exact (hSome key hMem).trans (by decide)
      · rw [← ho] at hMem
        rw [mem_opt hMem]
        exact (by decide : (2 : Nat) < 3)
    · rw [← hr] at hMem
      obtain ⟨address, -, rfl⟩ := List.mem_map.mp hMem
      exact (by decide : (1 : Nat) < 3)
  have hMaintained : k.maintainedJobs low db = s ++ m := by
    rw [Cron.maintainedJobs, after, Gate.admitted_append, List.nil_append, List.nil_append, hs]
    exact congrArg (s ++ ·) hm
  have hOpReturn := @opReturnJobs_eq k low db (s ++ m) hSome
  have hResume := @resumeJobs_eq k low db (s ++ m ++ o)
  have hExpand := @expandJobs_eq k low db _ hMore
  have hAll : ∀ key ∈ s ++ m ++ o ++ r ++ (expansions k low db (s ++ m ++ o ++ r).length).map
      fun address => ((.expandDownstream, some address) : JobKey), rank key.1 < 4 := fun key hKey => by
    rcases List.mem_append.mp hKey with hMem | hMem
    · exact (hMore key hMem).trans (by decide)
    · obtain ⟨address, -, rfl⟩ := List.mem_map.mp hMem
      exact (by decide : (3 : Nat) < 4)
  have hPoll := @pollJobs_eq k low db _ hAll
    (expansions k low db (s ++ m ++ o ++ r).length)
  have hLength : (s ++ m ++ o ++ r ++ (expansions k low db (s ++ m ++ o ++ r).length).map
      fun address => ((.expandDownstream, some address) : JobKey)).length =
      (s ++ m ++ o ++ r).length + (expansions k low db (s ++ m ++ o ++ r).length).length := by
    rw [List.length_append, List.length_map]
  rw [ho] at hOpReturn
  rw [hr] at hResume
  rw [hLength] at hPoll
  rw [← hExpand, ← hPoll, Cron.scheduled, hRebuild, hBlocked, hMaintained]
  cases hFree : k.free low db with
  | false =>
    rw [hFree] at hOpReturn hResume
    rw [← hOpReturn, ← hResume]
    simp
  | true =>
    rw [hFree, if_pos rfl] at hOpReturn hResume hExpand
    unfold Cron.crawledJobs after
    simp only [Bool.or_self, if_true, if_false, Bool.false_eq_true, hOpReturn, hResume, hExpand]
    rw [show Gate.admitted (takes k.env db) Request.key (s ++ m ++ o ++ r) (k.expandRequests low db) =
      _ from hExpand, expanded_map]

/-- The jobs that a preview lists, part by part. -/
theorem jobs_preview (lastSeenAt : Address → Nat) (hRebuild : k.rebuildActive db = false) :
    (previewNextCronEnqueue k lastSeenAt db).jobs = dueSyncs k db ++ dueMaintenance k db ++
      ((unqueued db .expandDownstream (getDownstreamFrontier k lastSeenAt db)).map fun address =>
        (.expandDownstream, some address)) ++
      ((unqueued db .pollDownstreamAddress
        (listDownstreamForPoll k.env.config k.polls k.nowMs db)).map fun address =>
          (.pollDownstreamAddress, some address)) := by
  have hMaintenance : ((previewHacker k db).map fun h => (h.address,
      previewMaintainOneHacker k db h (k.throttled db))).toList.flatMap (fun m =>
        m.2.map fun type => (type, some m.1)) = dueMaintenance k db := by
    unfold dueMaintenance
    cases previewHacker k db <;> rfl
  unfold previewNextCronEnqueue NextCronPreview.jobs
  rw [hRebuild, if_neg Bool.false_ne_true]
  dsimp only
  rw [hMaintenance, List.map_map, dueSyncs, Cron.syncs]
  congr 3
  simp only [List.filter_cons, List.filter_nil]
  cases previewSync k db (.syncColdcardwatch, [.coldcardwatch],
    k.env.config.coldcardwatchSyncIntervalSec) <;>
  cases previewSync k db (.syncVercelTrackers, [.coldcardHackTracker, .coldcardSweepWatch],
    k.env.config.vercelTrackersSyncIntervalSec) <;>
  cases previewSync k db (.syncBitqueryColdcard, [.bitqueryColdcard],
    k.env.config.bitqueryColdcardSyncIntervalSec) <;> rfl

theorem map_address_inj {type : JobType} {addresses addresses' : List Address} :
    addresses.map (fun address => ((type, some address) : JobKey)) =
      addresses'.map (fun address => (type, some address)) ↔ addresses = addresses' :=
  (List.map_injective_iff.mpr fun a a' hEq => by simpa using hEq).eq_iff

/-- A pass that is not stopped enqueues what the preview lists. -/
theorem passMatches_iff (lastSeenAt : Address → Nat) (hRebuild : k.rebuildActive db = false)
    (hBlocked : k.writeBlocked db = false) :
    (previewNextCronEnqueue k lastSeenAt db).jobs = k.scheduled low db ↔
      PassMatches k low lastSeenAt db := by
  have hOne : ∀ {i : Nat} {type : JobType} {addresses : List Address}, rank type = i →
      ∀ key ∈ addresses.map (fun address => ((type, some address) : JobKey)), rank key.1 = i := by
    intro i type addresses hRank key hKey
    obtain ⟨address, -, rfl⟩ := List.mem_map.mp hKey
    exact hRank
  have hSyncs : ∀ key ∈ Gate.admitted (takes k.env db) Request.key [] (k.syncRequests low db),
      rank key.1 = 0 := fun key hKey => by
    rw [syncJobs_eq] at hKey
    split at hKey
    · exact rank_dueSyncs (List.mem_of_mem_take hKey)
    · cases hKey
  have hDue : ∀ key ∈ dueSyncs k db, rank key.1 < 1 := fun key hKey => by
    rw [rank_dueSyncs hKey]
    decide
  rw [jobs_preview lastSeenAt hRebuild, scheduled_eq hRebuild hBlocked rfl rfl rfl rfl,
    parts_eq_iff (fun _ => rank_dueSyncs) (fun _ => rank_dueMaintenance) (hOne rfl) (hOne rfl) hSyncs
      (fun _ => rank_maintenanceJobs) (fun key hKey => by rw [mem_opt hKey]; rfl) (hOne rfl) (hOne rfl)
      (hOne rfl), map_address_inj, map_address_inj]
  constructor
  · rintro ⟨hS, hM, hO, hE, hP⟩
    rw [← hS] at hM hO hE hP
    rw [hO] at hE hP hM
    rw [opt_eq_nil] at hO
    simp only [List.append_nil] at hM hE hP
    rw [List.append_assoc, ← hM] at hE hP
    refine ⟨syncs_iff.mp hS.symm, ?_, hE, by rw [hE]; exact hP⟩
    cases hResumed : resumed k low db (dueSyncs k db ++ maintenanceJobs k low db (dueSyncs k db)) with
    | none =>
      rw [hResumed] at hM
      simp only [Option.toList_none, List.map_nil, List.append_nil] at hM
      rw [← hM] at hO hResumed
      exact .inl ⟨(maintenance_iff hDue).mp hM.symm, hO, hResumed⟩
    | some address =>
      rw [hResumed] at hM
      obtain ⟨h, hHacker, hAddress, hNil⟩ := only_backfill_of_append hM
      rw [hNil, List.append_nil] at hO hResumed
      rw [hNil, List.nil_append] at hM
      have hOnly : dueMaintenance k db = [(.backfillHackerAddress, some h.address)] := by
        rw [hM, ← hAddress]
        rfl
      exact .inr ⟨h, hHacker, hOnly, (maintenanceJobs_eq_nil_iff hDue hHacker hOnly).mp hNil, hO,
        hResumed.trans hAddress⟩
  · intro hMatches
    have hS := (syncs_iff.mpr hMatches.syncs).symm
    rw [← hS]
    have hRest : opt (backfillsOpReturn k low db
          (dueSyncs k db ++ maintenanceJobs k low db (dueSyncs k db)).length) (.backfillOpReturn, none) =
        [] ∧ dueMaintenance k db = maintenanceJobs k low db (dueSyncs k db) ++
          (resumed k low db (dueSyncs k db ++ maintenanceJobs k low db (dueSyncs k db))).toList.map
            fun address => (.backfillHackerAddress, some address) := by
      rcases hMatches.maintenance with ⟨hFits, hOpReturn, hResumed⟩ |
        ⟨h, hHacker, hOnly, hNot, hOpReturn, hResumed⟩
      · rw [(maintenance_iff hDue).mpr hFits, hResumed]
        exact ⟨opt_eq_nil.mpr hOpReturn, (List.append_nil _).symm⟩
      · rw [(maintenanceJobs_eq_nil_iff hDue hHacker hOnly).mpr hNot, List.append_nil, hResumed]
        exact ⟨opt_eq_nil.mpr hOpReturn, hOnly⟩
    obtain ⟨hO, hM⟩ := hRest
    have hAll : dueSyncs k db ++ maintenanceJobs k low db (dueSyncs k db) ++ [] ++
        ((resumed k low db (dueSyncs k db ++ maintenanceJobs k low db (dueSyncs k db) ++ [])).toList.map
          fun address => (.backfillHackerAddress, some address)) =
        dueSyncs k db ++ dueMaintenance k db := by
      rw [List.append_nil, List.append_assoc, ← hM]
    rw [hO, hAll, List.append_nil, ← hMatches.frontier]
    exact ⟨rfl, hM, rfl, rfl, hMatches.polls⟩

end Parts

/-! ## The preview against the pass -/

/-- The preview lists what a pass enqueues that returns, from the same state and at the same time,
exactly where `PreviewHolds` does. -/
theorem previewNextCron_iff {k : Cron} {low : BudgetLow} {lastSeenAt : Address → Nat} {db : Db}
    {c : Ctl Mem Err} (hClock : k.ReadsClock low db c) {stats : ScheduleTickStats}
    (hOk : (scheduleTick k.env k.polls k.hackers low db c).res = .ok stats) :
    (previewNextCronEnqueue k lastSeenAt db).jobs =
        insertedSince db ((scheduleTick k.env k.polls k.hackers low).final db c) ↔
      PreviewHolds k low lastSeenAt db := by
  rw [Cron.insertedSince_scheduleTick k hClock hOk, PreviewHolds]
  cases hRebuild : k.rebuildActive db with
  | true =>
    refine iff_of_true ?_ (.inl rfl)
    rw [previewNextCronEnqueue, if_pos hRebuild, Cron.scheduled, hRebuild]
    rfl
  | false =>
    rw [or_iff_right Bool.false_ne_true]
    cases hBlocked : k.writeBlocked db with
    | false => exact passMatches_iff lastSeenAt hRebuild hBlocked
    | true =>
      rw [if_pos rfl, jobs_preview lastSeenAt hRebuild, Cron.scheduled, hRebuild, hBlocked]
      simp only [Bool.or_true, if_true, List.append_eq_nil_iff, List.map_eq_nil_iff]
      constructor
      · rintro ⟨⟨⟨hSyncs, hMaintenance⟩, hFrontier⟩, hPolls⟩
        exact ⟨hSyncs, hMaintenance, hFrontier, hPolls⟩
      · rintro ⟨hSyncs, hMaintenance, hFrontier, hPolls⟩
        exact ⟨⟨⟨hSyncs, hMaintenance⟩, hFrontier⟩, hPolls⟩

/-- One hacker, maintained in every tick, in the first hour. -/
def oneHackerCron : Cron where
  env := { provider := .ofTxs [], config := { hackerMaintenanceEveryNCrons := 1 } }
  hackers := [⟨name "h", none⟩]
  nowMs := 3600000

/-- Its backfill is complete, and its poll is due; an address that it pays waits for its expansion. -/
def oneHackerDb : Db :=
  let hacker : AddressRow :=
    { role := .hacker
      hackId := "coldcard"
      isFlaggedHacker := true
      hopFromHacker := some 0
      expandStatus := .expanded
      expandProfile := none
      totalReceivedSats := 0
      inboundSats := 0 }
  let paid : AddressRow :=
    { hacker with
      role := .downstream
      isFlaggedHacker := false
      hopFromHacker := some 1
      expandStatus := .pending
      inboundSats := 100000 }
  let payment : EdgeRow :=
    { amountSats := 100000
      direction := .outFromHacker
      blockTime := none
      hopFromHacker := some 1
      edgeKind := none
      fanoutMeta := none }
  { Db.initial with
    addresses := AList.insert (name "h") hacker (AList.insert (name "d") paid ∅)
    edges := AList.insert ⟨name "h", name "d", name "t"⟩ payment ∅
    syncState := AList.insert (name "h") { backfillComplete := true, lastBackfillAuditAt := some 3600000 }
      (AList.insert (name "d") { lastPolledAt := some 3600000 } ∅) }

/-- The pass synchronizes, polls the hacker and expands the address, as the preview says. -/
theorem previewNextCron_first : PreviewHolds oneHackerCron {} (fun _ => 0) oneHackerDb :=
  (@previewNextCron_iff oneHackerCron {} (fun _ => 0) oneHackerDb
    ⟨{ clock := List.replicate 30 3600000 }, []⟩ ⟨⟨_, rfl⟩, List.replicate 17 3600000, by decide +kernel⟩
    { crawlEnqueued := 1, maintTick := true, picks := some ⟨some 0, some 0⟩ } (by decide +kernel)).mp
    (by decide +kernel)

/-- A downstream address two hops away. -/
def twoHopsDb : Db :=
  let row : AddressRow :=
    { role := .downstream
      hackId := "coldcard"
      isFlaggedHacker := false
      hopFromHacker := some 2
      expandStatus := .pending
      expandProfile := none
      totalReceivedSats := 0
      inboundSats := 100000 }
  { Db.initial with addresses := AList.insert (name "d") row ∅ }

/-- The preview lists the expansion of an address two hops away, and the pass expands the direct
targets of a hacker only. -/
theorem previewNextCron_misled : ¬ ∀ (k : Cron) (low : BudgetLow) (lastSeenAt : Address → Nat) (db : Db)
    (c : Ctl Mem Err) (stats : ScheduleTickStats), k.ReadsClock low db c →
    (scheduleTick k.env k.polls k.hackers low db c).res = .ok stats →
    (previewNextCronEnqueue k lastSeenAt db).jobs =
      insertedSince db ((scheduleTick k.env k.polls k.hackers low).final db c) := by
  intro h
  have hTwo := h (.withoutHackers 0) {} (fun _ => 0) twoHopsDb ⟨{ clock := List.replicate 8 0 }, []⟩
    { picks := some ⟨none, none⟩ } ⟨⟨_, rfl⟩, ⟨List.replicate 5 0, by decide⟩⟩ (by decide)
  revert hTwo
  decide

end Bloodhound.Ops
