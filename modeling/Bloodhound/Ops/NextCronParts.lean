import Bloodhound.Indexer.CronPass
import Bloodhound.Ops.NextCron

/-!
# The parts of a cron pass

What the queue takes of the synchronizations, of the maintenance of a hacker, of the crawl step and of
the polls of a pass, each against what the preview lists of that kind.
-/

namespace Bloodhound.Ops

open Indexer Store Journal
open Indexer.Cron (tick status needsBackfill isComplete backfillPayload backfillRequest auditRequest
  refreshRequest pollRequest expandRequest pollDownstreamRequest queue expanded)

/-! ## The parts of a pass -/

section Admitted

variable {env : Env} {db : Db} {before : List JobKey}

theorem isDuplicate_eq {keys : List JobKey} {r : Request}
    (h : ∀ key ∈ keys, (r.types.contains key.1 && r.address.all fun a => key.2 = some a) = false) :
    isDuplicate db keys r = db.jobs.hasActive r.types r.address := by
  rw [isDuplicate, List.any_eq_false.mpr fun key hKey => Bool.not_eq_true _ ▸ h key hKey, Bool.or_false]

/-- Different requests of one kind: the queue takes those that no active job stands for, as long as
there is room. -/
theorem admitted_fresh {rs : List Request} (room : Nat) (hNodup : (rs.map Request.key).Nodup)
    (hBefore : ∀ r ∈ rs, ∀ key ∈ before, r.types.contains key.1 = false)
    (hOwn : ∀ r ∈ rs, ∀ r' ∈ rs, r.types.contains r'.job.type = true →
      (r.address.all fun a => r'.job.address = some a) = true → r'.key = r.key)
    (hOpen : ∀ r ∈ rs, db.jobs.hasActive r.types r.address = false → ∀ ks, ks ⊆ rs.map Request.key →
      r.key ∉ ks → (isIngestContinuation r.job || !db.latched && !isCapped env db (before ++ ks) r.job &&
        level db (before ++ ks) .pendingJob < env.store.maxQueueDepth) = decide (ks.length < room)) :
    Gate.admitted (takes env db) Request.key before rs =
      ((rs.filter fun r => !db.jobs.hasActive r.types r.address).take room).map Request.key := by
  refine Gate.admitted_eq_take hNodup fun ks r hr hks hNew => ?_
  have hDuplicate : isDuplicate db (before ++ ks) r = db.jobs.hasActive r.types r.address := by
    refine isDuplicate_eq fun key hKey => Bool.eq_false_iff.mpr fun hSame => ?_
    rw [Bool.and_eq_true] at hSame
    rcases List.mem_append.mp hKey with hOld | hLater
    · exact absurd hSame.1 (by rw [hBefore r hr key hOld]; exact Bool.false_ne_true)
    · obtain ⟨r', hr', rfl⟩ := List.mem_map.mp (hks hLater)
      exact hNew (hOwn r hr r' hr' hSame.1 hSame.2 ▸ hLater)
  rw [takes, hDuplicate]
  cases hFresh : db.jobs.hasActive r.types r.address with
  | true => rfl
  | false => rw [hOpen r hr hFresh ks hks hNew]

end Admitted

section Parts

variable {k : Cron} {low : BudgetLow} {db : Db} {keys : List JobKey}

/-! ### One request -/

theorem level_pending_append (before ks : List JobKey) : level db (before ++ ks) .pendingJob =
    max (-1) db.depth + before.length + ks.length := by
  rw [level_pendingJob, List.length_append]
  push_cast
  ring

/-- A job that no cap refuses. -/
theorem open_iff (before ks : List JobKey) :
    (!db.latched && decide (level db (before ++ ks) .pendingJob < k.env.store.maxQueueDepth)) =
      decide (ks.length < room k db before.length) := by
  rw [level_pending_append, room]
  cases db.latched with
  | true => simp
  | false =>
    rw [if_neg Bool.false_ne_true, Bool.not_false, Bool.true_and, decide_eq_decide]
    omega

theorem room_iff (keys : List JobKey) :
    (!db.latched && decide (level db keys .pendingJob < k.env.store.maxQueueDepth)) =
      decide (0 < room k db keys.length) := by
  simpa using @open_iff k db keys []

theorem room_add (n m : Nat) : 0 < room k db (n + m) ↔ m < room k db n := by
  unfold room
  split
  · simp
  · omega

theorem level_of_other {c : Counter} (hc : c ≠ .pendingJob)
    (h : ∀ key ∈ keys, cachedActiveJobCountField key.1 ≠ some c) :
    level db keys c = max (-1) (db.scheduler.counter c) := by
  unfold level
  rw [List.countP_eq_zero.mpr fun key hKey => by simp [hc, h key hKey]]
  simp

theorem le_level (cap : Nat) (count : Int) : decide ((cap : Int) ≤ max (-1) count) =
    !decide (count < cap) := by
  rw [← decide_not, decide_eq_decide]
  omega

/-- The part of a pass in which jobs of a type are enqueued. -/
def rank : JobType → Nat
  | .syncColdcardwatch | .syncVercelTrackers | .syncBitqueryColdcard => 0
  | .backfillHackerAddress | .auditHackerBackfill | .refreshLiveBalance | .pollHackerAddress => 1
  | .backfillOpReturn => 2
  | .expandDownstream => 3
  | .pollDownstreamAddress => 4
  | _ => 5

theorem contains_of_rank {i : Nat} (h : ∀ key ∈ keys, rank key.1 < i) {types : List JobType}
    (hTypes : ∀ type ∈ types, i ≤ rank type) : ∀ key ∈ keys, types.contains key.1 = false := by
  intro key hKey
  by_contra hTrue
  rw [Bool.not_eq_false, List.contains_iff_mem] at hTrue
  exact absurd (h key hKey) (not_lt.mpr (hTypes _ hTrue))

theorem level_of_rank {i : Nat} (h : ∀ key ∈ keys, rank key.1 < i) {c : Counter} (hc : c ≠ .pendingJob)
    (hField : ∀ type, cachedActiveJobCountField type = some c → i ≤ rank type) :
    level db keys c = max (-1) (db.scheduler.counter c) :=
  level_of_other hc fun key hKey hSome => absurd (h key hKey) (not_lt.mpr (hField _ hSome))

/-- A request of a type that is not among the jobs so far. -/
theorem takes_of_other {r : Request} (h : ∀ key ∈ keys, r.types.contains key.1 = false) :
    takes k.env db keys r = (!db.jobs.hasActive r.types r.address && (isIngestContinuation r.job ||
      !isCapped k.env db keys r.job && decide (0 < room k db keys.length))) := by
  rw [takes, isDuplicate_eq fun key hKey => by rw [h key hKey]; rfl, ← room_iff]
  congr 2
  rw [Bool.and_assoc, Bool.and_left_comm]

theorem hasActive_cons (t : JobTable) (type : JobType) (types : List JobType) (address : Option Address) :
    t.hasActive (type :: types) address = (t.hasActive [type] address || t.hasActive types address) := by
  unfold JobTable.hasActive
  induction t.rows.entries with
  | nil => rfl
  | cons e es ih =>
    simp only [List.any_cons, ih]
    cases e.2.active <;> simp [Bool.or_assoc, Bool.or_left_comm, Bool.and_or_distrib_right]

/-- A list of at most one job. -/
def opt (taken : Bool) (key : JobKey) : List JobKey := if taken then [key] else []

theorem length_opt (taken : Bool) (key : JobKey) : (opt taken key).length = taken.toNat := by
  cases taken <;> rfl

theorem opt_eq_iff {b b' : Bool} {key key' : JobKey} :
    opt b key = opt b' key' ↔ b = b' ∧ (b' = true → key = key') := by
  cases b <;> cases b' <;> simp [opt]

theorem mem_opt {taken : Bool} {key key' : JobKey} (h : key' ∈ opt taken key) : key' = key := by
  cases taken with
  | true => exact List.mem_singleton.mp h
  | false => cases h

theorem admitted_ask (cond : Bool) (r : Request) :
    Gate.admitted (takes k.env db) Request.key keys (ask cond r) =
      opt (cond && takes k.env db keys r) r.key := by
  cases cond with
  | true => rw [ask, if_pos rfl, Gate.admitted_singleton, Bool.true_and]; rfl
  | false => rfl

/-! ### Synchronizations -/

theorem mem_syncs {sync : Job × List SyncSource × Nat} (h : sync ∈ k.syncs) :
    sync.1 = .syncColdcardwatch ∨ sync.1 = .syncVercelTrackers ∨ sync.1 = .syncBitqueryColdcard := by
  simp only [Cron.syncs, List.mem_cons, List.not_mem_nil, or_false] at h
  rcases h with rfl | rfl | rfl <;> simp

theorem rank_dueSyncs {key : JobKey} (h : key ∈ dueSyncs k db) : rank key.1 = 0 := by
  obtain ⟨sync, hSync, rfl⟩ := List.mem_map.mp h
  rcases mem_syncs (List.mem_of_mem_filter hSync) with hJob | hJob | hJob <;>
    simp only [hJob, rank, Job.type]

theorem syncJobs_eq : Gate.admitted (takes k.env db) Request.key [] (k.syncRequests low db) =
    if !low.nonCritical && k.accepts db then (dueSyncs k db).take (room k db 0) else [] := by
  unfold Cron.syncRequests
  split
  · next hAsk =>
    have hJob : ∀ r ∈ (k.syncs.filter fun sync => k.syncDue db sync).map fun sync => request sync.1 {},
        r = request .syncColdcardwatch {} ∨ r = request .syncVercelTrackers {} ∨
          r = request .syncBitqueryColdcard {} := by
      intro r hr
      obtain ⟨sync, hSync, rfl⟩ := List.mem_map.mp hr
      rcases mem_syncs (List.mem_of_mem_filter hSync) with hJob | hJob | hJob <;> simp [hJob]
    have hNodup : (((k.syncs.filter fun sync => k.syncDue db sync).map fun sync =>
        request sync.1 {}).map Request.key).Nodup := by
      rw [List.map_map]
      refine List.Nodup.sublist (List.Sublist.map _ List.filter_sublist) ?_
      simp [Cron.syncs, request, Request.key, Job.type, Job.address]
    rw [admitted_fresh (room k db 0) hNodup (fun _ _ _ hKey => by cases hKey) ?_ ?_,
      List.filter_map, List.filter_filter, dueSyncs, List.map_take, List.map_map, ← List.map_take,
      ← List.map_take]
    · have hNone : ∀ sync ∈ k.syncs, sync.1.address = none := fun sync hSync => by
        rcases mem_syncs hSync with hJob | hJob | hJob <;> rw [hJob] <;> rfl
      have hFilter : (k.syncs.filter fun sync => ((fun r => !db.jobs.hasActive r.types r.address) ∘
          fun sync => request sync.1 {}) sync && k.syncDue db sync) =
          k.syncs.filter (previewSync k db) := List.filter_congr fun sync hSync => by
        simp [previewSync, hasPendingJob, request, hNone sync hSync, Bool.and_comm]
      rw [hFilter]
      refine List.map_congr_left fun sync hSync => ?_
      simp [request, Request.key, hNone sync (List.mem_of_mem_filter (List.mem_of_mem_take hSync))]
    · intro r hr r' hr' hType _
      rcases hJob r hr with rfl | rfl | rfl <;> rcases hJob r' hr' with rfl | rfl | rfl <;>
        first | rfl | (revert hType; decide)
    · intro r hr _ ks _ _
      have hPlain : isIngestContinuation r.job = false ∧ isCapped k.env db ([] ++ ks) r.job = false := by
        rcases hJob r hr with rfl | rfl | rfl <;> exact ⟨rfl, rfl⟩
      rw [hPlain.1, hPlain.2, Bool.false_or, Bool.not_false, Bool.and_true]
      exact open_iff [] ks
  · rfl


theorem syncs_iff : Gate.admitted (takes k.env db) Request.key [] (k.syncRequests low db) = dueSyncs k db ↔
    dueSyncs k db = [] ∨
      low.nonCritical = false ∧ k.accepts db = true ∧ (dueSyncs k db).length ≤ room k db 0 := by
  rw [syncJobs_eq]
  by_cases hAsk : (!low.nonCritical && k.accepts db) = true
  · obtain ⟨hCritical, hAccepts⟩ : low.nonCritical = false ∧ k.accepts db = true := by simpa using hAsk
    rw [if_pos hAsk, List.take_eq_self_iff]
    constructor
    · exact fun hFits => .inr ⟨hCritical, hAccepts, hFits⟩
    · rintro (hNil | ⟨-, -, hFits⟩)
      · rw [hNil]
        exact Nat.zero_le _
      · exact hFits
  · rw [if_neg hAsk]
    constructor
    · exact fun hNil => .inl hNil.symm
    · rintro (hNil | ⟨hCritical, hAccepts, -⟩)
      · exact hNil.symm
      · exact absurd (by rw [hCritical, hAccepts]; rfl) hAsk

/-! ### Maintenance -/

section Hacker

variable (h : FlaggedHacker)

theorem rank_dedupe : ∀ type ∈ backfillDedupeTypes, 1 ≤ rank type := by decide

theorem not_isDuplicate_backfill : (!db.jobs.hasActive backfillDedupeTypes (some h.address)) =
    (!hasPendingJob db .backfillHackerAddress (some h.address) &&
      !hasPendingJob db .auditHackerBackfill (some h.address)) := by
  rw [backfillDedupeTypes, hasActive_cons, Bool.not_or]
  rfl

theorem takes_backfill (hSyncs : ∀ key ∈ keys, rank key.1 < 1) :
    (needsBackfill db h && takes k.env db keys (backfillRequest db h.address)) =
      (backfillDue db h && backfillTaken k db keys.length h) := by
  rw [takes_of_other (contains_of_rank hSyncs rank_dedupe)]
  show (needsBackfill db h && (!db.jobs.hasActive backfillDedupeTypes (some h.address) &&
    (isIngestContinuation (.backfillHackerAddress (backfillPayload db h.address)) || _))) = _
  rw [not_isDuplicate_backfill, backfillDue, backfillTaken]
  have hCapped : isCapped k.env db keys (backfillRequest db h.address).job =
      (!isIngestContinuation (.backfillHackerAddress (backfillPayload db h.address)) &&
        !decide (db.scheduler.counter .activeBackfill < k.env.store.maxPendingBackfillGlobal)) := by
    show (!isIngestContinuation _ && decide ((k.env.store.maxPendingBackfillGlobal : Int) ≤
      level db keys .activeBackfill)) = _
    rw [level_of_rank hSyncs (by decide) (by intro type; cases type <;> decide), le_level]
    rfl
  rw [hCapped]
  cases isIngestContinuation (.backfillHackerAddress (backfillPayload db h.address)) <;>
    cases needsBackfill db h <;>
    simp [Bool.and_comm]

theorem takes_audit (hSyncs : ∀ key ∈ keys, rank key.1 < 1) :
    (k.auditDue db h && takes k.env db keys (auditRequest h.address)) =
      (auditDue k db h && decide (0 < room k db keys.length)) := by
  rw [takes_of_other (contains_of_rank hSyncs rank_dedupe)]
  show (k.auditDue db h && (!db.jobs.hasActive backfillDedupeTypes (some h.address) &&
    (false || _))) = _
  rw [not_isDuplicate_backfill, auditDue, Bool.false_or]
  have hCapped : isCapped k.env db keys (auditRequest h.address).job =
      !decide (db.scheduler.counter .activeAudit < k.env.store.maxPendingAuditGlobal) := by
    show decide ((k.env.store.maxPendingAuditGlobal : Int) ≤ level db keys .activeAudit) = _
    rw [level_of_rank hSyncs (by decide) (by intro type; cases type <;> decide), le_level]
  rw [hCapped, Bool.not_not]
  cases k.auditDue db h <;> simp [Bool.and_assoc]

theorem auditDue_of_needsBackfill (hNeeds : needsBackfill db h = true) : k.auditDue db h = false := by
  unfold Cron.auditDue isAuditDue
  unfold needsBackfill isComplete at hNeeds
  revert hNeeds
  cases status db h.address <;> simp +contextual

/-- The first half of the maintenance inserts at most one job. -/
theorem firstJobs_eq (hSyncs : ∀ key ∈ keys, rank key.1 < 1) :
    Gate.admitted (takes k.env db) Request.key keys (if needsBackfill db h then
        [backfillRequest db h.address]
      else ask (k.auditDue db h && !k.throttled db) (auditRequest h.address)) =
    opt (backfillDue db h && backfillTaken k db keys.length h)
        (.backfillHackerAddress, some (backfillPayload db h.address).address) ++
      opt (auditDue k db h && !k.throttled db && 0 < room k db keys.length)
        (.auditHackerBackfill, some h.address) := by
  have hBackfill := @takes_backfill k db keys h hSyncs
  have hAudit := @takes_audit k db keys h hSyncs
  cases hNeeds : needsBackfill db h with
  | true =>
    have hNone : auditDue k db h = false := by
      rw [auditDue, auditDue_of_needsBackfill h hNeeds, Bool.and_false, Bool.false_and]
    rw [hNeeds, Bool.true_and] at hBackfill
    rw [if_pos rfl, Gate.admitted_singleton, hBackfill, hNone]
    exact (List.append_nil _).symm
  | false =>
    have hNone : backfillDue db h = false := by rw [backfillDue, hNeeds, Bool.and_false]
    rw [if_neg Bool.false_ne_true, admitted_ask, hNone, Bool.and_right_comm, hAudit, Bool.and_right_comm]
    rfl

/-- A request of the second half, after jobs of other types. -/
theorem takes_second {r : Request} (hOther : ∀ key ∈ keys, r.types.contains key.1 = false)
    (hNew : isIngestContinuation r.job = false) (hUncapped : isCapped k.env db keys r.job = false) :
    takes k.env db keys r =
      (!db.jobs.hasActive r.types r.address && decide (0 < room k db keys.length)) := by
  rw [takes_of_other hOther, hNew, hUncapped]
  rfl

/-- The number of jobs that the first half inserts. -/
def firstCount (k : Cron) (db : Db) (n : Nat) (h : FlaggedHacker) : Nat :=
  (backfillDue db h && backfillTaken k db n h).toNat +
    (auditDue k db h && !k.throttled db && decide (0 < room k db n)).toNat

/-- The tick asks for a refresh of the balance, and the queue takes it. -/
def refreshTaken (k : Cron) (db : Db) (n : Nat) (h : FlaggedHacker) : Bool :=
  !k.throttled db && (balanceStale k db h && !k.pollDue db h && !k.auditDue db h) &&
    decide (firstCount k db n h < room k db n)

theorem maintenanceJobs_eq (hSyncs : ∀ key ∈ keys, rank key.1 < 1) :
    Gate.admitted (takes k.env db) Request.key keys (k.maintenanceRequests db h) =
    opt (backfillDue db h && backfillTaken k db keys.length h)
        (.backfillHackerAddress, some (backfillPayload db h.address).address) ++
      opt (auditDue k db h && !k.throttled db && 0 < room k db keys.length)
        (.auditHackerBackfill, some h.address) ++
      (opt (refreshTaken k db keys.length h) (.refreshLiveBalance, some h.address) ++
        opt (!k.throttled db && pollDue k db h &&
          decide (firstCount k db keys.length h + (refreshTaken k db keys.length h).toNat <
            room k db keys.length)) (.pollHackerAddress, some h.address)) := by
  unfold Cron.maintenanceRequests
  rw [Gate.admitted_append, firstJobs_eq h hSyncs]
  congr 1
  generalize hFirst : opt (backfillDue db h && backfillTaken k db keys.length h) _ ++
    opt (auditDue k db h && !k.throttled db && decide (0 < room k db keys.length)) _ = first
  have hLength : (keys ++ first).length = keys.length + firstCount k db keys.length h := by
    rw [← hFirst, List.length_append, List.length_append, length_opt, length_opt]
    rfl
  have hOther : ∀ key ∈ keys ++ first, key.1 ≠ .refreshLiveBalance ∧ key.1 ≠ .pollHackerAddress := by
    intro key hKey
    rcases List.mem_append.mp hKey with hSync | hMem
    · have hType := hSyncs key hSync
      constructor <;> rintro hEq <;> simp [hEq, rank] at hType
    · rw [← hFirst] at hMem
      rcases List.mem_append.mp hMem with hMem | hMem <;> rw [mem_opt hMem] <;> simp
  unfold refreshTaken
  cases k.throttled db with
  | true => rfl
  | false =>
    have hRefresh : takes k.env db (keys ++ first) (refreshRequest h.address) =
        (!hasPendingJob db .refreshLiveBalance (some h.address) &&
          decide (firstCount k db keys.length h < room k db keys.length)) := by
      rw [takes_second (fun key hKey => by
          simpa [refreshRequest, request, Job.type] using (hOther key hKey).1) rfl rfl, hLength,
        decide_eq_decide.mpr (room_add _ _)]
      rfl
    have hPoll : ∀ refresh : Bool, takes k.env db (keys ++ first ++
        opt refresh (refreshRequest h.address).key) (pollRequest h.address) =
        (!hasPendingJob db .pollHackerAddress (some h.address) && decide
          (firstCount k db keys.length h + refresh.toNat < room k db keys.length)) := by
      intro refresh
      have hNoPoll : ∀ key ∈ keys ++ first ++ opt refresh (refreshRequest h.address).key,
          (pollRequest h.address).types.contains key.1 = false := by
        intro key hKey
        rcases List.mem_append.mp hKey with hMem | hMem
        · simpa [pollRequest, request, Job.type] using (hOther key hMem).2
        · rw [mem_opt hMem]
          rfl
      rw [takes_second hNoPoll rfl rfl, List.length_append, hLength, length_opt, Nat.add_assoc,
        decide_eq_decide.mpr (room_add _ _)]
      rfl
    have hAsked : ∀ room : Bool, (k.balanceStale h && !k.pollDue db h && !k.auditDue db h &&
        (!hasPendingJob db .refreshLiveBalance (some h.address) && room)) =
        (balanceStale k db h && !k.pollDue db h && !k.auditDue db h && room) := by
      intro room
      rw [balanceStale]
      cases hasPendingJob db .refreshLiveBalance (some h.address) <;> simp
    rw [if_neg Bool.false_ne_true, Gate.admitted_append, admitted_ask, admitted_ask, hRefresh, hPoll,
      hAsked, pollDue, Bool.not_false, Bool.true_and, Bool.true_and, Bool.and_assoc (k.pollDue db h)]
    rfl

theorem previewMaintain_eq : (previewMaintainOneHacker k db h (k.throttled db)).map (·, some h.address) =
    opt (backfillDue db h) (.backfillHackerAddress, some h.address) ++
      opt (auditDue k db h && !k.throttled db) (.auditHackerBackfill, some h.address) ++
      (opt (!k.throttled db && refreshDue k db h) (.refreshLiveBalance, some h.address) ++
        opt (!k.throttled db && pollDue k db h) (.pollHackerAddress, some h.address)) := by
  unfold previewMaintainOneHacker opt
  cases k.throttled db <;> cases backfillDue db h <;> cases auditDue k db h <;>
    cases refreshDue k db h <;> cases pollDue k db h <;> rfl

/-- Lists of at most one job of each of the types of the maintenance. -/
theorem opts_eq_iff {b a r p b' a' r' p' : Bool} {x y : Address} :
    opt b (.backfillHackerAddress, some x) ++ opt a (.auditHackerBackfill, some y) ++
        (opt r (.refreshLiveBalance, some y) ++ opt p (.pollHackerAddress, some y)) =
      opt b' (.backfillHackerAddress, some y) ++ opt a' (.auditHackerBackfill, some y) ++
        (opt r' (.refreshLiveBalance, some y) ++ opt p' (.pollHackerAddress, some y)) ↔
    (b = b' ∧ (b' = true → x = y)) ∧ a = a' ∧ r = r' ∧ p = p' := by
  have hOf : ∀ (type type' : JobType) (taken : Bool) (address : Address),
      (opt taken (type', some address)).filter (fun key => key.1 = type) =
        if type' = type then opt taken (type', some address) else [] := by
    intro type type' taken address
    cases taken <;> by_cases hType : type' = type <;> simp [opt, hType]
  constructor
  · intro hEq
    have hPart : ∀ type : JobType, _ := fun type => congrArg (List.filter fun key => key.1 = type) hEq
    simp only [List.filter_append, hOf] at hPart
    have hBackfill := hPart .backfillHackerAddress
    have hAudit := hPart .auditHackerBackfill
    have hRefresh := hPart .refreshLiveBalance
    have hPoll := hPart .pollHackerAddress
    simp only [reduceCtorEq, if_true, if_false, List.append_nil, List.nil_append, opt_eq_iff,
      Prod.mk.injEq, true_and, Option.some.injEq] at hBackfill hAudit hRefresh hPoll
    exact ⟨hBackfill, hAudit.1, hRefresh.1, hPoll.1⟩
  · rintro ⟨⟨rfl, hAddress⟩, rfl, rfl, rfl⟩
    cases b with
    | true => rw [hAddress rfl]
    | false => rfl

theorem auditDue_of_backfillDue (hDue : backfillDue db h = true) : auditDue k db h = false := by
  have hNeeds : needsBackfill db h = true := by
    unfold backfillDue at hDue
    exact (Bool.and_eq_true _ _ ▸ hDue).2
  rw [auditDue, auditDue_of_needsBackfill h hNeeds, Bool.and_false, Bool.false_and]

theorem auditDue_of_not (hNot : k.auditDue db h = false) : auditDue k db h = false := by
  rw [auditDue, hNot, Bool.and_false, Bool.false_and]

theorem pollDue_of_not (hNot : k.pollDue db h = false) : pollDue k db h = false := by
  rw [pollDue, hNot, Bool.false_and]

/-- The maintenance of a hacker inserts what the preview lists of it. -/
theorem maintainOne_iff (hSyncs : ∀ key ∈ keys, rank key.1 < 1) (hRuns : low.maintenance = false) :
    Gate.admitted (takes k.env db) Request.key keys (k.maintenanceRequests db h) =
      (previewMaintainOneHacker k db h (k.throttled db)).map (·, some h.address) ↔
    MaintenanceFits k low db keys.length h := by
  rw [maintenanceJobs_eq h hSyncs, previewMaintain_eq, opts_eq_iff]
  constructor
  · rintro ⟨⟨hBackfill, hAddress⟩, hAudit, hRefresh, hPoll⟩
    have hFirst : firstCount k db keys.length h =
        (backfillDue db h).toNat + (auditDue k db h && !k.throttled db).toNat := by
      rw [firstCount, hBackfill, hAudit]
    refine ⟨fun _ => hRuns, fun hDue => ⟨hAddress hDue, ?_⟩, fun hDue hNot => ?_, fun hDue hNot => ?_,
      fun hDue hNot => ?_⟩
    · rwa [hDue, Bool.true_and] at hBackfill
    · rw [hDue, hNot] at hAudit
      simpa using hAudit
    · rw [hDue, hNot] at hRefresh
      have hTaken : ((balanceStale k db h = true ∧ k.pollDue db h = false) ∧ k.auditDue db h = false) ∧
          firstCount k db keys.length h < room k db keys.length := by
        simpa [refreshTaken, hNot] using hRefresh
      rw [hFirst, auditDue_of_not h hTaken.1.2] at hTaken
      exact ⟨hTaken.1.1.2, hTaken.1.2, by simpa [Bool.toNat, Bool.cond_eq_ite] using hTaken.2⟩
    · rw [hDue, hNot] at hPoll
      have hRoom : firstCount k db keys.length h + (refreshTaken k db keys.length h).toNat <
          room k db keys.length := by simpa using hPoll
      rw [hFirst, hNot] at hRoom
      revert hRoom
      cases backfillDue db h <;> cases auditDue k db h <;> simp <;> omega
  · intro hFits
    have hBackfill : (backfillDue db h && backfillTaken k db keys.length h) = backfillDue db h := by
      cases hDue : backfillDue db h with
      | true => rw [(hFits.backfill hDue).2]; rfl
      | false => rfl
    have hAudit : (auditDue k db h && !k.throttled db && decide (0 < room k db keys.length)) =
        (auditDue k db h && !k.throttled db) := by
      cases hDue : auditDue k db h && !k.throttled db with
      | true =>
        rw [Bool.and_eq_true, Bool.not_eq_true'] at hDue
        rw [decide_eq_true (hFits.audit hDue.1 hDue.2)]
        rfl
      | false => rfl
    have hFirst : firstCount k db keys.length h =
        (backfillDue db h).toNat + (auditDue k db h && !k.throttled db).toNat := by
      rw [firstCount, hBackfill, hAudit]
    have hRefresh : refreshTaken k db keys.length h = (!k.throttled db && refreshDue k db h) := by
      rw [Bool.eq_iff_iff]
      constructor
      · intro hTaken
        have hAsked : k.throttled db = false ∧ ((balanceStale k db h = true ∧ k.pollDue db h = false) ∧
            k.auditDue db h = false) ∧ firstCount k db keys.length h < room k db keys.length := by
          simpa [refreshTaken, and_assoc] using hTaken
        obtain ⟨hNot, ⟨⟨hStale, hNoPoll⟩, hNoAudit⟩, -⟩ := hAsked
        rw [hNot, refreshDue, hStale, pollDue_of_not h hNoPoll, auditDue_of_not h hNoAudit]
        rfl
      · intro hListed
        rw [Bool.and_eq_true, Bool.not_eq_true'] at hListed
        obtain ⟨hNoPoll, hNoAudit, hRoom⟩ := hFits.refresh hListed.2 hListed.1
        have hStale : balanceStale k db h = true := by
          have hDue := hListed.2
          unfold refreshDue at hDue
          simp only [Bool.and_eq_true] at hDue
          exact hDue.1.1
        rw [refreshTaken, hListed.1, hStale, hNoPoll, hNoAudit, hFirst, auditDue_of_not h hNoAudit]
        simpa [Bool.toNat, Bool.cond_eq_ite] using hRoom
    refine ⟨⟨hBackfill, fun hDue => (hFits.backfill hDue).1⟩, hAudit, hRefresh, ?_⟩
    cases hDue : !k.throttled db && pollDue k db h with
    | false => rfl
    | true =>
      rw [Bool.and_eq_true, Bool.not_eq_true'] at hDue
      have hNoRefresh : refreshDue k db h = false := by
        rw [refreshDue, hDue.2, Bool.not_true, Bool.and_false, Bool.false_and]
      have hRoom := hFits.poll hDue.2 hDue.1
      rw [hRefresh, hNoRefresh, hFirst, hDue.1, Bool.true_and, decide_eq_true_eq]
      revert hRoom
      cases hBackfillDue : backfillDue db h with
      | true => rw [auditDue_of_backfillDue h hBackfillDue]; simp
      | false => cases auditDue k db h <;> simp

end Hacker

theorem opt_eq_nil {taken : Bool} {key : JobKey} : opt taken key = [] ↔ taken = false := by
  cases taken <;> simp [opt]

theorem maintained_eq : k.maintained low db = if low.maintenance then none else previewHacker k db := by
  unfold Cron.maintained Cron.maintains previewHacker
  have hNobody : k.hackers.isEmpty = true → k.hackerAt db 0 = none := fun hEmpty => by
    have hNil : k.hackers = [] := by simpa using hEmpty
    simp [Cron.hackerAt, hNil]
  cases hEvery : everyNCrons k.env.config.hackerMaintenanceEveryNCrons (tick db) <;>
    cases low.maintenance <;> cases hEmpty : k.hackers.isEmpty <;> simp [hNobody, hEmpty]

/-- The maintenance of a tick, after the synchronizations. -/
def maintenanceJobs (k : Cron) (low : BudgetLow) (db : Db) (keys : List JobKey) : List JobKey :=
  Gate.admitted (takes k.env db) Request.key keys
    ((k.maintained low db).toList.flatMap (k.maintenanceRequests db))

theorem maintenanceJobs_of_low (hLow : low.maintenance = true) : maintenanceJobs k low db keys = [] := by
  rw [maintenanceJobs, maintained_eq, hLow]
  rfl

theorem maintenanceJobs_of_runs (hRuns : low.maintenance = false) {h : FlaggedHacker}
    (hHacker : previewHacker k db = some h) : maintenanceJobs k low db keys =
      Gate.admitted (takes k.env db) Request.key keys (k.maintenanceRequests db h) := by
  rw [maintenanceJobs, maintained_eq, hRuns, if_neg Bool.false_ne_true, hHacker, Option.toList_some,
    List.flatMap_singleton]

theorem dueMaintenance_of_some {h : FlaggedHacker} (hHacker : previewHacker k db = some h) :
    dueMaintenance k db = (previewMaintainOneHacker k db h (k.throttled db)).map (·, some h.address) := by
  rw [dueMaintenance, hHacker, Option.toList_some, List.flatMap_singleton]

theorem dueMaintenance_of_none (hNobody : previewHacker k db = none) : dueMaintenance k db = [] := by
  rw [dueMaintenance, hNobody]
  rfl

theorem maintenanceFits_of_nil {h : FlaggedHacker} {n : Nat}
    (hNil : previewMaintainOneHacker k db h (k.throttled db) = []) : MaintenanceFits k low db n h := by
  have hOpts := @previewMaintain_eq k db h
  rw [hNil, List.map_nil, eq_comm] at hOpts
  simp only [List.append_eq_nil_iff, opt_eq_nil] at hOpts
  obtain ⟨⟨hBackfill, hAudit⟩, hRefresh, hPoll⟩ := hOpts
  refine ⟨fun hSome => absurd hNil hSome, fun hDue => ?_, fun hDue hNot => ?_, fun hDue hNot => ?_,
    fun hDue hNot => ?_⟩
  · exact absurd (hBackfill.symm.trans hDue) Bool.false_ne_true
  · rw [hDue, hNot] at hAudit
    cases hAudit
  · rw [hDue, hNot] at hRefresh
    cases hRefresh
  · rw [hDue, hNot] at hPoll
    cases hPoll

/-- The maintenance inserts what the preview lists. -/
theorem maintenance_iff (hSyncs : ∀ key ∈ keys, rank key.1 < 1) :
    maintenanceJobs k low db keys = dueMaintenance k db ↔
      ∀ h, previewHacker k db = some h → MaintenanceFits k low db keys.length h := by
  cases hHacker : previewHacker k db with
  | none =>
    rw [dueMaintenance_of_none hHacker, maintenanceJobs, maintained_eq, hHacker, ite_self]
    exact iff_of_true rfl fun h hSome => by cases hSome
  | some h =>
    have hOne : (∀ h', some h = some h' → MaintenanceFits k low db keys.length h') ↔
        MaintenanceFits k low db keys.length h :=
      ⟨fun hAll => hAll h rfl, fun hFits h' hEq => Option.some.inj hEq ▸ hFits⟩
    rw [hOne, dueMaintenance_of_some hHacker]
    cases hLow : low.maintenance with
    | false => rw [maintenanceJobs_of_runs hLow hHacker, maintainOne_iff h hSyncs hLow]
    | true =>
      rw [maintenanceJobs_of_low hLow, eq_comm, List.map_eq_nil_iff]
      refine ⟨fun hNil => maintenanceFits_of_nil hNil, fun hFits => ?_⟩
      by_contra hSome
      exact absurd (hLow.symm.trans (hFits.runs hSome)) (by decide)

/-- A refresh that is taken is listed. -/
theorem refreshDue_of_taken {h : FlaggedHacker} {n : Nat} (hTaken : refreshTaken k db n h = true) :
    k.throttled db = false ∧ refreshDue k db h = true := by
  have hAsked : k.throttled db = false ∧ ((balanceStale k db h = true ∧ k.pollDue db h = false) ∧
      k.auditDue db h = false) ∧ firstCount k db n h < room k db n := by
    simpa [refreshTaken, and_assoc] using hTaken
  obtain ⟨hNot, ⟨⟨hStale, hNoPoll⟩, hNoAudit⟩, -⟩ := hAsked
  rw [refreshDue, hStale, pollDue_of_not h hNoPoll, auditDue_of_not h hNoAudit]
  exact ⟨hNot, rfl⟩

/-- One backfill is listed and no other job. -/
theorem only_backfill_iff {h : FlaggedHacker} (hHacker : previewHacker k db = some h) :
    dueMaintenance k db = [(.backfillHackerAddress, some h.address)] ↔ backfillDue db h = true ∧
      (auditDue k db h && !k.throttled db) = false ∧ (!k.throttled db && refreshDue k db h) = false ∧
      (!k.throttled db && pollDue k db h) = false := by
  have hSingle : [((.backfillHackerAddress, some h.address) : JobKey)] =
      opt true (.backfillHackerAddress, some h.address) ++
        opt false (.auditHackerBackfill, some h.address) ++
        (opt false (.refreshLiveBalance, some h.address) ++
          opt false (.pollHackerAddress, some h.address)) := rfl
  rw [dueMaintenance_of_some hHacker, previewMaintain_eq, hSingle, opts_eq_iff]
  simp

/-- Where the preview lists one backfill, the maintenance inserts nothing if it does not insert that. -/
theorem maintenanceJobs_eq_nil_iff (hSyncs : ∀ key ∈ keys, rank key.1 < 1) {h : FlaggedHacker}
    (hHacker : previewHacker k db = some h)
    (hOnly : dueMaintenance k db = [(.backfillHackerAddress, some h.address)]) :
    maintenanceJobs k low db keys = [] ↔
      low.maintenance = true ∨ backfillTaken k db keys.length h = false := by
  obtain ⟨hBackfill, hAudit, hRefresh, hPoll⟩ := (only_backfill_iff hHacker).mp hOnly
  cases hLow : low.maintenance with
  | true => exact iff_of_true (maintenanceJobs_of_low hLow) (.inl rfl)
  | false =>
    have hNoRefresh : refreshTaken k db keys.length h = false := by
      rw [Bool.eq_false_iff]
      intro hTaken
      obtain ⟨hNot, hDue⟩ := refreshDue_of_taken hTaken
      rw [hNot, hDue] at hRefresh
      cases hRefresh
    rw [maintenanceJobs_of_runs hLow hHacker, maintenanceJobs_eq h hSyncs, hBackfill, hAudit,
      hNoRefresh, hPoll]
    simp [opt_eq_nil]

/-- A backfill that comes after the maintenance is listed only where it is the only job listed. -/
theorem only_backfill_of_append {jobs : List JobKey} {address : Option Address}
    (hEq : dueMaintenance k db = jobs ++ [(.backfillHackerAddress, address)]) :
    ∃ h, previewHacker k db = some h ∧ address = some h.address ∧ jobs = [] := by
  cases hHacker : previewHacker k db with
  | none =>
    rw [dueMaintenance_of_none hHacker] at hEq
    simp at hEq
  | some h =>
    refine ⟨h, rfl, ?_⟩
    rw [dueMaintenance_of_some hHacker, previewMaintain_eq] at hEq
    have hLast := congrArg List.getLast? hEq
    have hLength := congrArg List.length hEq
    rw [List.getLast?_concat] at hLast
    revert hLast hLength
    generalize (auditDue k db h && !k.throttled db) = audit, (!k.throttled db && refreshDue k db h) = refresh,
      (!k.throttled db && pollDue k db h) = poll
    cases backfillDue db h <;> cases audit <;> cases refresh <;> cases poll <;> simp [opt]
    exact fun hAddress hNil => ⟨hAddress.symm, hNil⟩

/-! ### The crawl step -/

theorem opReturnJobs_eq (hBefore : ∀ key ∈ keys, rank key.1 < 2) :
    (if k.free low db then Gate.admitted (takes k.env db) Request.key keys (k.opReturnRequests low db)
      else []) = opt (backfillsOpReturn k low db keys.length) (.backfillOpReturn, none) := by
  unfold Cron.opReturnRequests
  rw [admitted_ask, backfillsOpReturn]
  have hTakes : takes k.env db keys (request .backfillOpReturn { dedupeTypes := some [.backfillOpReturn] }) =
      (!hasPendingJob db .backfillOpReturn none && decide (0 < room k db keys.length)) :=
    takes_second (contains_of_rank hBefore (by decide)) rfl rfl
  rw [hTakes]
  cases k.free low db with
  | true =>
    simp only [if_true, Bool.true_and, Bool.and_assoc]
    rfl
  | false => rfl

theorem resumeJobs_eq : (if k.free low db then Gate.admitted (takes k.env db) Request.key keys
      (k.resumeRequests low db keys) else []) =
    (resumed k low db keys).toList.map fun address => (.backfillHackerAddress, some address) := by
  unfold Cron.resumeRequests resumed
  cases k.free low db with
  | false => rfl
  | true =>
    rw [if_pos rfl, if_pos rfl]
    cases k.crawled low db with
    | none => rfl
    | some h =>
      rw [Option.toList_some, List.flatMap_singleton, admitted_ask, Option.bind_some]
      cases k.resumes db keys h && takes k.env db keys (backfillRequest db h.address) <;> rfl

theorem nodup_fst {entries : List ((_ : Address) × AddressRow)} (t : AddressTable)
    (h : ∃ l : List ((_ : Address) × AddressRow), entries.Perm l ∧ l.Sublist t.entries) :
    (entries.map (·.1)).Nodup := by
  obtain ⟨l, hPerm, hSublist⟩ := h
  exact ((hPerm.map _).nodup_iff).mpr (List.Nodup.sublist (hSublist.map _) t.nodupKeys)

theorem nodup_candidates (hacker : Address) : (k.candidates db hacker).Nodup := by
  unfold Cron.candidates getCrawlEnqueueCandidates
  split
  · exact List.nodup_nil
  · show (List.map _ _).Nodup
    refine List.Nodup.sublist (List.Sublist.map _ (List.take_sublist _ _))
      (nodup_fst db.addresses ⟨_, List.perm_insertionSort _ _, List.filter_sublist⟩)

theorem activeCount_eq_zero {t : JobTable} {type : JobType} {address : Address}
    (h : t.hasActive [type] (some address) = false) : t.activeCount (ofAddress type address) = 0 := by
  refine List.countP_eq_zero.mpr fun e he hActive => ?_
  refine absurd (List.any_eq_false.mp h e he) (not_not.mpr ?_)
  simpa [ofAddress, and_assoc] using hActive

/-- The requests of one type for different addresses. -/
theorem addressJobs_eq {before : List JobKey} {addresses : List Address} (type : JobType)
    {job : Address → Job} (hNodup : addresses.Nodup)
    (hJob : ∀ a, (job a).type = type ∧ (job a).address = some a ∧ isIngestContinuation (job a) = false)
    (hBefore : ∀ key ∈ before, rank key.1 < rank type) {room : Nat}
    (hOpen : ∀ a, db.jobs.hasActive [type] (some a) = false → ∀ ks : List JobKey,
      (∀ key ∈ ks, key.1 = type) → (type, some a) ∉ ks →
      (!db.latched && !isCapped k.env db (before ++ ks) (job a) &&
        decide (level db (before ++ ks) .pendingJob < k.env.store.maxQueueDepth)) =
      decide (ks.length < room)) :
    Gate.admitted (takes k.env db) Request.key before
        (addresses.map fun a => request (job a) { address := some a }) =
      ((unqueued db type addresses).take room).map fun a => (type, some a) := by
  have hKey : ∀ a, (request (job a) { address := some a }).key = (type, some a) := fun a => by
    rw [Request.key, request, (hJob a).1, (hJob a).2.1]
  have hTypes : ∀ a, (request (job a) { address := some a }).types = [type] := fun a => by
    rw [request, ← (hJob a).1]
    rfl
  have hKeys : (addresses.map fun a => request (job a) { address := some a }).map Request.key =
      addresses.map fun a => (type, some a) := by
    rw [List.map_map]
    exact List.map_congr_left fun a _ => hKey a
  rw [admitted_fresh room ?_ ?_ ?_ ?_]
  · rw [List.filter_map, List.map_take, List.map_map, unqueued, ← List.map_take]
    have hFilter : (addresses.filter ((fun r => !db.jobs.hasActive r.types r.address) ∘
        fun a => request (job a) { address := some a })) =
        addresses.filter fun a => !hasPendingJob db type (some a) := by
      refine List.filter_congr fun a _ => ?_
      rw [Function.comp_apply, hTypes]
      rfl
    rw [hFilter]
    exact List.map_congr_left fun a _ => hKey a
  · rw [hKeys]
    exact hNodup.map fun a a' hEq => by simpa using hEq
  · intro r hr
    obtain ⟨a, -, rfl⟩ := List.mem_map.mp hr
    rw [hTypes]
    exact contains_of_rank hBefore (by simp)
  · intro r hr r' hr' _ hAddress
    obtain ⟨a, -, rfl⟩ := List.mem_map.mp hr
    obtain ⟨a', -, rfl⟩ := List.mem_map.mp hr'
    have hEq : a' = a := by simpa [request, (hJob a').2.1] using hAddress
    rw [hEq]
  · intro r hr hFresh ks hks hNew
    obtain ⟨a, -, rfl⟩ := List.mem_map.mp hr
    rw [hTypes] at hFresh
    rw [hKey] at hNew
    rw [hKeys] at hks
    have hType : ∀ key ∈ ks, key.1 = type := fun key hMem => by
      obtain ⟨a', -, rfl⟩ := List.mem_map.mp (hks hMem)
      rfl
    rw [← hOpen a hFresh ks hType hNew]
    show (isIngestContinuation (job a) || _) = _
    rw [(hJob a).2.2, Bool.false_or]
    rfl

/-- The check of an expansion, after jobs of other types and some expansions. -/
theorem expand_open_iff {before ks : List JobKey} (hBefore : ∀ key ∈ before, rank key.1 < 3)
    (hExpands : ∀ key ∈ ks, key.1 = .expandDownstream) {address : Address}
    (hFresh : db.jobs.hasActive [.expandDownstream] (some address) = false)
    (hNew : (.expandDownstream, some address) ∉ ks) :
    (!db.latched && !isCapped k.env db (before ++ ks) (.expandDownstream { address, cron := true }) &&
      decide (level db (before ++ ks) .pendingJob < k.env.store.maxQueueDepth)) =
    decide (ks.length < expandRoom k db before.length) := by
  have hLevel : level db (before ++ ks) .activeExpand =
      max (-1) (db.scheduler.counter .activeExpand) + ks.length := by
    have hAll : ks.countP (fun key => Counter.activeExpand = .pendingJob ||
        cachedActiveJobCountField key.1 = some .activeExpand) = ks.length :=
      List.countP_eq_length.mpr fun key hKey => by rw [hExpands key hKey]; rfl
    have hNone := @level_of_rank db _ _ hBefore .activeExpand (by decide)
      (by intro type; cases type <;> decide)
    unfold level at hNone ⊢
    rw [List.countP_append, hAll]
    rw [Nat.cast_add, ← add_assoc, hNone]
  have hCount : (before ++ ks).count (.expandDownstream, some address) = 0 := by
    refine List.count_eq_zero.mpr fun hMem => ?_
    rcases List.mem_append.mp hMem with hOld | hLater
    · exact absurd (hBefore _ hOld) (lt_irrefl 3)
    · exact hNew hLater
  have hCapped : isCapped k.env db (before ++ ks) (.expandDownstream { address, cron := true }) =
      !decide (0 < k.env.store.maxPendingExpandPerAddress ∧ ks.length <
        (k.env.store.maxPendingExpandGlobal - max (-1) (db.scheduler.counter .activeExpand)).toNat) := by
    show (decide (_ ≤ level db (before ++ ks) .activeExpand) ||
      decide (_ ≤ db.jobs.activeCount (ofAddress .expandDownstream address) +
        (before ++ ks).count (.expandDownstream, some address))) = _
    rw [hLevel, activeCount_eq_zero hFresh, hCount, ← Bool.decide_or, ← decide_not, decide_eq_decide]
    omega
  rw [Bool.and_right_comm, open_iff, hCapped, Bool.not_not, ← Bool.decide_and, decide_eq_decide,
    expandRoom]
  split <;> omega

theorem expandJobs_eq (hBefore : ∀ key ∈ keys, rank key.1 < 3) :
    (if k.free low db then k.expands low db keys else []) =
      (expansions k low db keys.length).map fun address => (.expandDownstream, some address) := by
  unfold Cron.expands Cron.expandRequests expansions
  cases k.free low db with
  | false => rfl
  | true =>
    rw [if_pos rfl, if_pos rfl]
    generalize hPicked : k.crawled low db = picked
    have hNodup : (picked.toList.flatMap fun h => k.candidates db h.address).Nodup := by
      cases picked with
      | none => exact List.nodup_nil
      | some h => simpa using nodup_candidates h.address
    have hRequests : (picked.toList.flatMap fun h => (k.candidates db h.address).map expandRequest) =
        (picked.toList.flatMap fun h => k.candidates db h.address).map expandRequest :=
      List.map_flatMap.symm
    rw [hRequests]
    exact addressJobs_eq .expandDownstream hNodup (fun _ => ⟨rfl, rfl, rfl⟩) hBefore
      fun a hFresh ks hType hNew => expand_open_iff hBefore hType hFresh hNew

theorem nodup_listDownstreamForPoll (config : AppConfig) (polls : PollSchedule) (nowMs : Nat) :
    (listDownstreamForPoll config polls nowMs db).Nodup := by
  unfold listDownstreamForPoll
  dsimp only
  rw [List.map_append]
  refine List.Nodup.append ?_ ?_ fun a hNever hStale => ?_
  · exact List.Nodup.sublist (List.Sublist.map _ (List.take_sublist _ _))
      (nodup_fst db.addresses ⟨_, List.perm_insertionSort _ _, List.filter_sublist.trans List.filter_sublist⟩)
  · exact List.Nodup.sublist (List.Sublist.map _ (List.take_sublist _ _))
      (nodup_fst db.addresses ⟨_, List.perm_insertionSort _ _, List.filter_sublist.trans List.filter_sublist⟩)
  · obtain ⟨e, he, rfl⟩ := List.mem_map.mp hNever
    obtain ⟨e', he', hEq⟩ := List.mem_map.mp hStale
    have hNone := (List.mem_filter.mp ((List.perm_insertionSort _ _).subset (List.mem_of_mem_take he))).2
    have hSome := (List.mem_filter.mp ((List.perm_insertionSort _ _).subset (List.mem_of_mem_take he'))).2
    rw [hEq, Option.isNone_iff_eq_none.mp hNone] at hSome
    cases hSome

theorem pollJobs_eq (hBefore : ∀ key ∈ keys, rank key.1 < 4) (addresses : List Address) :
    (if k.free low db then Gate.admitted (takes k.env db) Request.key keys (k.pollRequests db addresses)
      else []) = (downstreamPolls k low db keys.length addresses).map fun address =>
        (.pollDownstreamAddress, some address) := by
  unfold Cron.pollRequests downstreamPolls
  cases k.free low db with
  | false => rfl
  | true =>
    rw [if_pos rfl, if_pos rfl]
    refine addressJobs_eq .pollDownstreamAddress (nodup_listDownstreamForPoll _ _ _)
      (fun _ => ⟨rfl, rfl, rfl⟩) hBefore fun a _ ks _ _ => ?_
    exact (congrArg (· && _) (Bool.and_true _)).trans (open_iff keys ks)

end Parts

end Bloodhound.Ops
