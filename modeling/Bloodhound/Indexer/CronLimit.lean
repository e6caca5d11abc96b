import Bloodhound.Lib.Growth
import Bloodhound.Indexer.CronPass
import Bloodhound.Indexer.TraceWrites

/-!
# How many jobs a cron pass enqueues

Every enqueue inserts at most one job, and a pass makes a bounded number of them, whatever the clock
says at the places where it is read: the bounds of its parts add up. What its reads of the store decide,
and nothing else does, is how long the lists of expansions and of polls are and whether the pass is
throttled.
-/

namespace Bloodhound.Indexer

open Store Journal
open Journal.Op (GrowsFrom Grows grows_pure grows_of_emits grows_step grows_when grows_forEach grows_tryCatch
  emits_query emits_run emits_mem emits_pure triple_of_state triple_pure triple_query triple_mem query)

/-! ## Jobs that are added -/

/-- The operation inserts at most `n` jobs. -/
abbrev Adds {α : Type} (n : Nat) (p : StoreM α) : Prop := Grows (fun db : Db => db.jobs.nextId) n p

abbrev AddsFrom {α : Type} (db : Db) (n : Nat) (p : StoreM α) : Prop :=
  GrowsFrom (fun db : Db => db.jobs.nextId) db n p

/-- The statement inserts no job. -/
def AddsNone (i : Stmt) : Prop := ∀ db : Db, (exec i db).jobs.nextId = db.jobs.nextId

theorem addsNone_of_isCounter (i : Stmt) (h : i.isCounter) : AddsNone i := by
  cases i with
  | scheduler | hackStats | insertHackVictim => exact fun _ => rfl
  | _ => cases h

section Parts

variable {α β : Type} {n : Nat}

theorem adds_of_emits {p : StoreM α} (h : p.Emits AddsNone) : Adds 0 p := grows_of_emits h fun _ hi => hi

theorem adds_now {f : Nat → StoreM β} (h : ∀ ts, Adds n (f ts)) : Adds n (now >>= f) := fun db =>
  GrowsFrom.of_mem fun ts => h ts db

theorem adds_query {read : Db → α} {f : α → StoreM β} (h : ∀ db, Adds n (f (read db))) :
    Adds n (query read >>= f) := fun db => GrowsFrom.of_query (h db db)

theorem nextId_insertIfAbsent (job : Job) (priority : Int) (runAt createdAt : Nat) (types : List JobType)
    (address : Option Address) (db : Db) :
    (exec (Stmt.job (.insertIfAbsent job priority runAt createdAt types address)) db).jobs.nextId ≤
      db.jobs.nextId + 1 := by
  show (if _ then db.jobs else db.jobs.insertRow _ : JobTable).nextId ≤ _
  split
  · exact Nat.le_succ _
  · exact Nat.le_refl _

theorem adds_enqueueForTick (env : Env) (job : Job) (priority : Int) (opts : EnqueueIfAbsentOptions) :
    Adds 1 (enqueueForTick env job priority opts) := by
  have hCheck : Adds 0 (shouldAllowEnqueue env job opts.bypassQueueCap : StoreM Bool) :=
    adds_of_emits (emits_shouldAllowEnqueue (fun _ => rfl) env job _)
  have hInserted : ∀ inserted : Option Nat, Adds 0 (do
      StoreMonad.forEach inserted.toList fun _ => afterJobInserted job.type
      pure inserted : StoreM (Option Nat)) := fun inserted =>
    adds_of_emits ((emits_storeForEach fun _ =>
      emits_afterJobInserted (queueCounters addsNone_of_isCounter) job.type).bind fun _ => emits_pure _)
  refine hCheck.zero_bind fun allowed => ?_
  split
  · refine adds_now fun runAt => adds_now fun createdAt => ?_
    exact Grows.bind (grows_step fun db => nextId_insertIfAbsent _ _ _ _ _ _ db) hInserted
  · exact (grows_pure _).mono (Nat.zero_le 1)

/-- An enqueue whose result is not used. -/
theorem adds_enqueue (env : Env) (job : Job) (priority : Int) (opts : EnqueueIfAbsentOptions) (a : α) :
    Adds 1 (do
      let _ ← enqueueForTick env job priority opts
      pure a) :=
  (adds_enqueueForTick env job priority opts).bind fun _ => grows_pure a

theorem adds_enqueueBackfillResume (env : Env) (address : Address) :
    Adds 1 (enqueueBackfillResume env address) :=
  Grows.zero_bind (adds_of_emits ((emits_query _).bind fun _ => emits_pure _))
    fun _ => adds_enqueue _ _ _ _ ()

/-! ## The parts of a pass -/

theorem adds_scheduleSync (env : Env) (cache : ScheduleEnqueueCache) (skip : Bool)
    (sources : List SyncSource) (intervalSec ts : Nat) (job : Job) (priority : Int) :
    Adds (if skip then 0 else 1) (scheduleSync env cache skip sources intervalSec ts job priority) := by
  refine adds_query fun _ => grows_when fun hAsks => ?_
  rw [hAsks.1]
  exact adds_enqueue _ _ _ _ ()

theorem adds_maintainBackfill (env : Env) (address : Address) (status : ExpandStatus)
    (backfill : Option SyncStateRow) (auditDue throttled : Bool) :
    Adds 1 (maintainBackfill env address status backfill auditDue throttled) := by
  unfold maintainBackfill
  split
  · exact adds_enqueueBackfillResume env address
  · exact grows_when fun _ => adds_enqueue _ _ _ _ ()

/-- A balance is refreshed only where its hacker is not polled. -/
theorem adds_maintainPoll (env : Env) (h : FlaggedHacker) (ts : Nat) (auditDue : Bool) :
    Adds 1 (maintainPoll env h ts auditDue) := by
  have hRest : ∀ (refreshes : Prop) [Decidable refreshes] (pollDue : Bool), (refreshes → pollDue = false) →
      Adds 1 (do
        Op.when refreshes do
          let _ ← enqueueForTick env (.refreshLiveBalance h.address) JobPriority.refreshBalance
            { address := some h.address }
          pure ()
        Op.when (pollDue = true) do
          let _ ← enqueueForTick env (.pollHackerAddress { address := h.address }) JobPriority.pollHacker
            { address := some h.address }
          pure () : StoreM Unit) := by
    intro refreshes _ pollDue hNot
    cases pollDue with
    | false =>
      exact (grows_when fun _ => adds_enqueue _ _ _ _ ()).bind fun _ =>
        (grows_when fun hTrue => nomatch hTrue : Adds 0 _)
    | true =>
      exact Grows.zero_bind (grows_when fun hYes => nomatch hNot hYes) fun _ =>
        grows_when fun _ => adds_enqueue _ _ _ _ ()
  refine adds_query fun db => ?_
  dsimp only
  split
  · exact adds_query fun _ => hRest _ _ fun hYes => hYes.2.1
  · exact Grows.zero_bind (grows_pure _) fun sync => hRest _ _ fun hYes => hYes.2.1

theorem adds_maintainOneHacker (env : Env) (h : FlaggedHacker) (ts : Nat) (throttled : Bool) :
    Adds (if throttled then 1 else 2) (maintainOneHacker env h ts throttled) := by
  refine adds_query fun _ => adds_query fun _ => ?_
  refine ((adds_maintainBackfill env h.address _ _ _ throttled).bind fun _ =>
    grows_when (n := if throttled then 0 else 1) fun hNot => ?_).mono ?_
  · rw [hNot]
    exact adds_maintainPoll env h ts _
  · cases throttled
    · exact Nat.le_refl 2
    · exact Nat.le_refl 1

theorem adds_claimNextHackerPollIndex (n : Nat) : Adds 0 (claimNextHackerPollIndex n) := by
  unfold claimNextHackerPollIndex
  split
  · exact grows_pure 0
  · exact grows_step fun _ => Nat.le_refl _

theorem adds_maintenanceStep (env : Env) (hackers : List FlaggedHacker) (low : BudgetLow) (tick ts : Nat)
    (throttled : Bool) :
    Adds (if throttled then 1 else 2) (maintenanceStep env hackers low tick ts throttled) := by
  have hOne := fun h => adds_maintainOneHacker env h ts throttled
  generalize (if throttled then 1 else 2) = n at hOne ⊢
  unfold maintenanceStep
  split
  · refine (adds_claimNextHackerPollIndex _).zero_bind fun idx => ?_
    refine Grows.bind (n := 0) ((grows_forEach fun h _ => hOne h).mono ?_) fun _ => grows_pure _
    cases hackers[idx]? with
    | none => simp
    | some h => simp
  · exact (grows_pure none).mono (Nat.zero_le n)

theorem adds_scheduleOpReturnBackfill (env : Env) (cache : ScheduleEnqueueCache) (low : BudgetLow)
    (tick : Nat) : Adds 1 (scheduleOpReturnBackfill env cache low tick) :=
  grows_when fun _ => adds_query fun _ => grows_when fun _ => adds_enqueue _ _ _ _ ()

theorem adds_resumePickedBackfill (env : Env) (address : Address) :
    Adds 1 (resumePickedBackfill env address) :=
  adds_query fun _ => grows_when fun _ => adds_query fun _ => grows_when fun _ =>
    adds_enqueueBackfillResume env address

theorem adds_enqueueFrontier (env : Env) (addresses : List Address) :
    Adds addresses.length (enqueueFrontier env addresses) := by
  induction addresses with
  | nil => exact grows_pure 0
  | cons address rest ih =>
    refine ((adds_enqueueForTick env (.expandDownstream { address, cron := true }) JobPriority.cronExpand
      { address := some address }).bind fun jobId => Grows.zero_bind (grows_when fun _ => ?_)
        fun _ => ih.bind fun _ => grows_pure _).mono ?_
    · exact adds_of_emits (emits_setExpandStatus addsNone_of_isCounter fun _ => rfl)
    · rw [List.length_cons]
      omega

/-- The frontier of a hacker is cut off at the cap of a pass. -/
theorem triple_getCrawlEnqueueCandidates (env : Env) (hacker : Address) (db : Db) :
    Op.Triple (fun s => s = db) (getCrawlEnqueueCandidates env hacker)
      (fun frontier _ => frontier.length ≤ env.config.crawlEnqueuePerCron) fun _ _ => True := by
  unfold getCrawlEnqueueCandidates
  split
  · exact triple_pure [] fun _ _ => Nat.zero_le _
  · refine triple_query (fun s _ => ?_) fun _ _ _ => trivial
    rw [List.length_map]
    exact List.length_take_le _ _

theorem adds_crawlOneHacker (env : Env) (cache : ScheduleEnqueueCache) (picked : FlaggedHacker) :
    Adds (1 + env.config.crawlEnqueuePerCron) (crawlOneHacker env cache picked) := by
  have hReads : Adds 0 (getCrawlEnqueueCandidates env picked.address) := by
    unfold getCrawlEnqueueCandidates
    split
    · exact grows_pure []
    · exact adds_of_emits (emits_query _)
  refine Grows.bind (grows_when fun _ => adds_resumePickedBackfill env picked.address) fun _ db => ?_
  refine (hReads db).zero_bind_of (triple_getCrawlEnqueueCandidates env picked.address db)
    fun frontier s hLength => ?_
  exact (adds_enqueueFrontier env frontier s).mono hLength

theorem adds_crawlStep (env : Env) (hackers : List FlaggedHacker) (cache : ScheduleEnqueueCache) :
    Adds (1 + env.config.crawlEnqueuePerCron) (crawlStep env hackers cache) := by
  unfold crawlStep
  split
  · exact (grows_pure _).mono (Nat.zero_le _)
  · refine (adds_claimNextHackerPollIndex _).zero_bind fun idx => ?_
    refine Grows.bind (n := 0) ?_ fun _ => grows_pure _
    cases hackers[idx]? with
    | none => exact (grows_pure 0).mono (Nat.zero_le _)
    | some picked => exact adds_crawlOneHacker env cache picked

theorem length_listDownstreamForPoll_le (config : AppConfig) (polls : PollSchedule) (nowMs : Nat) (db : Db) :
    (listDownstreamForPoll config polls nowMs db).length ≤ polls.downstreamPollEnqueuePerCron := by
  unfold listDownstreamForPoll
  simp only [List.length_map, List.length_append, List.length_take]
  omega

theorem adds_scheduleDownstreamPolls (env : Env) (polls : PollSchedule) :
    Adds polls.downstreamPollEnqueuePerCron (scheduleDownstreamPolls env polls) := by
  refine adds_now fun nowMs => adds_query fun db => ?_
  refine (grows_forEach fun address _ => adds_enqueue _ _ _ _ ()).mono ?_
  rw [Nat.mul_one]
  exact length_listDownstreamForPoll_le env.config polls nowMs db

end Parts

/-! ## The pass -/

section Pass

variable (env : Env) (polls : PollSchedule) (low : BudgetLow) (db : Db)

/-- The queue is so full that a pass only maintains. -/
def isThrottled : Bool := (env.config.queueSoftThrottleDepth : Int) ≤ db.depth

/-- The jobs of the crawl: the synchronizations, the maintenance of one hacker, and where the pass
crawls, the OP_RETURN backfill, a resumed backfill and the expansions. -/
def crawlLimit : Nat :=
  (if low.nonCritical then 0 else 3) + (if isThrottled env db then 1 else 2) +
    if low.nonCritical || isThrottled env db then 0 else 2 + env.config.crawlEnqueuePerCron

/-- The largest number of jobs that a pass may enqueue: that for the price, those of the crawl, and
where the pass crawls, the polls. -/
def enqueueLimit : Nat :=
  (if low.price then 1 else 0) + crawlLimit env low db +
    if low.nonCritical || isThrottled env db then 0 else polls.downstreamPollEnqueuePerCron

variable {env polls low db} {hackers : List FlaggedHacker}

theorem adds_crawlUnlessThrottled (cache : ScheduleEnqueueCache) (tick : Nat) (stats : ScheduleTickStats)
    (maintained : Option Nat) :
    Adds (if stats.skipNonCritical || stats.throttled then 0 else 2 + env.config.crawlEnqueuePerCron)
      (crawlUnlessThrottled env hackers low cache tick stats maintained) := by
  unfold crawlUnlessThrottled
  by_cases hStops : (stats.skipNonCritical || stats.throttled) = true
  · rw [if_pos hStops, if_pos hStops]
    exact grows_pure _
  · rw [if_neg hStops, if_neg hStops]
    refine ((adds_scheduleOpReturnBackfill env cache low tick).bind fun _ =>
      (adds_crawlStep env hackers cache).bind fun _ => grows_pure _).mono ?_
    omega

/-- The queue as the pass reads it at its start. -/
theorem triple_loadScheduleEnqueueCache :
    Op.Triple (fun s => s = db) loadScheduleEnqueueCache
      (fun cache s => s = db ∧ cache = ⟨db.latched, db.depth⟩) fun _ _ => True :=
  Op.Triple.bind (Q := fun state s => s = db ∧ state = db.scheduler)
    (triple_query (fun _ hs => ⟨hs, hs ▸ rfl⟩) fun _ _ _ => trivial) fun _ =>
      Op.triple_of_fact fun hState => triple_pure _ fun _ hs => ⟨hs, hState ▸ rfl⟩

theorem adds_scheduleHackers : AddsFrom db (crawlLimit env low db) (scheduleHackers env hackers low) := by
  have hCache : Adds 0 loadScheduleEnqueueCache :=
    adds_of_emits ((emits_query _).bind fun _ => emits_pure _)
  have hTick : Adds 0 incrementMaintenanceCronCounter :=
    adds_of_emits ((emits_run fun _ => rfl).bind fun _ => (emits_query _).bind fun _ => emits_pure _)
  refine GrowsFrom.of_mem fun ts => ?_
  refine (hCache db).zero_bind_of triple_loadScheduleEnqueueCache fun cache s hs => ?_
  obtain ⟨rfl, rfl⟩ := hs
  have hSync := fun sources intervalSec job priority => adds_scheduleSync env ⟨s.latched, s.depth⟩
    low.nonCritical sources intervalSec ts job priority
  have hCrawl : ∀ (tick : Nat) (maintained : Option Nat),
      Adds (if low.nonCritical || isThrottled env s then 0 else 2 + env.config.crawlEnqueuePerCron)
        (crawlUnlessThrottled env hackers low ⟨s.latched, s.depth⟩ tick
          { skipNonCritical := low.nonCritical
            maintTick := everyNCrons env.config.hackerMaintenanceEveryNCrons tick
            throttled := isThrottled env s } maintained) := fun tick maintained =>
    adds_crawlUnlessThrottled _ _ _ _
  refine (Grows.bind (hSync _ _ _ _) fun _ => (hSync _ _ _ _).bind fun _ => (hSync _ _ _ _).bind fun _ =>
    hTick.zero_bind fun tick => (adds_maintenanceStep env hackers low tick ts (isThrottled env s)).bind
      fun maintained => hCrawl tick maintained).mono ?_ s
  unfold crawlLimit
  cases low.nonCritical
  · simp
    omega
  · simp

/-- A pass that comes to its hackers says whether it was throttled. -/
def SaysThrottled (env : Env) (low : BudgetLow) (db : Db) (stats : ScheduleTickStats) : Prop :=
  stats.picks.isSome = true →
    stats.skipNonCritical = low.nonCritical ∧ stats.throttled = isThrottled env db

theorem triple_scheduleHackers_stats :
    Op.Triple (fun s => s = db) (scheduleHackers env hackers low)
      (fun stats _ => SaysThrottled env low db stats) fun _ _ => True := by
  refine Op.Triple.bind (triple_mem _ fun _ _ hs => hs) fun ts => ?_
  refine triple_loadScheduleEnqueueCache.bind fun cache => Op.triple_of_fact fun hCache => ?_
  rw [hCache]
  refine Op.Triple.pre (P := fun _ => True) ?_ fun _ _ => trivial
  refine Op.triple_result fun _ => Op.triple_result fun _ => Op.triple_result fun _ =>
    Op.triple_result fun tick => Op.triple_result fun maintained => ?_
  unfold crawlUnlessThrottled
  split
  · exact triple_pure _ fun _ _ _ => ⟨rfl, rfl⟩
  · exact Op.triple_result fun _ => Op.triple_result fun _ => triple_pure _ fun _ _ _ => ⟨rfl, rfl⟩

/-- What the guards of the crawl read. -/
theorem triple_isRebuildActive (config : AppConfig) :
    Op.Triple (fun s => s = db) (isRebuildActive config) (fun _ s => s = db) fun _ _ => True := by
  unfold isRebuildActive
  split
  · exact triple_pure true fun _ hs => hs
  · exact triple_query (fun _ hs => hs) fun _ _ _ => trivial

theorem triple_isD1WriteBlocked :
    Op.Triple (fun s => s = db) isD1WriteBlocked (fun _ s => s = db) fun _ _ => True :=
  Op.Triple.bind (triple_query (Q := fun _ s => s = db) (fun _ hs => hs) fun _ _ _ => trivial) fun _ =>
    Op.Triple.bind (triple_mem _ fun _ _ hs => hs) fun _ => triple_pure _ fun _ hs => hs

theorem adds_isRebuildActive (config : AppConfig) : Adds 0 (isRebuildActive config) := by
  unfold isRebuildActive
  split
  · exact grows_pure true
  · exact adds_of_emits (emits_query _)

theorem adds_isD1WriteBlocked : Adds 0 isD1WriteBlocked :=
  adds_of_emits ((emits_query _).bind fun _ => Op.Emits.bind (emits_mem _) fun _ => emits_pure _)

theorem adds_scheduleDownstreamCrawl :
    AddsFrom db (crawlLimit env low db) (scheduleDownstreamCrawl env hackers low) := by
  refine (adds_isRebuildActive env.config db).zero_bind_of (triple_isRebuildActive env.config)
    fun rebuild s hs => ?_
  split
  · exact (grows_pure _).mono (Nat.zero_le _) s
  refine (adds_isD1WriteBlocked s).zero_bind_of triple_isD1WriteBlocked fun blocked s' hs' => ?_
  subst hs' hs
  split
  · exact (grows_pure _).mono (Nat.zero_le _) _
  · exact adds_scheduleHackers

theorem triple_scheduleDownstreamCrawl_stats :
    Op.Triple (fun s => s = db) (scheduleDownstreamCrawl env hackers low)
      (fun stats _ => SaysThrottled env low db stats) fun _ _ => True := by
  refine (triple_isRebuildActive env.config).bind fun rebuild => ?_
  split
  · exact triple_pure _ fun _ _ hSome => nomatch hSome
  refine triple_isD1WriteBlocked.bind fun blocked => ?_
  split
  · exact triple_pure _ fun _ _ hSome => nomatch hSome
  · exact triple_scheduleHackers_stats

theorem adds_scheduleTick : AddsFrom db
    (crawlLimit env low db + if low.nonCritical || isThrottled env db then 0
      else polls.downstreamPollEnqueuePerCron) (scheduleTick env polls hackers low) := by
  refine adds_scheduleDownstreamCrawl.bind_of triple_scheduleDownstreamCrawl_stats fun stats s hStats => ?_
  refine Grows.bind (n := 0) (grows_when fun hPolls => ?_) (fun _ => grows_pure stats) s
  obtain ⟨hSkip, hThrottled⟩ := hStats hPolls.1
  rw [← hSkip, ← hThrottled, hPolls.2.1, hPolls.2.2]
  exact adds_scheduleDownstreamPolls env polls

/-! ## The price -/

variable {price : PriceRefresh}

theorem adds_refreshInline : Adds 0 (refreshInline price) := by
  refine grows_tryCatch (m := 0) ?_ fun _ => grows_pure _
  split
  · exact adds_of_emits ((emits_query _).bind fun _ => emits_pure _)
  · exact grows_pure _

theorem adds_scheduleBtcUsdPriceRefresh {n : Nat} (hn : low.price = true → 1 ≤ n) :
    Adds n (scheduleBtcUsdPriceRefresh env price low) := by
  refine adds_isD1WriteBlocked.zero_bind fun blocked => ?_
  split
  · exact (grows_pure _).mono (Nat.zero_le n)
  refine adds_now fun ts => adds_query fun _ => ?_
  split
  · exact (grows_pure _).mono (Nat.zero_le n)
  refine adds_query fun _ => ?_
  split
  · exact (grows_pure _).mono (Nat.zero_le n)
  split
  · next hLow => exact (adds_enqueue _ _ _ _ _).mono (hn hLow)
  · exact adds_query fun _ => adds_refreshInline.mono (Nat.zero_le n)

/-- The job for the price makes the queue no shorter. -/
theorem triple_scheduleBtcUsdPriceRefresh :
    Op.Triple (fun s => s = db) (scheduleBtcUsdPriceRefresh env price low)
      (fun _ s => isThrottled env db = true → isThrottled env s = true) fun _ _ => True := by
  have hStays : ∀ s : Db, s = db → isThrottled env db = true → isThrottled env s = true := by
    rintro s rfl h
    exact h
  have hQueued : Op.Triple (fun s => s = db) (do
      let _ ← enqueueForTick env .refreshBtcUsdPrice JobPriority.refreshBtcUsd {}
      pure .queued : StoreM BtcScheduleMode)
      (fun _ s => isThrottled env db = true → isThrottled env s = true) fun _ _ => True := by
    refine (triple_enqueueForTick env _ _ rfl db).bind fun id => triple_pure _ fun s hs hFull => ?_
    have hNew : isIngestContinuation .refreshBtcUsdPrice = false := rfl
    have hInserted := ((inserted_nil env db).outcome
      (fun hTrue => absurd (hNew.symm.trans hTrue) Bool.false_ne_true) hs).2
    have hDepth := of_decide_eq_true hFull
    refine decide_eq_true ((hInserted.le_counter (c := .pendingJob) rfl _).mpr ?_)
    rw [level_pendingJob]
    omega
  have hReads : ∀ {β : Type} {f : Unit → StoreM β} {Q : β → Db → Prop},
      Op.Triple (fun s => s = db) (f ()) Q (fun _ _ => True) →
      Op.Triple (fun s => s = db) (query (fun _ => ()) >>= f) Q fun _ _ => True := fun h =>
    Op.Triple.bind (triple_query (fun _ hs => hs) fun _ _ _ => trivial) fun _ => h
  refine triple_isD1WriteBlocked.bind fun blocked => ?_
  split
  · exact triple_pure _ hStays
  refine Op.Triple.bind (triple_mem _ fun _ _ hs => hs) fun ts => hReads ?_
  split
  · exact triple_pure _ hStays
  refine hReads ?_
  split
  · exact triple_pure _ hStays
  split
  · exact hQueued
  · refine hReads (Op.Triple.tryCatch (E := fun _ s => s = db) ?_ fun _ => triple_pure _ hStays)
    split
    · refine Op.Triple.bind (triple_query (Q := fun _ s => s = db) (fun _ hs => hs) fun _ hs _ => hs)
        fun _ => triple_pure _ hStays
    · exact triple_pure _ hStays

/-- A pass throttled at its start stays so, and its crawl has the smaller limit. -/
theorem crawlLimit_le {s : Db} (h : isThrottled env db = true → isThrottled env s = true) :
    crawlLimit env low s + (if low.nonCritical || isThrottled env s then 0
      else polls.downstreamPollEnqueuePerCron) ≤
    crawlLimit env low db + if low.nonCritical || isThrottled env db then 0
      else polls.downstreamPollEnqueuePerCron := by
  unfold crawlLimit
  cases hOld : isThrottled env db with
  | true => rw [h hOld]
  | false =>
    cases isThrottled env s with
    | false => exact Nat.le_refl _
    | true =>
      simp only [Bool.or_true, Bool.or_false, if_true, Bool.false_eq_true, if_false]
      omega

end Pass

/-- No pass enqueues more jobs than its limit, whether it returns or throws and whatever the clock says
on the way. -/
theorem runSchedulePhase_within_limit (env : Env) (polls : PollSchedule) (price : PriceRefresh)
    (hackers : List FlaggedHacker) (low : BudgetLow) (db : Db) (c : Ctl Mem Err) :
    (insertedSince db ((runSchedulePhase env polls price hackers low).final db c)).length ≤
      enqueueLimit env polls low db := by
  have hPhase : AddsFrom db (enqueueLimit env polls low db)
      (runSchedulePhase env polls price hackers low) := by
    refine GrowsFrom.of_query ?_
    have hPrice : Adds (if low.price then 1 else 0) (scheduleBtcUsdPriceRefresh env price low) :=
      adds_scheduleBtcUsdPriceRefresh fun hLow => by rw [hLow]; exact Nat.le_refl 1
    refine ((hPrice db).bind_of triple_scheduleBtcUsdPriceRefresh
      fun _ s hs => adds_scheduleTick.mono (crawlLimit_le hs)).mono ?_
    unfold enqueueLimit
    omega
  have hLength := List.length_filterMap_le (fun id =>
    (((runSchedulePhase env polls price hackers low).final db c).jobs.lookup id).map fun row =>
      (row.job.type, row.job.address)) (List.range' db.jobs.nextId
        (((runSchedulePhase env polls price hackers low).final db c).jobs.nextId - db.jobs.nextId))
  rw [List.length_range'] at hLength
  have hLe := hPhase.final_le c
  exact hLength.trans (by omega)

end Bloodhound.Indexer
