import Bloodhound.Indexer.Expand
import Bloodhound.Store.Schema

/-!
# Which job a slot picks

`jobWeight.ts` and `tickPolicy.ts`: what a job costs, by its payload alone; which of the candidates a
slot of a tick takes; and how many jobs a tick plans.

* `pickIngestCandidate_isPick` says what is picked: a job that fits, one that runs from its pages where
  these are preferred, and a continuation that a reclaim has touched only where every candidate was
  reclaimed.
* `planTickJobs_pair`: a tick plans several jobs beside an ingest job only where so many are light and fit.
-/

namespace Bloodhound.Indexer

open Store (JobRow)

/-- The settings of a tick, beside those that its jobs read. -/
structure TickConfig where
  app : AppConfig := {}
  jobsPerTick : Nat := 1
  jobsPerTickMax : Nat := 3
  queueDepthPerExtraJob : Nat := 40
  queueDrainFirstDepth : Nat := 1
  subrequestLimitPerInvocation : Nat := 0
  scheduleSubrequestReserve : Nat := 38
  maxSubrequestsPerJob : Nat := 0
  pollSliceEveryNCrons : Nat := 4
  ageBoostEnabled : Bool := true
  ageBoostIntervalSec : Nat := 900
  ageBoostMax : Nat := 4
  maintSliceEveryNCrons : Nat := 10
  maintSliceMinWaitSec : Nat := 3600

/-! ## What a job costs -/

def pendingLength (payload : PendingPayloadFields) : Nat := (parsePendingTxs payload).length

/-- The job calls a provider before it can do anything else. -/
def jobNeedsChainCallAtStart (config : AppConfig) : Job → Bool
  | .pollHackerAddress _ | .pollDownstreamAddress _ | .auditHackerBackfill _ => true
  | .refreshLiveBalance _ | .refreshBtcUsdPrice | .backfillOpReturn => true
  | .syncColdcardwatch | .syncVercelTrackers | .syncBitqueryColdcard | .processTx _ => false
  | .backfillHackerAddress p =>
    decide (pendingLength p.toPendingPayloadFields ≤ p.processedIndex) && !p.pagesExhausted
  | .expandDownstream p =>
    decide (pendingLength p.toPendingPayloadFields ≤ p.processedIndex) && !p.pagesExhausted &&
      decide (p.pagesFetched < maxPages config)

def estimateJobSubreq (config : AppConfig) (job : Job) : Nat :=
  if jobNeedsChainCallAtStart config job then 8 + config.backfillTxsPerJob * 4
  else config.backfillTxsPerJob * 3

/-- `heavySubreqThreshold`: none for no limit. -/
def heavySubreqThreshold (config : TickConfig) : Option Nat :=
  if 0 < config.maxSubrequestsPerJob then some config.maxSubrequestsPerJob
  else if 0 < config.subrequestLimitPerInvocation then
    some (max 1 ((config.subrequestLimitPerInvocation - config.scheduleSubrequestReserve) / 2))
  else none

inductive JobWeightTier where
  | heavy
  | light
  deriving DecidableEq

/-- The payload carries a list of edges that was applied in part. -/
def traceEdgesPending : Job → Bool
  | .backfillHackerAddress p => p.trace.traceEdgesPending
  | .expandDownstream p => p.trace.traceEdgesPending
  | _ => false

def jobWeightTier (config : TickConfig) (job : Job) : JobWeightTier :=
  if traceEdgesPending job then .heavy
  else if jobNeedsChainCallAtStart config.app job then .heavy
  else if (heavySubreqThreshold config).any (· < estimateJobSubreq config.app job) then .heavy
  else .light

theorem needs_of_light {config : TickConfig} {job : Job} (h : jobWeightTier config job = .light) :
    jobNeedsChainCallAtStart config.app job = false := by
  unfold jobWeightTier at h
  split at h
  · cases h
  · split at h
    · cases h
    · next hNot => exact Bool.eq_false_iff.mpr hNot

/-! ## Picks -/

/-- A row of `jobs` with its id. -/
abbrev JobEntry : Type := Nat × JobRow

structure PickIngestCandidateOpts where
  preferContinuation : Bool := false
  requireNoChainAtStart : Bool := false
  preferProcessOnly : Bool := false
  excludeIds : List Nat := []
  maxEstimatedSubreq : Option Int := none

section Pick

variable (config : AppConfig) (opts : PickIngestCandidateOpts)

/-- The candidate is among those that a pick looks at. -/
def eligible (j : JobEntry) : Bool :=
  !opts.excludeIds.contains j.1 &&
    (!opts.requireNoChainAtStart || !jobNeedsChainCallAtStart config j.2.job) &&
    opts.maxEstimatedSubreq.all fun cap => decide ((estimateJobSubreq config j.2.job : Int) ≤ cap)

def processOnly (pool : List JobEntry) : List JobEntry :=
  pool.filter fun j => !jobNeedsChainCallAtStart config j.2.job

/-- The pool, without the jobs that call a provider first where the others are preferred. -/
def preferred (pool : List JobEntry) : List JobEntry :=
  if opts.preferProcessOnly ∧ processOnly config pool ≠ [] then processOnly config pool else pool

/-- A continuation that a reclaim has made pending again. -/
def reclaimedContinuation (j : JobEntry) : Bool :=
  decide (0 < j.2.reclaimCount) && isIngestContinuation j.2.job

/-- The first of a pool, or the first continuation, or where that one was reclaimed, the first that was
not. -/
def pickFrom (pool : List JobEntry) : Option JobEntry :=
  pool.head?.map fun first =>
    let cont := if opts.preferContinuation then
        pool.find? fun j => isIngestContinuation j.2.job && decide (j.2.reclaimCount = 0)
      else none
    let pick := cont.getD first
    if reclaimedContinuation pick then (pool.find? fun j => decide (j.2.reclaimCount = 0)).getD pick
    else pick

def pickIngestCandidate (candidates : List JobEntry) : Option JobEntry :=
  pickFrom opts (preferred config opts (candidates.filter (eligible config opts)))

/-- What is said of a pick from a pool. -/
structure IsPick (pool : List JobEntry) (pick : JobEntry) : Prop where
  mem : pick ∈ pool
  processOnly : opts.preferProcessOnly = true → jobNeedsChainCallAtStart config pick.2.job = true →
    ∀ j ∈ pool, jobNeedsChainCallAtStart config j.2.job = true
  reclaimed : reclaimedContinuation pick = true → ∀ j ∈ preferred config opts pool, 0 < j.2.reclaimCount
  continuation : opts.preferContinuation = true →
    (∃ j ∈ preferred config opts pool, isIngestContinuation j.2.job = true ∧ j.2.reclaimCount = 0) →
    isIngestContinuation pick.2.job = true ∧ pick.2.reclaimCount = 0

end Pick

section Facts

variable {config : AppConfig} {opts : PickIngestCandidateOpts} {pool : List JobEntry} {pick : JobEntry}

theorem needs_of_eligible {j : JobEntry} (h : eligible config opts j = true)
    (hRequire : opts.requireNoChainAtStart = true) : jobNeedsChainCallAtStart config j.2.job = false := by
  unfold eligible at h
  rw [hRequire, Bool.and_eq_true, Bool.and_eq_true] at h
  simpa using h.1.2

theorem mem_of_mem_preferred {j : JobEntry} (h : j ∈ preferred config opts pool) : j ∈ pool := by
  unfold preferred at h
  split at h
  · exact List.mem_of_mem_filter h
  · exact h

/-- Where a job that calls a provider first is left, all of the pool do. -/
theorem preferred_needs (hPrefer : opts.preferProcessOnly = true) {j : JobEntry}
    (hj : j ∈ preferred config opts pool) (hNeeds : jobNeedsChainCallAtStart config j.2.job = true) :
    ∀ i ∈ pool, jobNeedsChainCallAtStart config i.2.job = true := by
  unfold preferred at hj
  split at hj
  · have hNot := (List.mem_filter.mp hj).2
    rw [hNeeds] at hNot
    cases hNot
  · next hAll =>
    intro i hi
    by_contra hFree
    refine hAll ⟨hPrefer, List.ne_nil_of_mem (List.mem_filter.mpr ⟨hi, ?_⟩)⟩
    rw [Bool.eq_false_iff.mpr hFree]
    rfl

theorem preferred_eq_nil (h : preferred config opts pool = []) : pool = [] := by
  unfold preferred at h
  split at h
  · next hSome => exact absurd h hSome.2
  · exact h

/-- Either the pick stands, or it was a reclaimed continuation and another job replaces it. -/
theorem pickFrom_cases {first : JobEntry} {rest : List JobEntry}
    (hPick : pickFrom opts (first :: rest) = some pick) :
    ∃ stood, stood ∈ first :: rest ∧
      (opts.preferContinuation = true →
        (∃ j ∈ first :: rest, isIngestContinuation j.2.job = true ∧ j.2.reclaimCount = 0) →
        isIngestContinuation stood.2.job = true ∧ stood.2.reclaimCount = 0) ∧
      pick = if reclaimedContinuation stood then
        ((first :: rest).find? fun j => decide (j.2.reclaimCount = 0)).getD stood else stood := by
  unfold pickFrom at hPick
  rw [List.head?_cons, Option.map_some, Option.some_inj] at hPick
  refine ⟨_, ?_, ?_, hPick.symm⟩
  · split
    · cases hFind : (first :: rest).find? fun j =>
        isIngestContinuation j.2.job && decide (j.2.reclaimCount = 0) with
      | none => exact List.mem_cons_self
      | some cont => exact List.mem_of_find?_eq_some hFind
    · exact List.mem_cons_self
  · rintro hPrefer ⟨j, hj, hCont, hFresh⟩
    rw [if_pos hPrefer]
    cases hFind : (first :: rest).find? fun j =>
        isIngestContinuation j.2.job && decide (j.2.reclaimCount = 0) with
    | none =>
      have hNone := List.find?_eq_none.mp hFind j hj
      simp [hCont, hFresh] at hNone
    | some cont =>
      have hSome := List.find?_some hFind
      simpa using hSome

/-- What a pick is. -/
theorem isPick_pickFrom (hPick : pickFrom opts (preferred config opts pool) = some pick) :
    IsPick config opts pool pick := by
  cases hPool : preferred config opts pool with
  | nil =>
    rw [hPool] at hPick
    cases hPick
  | cons first rest =>
    rw [hPool] at hPick
    obtain ⟨stood, hStood, hCont, hEq⟩ := pickFrom_cases hPick
    have hMem : pick ∈ preferred config opts pool := by
      rw [hPool, hEq]
      split
      · cases hFind : (first :: rest).find? fun j => decide (j.2.reclaimCount = 0) with
        | none => exact hStood
        | some alt => exact List.mem_of_find?_eq_some hFind
      · exact hStood
    refine ⟨mem_of_mem_preferred hMem, fun hPrefer => preferred_needs hPrefer hMem, ?_, ?_⟩
    · intro hReclaimed j hj
      rw [hPool] at hj
      rw [hEq] at hReclaimed
      split at hReclaimed
      · -- a reclaimed continuation stands only where no job is left that was not reclaimed
        cases hFind : (first :: rest).find? fun j => decide (j.2.reclaimCount = 0) with
        | none =>
          have hNone := List.find?_eq_none.mp hFind j hj
          have hPos : ¬ j.2.reclaimCount = 0 := by simpa using hNone
          omega
        | some alt =>
          rw [hFind, Option.getD_some, reclaimedContinuation] at hReclaimed
          have hAlt := List.find?_some hFind
          simp only [decide_eq_true_eq] at hAlt
          simp [hAlt] at hReclaimed
      · next hNot => exact absurd hReclaimed hNot
    · rintro hPrefer hSome
      rw [hPool] at hSome
      obtain ⟨hContinues, hFresh⟩ := hCont hPrefer hSome
      have hStays : reclaimedContinuation stood = false := by
        simp [reclaimedContinuation, hFresh]
      rw [hEq, hStays, if_neg Bool.false_ne_true]
      exact ⟨hContinues, hFresh⟩

theorem pickFrom_eq_none : pickFrom opts pool = none ↔ pool = [] := by
  unfold pickFrom
  rw [Option.map_eq_none_iff, List.head?_eq_none_iff]

theorem pickIngestCandidate_isPick {candidates : List JobEntry}
    (h : pickIngestCandidate config opts candidates = some pick) :
    IsPick config opts (candidates.filter (eligible config opts)) pick := isPick_pickFrom h

/-- Nothing is picked where no candidate fits, and only there. -/
theorem pickIngestCandidate_eq_none {candidates : List JobEntry} :
    pickIngestCandidate config opts candidates = none ↔
      ∀ j ∈ candidates, eligible config opts j = false := by
  unfold pickIngestCandidate
  rw [pickFrom_eq_none]
  constructor
  · intro hNil j hj
    have hEmpty := List.filter_eq_nil_iff.mp (preferred_eq_nil hNil) j hj
    exact Bool.eq_false_iff.mpr hEmpty
  · intro hAll
    have hEmpty : candidates.filter (eligible config opts) = [] :=
      List.filter_eq_nil_iff.mpr fun j hj => by rw [hAll j hj]; exact Bool.false_ne_true
    rw [hEmpty, preferred, processOnly, List.filter_nil, ite_self]

end Facts

/-! ## Plans -/

/-- The cap on the jobs of a tick, which grows with the depth of the queue. -/
def effectiveJobsPerTick (config : TickConfig) (queueDepth : Nat) : Nat :=
  min (max config.jobsPerTick config.jobsPerTickMax)
    (config.jobsPerTick + (queueDepth - 1) / max 1 config.queueDepthPerExtraJob)

inductive TickJobsCapReason where
  | heavyHead
  | pairLight
  | noPair
  deriving DecidableEq

structure TickJobsPlan where
  jobsCap : Nat
  reason : TickJobsCapReason
  headWeight : Option JobWeightTier
  pairableCount : Nat

/-- A light candidate that fits into what the budget has left. -/
def pairable (config : TickConfig) (maxEstimatedSubreq : Option Int) (j : JobEntry) : Bool :=
  decide (jobWeightTier config j.2.job = .light) && !jobNeedsChainCallAtStart config.app j.2.job &&
    maxEstimatedSubreq.all fun cap => decide ((estimateJobSubreq config.app j.2.job : Int) ≤ cap)

def countPairableLightCandidates (config : TickConfig) (maxEstimatedSubreq : Option Int)
    (candidates : List JobEntry) : Nat :=
  candidates.countP (pairable config maxEstimatedSubreq)

/-- What is left of the budget for the estimate of a job; none for no limit. -/
def estimateCap (config : TickConfig) (remaining : Option Nat) : Option Int :=
  remaining.map fun n => (n : Int) - config.scheduleSubrequestReserve - 2

def planTickJobs (config : TickConfig) (queueDepth : Nat) (candidates : List JobEntry)
    (remaining : Option Nat) : TickJobsPlan :=
  let configuredMax := effectiveJobsPerTick config queueDepth
  let pairableCount := countPairableLightCandidates config (estimateCap config remaining) candidates
  match pickIngestCandidate config.app { preferContinuation := true } candidates with
  | none => ⟨configuredMax, .noPair, none, pairableCount⟩
  | some head =>
    match jobWeightTier config head.2.job with
    | .heavy => ⟨1, .heavyHead, some .heavy, pairableCount⟩
    | .light =>
      if 1 < configuredMax ∧ 2 ≤ pairableCount then
        let pairCap :=
          if config.subrequestLimitPerInvocation = 0 then configuredMax else min 2 configuredMax
        ⟨min pairCap pairableCount, .pairLight, some .light, pairableCount⟩
      else ⟨1, .noPair, some .light, pairableCount⟩

section Plan

variable {config : TickConfig} {queueDepth : Nat} {candidates : List JobEntry} {remaining : Option Nat}

/-- A tick that plans several jobs beside an ingest job has as many light candidates that fit. -/
theorem planTickJobs_pair (hSome : candidates ≠ [])
    (hMany : 1 < (planTickJobs config queueDepth candidates remaining).jobsCap) :
    (planTickJobs config queueDepth candidates remaining).jobsCap ≤
        candidates.countP (pairable config (estimateCap config remaining)) ∧
      (planTickJobs config queueDepth candidates remaining).jobsCap ≤
        effectiveJobsPerTick config queueDepth ∧
      (config.subrequestLimitPerInvocation ≠ 0 →
        (planTickJobs config queueDepth candidates remaining).jobsCap ≤ 2) := by
  unfold planTickJobs at hMany ⊢
  cases hHead : pickIngestCandidate config.app { preferContinuation := true } candidates with
  | none =>
    obtain ⟨j, hj⟩ := List.exists_mem_of_ne_nil _ hSome
    have hOut := pickIngestCandidate_eq_none.mp hHead j hj
    simp [eligible] at hOut
  | some head =>
    rw [hHead] at hMany
    cases hWeight : jobWeightTier config head.2.job with
    | heavy =>
      simp only [hWeight] at hMany
      omega
    | light =>
      simp only [hWeight] at hMany ⊢
      by_cases hPair : 1 < effectiveJobsPerTick config queueDepth ∧
          2 ≤ countPairableLightCandidates config (estimateCap config remaining) candidates
      · rw [if_pos hPair]
        refine ⟨Nat.min_le_right _ _, ?_, fun hLimit => ?_⟩
        · refine (Nat.min_le_left _ _).trans ?_
          split <;> omega
        · refine (Nat.min_le_left _ _).trans ?_
          rw [if_neg hLimit]
          exact Nat.min_le_left _ _
      · rw [if_neg hPair] at hMany
        exact absurd hMany (Nat.lt_irrefl 1)

end Plan

end Bloodhound.Indexer
