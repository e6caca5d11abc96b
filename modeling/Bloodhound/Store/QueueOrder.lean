import Mathlib.Data.Prod.Lex
import Mathlib.Algebra.Order.Ring.Int
import Mathlib.Data.Nat.Cast.Order.Ring
import Bloodhound.Lib.Selection
import Bloodhound.Indexer.Payload

/-!
# The order of the queue

Jobs are claimed by a priority that grows with their age. The claim computes the age in SQL,
from both times truncated to whole seconds; the display computes it in JavaScript, from the
milliseconds between them. The truncation can gain a job a point, where its age is just
below a step; and SQL has no floor at zero for a job created after the current time.

The display shows the order of the claims exactly where no job that gains on another by
this draws level with it or passes it.
-/

namespace Bloodhound.Store.QueueOrder

open Indexer (JobType)

/-! ## Priorities -/

/-- `ClaimAgeBoost`. -/
structure ClaimAgeBoost where
  enabled : Bool
  intervalSec : Nat
  maxBoost : Nat
  eligibleTypes : List JobType

/-- The columns of a pending job that its place depends on; times are in milliseconds. -/
structure PendingJob where
  id : Nat
  type : JobType
  priority : Int
  runAfter : Nat
  createdAt : Nat
  deriving DecidableEq

/-- `jobRunnableAtExpr`. -/
def jobRunnableAt (job : PendingJob) : Nat :=
  if job.createdAt < job.runAfter then job.runAfter else job.createdAt

/-- `jobWaitSecExpr`: `strftime('%s', …)` gives whole seconds. -/
def jobWaitSec (ts : Nat) (job : PendingJob) : Int :=
  (ts / 1000 : Nat) - (jobRunnableAt job / 1000 : Nat)

/-- `jobAgeBoostExpr`: the division of integers in SQL truncates towards zero. -/
def jobAgeBoost (ageBoost : ClaimAgeBoost) (ts : Nat) (job : PendingJob) : Int :=
  if ageBoost.enabled = false ∨ ageBoost.intervalSec = 0 ∨ ageBoost.eligibleTypes = [] then 0
  else if job.type ∈ ageBoost.eligibleTypes then
    min (ageBoost.maxBoost : Int) ((jobWaitSec ts job).tdiv ageBoost.intervalSec)
  else 0

/-- `effectivePriorityExpr`. -/
def effectivePriority (ageBoost : Option ClaimAgeBoost) (ts : Nat) (job : PendingJob) : Int :=
  match ageBoost with
  | some boost =>
    if boost.enabled ∧ 0 < boost.intervalSec then job.priority + jobAgeBoost boost ts job
    else job.priority
  | none => job.priority

/-- `targetAgeBoost`. -/
def targetAgeBoost (ageBoost : ClaimAgeBoost) (ts : Nat) (job : PendingJob) : Int :=
  if ageBoost.enabled = false ∨ ageBoost.intervalSec = 0 ∨ job.type ∉ ageBoost.eligibleTypes then 0
  else
    let runnableMs : Nat := max job.createdAt job.runAfter
    let waitSec : Int := max 0 (((ts : Int) - runnableMs) / 1000)
    min (ageBoost.maxBoost : Int) (waitSec / ageBoost.intervalSec)

/-- The default of `countPendingJobsBeforeEffective`. -/
def noBoost : ClaimAgeBoost where
  enabled := false
  intervalSec := 1
  maxBoost := 0
  eligibleTypes := []

/-- The effective priority of a job as it is displayed. -/
def displayPriority (ageBoost : Option ClaimAgeBoost) (ts : Nat) (job : PendingJob) : Int :=
  job.priority + targetAgeBoost (ageBoost.getD noBoost) ts job

/-! ## Orders -/

/-- The jobs with an effective priority, by `desc`, `asc` and `asc`. -/
abbrev OrderKey : Type := ℤ ×ₗ ℕ ×ₗ ℕ

def orderKey (priority : Int) (job : PendingJob) : OrderKey :=
  toLex (-priority, toLex (job.runAfter, job.createdAt))

/-- `jobClaimOrderBy`. -/
def claimKey (ageBoost : Option ClaimAgeBoost) (ts : Nat) (job : PendingJob) : OrderKey :=
  orderKey (effectivePriority ageBoost ts job) job

def displayKey (ageBoost : Option ClaimAgeBoost) (ts : Nat) (job : PendingJob) : OrderKey :=
  orderKey (displayPriority ageBoost ts job) job

/-- The pending jobs, each with an id of its own. -/
structure Pending where
  jobs : List PendingJob
  nodup : (jobs.map (·.id)).Nodup

def runnable (ts : Nat) (jobs : List PendingJob) : List PendingJob :=
  jobs.filter (·.runAfter ≤ ts)

/-- The row that the query of `claimNextJob` may return; ties are left to the database. -/
def IsHead (ageBoost : Option ClaimAgeBoost) (ts : Nat) (jobs : List PendingJob)
    (job : PendingJob) : Prop :=
  job ∈ runnable ts jobs ∧ ∀ other ∈ runnable ts jobs, claimKey ageBoost ts job ≤ claimKey ageBoost ts other

/-- The jobs that repeated calls of `claimNextJob` at one time take, until none is left. -/
inductive Claims (ageBoost : Option ClaimAgeBoost) (ts : Nat) :
    List PendingJob → List PendingJob → Prop where
  | empty {jobs : List PendingJob} (hNone : runnable ts jobs = []) : Claims ageBoost ts jobs []
  | claim {jobs order : List PendingJob} {job : PendingJob} (hHead : IsHead ageBoost ts jobs job)
      (hRest : Claims ageBoost ts (jobs.erase job) order) : Claims ageBoost ts jobs (job :: order)

/-- The runnable jobs in an order of their displayed priorities. -/
def DisplayOrder (ageBoost : Option ClaimAgeBoost) (ts : Nat) (jobs order : List PendingJob) : Prop :=
  Selection.IsSorted (displayKey ageBoost ts) (runnable ts jobs) order

theorem claims_iff (ageBoost : Option ClaimAgeBoost) (ts : Nat) {jobs order : List PendingJob} :
    Claims ageBoost ts jobs order ↔
      Selection.IsSorted (claimKey ageBoost ts) (runnable ts jobs) order := by
  rw [← Selection.selects_iff]
  constructor
  · intro h
    induction h with
    | empty hNone => rw [hNone]; exact .done
    | claim hHead _ ih =>
      refine .take hHead.1 hHead.2 ?_
      rw [runnable, List.erase_filter]
      exact ih
  · intro h
    generalize hRun : runnable ts jobs = l at h
    induction h generalizing jobs with
    | done => exact .empty hRun
    | take hMem hLeast _ ih =>
      subst hRun
      refine .claim ⟨hMem, hLeast⟩ (ih ?_)
      rw [runnable, runnable, List.erase_filter]

theorem nodup_runnable (pending : Pending) (ts : Nat) : (runnable ts pending.jobs).Nodup :=
  (List.Nodup.of_map _ pending.nodup).filter _

/-- `countPendingJobsBeforeEffective`: the place of a job in the queue. -/
def countPendingJobsBeforeEffective (ageBoost : Option ClaimAgeBoost) (ts : Nat)
    (jobs : List PendingJob) (target : PendingJob) : Nat :=
  let targetEff := displayPriority ageBoost ts target
  (runnable ts jobs).countP fun job =>
    let eff := effectivePriority ageBoost ts job
    targetEff < eff ∨ eff = targetEff ∧ job.runAfter < target.runAfter ∨
      eff = targetEff ∧ job.runAfter = target.runAfter ∧ job.createdAt < target.createdAt

/-! ## What truncation gains -/

/-- The steps of age that a job has waited, by the exact time. -/
def agedSteps (ageBoost : ClaimAgeBoost) (ts : Nat) (job : PendingJob) : Nat :=
  if ageBoost.enabled ∧ 0 < ageBoost.intervalSec ∧ job.type ∈ ageBoost.eligibleTypes then
    min ageBoost.maxBoost ((ts - max job.createdAt job.runAfter) / (1000 * ageBoost.intervalSec))
  else 0

/-- The age of a job is less than a second below a step, the seconds of the clock are not, and the
step still counts. -/
def BelowStep (ageBoost : ClaimAgeBoost) (ts runnableAt : Nat) : Prop :=
  runnableAt ≤ ts ∧ ts % 1000 < runnableAt % 1000 ∧
    ageBoost.intervalSec ∣ (ts - runnableAt) / 1000 + 1 ∧
    ((ts - runnableAt) / 1000 + 1) / ageBoost.intervalSec ≤ ageBoost.maxBoost

instance (ageBoost : ClaimAgeBoost) (ts runnableAt : Nat) : Decidable (BelowStep ageBoost ts runnableAt) := by
  unfold BelowStep
  infer_instance

/-- The points that the claim gives a job over the display: one just below a step, and a loss for
the whole steps by which the job was created after the current time. -/
def gain (ageBoost : ClaimAgeBoost) (ts : Nat) (job : PendingJob) : Int :=
  let runnableAt := max job.createdAt job.runAfter
  if ageBoost.enabled ∧ 0 < ageBoost.intervalSec ∧ job.type ∈ ageBoost.eligibleTypes then
    if BelowStep ageBoost ts runnableAt then 1
    else -(((runnableAt / 1000 - ts / 1000) / ageBoost.intervalSec : Nat) : Int)
  else 0

theorem jobRunnableAt_eq (job : PendingJob) : jobRunnableAt job = max job.createdAt job.runAfter := by
  unfold jobRunnableAt
  split <;> omega

/-- The display counts the exact steps. -/
theorem targetAgeBoost_eq (ageBoost : ClaimAgeBoost) (ts : Nat) (job : PendingJob) :
    targetAgeBoost ageBoost ts job = agedSteps ageBoost ts job := by
  unfold targetAgeBoost agedSteps
  by_cases h : ageBoost.enabled ∧ 0 < ageBoost.intervalSec ∧ job.type ∈ ageBoost.eligibleTypes
  · obtain ⟨hEnabled, hInterval, hType⟩ := h
    have hWait : max 0 (((ts : Int) - (max job.createdAt job.runAfter : Nat)) / 1000) =
        (((ts - max job.createdAt job.runAfter) / 1000 : Nat) : Int) := by omega
    simp only [hEnabled, hInterval, hInterval.ne', hType, hWait, Bool.true_eq_false, not_true_eq_false,
      or_self, if_false, and_self, if_true, ← Nat.div_div_eq_div_mul, Nat.cast_min]
    rfl
  · rw [if_neg h, if_pos]
    · rfl
    · by_contra hNot
      simp only [not_or, Bool.not_eq_false, not_not] at hNot
      exact h ⟨hNot.1, Nat.pos_of_ne_zero hNot.2.1, hNot.2.2⟩

/-- The steps of the truncated age, where the job was runnable before the current time. -/
theorem steps_of_le (ageBoost : ClaimAgeBoost) {ts r : Nat} (hLe : r ≤ ts) :
    min ageBoost.maxBoost ((ts / 1000 - r / 1000) / ageBoost.intervalSec) =
      min ageBoost.maxBoost ((ts - r) / 1000 / ageBoost.intervalSec) +
        if BelowStep ageBoost ts r then 1 else 0 := by
  by_cases hSecond : ts % 1000 < r % 1000
  · have hAge : ts / 1000 - r / 1000 = (ts - r) / 1000 + 1 := by omega
    have hStep := Nat.succ_div (a := (ts - r) / 1000) (b := ageBoost.intervalSec)
    rw [hAge, hStep]
    by_cases hDvd : ageBoost.intervalSec ∣ (ts - r) / 1000 + 1
    · rw [if_pos hDvd] at hStep ⊢
      by_cases hMax : (ts - r) / 1000 / ageBoost.intervalSec + 1 ≤ ageBoost.maxBoost
      · rw [if_pos ⟨hLe, hSecond, hDvd, hStep ▸ hMax⟩]
        omega
      · rw [if_neg fun h => hMax (hStep ▸ h.2.2.2)]
        omega
    · rw [if_neg hDvd, if_neg fun h => hDvd h.2.2.1, add_zero, add_zero]
  · have hAge : ts / 1000 - r / 1000 = (ts - r) / 1000 := by omega
    rw [hAge, if_neg fun h => hSecond h.2.1, add_zero]

/-- The claim counts the exact steps and what truncation gains. -/
theorem jobAgeBoost_eq (ageBoost : ClaimAgeBoost) (ts : Nat) (job : PendingJob) :
    jobAgeBoost ageBoost ts job = agedSteps ageBoost ts job + gain ageBoost ts job := by
  unfold jobAgeBoost agedSteps gain jobWaitSec
  rw [jobRunnableAt_eq]
  generalize max job.createdAt job.runAfter = r
  by_cases h : ageBoost.enabled ∧ 0 < ageBoost.intervalSec ∧ job.type ∈ ageBoost.eligibleTypes
  · obtain ⟨hEnabled, hInterval, hType⟩ := h
    have hTypes : ageBoost.eligibleTypes ≠ [] := List.ne_nil_of_mem hType
    simp only [hEnabled, hInterval, hInterval.ne', hType, hTypes, Bool.true_eq_false, or_self,
      if_false, and_self, if_true, ← Nat.div_div_eq_div_mul]
    by_cases hLe : r ≤ ts
    · have hSteps := steps_of_le ageBoost hLe
      have hAge : (((ts / 1000 : Nat) : Int) - (r / 1000 : Nat)) = ((ts / 1000 - r / 1000 : Nat) : Int) := by
        omega
      have hNone : r / 1000 - ts / 1000 = 0 := by omega
      rw [hAge, ← Int.ofNat_tdiv, ← Nat.cast_min, hSteps, hNone, Nat.zero_div]
      split <;> simp
    · have hFuture : (((ts / 1000 : Nat) : Int) - (r / 1000 : Nat)) =
          -((r / 1000 - ts / 1000 : Nat) : Int) := by omega
      have hNone : ts - r = 0 := by omega
      have hSign : -(((r / 1000 - ts / 1000) / ageBoost.intervalSec : Nat) : Int) ≤ ageBoost.maxBoost :=
        (neg_nonpos.mpr (Nat.cast_nonneg _)).trans (Nat.cast_nonneg _)
      rw [hFuture, Int.neg_tdiv, ← Int.ofNat_tdiv, hNone, Nat.zero_div, Nat.min_zero,
        if_neg fun h => hLe h.1, min_eq_right hSign, Nat.cast_zero, zero_add]
  · rw [if_neg h, if_neg h, Nat.cast_zero, add_zero]
    split
    · rfl
    · next hOn =>
      simp only [not_or, Bool.not_eq_false] at hOn
      exact if_neg fun hType => h ⟨hOn.1, Nat.pos_of_ne_zero hOn.2.1, hType⟩

theorem displayPriority_eq (ageBoost : Option ClaimAgeBoost) (ts : Nat) (job : PendingJob) :
    displayPriority ageBoost ts job =
      job.priority + agedSteps (ageBoost.getD noBoost) ts job := by
  rw [displayPriority, targetAgeBoost_eq]

theorem effectivePriority_eq (ageBoost : Option ClaimAgeBoost) (ts : Nat) (job : PendingJob) :
    effectivePriority ageBoost ts job =
      displayPriority ageBoost ts job + gain (ageBoost.getD noBoost) ts job := by
  rw [displayPriority_eq, add_assoc, ← jobAgeBoost_eq]
  cases ageBoost with
  | none => exact (add_zero _).symm
  | some boost =>
    show (if boost.enabled ∧ 0 < boost.intervalSec then _ else _) = _
    split
    · rfl
    · next hOff =>
      have hZero : jobAgeBoost boost ts job = 0 := by
        unfold jobAgeBoost
        rw [if_pos]
        by_contra hNot
        simp only [not_or, Bool.not_eq_false] at hNot
        exact hOff ⟨hNot.1, Nat.pos_of_ne_zero hNot.2.1⟩
      exact (hZero ▸ add_zero _).symm

/-! ## Where the orders agree -/

/-- The order of jobs with equal effective priorities. -/
def Older (a b : PendingJob) : Prop :=
  a.runAfter < b.runAfter ∨ a.runAfter = b.runAfter ∧ a.createdAt < b.createdAt

/-- Truncation gains `a` more than `b`, and by this `a`, which is not ahead of `b` by the exact steps,
draws level with `b` or passes it. -/
def Overtakes (ageBoost : ClaimAgeBoost) (ts : Nat) (a b : PendingJob) : Prop :=
  let lead := (b.priority + agedSteps ageBoost ts b) - (a.priority + agedSteps ageBoost ts a)
  let gained := gain ageBoost ts a - gain ageBoost ts b
  0 < gained ∧ (0 < lead ∨ lead = 0 ∧ ¬ Older a b) ∧ (lead < gained ∨ lead = gained ∧ ¬ Older b a)

theorem orderKey_lt {p q : Int} {a b : PendingJob} :
    orderKey p a < orderKey q b ↔ q < p ∨ p = q ∧ Older a b := by
  unfold orderKey Older
  rw [Prod.Lex.toLex_lt_toLex, Prod.Lex.toLex_lt_toLex]
  dsimp only
  rw [neg_lt_neg_iff, neg_inj]

/-- The place of a job compares its displayed priority with the claim's priority of the others. -/
theorem countPendingJobsBeforeEffective_eq (ageBoost : Option ClaimAgeBoost) (ts : Nat)
    (jobs : List PendingJob) (target : PendingJob) :
    countPendingJobsBeforeEffective ageBoost ts jobs target =
      (runnable ts jobs).countP fun job =>
        claimKey ageBoost ts job < displayKey ageBoost ts target := by
  unfold countPendingJobsBeforeEffective claimKey displayKey
  refine List.countP_congr fun job _ => ?_
  rw [decide_eq_true_iff, decide_eq_true_iff, orderKey_lt, Older, and_or_left]

theorem not_older_symm {a b : PendingJob} (h : Older a b) : ¬ Older b a := by
  unfold Older at *
  omega

/-- The two keys compare a pair alike if and only if neither job overtakes the other. -/
theorem keys_alike_iff (ageBoost : Option ClaimAgeBoost) (ts : Nat) (a b : PendingJob) :
    ((displayKey ageBoost ts a < displayKey ageBoost ts b ↔
        claimKey ageBoost ts a < claimKey ageBoost ts b) ∧
      (displayKey ageBoost ts b < displayKey ageBoost ts a ↔
        claimKey ageBoost ts b < claimKey ageBoost ts a)) ↔
      ¬ Overtakes (ageBoost.getD noBoost) ts a b ∧ ¬ Overtakes (ageBoost.getD noBoost) ts b a := by
  have hab := @not_older_symm a b
  unfold displayKey claimKey Overtakes
  simp only [orderKey_lt, effectivePriority_eq, displayPriority_eq]
  generalize a.priority + (agedSteps (ageBoost.getD noBoost) ts a : Int) = p
  generalize b.priority + (agedSteps (ageBoost.getD noBoost) ts b : Int) = q
  generalize gain (ageBoost.getD noBoost) ts a = g
  generalize gain (ageBoost.getD noBoost) ts b = d
  by_cases h : Older a b
  · simp only [h, hab h, and_true, and_false, or_false, not_true_eq_false, not_false_eq_true]
    omega
  · by_cases h' : Older b a
    · simp only [h, h', and_true, and_false, or_false, not_true_eq_false, not_false_eq_true]
      omega
    · simp only [h, h', and_true, and_false, or_false, not_false_eq_true]
      omega

/-- The displayed order is the order of the claims, whatever the ties, exactly where no runnable job
overtakes another by truncation. -/
theorem displayOrder_iff (ageBoost : Option ClaimAgeBoost) (ts : Nat) (pending : Pending) :
    (∀ order, DisplayOrder ageBoost ts pending.jobs order ↔ Claims ageBoost ts pending.jobs order) ↔
      ∀ a ∈ runnable ts pending.jobs, ∀ b ∈ runnable ts pending.jobs,
        ¬ Overtakes (ageBoost.getD noBoost) ts a b := by
  unfold DisplayOrder
  simp only [claims_iff]
  rw [Selection.sameOrders_iff (nodup_runnable pending ts)]
  constructor
  · intro h a ha b hb
    exact ((keys_alike_iff ageBoost ts a b).mp ⟨h a ha b hb, h b hb a ha⟩).1
  · intro h a ha b hb
    exact ((keys_alike_iff ageBoost ts a b).mpr ⟨h a ha b hb, h b hb a ha⟩).1

/-- A maintenance job whose age is half a second below its first step, and a job of a priority one
higher that was created later. -/
def belowStepQueue : Pending where
  jobs := [⟨1, .refreshBtcUsdPrice, 1, 500, 500⟩, ⟨2, .processTx, 2, 600, 600⟩]
  nodup := by decide

def quarterHourBoost : ClaimAgeBoost where
  enabled := true
  intervalSec := 900
  maxBoost := 4
  eligibleTypes := [.refreshBtcUsdPrice]

/-- The display puts the second job first; the claim takes the first. -/
theorem displayOrder_belowStep :
    ¬ ∀ (ageBoost : Option ClaimAgeBoost) (ts : Nat) (pending : Pending) (order : List PendingJob),
      DisplayOrder ageBoost ts pending.jobs order ↔ Claims ageBoost ts pending.jobs order := by
  intro h
  have hSame := h (some quarterHourBoost) 900000 belowStepQueue
  have hOrder : DisplayOrder (some quarterHourBoost) 900000 belowStepQueue.jobs
      [⟨2, .processTx, 2, 600, 600⟩, ⟨1, .refreshBtcUsdPrice, 1, 500, 500⟩] :=
    ⟨by decide +kernel, by decide +kernel⟩
  have hClaims := claims_iff _ _ |>.mp ((hSame _).mp hOrder)
  exact absurd hClaims.2 (by decide +kernel)

end Bloodhound.Store.QueueOrder
