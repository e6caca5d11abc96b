import Mathlib.Data.Rat.Floor
import Mathlib.Tactic.Linarith
import Mathlib.Tactic.NormNum
import Mathlib.Tactic.Positivity

/-!
# Pacing of the cron

`shouldPaceCron` of `dailyPace.ts`, over exact numbers: a tick is skipped where the use of the account or of the
cron is ahead of what a linear budget of the day allows. A limit of zero has no budget. The limits of the cron are
shares of those of the account, so that at a share of zero the cron has no budget either: whatever pauses the cron
also pauses it in a tighter case if the share is not lowered to zero (`pacing_monotone_iff`).
-/

namespace Bloodhound.Ops.CronPace

/-! ## The checks -/

structure QuotaUsageSnapshot where
  rowsReadTotal : ℚ
  rowsWrittenTotal : ℚ
  workersRequestsTotal : ℚ
  rowsReadCron : ℚ
  rowsWrittenCron : ℚ
  workersRequestsCron : ℚ

structure DailyQuotaLimits where
  rowsReadLimit : ℚ
  rowsWrittenLimit : ℚ
  workersRequestsLimit : ℚ

/-- Percentages that are absent or not finite are `none`; the time is in milliseconds. -/
structure CronPaceOptions where
  cronUtilizationPct : Option ℚ
  hysteresisPct : Option ℚ := none
  now : ℤ

inductive CronPaceReason where
  | accountReads
  | accountWrites
  | accountRequests
  | cronReads
  | cronWrites
  | cronRequests
  deriving DecidableEq

/-- Allowances of the three counters; `none` is no limit. -/
structure Allowance where
  reads : Option ℤ
  writes : Option ℤ
  requests : Option ℤ

structure CronPaceResult where
  paced : Bool
  reason : Option CronPaceReason
  dayProgress : ℚ
  totalAllowance : Allowance
  cronAllowance : Allowance

def msPerUtcDay : ℤ := 86400000

/-- The part of the day that has passed. -/
def computeUtcDayProgress (now : ℤ) : ℚ :=
  let start := now / msPerUtcDay * msPerUtcDay
  let elapsed := now - start
  min 1 (max 0 (elapsed / msPerUtcDay))

def computeLinearAllowance (limit dayProgress : ℚ) : Option ℤ :=
  if limit ≤ 0 then none else some ⌊limit * dayProgress⌋

def cronUtilFraction (cronUtilizationPct : Option ℚ) : ℚ :=
  let pct := cronUtilizationPct.getD 100
  min 1 (max 0 (pct / 100))

def hysteresisAmount (limit : ℚ) (hysteresisPct : Option ℚ) : ℤ :=
  if limit ≤ 0 then 0
  else
    let pct := hysteresisPct.getD (1 / 100)
    max 1 ⌊limit * min (1 / 10) (max 0 pct)⌋

def isAheadOfAllowance (used : ℚ) (allowance : Option ℤ) (limit : ℚ) (hysteresisPct : Option ℚ) : Bool :=
  allowance.any fun allowance => (allowance + hysteresisAmount limit hysteresisPct : ℤ) ≤ used

def linearAllowance (limits : DailyQuotaLimits) (dayProgress : ℚ) : Allowance where
  reads := computeLinearAllowance limits.rowsReadLimit dayProgress
  writes := computeLinearAllowance limits.rowsWrittenLimit dayProgress
  requests := computeLinearAllowance limits.workersRequestsLimit dayProgress

/-- The limits of the cron. -/
def DailyQuotaLimits.slice (limits : DailyQuotaLimits) (cronFrac : ℚ) : DailyQuotaLimits where
  rowsReadLimit := limits.rowsReadLimit * cronFrac
  rowsWrittenLimit := limits.rowsWrittenLimit * cronFrac
  workersRequestsLimit := limits.workersRequestsLimit * cronFrac

def cronPaceChecks (snapshot : QuotaUsageSnapshot) (limits cron : DailyQuotaLimits) (dayProgress : ℚ)
    (hysteresisPct : Option ℚ) : List (Bool × CronPaceReason) :=
  let totalAllowance := linearAllowance limits dayProgress
  let cronAllowance := linearAllowance cron dayProgress
  [(isAheadOfAllowance snapshot.rowsReadTotal totalAllowance.reads limits.rowsReadLimit hysteresisPct,
      .accountReads),
    (isAheadOfAllowance snapshot.rowsWrittenTotal totalAllowance.writes limits.rowsWrittenLimit hysteresisPct,
      .accountWrites),
    (isAheadOfAllowance snapshot.workersRequestsTotal totalAllowance.requests limits.workersRequestsLimit
      hysteresisPct, .accountRequests),
    (isAheadOfAllowance snapshot.rowsReadCron cronAllowance.reads cron.rowsReadLimit hysteresisPct, .cronReads),
    (isAheadOfAllowance snapshot.rowsWrittenCron cronAllowance.writes cron.rowsWrittenLimit hysteresisPct,
      .cronWrites),
    (isAheadOfAllowance snapshot.workersRequestsCron cronAllowance.requests cron.workersRequestsLimit hysteresisPct,
      .cronRequests)]

/-- The first check that is ahead gives the reason. -/
def shouldPaceCron (snapshot : QuotaUsageSnapshot) (limits : DailyQuotaLimits) (opts : CronPaceOptions) :
    CronPaceResult :=
  let dayProgress := computeUtcDayProgress opts.now
  let cron := limits.slice (cronUtilFraction opts.cronUtilizationPct)
  let hit := (cronPaceChecks snapshot limits cron dayProgress opts.hysteresisPct).find? (·.1)
  { paced := hit.isSome
    reason := hit.map (·.2)
    dayProgress
    totalAllowance := linearAllowance limits dayProgress
    cronAllowance := linearAllowance cron dayProgress }

/-! ## One check -/

/-- The use is ahead of a linear budget of the limit. -/
def Ahead (used limit dayProgress : ℚ) (hysteresisPct : Option ℚ) : Prop :=
  isAheadOfAllowance used (computeLinearAllowance limit dayProgress) limit hysteresisPct = true

section Check

variable {used used' limit limit' dayProgress dayProgress' : ℚ} {hysteresisPct : Option ℚ}

theorem not_ahead_of_unlimited (h : limit ≤ 0) : ¬ Ahead used limit dayProgress hysteresisPct := by
  unfold Ahead computeLinearAllowance isAheadOfAllowance
  rw [if_pos h]
  exact Bool.false_ne_true

theorem ahead_iff (h : 0 < limit) : Ahead used limit dayProgress hysteresisPct ↔
    ((⌊limit * dayProgress⌋ + hysteresisAmount limit hysteresisPct : ℤ) : ℚ) ≤ used := by
  unfold Ahead computeLinearAllowance isAheadOfAllowance
  rw [if_neg (not_le.mpr h), Option.any_some, decide_eq_true_iff]

theorem hysteresisAmount_mono (hPos : 0 < limit') (h : limit' ≤ limit) :
    hysteresisAmount limit' hysteresisPct ≤ hysteresisAmount limit hysteresisPct := by
  unfold hysteresisAmount
  rw [if_neg (not_le.mpr hPos), if_neg (not_le.mpr (hPos.trans_le h))]
  apply max_le_max_left
  apply Int.floor_le_floor
  exact mul_le_mul_of_nonneg_right h (by positivity)

/-- A check is monotone in the use, and antitone in the limit, as long as there is one, and in the time. -/
theorem Ahead.tighten (h : Ahead used limit dayProgress hysteresisPct) (hUsed : used ≤ used') (hPos : 0 < limit')
    (hLimit : limit' ≤ limit) (hStart : 0 ≤ dayProgress') (hProgress : dayProgress' ≤ dayProgress) :
    Ahead used' limit' dayProgress' hysteresisPct := by
  rw [ahead_iff (hPos.trans_le hLimit)] at h
  rw [ahead_iff hPos]
  have hAllowance : ⌊limit' * dayProgress'⌋ ≤ ⌊limit * dayProgress⌋ :=
    Int.floor_le_floor (mul_le_mul hLimit hProgress hStart (hPos.le.trans hLimit))
  have hBound : ((⌊limit' * dayProgress'⌋ + hysteresisAmount limit' hysteresisPct : ℤ) : ℚ) ≤
      (⌊limit * dayProgress⌋ + hysteresisAmount limit hysteresisPct : ℤ) :=
    Int.cast_le.mpr (add_le_add hAllowance (hysteresisAmount_mono hPos hLimit))
  exact (hBound.trans h).trans hUsed

end Check

/-! ## All checks -/

/-- Some use of the account is ahead. -/
def AccountAhead (s : QuotaUsageSnapshot) (l : DailyQuotaLimits) (dayProgress : ℚ) (hysteresisPct : Option ℚ) :
    Prop :=
  Ahead s.rowsReadTotal l.rowsReadLimit dayProgress hysteresisPct ∨
    Ahead s.rowsWrittenTotal l.rowsWrittenLimit dayProgress hysteresisPct ∨
    Ahead s.workersRequestsTotal l.workersRequestsLimit dayProgress hysteresisPct

/-- Some use of the cron is ahead. -/
def CronAhead (s : QuotaUsageSnapshot) (l : DailyQuotaLimits) (dayProgress : ℚ) (hysteresisPct : Option ℚ) :
    Prop :=
  Ahead s.rowsReadCron l.rowsReadLimit dayProgress hysteresisPct ∨
    Ahead s.rowsWrittenCron l.rowsWrittenLimit dayProgress hysteresisPct ∨
    Ahead s.workersRequestsCron l.workersRequestsLimit dayProgress hysteresisPct

theorem paced_iff (s : QuotaUsageSnapshot) (l : DailyQuotaLimits) (opts : CronPaceOptions) :
    (shouldPaceCron s l opts).paced = true ↔
      AccountAhead s l (computeUtcDayProgress opts.now) opts.hysteresisPct ∨
        CronAhead s (l.slice (cronUtilFraction opts.cronUtilizationPct)) (computeUtcDayProgress opts.now)
          opts.hysteresisPct := by
  unfold shouldPaceCron AccountAhead CronAhead Ahead
  simp [cronPaceChecks, linearAllowance, or_assoc]

/-- Every counter is at least as high. -/
structure Raised (s s' : QuotaUsageSnapshot) : Prop where
  rowsReadTotal : s.rowsReadTotal ≤ s'.rowsReadTotal
  rowsWrittenTotal : s.rowsWrittenTotal ≤ s'.rowsWrittenTotal
  workersRequestsTotal : s.workersRequestsTotal ≤ s'.workersRequestsTotal
  rowsReadCron : s.rowsReadCron ≤ s'.rowsReadCron
  rowsWrittenCron : s.rowsWrittenCron ≤ s'.rowsWrittenCron
  workersRequestsCron : s.workersRequestsCron ≤ s'.workersRequestsCron

structure DailyQuotaLimits.Positive (l : DailyQuotaLimits) : Prop where
  rowsReadLimit : 0 < l.rowsReadLimit
  rowsWrittenLimit : 0 < l.rowsWrittenLimit
  workersRequestsLimit : 0 < l.workersRequestsLimit

/-- Every limit is at most as high. -/
structure Lowered (l l' : DailyQuotaLimits) : Prop where
  rowsReadLimit : l'.rowsReadLimit ≤ l.rowsReadLimit
  rowsWrittenLimit : l'.rowsWrittenLimit ≤ l.rowsWrittenLimit
  workersRequestsLimit : l'.workersRequestsLimit ≤ l.workersRequestsLimit

section Checks

variable {s s' : QuotaUsageSnapshot} {l l' : DailyQuotaLimits} {dayProgress dayProgress' : ℚ}
  {hysteresisPct : Option ℚ}

theorem AccountAhead.tighten (h : AccountAhead s l dayProgress hysteresisPct) (hRaised : Raised s s')
    (hPos : l'.Positive) (hLowered : Lowered l l') (hStart : 0 ≤ dayProgress')
    (hProgress : dayProgress' ≤ dayProgress) :
    AccountAhead s' l' dayProgress' hysteresisPct := by
  rcases h with h | h | h
  · exact .inl (h.tighten hRaised.rowsReadTotal hPos.rowsReadLimit hLowered.rowsReadLimit hStart hProgress)
  · exact .inr (.inl (h.tighten hRaised.rowsWrittenTotal hPos.rowsWrittenLimit hLowered.rowsWrittenLimit hStart
      hProgress))
  · exact .inr (.inr (h.tighten hRaised.workersRequestsTotal hPos.workersRequestsLimit
      hLowered.workersRequestsLimit hStart hProgress))

theorem CronAhead.tighten (h : CronAhead s l dayProgress hysteresisPct) (hRaised : Raised s s')
    (hPos : l'.Positive) (hLowered : Lowered l l') (hStart : 0 ≤ dayProgress')
    (hProgress : dayProgress' ≤ dayProgress) :
    CronAhead s' l' dayProgress' hysteresisPct := by
  rcases h with h | h | h
  · exact .inl (h.tighten hRaised.rowsReadCron hPos.rowsReadLimit hLowered.rowsReadLimit hStart hProgress)
  · exact .inr (.inl (h.tighten hRaised.rowsWrittenCron hPos.rowsWrittenLimit hLowered.rowsWrittenLimit hStart
      hProgress))
  · exact .inr (.inr (h.tighten hRaised.workersRequestsCron hPos.workersRequestsLimit
      hLowered.workersRequestsLimit hStart hProgress))

theorem DailyQuotaLimits.Positive.slice {f : ℚ} (h : l.Positive) (hf : 0 < f) : (l.slice f).Positive :=
  ⟨mul_pos h.rowsReadLimit hf, mul_pos h.rowsWrittenLimit hf, mul_pos h.workersRequestsLimit hf⟩

theorem Lowered.slice {f f' : ℚ} (h : Lowered l l') (hPos : l'.Positive) (hf : 0 ≤ f') (hLe : f' ≤ f) :
    Lowered (l.slice f) (l'.slice f') := by
  have hMul : ∀ {limit limit' : ℚ}, 0 < limit' → limit' ≤ limit → limit' * f' ≤ limit * f :=
    fun hLimit hLess => mul_le_mul hLess hLe hf (hLimit.le.trans hLess)
  exact ⟨hMul hPos.rowsReadLimit h.rowsReadLimit, hMul hPos.rowsWrittenLimit h.rowsWrittenLimit,
    hMul hPos.workersRequestsLimit h.workersRequestsLimit⟩

/-- Without a share of the limits the cron is never ahead. -/
theorem not_cronAhead_slice_zero : ¬ CronAhead s (l.slice 0) dayProgress hysteresisPct := by
  rintro (h | h | h) <;> exact not_ahead_of_unlimited (mul_zero _).le h

end Checks

/-! ## Time and shares -/

theorem computeUtcDayProgress_nonneg (now : ℤ) : 0 ≤ computeUtcDayProgress now :=
  le_min zero_le_one (le_max_left _ _)

/-- On one day, progress is monotone. -/
theorem computeUtcDayProgress_mono {now now' : ℤ} (hDay : now' / msPerUtcDay = now / msPerUtcDay) (h : now' ≤ now) :
    computeUtcDayProgress now' ≤ computeUtcDayProgress now := by
  unfold computeUtcDayProgress
  rw [hDay]
  apply min_le_min_left
  apply max_le_max_left
  apply div_le_div_of_nonneg_right _ (by decide)
  exact Int.cast_le.mpr (sub_le_sub_right h _)

theorem cronUtilFraction_of_pct {pct : ℚ} (hLow : 0 ≤ pct) (hHigh : pct ≤ 100) :
    cronUtilFraction (some pct) = pct / 100 := by
  have hZero : 0 ≤ pct / 100 := div_nonneg hLow (by norm_num)
  have hOne : pct / 100 ≤ 1 := (div_le_one (by norm_num)).mpr hHigh
  unfold cronUtilFraction
  dsimp only [Option.getD_some]
  rw [max_eq_right hZero, min_eq_right hOne]

/-! ## Pauses and tighter cases -/

/-- A pause lasts in a tighter case, if the cron keeps a share of the limits or had none. -/
theorem paced_tighten {s s' : QuotaUsageSnapshot} {l l' : DailyQuotaLimits} {pct pct' : ℚ} {now now' : ℤ}
    {hysteresisPct : Option ℚ} (hRaised : Raised s s') (hPos : l'.Positive) (hLowered : Lowered l l')
    (hDay : now' / msPerUtcDay = now / msPerUtcDay) (hNow : now' ≤ now) (hLow : 0 ≤ pct') (hPct : pct' ≤ pct)
    (hHigh : pct ≤ 100) (hShare : 0 < pct' ∨ pct = 0)
    (h : (shouldPaceCron s l ⟨some pct, hysteresisPct, now⟩).paced = true) :
    (shouldPaceCron s' l' ⟨some pct', hysteresisPct, now'⟩).paced = true := by
  have hStart := computeUtcDayProgress_nonneg now'
  have hProgress := computeUtcDayProgress_mono hDay hNow
  rw [paced_iff] at h ⊢
  rcases h with hAccount | hCron
  · exact .inl (hAccount.tighten hRaised hPos hLowered hStart hProgress)
  · right
    dsimp only at hCron ⊢
    rw [cronUtilFraction_of_pct (hLow.trans hPct) hHigh] at hCron
    rw [cronUtilFraction_of_pct hLow (hPct.trans hHigh)]
    rcases hShare with hShare | rfl
    · have hFraction : pct' / 100 ≤ pct / 100 := div_le_div_of_nonneg_right hPct (by norm_num)
      have hFractionPos : 0 < pct' / 100 := div_pos hShare (by norm_num)
      exact hCron.tighten hRaised (hPos.slice hFractionPos) (hLowered.slice hPos hFractionPos.le hFraction) hStart
        hProgress
    · rw [zero_div] at hCron
      exact absurd hCron not_cronAhead_slice_zero

/-- The use is below its linear allowance and the hysteresis together. -/
def BelowAllowance (used limit dayProgress : ℚ) (hysteresisPct : Option ℚ) : Prop :=
  ∃ allowance, computeLinearAllowance limit dayProgress = some allowance ∧
    used < (allowance + hysteresisAmount limit hysteresisPct : ℤ)

theorem belowAllowance_of_not_ahead {used limit dayProgress : ℚ} {hysteresisPct : Option ℚ} (hPos : 0 < limit)
    (h : ¬ Ahead used limit dayProgress hysteresisPct) : BelowAllowance used limit dayProgress hysteresisPct := by
  rw [ahead_iff hPos] at h
  exact ⟨_, if_neg (not_le.mpr hPos), not_le.mp h⟩

/-- One request of the cron, at midnight, with the smallest budgets. -/
def cronRequest : QuotaUsageSnapshot := ⟨0, 0, 0, 0, 0, 1⟩

/-- With a budget of at most one, the first use at midnight is ahead. -/
theorem ahead_midnight {used limit : ℚ} (hPos : 0 < limit) (hOne : limit ≤ 1) :
    Ahead used limit 0 none ↔ 1 ≤ used := by
  have hPart : ⌊limit * min (1 / 10) (max 0 (1 / 100))⌋ ≤ 1 := by
    apply Int.floor_le_iff.mpr
    norm_num
    linarith
  have hAmount : hysteresisAmount limit none = 1 := by
    unfold hysteresisAmount
    rw [if_neg (not_le.mpr hPos)]
    exact max_eq_left hPart
  rw [ahead_iff hPos, hAmount, mul_zero, Int.floor_zero, zero_add, Int.cast_one]

theorem paced_cronRequest {pct : ℚ} (hLow : 0 ≤ pct) (hHigh : pct ≤ 100) :
    (shouldPaceCron cronRequest ⟨1, 1, 1⟩ ⟨some pct, none, 0⟩).paced = true ↔ 0 < pct := by
  have hMidnight : computeUtcDayProgress 0 = 0 := by decide +kernel
  rw [paced_iff]
  dsimp only
  rw [hMidnight, cronUtilFraction_of_pct hLow hHigh]
  constructor
  · rintro (hAccount | hCron)
    · rcases hAccount with h | h | h <;>
        exact absurd ((ahead_midnight one_pos le_rfl).mp h) (by decide)
    · by_contra hNot
      have hZero : pct = 0 := le_antisymm (not_lt.mp hNot) hLow
      rw [hZero, zero_div] at hCron
      exact not_cronAhead_slice_zero hCron
  · intro hPos
    have hShare : 1 * (pct / 100) ≤ 1 := by
      rw [one_mul]
      exact (div_le_one (by norm_num)).mpr hHigh
    exact .inr (.inr (.inr ((ahead_midnight (by positivity) hShare).mpr le_rfl)))

/-- Lowering the percentage keeps all pauses, with any use raised, at any earlier time of the day and with any limits
lowered, and a tick that is not paused has its uses below their budgets, exactly if the percentage is not lowered to
zero. -/
theorem pacing_monotone_iff {pct pct' : ℚ} (hLow : 0 ≤ pct') (hPct : pct' ≤ pct) (hHigh : pct ≤ 100) :
    ((∀ (s s' : QuotaUsageSnapshot) (l l' : DailyQuotaLimits) (hysteresisPct : Option ℚ) (now now' : ℤ),
        Raised s s' → l'.Positive → Lowered l l' → now' / msPerUtcDay = now / msPerUtcDay → now' ≤ now →
        (shouldPaceCron s l ⟨some pct, hysteresisPct, now⟩).paced = true →
          (shouldPaceCron s' l' ⟨some pct', hysteresisPct, now'⟩).paced = true) ∧
      ∀ (s : QuotaUsageSnapshot) (l : DailyQuotaLimits) (hysteresisPct : Option ℚ) (now : ℤ), l.Positive →
        (shouldPaceCron s l ⟨some pct, hysteresisPct, now⟩).paced = false →
          BelowAllowance s.rowsReadTotal l.rowsReadLimit (computeUtcDayProgress now) hysteresisPct ∧
          BelowAllowance s.rowsWrittenTotal l.rowsWrittenLimit (computeUtcDayProgress now) hysteresisPct ∧
          BelowAllowance s.workersRequestsTotal l.workersRequestsLimit (computeUtcDayProgress now) hysteresisPct) ↔
    0 < pct' ∨ pct = 0 := by
  constructor
  · rintro ⟨hKeeps, -⟩
    rcases hLow.lt_or_eq with hShare | rfl
    · exact .inl hShare
    · right
      by_contra hNot
      have hPos := lt_of_le_of_ne hPct (Ne.symm hNot)
      have hOne : DailyQuotaLimits.Positive ⟨1, 1, 1⟩ := ⟨one_pos, one_pos, one_pos⟩
      have hSame : Raised cronRequest cronRequest := ⟨le_rfl, le_rfl, le_rfl, le_rfl, le_rfl, le_rfl⟩
      have hPaced := hKeeps cronRequest cronRequest ⟨1, 1, 1⟩ ⟨1, 1, 1⟩ none 0 0 hSame hOne
        ⟨le_rfl, le_rfl, le_rfl⟩ rfl le_rfl ((paced_cronRequest hPct hHigh).mpr hPos)
      exact absurd ((paced_cronRequest le_rfl (by norm_num)).mp hPaced) (lt_irrefl 0)
  · intro hShare
    constructor
    · intro s s' l l' hysteresisPct now now' hRaised hPos hLowered hDay hNow h
      exact paced_tighten hRaised hPos hLowered hDay hNow hLow hPct hHigh hShare h
    · intro s l hysteresisPct now hPos h
      have hNot := (paced_iff s l ⟨some pct, hysteresisPct, now⟩).not.mp (by rw [h]; exact Bool.false_ne_true)
      obtain ⟨hReads, hRest⟩ := not_or.mp (not_or.mp hNot).1
      obtain ⟨hWrites, hRequests⟩ := not_or.mp hRest
      exact ⟨belowAllowance_of_not_ahead hPos.rowsReadLimit hReads,
        belowAllowance_of_not_ahead hPos.rowsWrittenLimit hWrites,
        belowAllowance_of_not_ahead hPos.workersRequestsLimit hRequests⟩

/-- From 80 percent to 50, with another request. -/
theorem pacing_monotone_half :
    (shouldPaceCron ⟨0, 0, 0, 0, 0, 2⟩ ⟨1, 1, 1⟩ ⟨some 50, none, 0⟩).paced = true := by
  have hKeeps := (@pacing_monotone_iff 80 50 (by norm_num) (by norm_num) (by norm_num)).mpr (.inl (by norm_num))
  have hPaced := (paced_cronRequest (by norm_num) (by norm_num)).mpr (by norm_num : (0 : ℚ) < 80)
  exact hKeeps.1 cronRequest _ ⟨1, 1, 1⟩ ⟨1, 1, 1⟩ none 0 0 (by constructor <;> decide) (by constructor <;> decide)
    (by constructor <;> decide) rfl le_rfl hPaced

/-- At 80 percent a million reads of the cron at midnight are ahead of their budget, at zero percent they are not. -/
theorem paced_not_at_zero :
    (shouldPaceCron ⟨0, 0, 0, 1000000, 0, 0⟩ ⟨5000000, 100000, 100000⟩ ⟨some 80, none, 0⟩).paced = true ∧
      (shouldPaceCron ⟨0, 0, 0, 1000000, 0, 0⟩ ⟨5000000, 100000, 100000⟩ ⟨some 0, none, 0⟩).paced = false := by
  decide +kernel

end Bloodhound.Ops.CronPace
