import Mathlib.Data.List.Infix
import Mathlib.Data.List.Nodup
import Mathlib.Algebra.Order.Ring.Int

/-!
# The router of the explorers

`ChainRouter.withProvider` calls the explorers in turn until one answers. Explorers whose
stored backoff has not expired are left out; one that answers with a rate limit gets a strike
and a new backoff, and the next one is tried; any other error ends the call. A success
clears the strikes of its explorer.

The end of a backoff is written as a date, and a date past the last one of JavaScript throws:
a hint of an explorer that is large enough ends the call before the strike is stored. In
runs without such hints the stored strikes are the rate limits since the last success.
-/

namespace Bloodhound.Chain.Router

/-! ## The scheduler row -/

inductive ProviderId where
  | esplora
  | mempool
  deriving DecidableEq

/-- The columns of one explorer; times are in milliseconds. -/
structure ProviderColumns where
  thresholdCount : Nat := 0
  lastThresholdAt : Option Nat := none
  strikeCount : Nat := 0
  retryAfterAt : Option Nat := none

/-- The columns of the scheduler row that the router reads or writes. -/
structure RouterRow where
  nextProviderCallAt : Option Nat := none
  lastProviderUsed : Option ProviderId := none
  lastProviderSuccessAt : Option Nat := none
  rateLimitMs : Nat := 3000
  lastApiThresholdAt : Option Nat := none
  apiThresholdCount : Nat := 0
  apiThresholdDayUtc : Option Nat := none
  provider : ProviderId → ProviderColumns := fun _ => {}

def RouterRow.setProvider (row : RouterRow) (p : ProviderId) (columns : ProviderColumns) : RouterRow :=
  { row with provider := fun q => if q = p then columns else row.provider q }

@[simp] theorem RouterRow.setProvider_self (row : RouterRow) (p : ProviderId) (columns : ProviderColumns) :
    (row.setProvider p columns).provider p = columns := if_pos rfl

theorem RouterRow.setProvider_other (row : RouterRow) {p q : ProviderId} (h : q ≠ p)
    (columns : ProviderColumns) : (row.setProvider p columns).provider q = row.provider q := if_neg h

/-! ## Backoffs in the store -/

/-- `retryAfterSecondsLeft`: the seconds left, rounded up. -/
def retryAfterSecondsLeft (retryAfterAt : Option Nat) (now : Nat) : Int :=
  match retryAfterAt with
  | none => 0
  | some t => max 0 (-(((now : Int) - t) / 1000))

def isProviderInBackoff (row : RouterRow) (p : ProviderId) (now : Nat) : Bool :=
  0 < retryAfterSecondsLeft (row.provider p).retryAfterAt now

/-- `ensureApiThresholdDay`: the daily counts start again; strikes and backoffs stay. -/
def ensureApiThresholdDay (today : Nat) (row : RouterRow) : RouterRow :=
  if row.apiThresholdDayUtc = some today then row
  else
    { row with
      apiThresholdDayUtc := some today
      apiThresholdCount := 0
      provider := fun q => { row.provider q with thresholdCount := 0 } }

def recordApiThreshold (p : ProviderId) (today now retryAfterAt strikeCount : Nat) (row : RouterRow) :
    RouterRow :=
  let state := ensureApiThresholdDay today row
  { state with
    lastApiThresholdAt := some now
    apiThresholdCount := state.apiThresholdCount + 1 }.setProvider p
    { thresholdCount := (state.provider p).thresholdCount + 1
      lastThresholdAt := some now
      strikeCount
      retryAfterAt := some retryAfterAt }

def clearProviderStrike (p : ProviderId) (row : RouterRow) : RouterRow :=
  row.setProvider p { row.provider p with strikeCount := 0, retryAfterAt := none }

/-- `earliestProviderRetryAt`. -/
def earliestProviderRetryAt (row : RouterRow) (now : Nat) : Option Nat :=
  let candidates := [(row.provider .esplora).retryAfterAt, (row.provider .mempool).retryAfterAt]
  ((candidates.filterMap id).filter (now < ·)).min?

/-! ## Errors -/

inductive ProviderError where
  | rateLimitHttp (message : String) (retryAfterSec : Option Nat)
  | error (message : String)
  | thrown

def isRateLimitError : ProviderError → Bool
  | .rateLimitHttp _ _ => true
  | .error message =>
    decide ("429".toList <:+: message.toLower.toList) ||
      decide ("too many requests".toList <:+: message.toLower.toList)
  | .thrown => false

def rateLimitRetryAfterSec : ProviderError → Option Nat
  | .rateLimitHttp _ retryAfterSec => retryAfterSec
  | _ => none

def providerBackoffSec (strikes baseSec maxSec : Nat) (retryAfterSec : Option Nat) : Nat :=
  let n := max 1 strikes
  let exponential := min maxSec (baseSec * 2 ^ (n - 1))
  max (retryAfterSec.getD 0) exponential

/-- A time as a date; past the last date `toISOString` throws. -/
def toISOString (ms : Nat) : Option Nat := if ms ≤ 8640000000000000 then some ms else none

inductive RateLimitNotReadyReason where
  | pacing
  | providerBackoff

inductive RouterError where
  | notReady (retryAt : Nat) (reason : RateLimitNotReadyReason)
  | provider (err : ProviderError)
  | invalidTime
  | unset

/-! ## The router -/

structure RouterConfig where
  rateLimitMs : Nat := 3000
  apiThresholdBaseSec : Nat := 300
  apiThresholdMaxSec : Nat := 3600
  sleepOnRateLimit : Bool := true
  primaryProvider : ProviderId := .esplora

/-- The readings of the clock in one call, by the place that takes them. The clock and the
configured intervals are small enough for the dates made of these alone. -/
structure Readings where
  wait : Nat
  check : ProviderId → Nat
  earliest : Nat
  limited : ProviderId → Nat
  today : ProviderId → Nat
  recorded : ProviderId → Nat
  marked : ProviderId → Nat

/-- One call of the router: what its readings of the clock give, and what `fn` gives for each
explorer. -/
structure Call (α : Type) where
  readings : Readings
  outcome : ProviderId → Except ProviderError α

/-- An explorer that a call has tried, with the row stored at that moment. -/
structure Attempt (α : Type) where
  provider : ProviderId
  stored : RouterRow
  outcome : Except ProviderError α

structure CallResult (α : Type) where
  row : RouterRow
  attempts : List (Attempt α)
  result : Except RouterError α

def providers : List ProviderId := [.esplora, .mempool]

def startIndex (cfg : RouterConfig) (lastProviderUsed : Option ProviderId) : Nat :=
  match lastProviderUsed with
  | some .esplora => 1
  | some .mempool => 0
  | none => if cfg.primaryProvider = .mempool then 1 else 0

def orderedProviders (cfg : RouterConfig) (check : ProviderId → Nat) (row : RouterRow) :
    List ProviderId :=
  let available := providers.filter fun p => !isProviderInBackoff row p (check p)
  if available.length ≤ 1 then available
  else
    let start := startIndex cfg row.lastProviderUsed
    ((List.range providers.length).map fun offset =>
      providers.getD ((start + offset) % providers.length) .esplora).filter (· ∈ available)

def markCalled (cfg : RouterConfig) (p : ProviderId) (success : Bool) (now : Nat) (row : RouterRow) :
    RouterRow :=
  { row with
    nextProviderCallAt := some (now + cfg.rateLimitMs)
    lastProviderUsed := some p
    rateLimitMs := cfg.rateLimitMs
    lastProviderSuccessAt := if success then some now else row.lastProviderSuccessAt }

/-- `recordProviderRateLimit`; none where the date throws. -/
def recordProviderRateLimit (cfg : RouterConfig) (readings : Readings) (state : RouterRow)
    (p : ProviderId) (err : ProviderError) (row : RouterRow) : Option RouterRow :=
  let strikes := (state.provider p).strikeCount + 1
  let backoffSec := providerBackoffSec strikes cfg.apiThresholdBaseSec cfg.apiThresholdMaxSec
    (rateLimitRetryAfterSec err)
  (toISOString (readings.limited p + backoffSec * 1000)).map fun retryAfterAt =>
    recordApiThreshold p (readings.today p) (readings.recorded p) retryAfterAt strikes row

variable {α : Type}

/-- The loop of `withProvider` over the ordered explorers; `state` is the row that the call has
read last. -/
def tryProviders (cfg : RouterConfig) (call : Call α) :
    List ProviderId → RouterRow → RouterRow → Option (ProviderId × ProviderError) → CallResult α
  | [], _, row, some (p, err) =>
    ⟨markCalled cfg p false (call.readings.marked p) row, [], .error (.provider err)⟩
  | [], _, row, none => ⟨row, [], .error .unset⟩
  | p :: rest, state, row, _ =>
    let attempt : Attempt α := ⟨p, row, call.outcome p⟩
    match call.outcome p with
    | .ok result =>
      ⟨markCalled cfg p true (call.readings.marked p) (clearProviderStrike p row), [attempt], .ok result⟩
    | .error err =>
      if isRateLimitError err then
        match recordProviderRateLimit cfg call.readings state p err row with
        | some row =>
          let later := tryProviders cfg call rest row row (some (p, err))
          { later with attempts := attempt :: later.attempts }
        | none => ⟨row, [attempt], .error .invalidTime⟩
      else
        ⟨markCalled cfg p false (call.readings.marked p) row, [attempt], .error (.provider err)⟩

/-- `waitForRateLimit` where it does not sleep: the time of the next call, if that is not yet. -/
def notReadyAt (cfg : RouterConfig) (readings : Readings) (row : RouterRow) : Option Nat :=
  row.nextProviderCallAt.filter fun nextAt => readings.wait < nextAt && !cfg.sleepOnRateLimit

def withProvider (cfg : RouterConfig) (call : Call α) (row : RouterRow) : CallResult α :=
  match notReadyAt cfg call.readings row with
  | some retryAt => ⟨row, [], .error (.notReady retryAt .pacing)⟩
  | none =>
    match orderedProviders cfg call.readings.check row with
    | [] =>
      let retryAt := (earliestProviderRetryAt row call.readings.earliest).getD
        (call.readings.earliest + 60000)
      ⟨row, [], .error (.notReady retryAt .providerBackoff)⟩
    | p :: rest => tryProviders cfg call (p :: rest) row row none

/-! ## Runs -/

/-- What happens to the row: a call of the router, or a new day for the counts. -/
inductive Event (α : Type) where
  | call (call : Call α)
  | thresholdDay (today : Nat)

/-- A run so far: the row, the calls with their results, and all attempts in order. -/
structure Run (α : Type) where
  row : RouterRow := {}
  calls : List (Call α × CallResult α) := []
  history : List (Attempt α) := []

def Run.step (cfg : RouterConfig) (s : Run α) : Event α → Run α
  | .call call =>
    let r := withProvider cfg call s.row
    { row := r.row, calls := s.calls ++ [(call, r)], history := s.history ++ r.attempts }
  | .thresholdDay today => { s with row := ensureApiThresholdDay today s.row }

def run (cfg : RouterConfig) (events : List (Event α)) : Run α := events.foldl (Run.step cfg) {}

/-- What an attempt makes of the number of rate limits since the last success. -/
def countFailure (p : ProviderId) (n : Nat) (a : Attempt α) : Nat :=
  if a.provider = p then
    match a.outcome with
    | .ok _ => 0
    | .error err => if isRateLimitError err then n + 1 else n
  else n

/-- The rate limits of an explorer since its last success. -/
def failuresSinceSuccess (p : ProviderId) (history : List (Attempt α)) : Nat :=
  history.foldl (countFailure p) 0

/-- What holds of one call: every explorer tried was out of its stored backoff when the call checked
it, none is tried twice, and the call returns what an explorer gave. -/
structure Disciplined (call : Call α) (r : CallResult α) : Prop where
  expired : ∀ a ∈ r.attempts, ∀ t, (a.stored.provider a.provider).retryAfterAt = some t →
    t ≤ call.readings.check a.provider
  once : (r.attempts.map (·.provider)).Nodup
  asked : ∀ a ∈ r.attempts, a.outcome = call.outcome a.provider
  returned : ∀ v, r.result = .ok v ↔ ∃ a ∈ r.attempts, a.outcome = .ok v

/-! ## One call -/

theorem not_inBackoff_iff {row : RouterRow} {p : ProviderId} {now : Nat} :
    isProviderInBackoff row p now = false ↔ ∀ t, (row.provider p).retryAfterAt = some t → t ≤ now := by
  unfold isProviderInBackoff retryAfterSecondsLeft
  cases (row.provider p).retryAfterAt with
  | none => simp
  | some t =>
    simp only [Option.some.injEq, forall_eq', decide_eq_false_iff_not]
    omega

theorem nodup_orderedProviders (cfg : RouterConfig) (check : ProviderId → Nat) (row : RouterRow) :
    (orderedProviders cfg check row).Nodup := by
  unfold orderedProviders
  dsimp only
  split
  · exact List.Nodup.filter _ (by decide)
  · refine List.Nodup.filter _ ?_
    unfold startIndex
    split
    · decide
    · decide
    · split <;> decide

/-- Every ordered explorer is out of its backoff at the reading of the check. -/
theorem expired_of_mem {cfg : RouterConfig} {check : ProviderId → Nat} {row : RouterRow}
    {p : ProviderId} (h : p ∈ orderedProviders cfg check row) :
    isProviderInBackoff row p (check p) = false := by
  have hAvailable : p ∈ providers.filter fun p => !isProviderInBackoff row p (check p) := by
    unfold orderedProviders at h
    dsimp only at h
    split at h
    · exact h
    · exact of_decide_eq_true (List.mem_filter.mp h).2
  simpa using (List.mem_filter.mp hAvailable).2

@[simp] theorem provider_markCalled (cfg : RouterConfig) (p : ProviderId) (success : Bool) (now : Nat)
    (row : RouterRow) : (markCalled cfg p success now row).provider = row.provider := rfl

/-- A new day leaves strikes and backoffs as they are. -/
theorem strikes_ensureApiThresholdDay (today : Nat) (row : RouterRow) (q : ProviderId) :
    ((ensureApiThresholdDay today row).provider q).strikeCount = (row.provider q).strikeCount ∧
      ((ensureApiThresholdDay today row).provider q).retryAfterAt = (row.provider q).retryAfterAt := by
  unfold ensureApiThresholdDay
  split <;> exact ⟨rfl, rfl⟩

theorem strikes_recordApiThreshold {p q : ProviderId} (h : q ≠ p) (today now retryAfterAt strikes : Nat)
    (row : RouterRow) :
    ((recordApiThreshold p today now retryAfterAt strikes row).provider q).strikeCount =
        (row.provider q).strikeCount ∧
      ((recordApiThreshold p today now retryAfterAt strikes row).provider q).retryAfterAt =
        (row.provider q).retryAfterAt := by
  unfold recordApiThreshold
  rw [RouterRow.setProvider_other _ h]
  exact strikes_ensureApiThresholdDay today row q

theorem recordProviderRateLimit_some {cfg : RouterConfig} {readings : Readings}
    {state row row' : RouterRow} {p : ProviderId} {err : ProviderError}
    (h : recordProviderRateLimit cfg readings state p err row = some row') :
    (row'.provider p).strikeCount = (state.provider p).strikeCount + 1 ∧
      ∀ q, q ≠ p → (row'.provider q).strikeCount = (row.provider q).strikeCount ∧
        (row'.provider q).retryAfterAt = (row.provider q).retryAfterAt := by
  obtain ⟨date, -, rfl⟩ := Option.map_eq_some_iff.mp h
  refine ⟨?_, fun q hq => strikes_recordApiThreshold hq _ _ _ _ row⟩
  unfold recordApiThreshold
  rw [RouterRow.setProvider_self]

variable {cfg : RouterConfig} {call : Call α}

theorem attempts_sublist (l : List ProviderId) (state row : RouterRow)
    (last : Option (ProviderId × ProviderError)) :
    ((tryProviders cfg call l state row last).attempts.map (·.provider)).Sublist l := by
  induction l generalizing state row last with
  | nil => cases last <;> exact List.Sublist.slnil
  | cons p rest ih =>
    have hOne : [p].Sublist (p :: rest) := (List.nil_sublist rest).cons_cons p
    unfold tryProviders
    dsimp only
    split
    · exact hOne
    · split
      · split
        · exact (ih _ _ _).cons_cons p
        · exact hOne
      · exact hOne

/-- What an attempt finds stored for its explorer is what the call has found. -/
theorem stored_of_mem {l : List ProviderId} (hNodup : l.Nodup) (state row : RouterRow)
    (last : Option (ProviderId × ProviderError)) :
    ∀ a ∈ (tryProviders cfg call l state row last).attempts,
      (a.stored.provider a.provider).retryAfterAt = (row.provider a.provider).retryAfterAt := by
  induction l generalizing state row last with
  | nil => cases last <;> exact fun _ h => absurd h List.not_mem_nil
  | cons p rest ih =>
    obtain ⟨hp, hRest⟩ := List.nodup_cons.mp hNodup
    intro a ha
    unfold tryProviders at ha
    dsimp only at ha
    split at ha
    · rw [List.mem_singleton.mp ha]
    · split at ha
      · split at ha
        · next row' hRecord =>
          rcases List.mem_cons.mp ha with rfl | ha
          · rfl
          · have hMem : a.provider ∈ rest :=
              (attempts_sublist rest row' row' _).subset (List.mem_map_of_mem ha)
            have hne : a.provider ≠ p := fun h => hp (h ▸ hMem)
            rw [ih hRest row' row' _ a ha]
            exact ((recordProviderRateLimit_some hRecord).2 _ hne).2
        · rw [List.mem_singleton.mp ha]
      · rw [List.mem_singleton.mp ha]

theorem asked_of_mem (l : List ProviderId) (state row : RouterRow)
    (last : Option (ProviderId × ProviderError)) :
    ∀ a ∈ (tryProviders cfg call l state row last).attempts, a.outcome = call.outcome a.provider := by
  induction l generalizing state row last with
  | nil => cases last <;> exact fun _ h => absurd h List.not_mem_nil
  | cons p rest ih =>
    intro a ha
    unfold tryProviders at ha
    dsimp only at ha
    split at ha
    · rw [List.mem_singleton.mp ha]
    · split at ha
      · split at ha
        · rcases List.mem_cons.mp ha with rfl | ha
          · rfl
          · exact ih _ _ _ a ha
        · rw [List.mem_singleton.mp ha]
      · rw [List.mem_singleton.mp ha]

/-- A result is returned if and only if an attempt gave it. -/
theorem returned_iff (l : List ProviderId) (state row : RouterRow)
    (last : Option (ProviderId × ProviderError)) (v : α) :
    (tryProviders cfg call l state row last).result = .ok v ↔
      ∃ a ∈ (tryProviders cfg call l state row last).attempts, a.outcome = .ok v := by
  induction l generalizing state row last with
  | nil => cases last <;> simp [tryProviders]
  | cons p rest ih =>
    unfold tryProviders
    dsimp only
    cases hOut : call.outcome p with
    | ok result => simp
    | error err =>
      dsimp only
      split
      · split
        · next row' _ =>
          have hLater := ih row' row' (some (p, err))
          simp only [List.mem_cons, exists_eq_or_imp, hLater, reduceCtorEq, false_or]
        · simp
      · simp

/-- The explorers that the loop reaches: up to the first that does not answer with a rate limit. -/
def reached (call : Call α) : List ProviderId → List ProviderId
  | [] => []
  | p :: rest =>
    p :: match call.outcome p with
      | .ok _ => []
      | .error err => if isRateLimitError err then reached call rest else []

theorem reached_subset (call : Call α) (l : List ProviderId) : reached call l ⊆ l := by
  induction l with
  | nil => exact List.Subset.refl _
  | cons p rest ih =>
    refine List.cons_subset.mpr ⟨List.mem_cons_self, fun q hq => List.mem_cons_of_mem _ ?_⟩
    split at hq
    · exact absurd hq List.not_mem_nil
    · split at hq
      · exact ih hq
      · exact absurd hq List.not_mem_nil

/-- The ends of the backoffs that the explorers reached ask for are dates. -/
def DatesInRange (cfg : RouterConfig) (call : Call α) (row : RouterRow) (l : List ProviderId) : Prop :=
  ∀ p ∈ reached call l, ∀ err, call.outcome p = .error err → isRateLimitError err = true →
    call.readings.limited p + providerBackoffSec ((row.provider p).strikeCount + 1)
      cfg.apiThresholdBaseSec cfg.apiThresholdMaxSec (rateLimitRetryAfterSec err) * 1000 ≤
        8640000000000000

/-- Where the dates are in range, each attempt changes the stored strikes as it should. -/
theorem strikes_tryProviders {l : List ProviderId} (hNodup : l.Nodup) {row : RouterRow}
    (hRange : DatesInRange cfg call row l) (last : Option (ProviderId × ProviderError)) (q : ProviderId) :
    ((tryProviders cfg call l row row last).row.provider q).strikeCount =
      (tryProviders cfg call l row row last).attempts.foldl (countFailure q)
        (row.provider q).strikeCount := by
  induction l generalizing row last with
  | nil => cases last <;> rfl
  | cons p rest ih =>
    obtain ⟨hp, hRest⟩ := List.nodup_cons.mp hNodup
    unfold tryProviders
    dsimp only
    cases hOut : call.outcome p with
    | ok result =>
      by_cases hq : p = q
      · subst hq
        simp [clearProviderStrike, countFailure]
      · simp [clearProviderStrike, countFailure, hq, RouterRow.setProvider_other _ (Ne.symm hq)]
    | error err =>
      dsimp only
      by_cases hLimit : isRateLimitError err = true
      · have hDate := hRange p List.mem_cons_self err hOut hLimit
        obtain ⟨row', hRecord⟩ : ∃ row', recordProviderRateLimit cfg call.readings row p err row =
            some row' := by
          exact ⟨_, Option.map_eq_some_iff.mpr ⟨_, if_pos hDate, rfl⟩⟩
        obtain ⟨hSelf, hOther⟩ := recordProviderRateLimit_some hRecord
        have hLater : DatesInRange cfg call row' rest := fun q' hq' err' hOut' hLimit' => by
          have hReached : q' ∈ reached call (p :: rest) := by
            rw [reached, hOut]
            exact List.mem_cons_of_mem _ (by simpa [hLimit] using hq')
          have hne : q' ≠ p := fun h => hp (h ▸ reached_subset call rest hq')
          rw [(hOther q' hne).1]
          exact hRange q' hReached err' hOut' hLimit'
        rw [if_pos hLimit, hRecord]
        dsimp only
        rw [ih hRest hLater (some (p, err)), List.foldl_cons]
        congr 1
        by_cases hq : p = q
        · subst hq
          simp [countFailure, hSelf, hLimit]
        · simp [countFailure, hq, (hOther q (Ne.symm hq)).1]
      · rw [if_neg hLimit]
        simp [countFailure, hLimit]

/-- The loop that a call comes to, where it is neither too early nor without an explorer. -/
theorem withProvider_cases (cfg : RouterConfig) (call : Call α) (row : RouterRow) :
    ((withProvider cfg call row).row = row ∧ (withProvider cfg call row).attempts = [] ∧
        ∃ err, (withProvider cfg call row).result = .error err) ∨
      withProvider cfg call row =
        tryProviders cfg call (orderedProviders cfg call.readings.check row) row row none := by
  unfold withProvider
  split
  · exact Or.inl ⟨rfl, rfl, _, rfl⟩
  · split
    · exact Or.inl ⟨rfl, rfl, _, rfl⟩
    · next hOrder =>
      rw [hOrder]
      exact Or.inr rfl

theorem withProvider_disciplined (cfg : RouterConfig) (call : Call α) (row : RouterRow) :
    Disciplined call (withProvider cfg call row) := by
  rcases withProvider_cases cfg call row with ⟨_, hNone, err, hErr⟩ | hLoop
  · exact
      { expired := fun a ha => absurd (hNone ▸ ha) List.not_mem_nil
        once := by rw [hNone]; exact List.nodup_nil
        asked := fun a ha => absurd (hNone ▸ ha) List.not_mem_nil
        returned := fun v => by simp [hNone, hErr] }
  · have hNodup := nodup_orderedProviders cfg call.readings.check row
    rw [hLoop]
    exact
      { expired := fun a ha t hStored => by
          have hMem := (attempts_sublist _ row row none).subset (List.mem_map_of_mem ha)
          rw [stored_of_mem hNodup row row none a ha] at hStored
          exact not_inBackoff_iff.mp (expired_of_mem hMem) t hStored
        once := hNodup.sublist (attempts_sublist _ row row none)
        asked := asked_of_mem _ row row none
        returned := returned_iff _ row row none }

theorem strikes_withProvider {cfg : RouterConfig} {call : Call α} {row : RouterRow}
    (hRange : DatesInRange cfg call row (orderedProviders cfg call.readings.check row)) (q : ProviderId) :
    ((withProvider cfg call row).row.provider q).strikeCount =
      (withProvider cfg call row).attempts.foldl (countFailure q) (row.provider q).strikeCount := by
  rcases withProvider_cases cfg call row with ⟨hRow, hNone, _⟩ | hLoop
  · rw [hRow, hNone, List.foldl_nil]
  · rw [hLoop]
    exact strikes_tryProviders (nodup_orderedProviders _ _ row) hRange none q

/-! ## All runs -/

/-- Every rate limit that a run records asks for a backoff that ends on a date. -/
def InRange (cfg : RouterConfig) : Run α → List (Event α) → Prop
  | _, [] => True
  | s, .call call :: events =>
    DatesInRange cfg call s.row (orderedProviders cfg call.readings.check s.row) ∧
      InRange cfg (s.step cfg (.call call)) events
  | s, .thresholdDay today :: events => InRange cfg (s.step cfg (.thresholdDay today)) events

/-- What holds of a run in every state. -/
structure Run.Sound (s : Run α) : Prop where
  strikes : ∀ p, (s.row.provider p).strikeCount = failuresSinceSuccess p s.history
  calls : ∀ c ∈ s.calls, Disciplined c.1 c.2

theorem Run.Sound.afterCall {s : Run α} (h : s.Sound) {call : Call α}
    (hRange : DatesInRange cfg call s.row (orderedProviders cfg call.readings.check s.row)) :
    (s.step cfg (.call call)).Sound where
  strikes p := by
    show ((withProvider cfg call s.row).row.provider p).strikeCount =
      failuresSinceSuccess p (s.history ++ (withProvider cfg call s.row).attempts)
    rw [strikes_withProvider hRange, h.strikes, failuresSinceSuccess, failuresSinceSuccess,
      List.foldl_append]
  calls c hc := by
    rcases List.mem_append.mp hc with hc | hc
    · exact h.calls c hc
    · rw [List.mem_singleton.mp hc]
      exact withProvider_disciplined cfg call s.row

theorem Run.Sound.afterDay {s : Run α} (h : s.Sound) (today : Nat) :
    (s.step cfg (.thresholdDay today)).Sound where
  strikes p := by
    show ((ensureApiThresholdDay today s.row).provider p).strikeCount = _
    rw [(strikes_ensureApiThresholdDay today s.row p).1]
    exact h.strikes p
  calls := h.calls

theorem sound_foldl {s : Run α} (h : s.Sound) {events : List (Event α)} (hRange : InRange cfg s events) :
    (events.foldl (Run.step cfg) s).Sound := by
  induction events generalizing s with
  | nil => exact h
  | cons event events ih =>
    cases event with
    | call call => exact ih (h.afterCall hRange.1) hRange.2
    | thresholdDay today => exact ih (h.afterDay today) hRange

/-- In every run whose backoffs end on dates, each call is disciplined, and the strikes stored for an
explorer are its rate limits since its last success. -/
theorem router_disciplined (cfg : RouterConfig) (events : List (Event α))
    (hRange : InRange cfg ({} : Run α) events) :
    (∀ c ∈ (run cfg events).calls, Disciplined c.1 c.2) ∧
      ∀ p, ((run cfg events).row.provider p).strikeCount =
        failuresSinceSuccess p (run cfg events).history := by
  have hStart : ({} : Run α).Sound := { strikes := fun _ => rfl, calls := fun _ h => absurd h List.not_mem_nil }
  have hEnd := sound_foldl hStart hRange
  exact ⟨hEnd.calls, hEnd.strikes⟩

/-- Readings of one moment. -/
def Readings.moment (t : Nat) : Readings := ⟨t, fun _ => t, t, fun _ => t, fun _ => t, fun _ => t, fun _ => t⟩

/-- One explorer answers with a rate limit and a hint, the other with a value. -/
def limitedOnce (hint : Nat) : Call Nat where
  readings := Readings.moment 1000
  outcome p := match p with
    | .esplora => .error (.rateLimitHttp "429 Too Many Requests" (some hint))
    | .mempool => .ok 7

theorem router_disciplined_limitedOnce :
    ((run {} [.call (limitedOnce 60)]).row.provider .esplora).strikeCount = 1 ∧
      ∃ r, (run {} [.call (limitedOnce 60)]).calls = [(limitedOnce 60, r)] ∧ r.result = .ok 7 := by
  have hRange : InRange {} ({} : Run Nat) [.call (limitedOnce 60)] := by
    refine ⟨fun p hp err hErr _ => ?_, trivial⟩
    cases p with
    | esplora =>
      cases hErr
      decide
    | mempool => cases hErr
  have hStrikes := (router_disciplined {} [.call (limitedOnce 60)] hRange).2 .esplora
  exact ⟨hStrikes.trans (by decide +kernel), _, rfl, rfl⟩

/-- A hint past the last date ends the call before the strike is stored. -/
theorem router_loses_strike :
    ¬ ∀ (cfg : RouterConfig) (events : List (Event Nat)) (p : ProviderId),
      ((run cfg events).row.provider p).strikeCount = failuresSinceSuccess p (run cfg events).history := by
  intro h
  exact absurd (h {} [.call (limitedOnce 10000000000000)] .esplora) (by decide +kernel)

end Bloodhound.Chain.Router
