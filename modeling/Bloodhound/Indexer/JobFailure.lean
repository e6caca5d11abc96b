import Bloodhound.Store.Queue

/-!
# Failures of jobs

The parts of the loop of `processJobs` around a job that do not depend on its work: the `catch` block,
which defers the job or schedules its next try, and the resume of a paused queue. They are written for
every monad of the store, so that the journaled runs of single jobs and the worker process share them.
-/

namespace Bloodhound.Indexer

open Store
open StoreMonad (query run when)

/-- `isIngestJobType`. -/
def isIngestJobType (type : JobType) : Bool :=
  type = .backfillHackerAddress || type = .auditHackerBackfill || type = .expandDownstream

def jobNeedsHackersSet (type : JobType) : Bool :=
  isIngestJobType type || type = .pollHackerAddress || type = .pollDownstreamAddress ||
    type = .processTx

section Failures

variable {m : Type → Type} [StoreMonad m]

def maybeClearQueueSchedulingPause (env : Env) : m Unit := do
  let state ← query (·.scheduler)
  when (state.counter .pendingJob ≤ env.store.queueSchedulingResumeDepth)
    (run (.scheduler (.setQueueSchedulingPaused false)))

def setD1QuotaPaused (kind : D1QuotaKind) (retryAt : Nat) : m Unit :=
  run (.scheduler (.setD1QuotaPaused kind retryAt))

/-- The time of the next try after a rate limit, and whether another provider is available. -/
def rateLimitRetry (config : AppConfig) : m (Nat × Bool) := do
  let state ← query (·.scheduler)
  let nowMs ← StoreMonad.clock
  let otherAvailable := !isAfter state.esploraRetryAfterAt nowMs || !isAfter state.mempoolRetryAfterAt nowMs
  if otherAvailable then
    pure (state.nextProviderCallAt.getD (nowMs + config.rateLimitMs), true)
  else do
    let later ← query (·.scheduler)
    let retries := ([later.esploraRetryAfterAt, later.mempoolRetryAfterAt].filterMap id).filter (nowMs < ·)
    pure (retries.min?.getD (nowMs + config.apiThresholdBaseSec * 1000), false)

/-- What an exception carries, and how it is found out: the time of the next try, and the kind of the
quota. -/
structure ErrorDetails (m : Type → Type) where
  retryAt : m Nat
  quotaKind : m D1QuotaKind

/-- `handleJobFailure`: whether the tick stops. -/
def handleJobFailure (config : AppConfig) (details : ErrorDetails m) (id : Nat) (row : JobRow) :
    Err → m Bool
  | .rateLimitNotReady => do
    if isIngestJobType row.job.type && config.jobDeferAfterAttempts ≤ row.attempts + 1 then do
      let nowMs ← StoreMonad.clock
      deferJob id (nowMs + config.jobDeferSec * 1000)
      pure true
    else do
      let retryAt ← details.retryAt
      failJob id (some retryAt)
      pure true
  | .d1QuotaExceeded => do
    let retryAt ← details.retryAt
    let kind ← details.quotaKind
    setD1QuotaPaused kind retryAt
    failJob id (some retryAt)
    pure true
  | .rateLimit => do
    let retry ← rateLimitRetry config
    failJob id (some retry.1)
    pure (!retry.2)
  | .provider | .enqueueBlocked _ => do
    let nowMs ← StoreMonad.clock
    failJob id (some (nowMs + min 300 (30 * (row.attempts + 1)) * 1000))
    pure false

/-- The `catch` block of the loop: a refused continuation defers the job. -/
def onJobError (config : AppConfig) (details : ErrorDetails m) (id : Nat) (row : JobRow) : Err → m Bool
  | .enqueueBlocked _ => do
    let nowMs ← StoreMonad.clock
    deferJob id (nowMs + 90 * 1000)
    pure false
  | e => handleJobFailure config details id row e

end Failures

end Bloodhound.Indexer
