import Mathlib.Data.PNat.Defs
import Bloodhound.Store.Schema

/-!
# The store monad

Operations of the store and of the indexer: journaled operations over the statements of
`Schema.lean`, with the memory of one job invocation (its budgets, its CPU guard and what
it will read from the clock) and the errors that the job runner tells apart.
-/

namespace Bloodhound

/-- `createChainCallBudget`: a maximum of zero is no limit. -/
structure ChainCallBudget where
  maxChainCallsPerJob : Nat
  used : Nat := 0
  deriving DecidableEq

namespace ChainCallBudget

def unlimited (b : ChainCallBudget) : Bool := b.maxChainCallsPerJob = 0

def canCall (b : ChainCallBudget) : Bool := b.unlimited || b.used < b.maxChainCallsPerJob

def consume (b : ChainCallBudget) : ChainCallBudget :=
  if b.unlimited then b else { b with used := b.used + 1 }

def exhausted (b : ChainCallBudget) : Bool := !b.unlimited && b.maxChainCallsPerJob ≤ b.used

def processBatchLimit (b : ChainCallBudget) (fallback : Nat) : Nat :=
  if b.unlimited then fallback else min fallback (b.maxChainCallsPerJob - b.used)

end ChainCallBudget

/-- `createCpuGuard`: a cap of zero is no guard. -/
structure CpuGuard where
  cap : Nat := 0
  used : Nat := 0
  tripped : Bool := false
  deriving DecidableEq

namespace CpuGuard

def exceeded (g : CpuGuard) : Bool := 0 < g.cap && g.cap ≤ g.used

/-- The guard after a guarded computation of the given duration. -/
def ran (g : CpuGuard) (duration : Nat) : CpuGuard :=
  if g.cap = 0 then g
  else
    { g with
      used := g.used + duration
      tripped := g.tripped || g.cap ≤ g.used + duration }

end CpuGuard

/-- What a job invocation holds in memory, and what it will observe: the readings of the
clock, the answers of the subrequest budget and the durations of guarded computations. -/
structure Mem where
  budget : ChainCallBudget := { maxChainCallsPerJob := 0 }
  cpuGuard : CpuGuard := {}
  clock : List Nat := []
  subrequests : List Bool := []
  durations : List Nat := []
  deriving DecidableEq

inductive Err where
  | rateLimitNotReady
  | d1QuotaExceeded
  | rateLimit
  | provider
  | enqueueBlocked (queuePaused : Bool)
  deriving DecidableEq

def defaultD1BatchSize : ℕ+ := 8

/-- `StoreOptions`; `d1Batch` says whether the binding executes a batch as one unit. -/
structure StoreOptions where
  d1BatchSize : ℕ+ := defaultD1BatchSize
  d1Batch : Bool := true
  maxQueueDepth : Nat := 360
  queueSchedulingResumeDepth : Nat := maxQueueDepth / 2
  maxPendingExpandPerAddress : Nat := 2
  maxPendingExpandGlobal : Nat := 40
  maxPendingBackfillGlobal : Nat := 3
  maxPendingAuditGlobal : Nat := 1

/-- What the modelled functions take from their surroundings. The decoding of OP_RETURN
payloads is a parameter: its text is stored and never inspected. -/
structure Env where
  config : AppConfig := {}
  store : StoreOptions := {}
  provider : Chain.Provider
  extractOpReturnDisplay : Chain.ChainTxDetail → String := fun _ => ""

abbrev StoreM : Type → Type := Journal.Op Store.Stmt Store.Db Mem Err

namespace Store

open Journal.Op (query run mem step)

/-- The next reading of the clock. -/
def now : StoreM Nat := mem fun m => (m.clock.headD 0, { m with clock := m.clock.tail })

/-- `jobSubreq.canUse()`; `jobSubreq.exhausted()` is its negation. -/
def canUseSubrequest : StoreM Bool :=
  mem fun m => (m.subrequests.headD true, { m with subrequests := m.subrequests.tail })

def getAddress (address : Address) : StoreM (Option AddressRow) :=
  query fun db => db.addresses.lookup address

def getTransaction (txid : Txid) : StoreM (Option TransactionRow) :=
  query fun db => db.transactions.lookup txid

def getSyncState (address : Address) : StoreM (Option SyncStateRow) :=
  query fun db => db.syncState.lookup address

def getSchedulerState : StoreM SchedulerState := query fun db => db.scheduler

/-- The time is set and not over yet. -/
def isAfter (at_ : Option Nat) (nowMs : Nat) : Bool := at_.any (nowMs < ·)

/-- `chunkArray`: the consecutive pieces of the given size, counted down from `fuel`. -/
def chunkLoop {α : Type} (size : Nat) : Nat → List α → List (List α)
  | 0, _ => []
  | _ + 1, [] => []
  | fuel + 1, a :: as => (a :: as).take size :: chunkLoop size fuel ((a :: as).drop size)

def chunkArray {α : Type} (size : ℕ+) (l : List α) : List (List α) :=
  chunkLoop size l.length l

theorem flatten_chunkLoop {α : Type} {size : Nat} (hs : 0 < size) :
    ∀ (fuel : Nat) (l : List α), l.length ≤ fuel → (chunkLoop size fuel l).flatten = l
  | 0, l, h => by
    rw [List.length_eq_zero_iff.mp (Nat.le_zero.mp h)]
    rfl
  | _ + 1, [], _ => rfl
  | fuel + 1, a :: as, h => by
    have hlen : ((a :: as).drop size).length ≤ fuel := by
      rw [List.length_drop, List.length_cons] at *
      omega
    rw [chunkLoop, List.flatten_cons, flatten_chunkLoop hs fuel _ hlen, List.take_append_drop]

@[simp] theorem flatten_chunkArray {α : Type} (size : ℕ+) (l : List α) :
    (chunkArray size l).flatten = l :=
  flatten_chunkLoop size.pos l.length l le_rfl

/-- `executeSqlBatch`: one unit where the binding has batches, else one after another. -/
def executeSqlBatch (env : Env) (statements : List Stmt) : StoreM Unit :=
  if statements = [] then pure ()
  else if env.store.d1Batch then step statements fun _ => ()
  else Journal.Op.forEach statements run

end Store

end Bloodhound
