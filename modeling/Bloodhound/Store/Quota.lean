import Bloodhound.Lib.Process
import Mathlib.Algebra.GroupWithZero.Nat

/-!
# Quota accounting

`getQuotaSnapshot` and `flushQuotaUsage` of `store.ts` as processes of many store instances, each with
its own cache of the scheduler row. The flushed amounts are added by relative updates, but the change
of the day is decided on the cached row and resets the stored one unconditionally.

Cron totals plus overhead never exceed the overall totals. The totals of the stored day are the sum of
what was flushed on it (`Accounted`) as long as every reset finds an earlier day stored, and every
addition the day of its own flush.
-/

namespace Bloodhound.Store.Quota

open Journal Process

/-! ## The row -/

/-- The quota columns of `scheduler_state`; days are numbered. -/
structure QuotaRow where
  quotaDayUtc : Option Nat := none
  d1RowsReadTotal : Nat := 0
  d1RowsWrittenTotal : Nat := 0
  workersRequestsTotal : Nat := 0
  d1RowsReadCron : Nat := 0
  d1RowsWrittenCron : Nat := 0
  workersRequestsCron : Nat := 0
  d1RowsReadOverhead : Nat := 0
  d1RowsWrittenOverhead : Nat := 0
  deriving DecidableEq, Repr

inductive Source where
  | cron
  | api
  deriving DecidableEq, Repr

structure Usage where
  reads : Nat
  writes : Nat
  requests : Nat

structure Overhead where
  reads : Nat
  writes : Nat

/-- The updates of the quota columns, which are repeated on the cached row. -/
inductive QuotaUpdate where
  | rollOver (today : Nat)
  | flush (source : Source) (usage : Usage) (overhead : Overhead)
  | overhead (overhead : Overhead)

def QuotaUpdate.apply : QuotaUpdate → QuotaRow → QuotaRow
  | .rollOver today, _ => { quotaDayUtc := some today }
  | .flush .cron usage oh, row =>
    { row with
      d1RowsReadTotal := row.d1RowsReadTotal + (usage.reads + oh.reads)
      d1RowsWrittenTotal := row.d1RowsWrittenTotal + (usage.writes + oh.writes)
      workersRequestsTotal := row.workersRequestsTotal + usage.requests
      d1RowsReadCron := row.d1RowsReadCron + usage.reads
      d1RowsWrittenCron := row.d1RowsWrittenCron + usage.writes
      workersRequestsCron := row.workersRequestsCron + usage.requests
      d1RowsReadOverhead := row.d1RowsReadOverhead + oh.reads
      d1RowsWrittenOverhead := row.d1RowsWrittenOverhead + oh.writes }
  | .flush .api usage oh, row =>
    { row with
      d1RowsReadTotal := row.d1RowsReadTotal + (usage.reads + oh.reads)
      d1RowsWrittenTotal := row.d1RowsWrittenTotal + (usage.writes + oh.writes)
      workersRequestsTotal := row.workersRequestsTotal + usage.requests
      d1RowsReadOverhead := row.d1RowsReadOverhead + oh.reads
      d1RowsWrittenOverhead := row.d1RowsWrittenOverhead + oh.writes }
  | .overhead oh, row =>
    { row with
      d1RowsReadTotal := row.d1RowsReadTotal + oh.reads
      d1RowsWrittenTotal := row.d1RowsWrittenTotal + oh.writes
      d1RowsReadOverhead := row.d1RowsReadOverhead + oh.reads
      d1RowsWrittenOverhead := row.d1RowsWrittenOverhead + oh.writes }

/-! ## The instances -/

/-- The stored row, and what each instance has cached of it. -/
structure QuotaState where
  row : QuotaRow
  cache : Nat → Option QuotaRow

inductive QuotaStmt where
  | update (u : QuotaUpdate)
  | setCache (k : Nat) (row : Option QuotaRow)
  | patchCache (k : Nat) (u : QuotaUpdate)

def QuotaStmt.exec : QuotaStmt → QuotaState → QuotaState
  | .update u, s => { s with row := u.apply s.row }
  | .setCache k row, s => { s with cache := Function.update s.cache k row }
  | .patchCache k u, s => { s with cache := Function.update s.cache k ((s.cache k).map u.apply) }

instance : Statement QuotaStmt QuotaState where
  exec := QuotaStmt.exec

inductive QuotaError where
  | database

/-- Processes of the instances; the statements of a flush are labelled with its day. -/
abbrev QuotaM : Type → Type := Process (Option Nat) QuotaStmt QuotaState QuotaError

def run (i : QuotaStmt) : QuotaM Unit := execute [i] fun _ => ()

def getSchedulerState (k : Nat) : QuotaM QuotaRow := do
  let cached ← execute [] (·.cache k)
  cached.elim
    (do
      let row ← execute [] (·.row)
      run (.setCache k (some row))
      pure row)
    pure

/-- An update of the stored row, and of the cached one after it. -/
def updateSchedulerState (k : Nat) (u : QuotaUpdate) : QuotaM Unit := do
  run (.update u)
  run (.patchCache k u)

structure QuotaSnapshot where
  quotaDayUtc : Nat
  rowsReadTotal : Nat := 0
  rowsWrittenTotal : Nat := 0
  workersRequestsTotal : Nat := 0
  rowsReadCron : Nat := 0
  rowsWrittenCron : Nat := 0
  workersRequestsCron : Nat := 0

def getQuotaSnapshot (k : Nat) (preloadedState : Option QuotaRow) : QuotaM QuotaSnapshot := do
  let today ← input
  let state ← preloadedState.elim (getSchedulerState k) pure
  if state.quotaDayUtc ≠ some today then do
    updateSchedulerState k (.rollOver today)
    pure { quotaDayUtc := today }
  else
    pure
      { quotaDayUtc := state.quotaDayUtc.getD today
        rowsReadTotal := state.d1RowsReadTotal
        rowsWrittenTotal := state.d1RowsWrittenTotal
        workersRequestsTotal := state.workersRequestsTotal
        rowsReadCron := state.d1RowsReadCron
        rowsWrittenCron := state.d1RowsWrittenCron
        workersRequestsCron := state.workersRequestsCron }

/-- What the meter has recorded for the statements of the flush itself. -/
def drainOverhead : QuotaM Overhead := do
  let reads ← input
  let writes ← input
  pure ⟨reads, writes⟩

def applyOverheadToSchedulerState (k : Nat) (oh : Overhead) : QuotaM Unit :=
  if oh.reads = 0 ∧ oh.writes = 0 then pure () else updateSchedulerState k (.overhead oh)

structure Delta where
  reads : Int
  writes : Int
  requests : Int

/-- The statements of `flushQuotaUsage` after its snapshot. -/
def flushUsage (k : Nat) (source : Source) (usage : Usage) : QuotaM Unit := do
  let oh1 ← drainOverhead
  updateSchedulerState k (.flush source usage oh1)
  let tailOverhead ← drainOverhead
  applyOverheadToSchedulerState k tailOverhead

def flushQuotaUsage (k : Nat) (source : Source) (delta : Delta) : QuotaM Unit := do
  let usage : Usage := ⟨delta.reads.toNat, delta.writes.toNat, delta.requests.toNat⟩
  if usage.reads = 0 ∧ usage.writes = 0 ∧ usage.requests = 0 then pure ()
  else do
    let snapshot ← getQuotaSnapshot k none
    (flushUsage k source usage).within (some snapshot.quotaDayUtc)

/-- What is called on an instance. The status page hands a row that it has loaded before to the
snapshot, and every request clears the cache. -/
inductive Call where
  | flushQuotaUsage (source : Source) (delta : Delta)
  | getQuotaSnapshot
  | syncStatus
  | clearSchedulerStateCache

def Call.process (k : Nat) : Call → QuotaM Unit
  | .flushQuotaUsage source delta => Quota.flushQuotaUsage k source delta
  | .getQuotaSnapshot => do
    let _ ← Quota.getQuotaSnapshot k none
    pure ()
  | .syncStatus => do
    let scheduler ← getSchedulerState k
    let _ ← Quota.getQuotaSnapshot k (some scheduler)
    pure ()
  | .clearSchedulerStateCache => run (.setCache k none)

/-! ## The system -/

/-- An instance and the number of a call on it. -/
abbrev Caller : Type := Nat × Nat

abbrev QuotaView : Type := View Caller (Option Nat) QuotaStmt QuotaState QuotaError
abbrev QuotaEvent : Type := Event Caller (Option Nat) QuotaStmt QuotaError
abbrev QuotaConfig : Type := Config Caller (Option Nat) QuotaStmt QuotaState QuotaError

/-- Any number of instances, and any number of calls on each; nothing is stored or cached. -/
def start (calls : Caller → Call) : QuotaConfig :=
  ⟨⟨⟨{}, fun _ => none⟩, []⟩, fun c => (calls c).process c.1⟩

/-! ## Accounts -/

inductive Column where
  | rowsRead
  | rowsWritten
  | workersRequests

def QuotaRow.total (row : QuotaRow) : Column → Nat
  | .rowsRead => row.d1RowsReadTotal
  | .rowsWritten => row.d1RowsWrittenTotal
  | .workersRequests => row.workersRequestsTotal

def QuotaRow.cron (row : QuotaRow) : Column → Nat
  | .rowsRead => row.d1RowsReadCron
  | .rowsWritten => row.d1RowsWrittenCron
  | .workersRequests => row.workersRequestsCron

def QuotaRow.overhead (row : QuotaRow) : Column → Nat
  | .rowsRead => row.d1RowsReadOverhead
  | .rowsWritten => row.d1RowsWrittenOverhead
  | .workersRequests => 0

def Overhead.amount (oh : Overhead) : Column → Nat
  | .rowsRead => oh.reads
  | .rowsWritten => oh.writes
  | .workersRequests => 0

def Usage.amount (usage : Usage) : Column → Nat
  | .rowsRead => usage.reads
  | .rowsWritten => usage.writes
  | .workersRequests => usage.requests

/-- What the update adds to the total of the column. -/
def QuotaUpdate.amount (column : Column) : QuotaUpdate → Nat
  | .rollOver _ => 0
  | .flush _ usage oh => usage.amount column + oh.amount column
  | .overhead oh => oh.amount column

def QuotaStmt.amount (column : Column) : QuotaStmt → Nat
  | .update u => u.amount column
  | _ => 0

/-- What the event has flushed on the day. -/
def amountOn (column : Column) (day : Nat) (ev : QuotaEvent) : Nat :=
  match ev.outcome with
  | .ok group => if ev.label = some day then (group.map (·.amount column)).sum else 0
  | .error _ => 0

def flushedOn (column : Column) (day : Nat) (history : List QuotaEvent) : Nat :=
  (history.map (amountOn column day)).sum

/-- The totals of the stored day are the sums of what was flushed on it. -/
def Accounted (v : QuotaView) : Prop :=
  ∀ day, v.state.row.quotaDayUtc = some day →
    ∀ column, v.state.row.total column = flushedOn column day v.history

/-- Statements are executed one at a time. -/
def Single (group : List QuotaStmt) : Prop := group = [] ∨ ∃ i, group = [i]

theorem emits_run (i : QuotaStmt) : (run i).Emits Single := ⟨.inr ⟨i, rfl⟩, fun _ => trivial⟩

theorem total_apply (u : QuotaUpdate) (row : QuotaRow) (column : Column) :
    (u.apply row).total column =
      match u with
      | .rollOver _ => 0
      | _ => row.total column + u.amount column := by
  cases u with
  | rollOver today => cases column <;> rfl
  | flush source usage oh => cases source <;> cases column <;> rfl
  | overhead oh => cases column <;> rfl

theorem flushedOn_cons (column : Column) (day : Nat) (ev : QuotaEvent) (history : List QuotaEvent) :
    flushedOn column day (ev :: history) = amountOn column day ev + flushedOn column day history := by
  simp [flushedOn]

/-! ## The ledger -/

/-- The stored day is accounted for, and nothing was flushed on a later one. -/
structure Ledger (v : QuotaView) : Prop where
  accounted : Accounted v
  later : ∀ day, (∀ stored, v.state.row.quotaDayUtc = some stored → stored < day) →
    ∀ column, flushedOn column day v.history = 0

/-- An event that neither changes the row nor flushes anything. -/
theorem Ledger.idle {v : QuotaView} (h : Ledger v) {ev : QuotaEvent}
    (hRow : (v.after ev).state.row = v.state.row) (hAmount : ∀ column day, amountOn column day ev = 0) :
    Ledger (v.after ev) where
  accounted day hDay column := by
    rw [hRow] at hDay ⊢
    show _ = flushedOn column day (ev :: v.history)
    rw [flushedOn_cons, hAmount, Nat.zero_add]
    exact h.accounted day hDay column
  later day hDay column := by
    rw [hRow] at hDay
    show flushedOn column day (ev :: v.history) = 0
    rw [flushedOn_cons, hAmount, Nat.zero_add]
    exact h.later day hDay column

theorem Ledger.rollOver {v : QuotaView} (h : Ledger v) (k : Caller) (label : Option Nat) {today : Nat}
    (hToday : ∀ stored, v.state.row.quotaDayUtc = some stored → stored < today) :
    Ledger (v.after ⟨k, label, .ok [.update (.rollOver today)]⟩) := by
  have hHistory : ∀ column day, flushedOn column day
      (v.after ⟨k, label, .ok [.update (.rollOver today)]⟩).history = flushedOn column day v.history := by
    intro column day
    show flushedOn column day (_ :: v.history) = _
    rw [flushedOn_cons]
    simp [amountOn, QuotaStmt.amount, QuotaUpdate.amount]
  refine ⟨fun day hDay column => ?_, fun day hDay column => ?_⟩
  · cases hDay
    rw [hHistory, h.later today hToday]
    exact total_apply (.rollOver today) v.state.row column
  · rw [hHistory]
    exact h.later day (fun stored hStored => (hToday stored hStored).trans (hDay today rfl)) column

/-- An addition on the stored day. -/
theorem Ledger.add {v : QuotaView} (h : Ledger v) (k : Caller) {u : QuotaUpdate} {stored : Nat}
    (hStored : v.state.row.quotaDayUtc = some stored)
    (hDay : (u.apply v.state.row).quotaDayUtc = v.state.row.quotaDayUtc)
    (hTotal : ∀ column, (u.apply v.state.row).total column = v.state.row.total column + u.amount column) :
    Ledger (v.after ⟨k, some stored, .ok [.update u]⟩) := by
  have hHistory : ∀ column day, flushedOn column day
      (v.after ⟨k, some stored, .ok [.update u]⟩).history =
        (if stored = day then u.amount column else 0) + flushedOn column day v.history := by
    intro column day
    show flushedOn column day (_ :: v.history) = _
    rw [flushedOn_cons]
    simp [amountOn, QuotaStmt.amount]
  refine ⟨fun day hNow column => ?_, fun day hLater column => ?_⟩
  · have hSame : stored = day := by
      have hNow : (u.apply v.state.row).quotaDayUtc = some day := hNow
      rw [hDay, hStored] at hNow
      exact Option.some.inj hNow
    subst hSame
    rw [hHistory, if_pos rfl, ← h.accounted stored hStored column, Nat.add_comm]
    exact hTotal column
  · have hLt : stored < day := hLater stored (hDay.trans hStored)
    rw [hHistory, if_neg hLt.ne, Nat.zero_add]
    refine h.later day (fun other hOther => ?_) column
    rw [hStored] at hOther
    cases hOther
    exact hLt

end Bloodhound.Store.Quota
