import Bloodhound.Lib.Memory
import Bloodhound.Store.AddressCounters
import Bloodhound.Store.EdgeOps
import Bloodhound.Store.SyncState

/-!
# The count of due polls

The cached number of downstream addresses that are due for a poll, against the number that the tables
give, at a fixed time. As for the counters of addresses, a write of the tables owes the count the change
of the total (`PollOff`), and the adjustment that follows it settles what is owed.

* `poll_maybeMark`: the adjustment after the change of a row settles it where the address is due.
* `poll_adjustForInbound`: the adjustment after an addition to an inbound total does at any positive
  interval.
* `drift_upsertEdgesBatch`: so does a batch of edges.
-/

namespace Bloodhound.Store

open Journal Journal.Op

/-! ## The count of due polls -/

structure PollParams where
  maxDepth : Nat
  minIntervalSec : Nat
  minExpandSats : Int
  deriving DecidableEq

abbrev SyncTable : Type := Table.Rows Address SyncStateRow

/-- The address is eligible for a poll, and has not been polled since the cutoff. -/
def AddressRow.pollDue (params : PollParams) (nowMs : Nat) (sync : Option SyncStateRow)
    (row : AddressRow) : Bool :=
  row.pollEligible params.maxDepth params.minExpandSats &&
    pollCountsAsDue sync params.minIntervalSec nowMs

/-- `countDownstreamPollDue`. -/
def countDownstreamPollDue (db : Db) (params : PollParams) (nowMs : Nat) : Nat :=
  db.addresses.entries.countP fun e => e.2.pollDue params nowMs (db.syncState.lookup e.1)

/-- The parameters of the cached count. -/
def SchedulerState.pollParams (state : SchedulerState) : PollParams where
  maxDepth := state.downstreamPollMaxDepth
  minIntervalSec := state.downstreamPollIntervalSec
  minExpandSats := state.downstreamPollMinExpandSats

/-- The cached count is fresh for these parameters. -/
def SchedulerState.freshFor (state : SchedulerState) (params : PollParams) (nowMs : Nat) : Bool :=
  state.pollDueFresh params.maxDepth params.minIntervalSec params.minExpandSats nowMs

/-- A count that is served from the cache is the one that the tables give. -/
def PollDueExact (nowMs : Nat) (db : Db) : Prop :=
  ∀ params, db.scheduler.freshFor params nowMs →
    db.scheduler.downstreamPollDueCount = countDownstreamPollDue db params nowMs

/-- What the row of an address adds to the count. -/
def dueShare (nowMs : Nat) (params : PollParams) (y : SyncTable) (a : Address) (row : Option AddressRow) :
    Int :=
  if row.any (·.pollDue params nowMs (y.lookup a)) then 1 else 0

def dueTotal (nowMs : Nat) (params : PollParams) (t : AddressTable) (y : SyncTable) : Int :=
  Table.sum (fun a row => dueShare nowMs params y a (some row)) t

section Totals

variable {nowMs : Nat} {params : PollParams} {t t' : AddressTable} {y : SyncTable}

theorem dueTotal_eq (db : Db) :
    dueTotal nowMs params db.addresses db.syncState = countDownstreamPollDue db params nowMs :=
  sum_map_indicator (fun e : (_ : Address) × AddressRow => e.2.pollDue params nowMs (db.syncState.lookup e.1))
    db.addresses.entries

theorem dueShare_nonneg (a : Address) (row : Option AddressRow) : 0 ≤ dueShare nowMs params y a row := by
  unfold dueShare
  split <;> decide

theorem elim_dueShare (a : Address) (row : Option AddressRow) :
    (row.elim 0 fun r => dueShare nowMs params y a (some r)) = dueShare nowMs params y a row := by
  cases row <;> rfl

/-- The change of the total, by the rows under which two tables may differ. -/
theorem dueTotal_apart {as : List Address} (hNodup : as.Nodup)
    (h : ∀ a, a ∉ as → t'.lookup a = t.lookup a) :
    dueTotal nowMs params t' y = dueTotal nowMs params t y + (as.map fun a =>
      dueShare nowMs params y a (t'.lookup a) - dueShare nowMs params y a (t.lookup a)).sum := by
  have hApart := Table.sum_apart (f := fun a row => dueShare nowMs params y a (some row)) hNodup h
  simp only [elim_dueShare] at hApart
  exact hApart

theorem dueTotal_row {a : Address} (h : ∀ b, b ≠ a → t'.lookup b = t.lookup b) :
    dueTotal nowMs params t' y = dueTotal nowMs params t y +
      (dueShare nowMs params y a (t'.lookup a) - dueShare nowMs params y a (t.lookup a)) := by
  rw [dueTotal_apart (List.nodup_singleton a) fun b hb => h b fun hEq => hb (List.mem_singleton.mpr hEq),
    List.map_singleton, List.sum_singleton]

theorem dueTotal_nonneg : 0 ≤ dueTotal nowMs params t y :=
  List.sum_nonneg fun d hd => by
    obtain ⟨e, _, rfl⟩ := List.mem_map.mp hd
    exact dueShare_nonneg _ _

/-- The shares that some addresses gain are part of the total. -/
theorem dueChanges_le {as : List Address} (hNodup : as.Nodup) :
    (as.map fun a => dueShare nowMs params y a (t'.lookup a) - dueShare nowMs params y a (t.lookup a)).sum ≤
      dueTotal nowMs params t' y := by
  refine le_trans (List.sum_le_sum fun a _ => ?_) (Table.sum_lookups_le
    (f := fun a row => dueShare nowMs params y a (some row)) (fun a row _ => dueShare_nonneg a _) hNodup)
  have hBefore := @dueShare_nonneg nowMs params y a (t.lookup a)
  rw [elim_dueShare]
  omega

theorem dueTotal_congr (h : ∀ a, dueShare nowMs params y a (t'.lookup a) =
    dueShare nowMs params y a (t.lookup a)) : dueTotal nowMs params t' y = dueTotal nowMs params t y :=
  Table.sum_eq_of_values fun a => by rw [elim_dueShare, elim_dueShare, h a]

end Totals

/-! ## Owed counts -/

/-- The tables and the parameters are the given ones, and all readings of the clock are the given time.
While the clock lasts and the cached count is fresh, it misses what it is owed; `φ` collects what is
known there. -/
structure PollOff (φ : Prop) (nowMs : Nat) (params : PollParams) (t : AddressTable) (y : SyncTable)
    (owed : Int) (db : Db) (m : Mem) : Prop where
  cached : db.scheduler.pollParams = params
  depth : db.scheduler.downstreamTreeMaxDepth = params.maxDepth
  table : db.addresses = t
  sync : db.syncState = y
  clock : ∀ reading ∈ m.clock, reading = nowMs
  count : m.clock ≠ [] → db.scheduler.freshFor params nowMs →
    φ ∧ db.scheduler.downstreamPollDueCount + owed = dueTotal nowMs params t y

/-- An operation that may throw, after which nothing is said. -/
abbrev PollTriple {α : Type} (P : Db → Mem → Prop) (p : StoreM α) (Q : α → Db → Mem → Prop) : Prop :=
  MemTriple P p Q fun _ _ => True

/-- A statement that writes neither the tables nor the cached count. -/
def Stmt.apartFromPoll : Stmt → Bool
  | .address _ | .syncState _ _ | .deleteSyncState _ => false
  | .scheduler (.adjustPollDue _ _) => false
  | _ => true

section Owed

variable {φ ψ : Prop} {nowMs : Nat} {params : PollParams} {t t' : AddressTable} {y y' : SyncTable}
  {owed owed' rest : Int} {db : Db} {m : Mem}

theorem PollOff.settle (h : PollOff φ nowMs params t y owed db m) (hφ : φ → ψ ∧ owed = owed') :
    PollOff ψ nowMs params t y owed' db m :=
  { h with
    count := fun hClock hFresh => by
      obtain ⟨hHolds, hCount⟩ := h.count hClock hFresh
      exact ⟨(hφ hHolds).1, (hφ hHolds).2 ▸ hCount⟩ }

theorem not_freshFor_of_dirty {state : SchedulerState} (h : state.monitorSnapshotDirty = true) :
    state.freshFor params nowMs ≠ true := by
  simp [SchedulerState.freshFor, SchedulerState.pollDueFresh, h]

theorem PollOff.exec (h : PollOff φ nowMs params t y owed db m) {i : Stmt} (hi : i.apartFromPoll) :
    PollOff φ nowMs params t y owed (exec i db) m := by
  obtain ⟨hParams, hDepth, hTable, hSync, hClock, hCount⟩ := h
  cases i with
  | scheduler s =>
    cases s with
    | adjustPollDue => cases hi
    | markMonitorDirty =>
      exact ⟨hParams, hDepth, hTable, hSync, hClock, fun _ hFresh =>
        absurd hFresh (not_freshFor_of_dirty rfl)⟩
    | _ => exact ⟨hParams, hDepth, hTable, hSync, hClock, hCount⟩
  | address | syncState | deleteSyncState => cases hi
  | _ => exact ⟨hParams, hDepth, hTable, hSync, hClock, hCount⟩

theorem poll_still {α : Type} {p : StoreM α} (h : p.Still fun i => i.apartFromPoll = true) :
    PollTriple (PollOff φ nowMs params t y owed) p fun _ => PollOff φ nowMs params t y owed :=
  fun s c hs => ⟨((h.keepsMem fun _ hi _ _ hOff => hOff.exec hi) s c hs).1, fun _ _ => trivial⟩

/-- A write of the tables owes the change of the total. -/
theorem PollOff.write (h : PollOff φ nowMs params t y owed db m) {s : Db}
    (hScheduler : s.scheduler = db.scheduler) :
    PollOff φ nowMs params s.addresses s.syncState
      (owed + (dueTotal nowMs params s.addresses s.syncState - dueTotal nowMs params t y)) s m := by
  refine ⟨by rw [hScheduler, h.cached], by rw [hScheduler, h.depth], rfl, rfl, h.clock,
    fun hClock hFresh => ?_⟩
  rw [hScheduler] at hFresh ⊢
  obtain ⟨hHolds, hCount⟩ := h.count hClock hFresh
  exact ⟨hHolds, by omega⟩

theorem PollOff.writeAddress (h : PollOff φ nowMs params t y owed db m) (i : AddressStmt) :
    PollOff φ nowMs params (i.exec t) y
      (owed + (dueTotal nowMs params (i.exec t) y - dueTotal nowMs params t y))
      (Journal.exec (Stmt.address i) db) m := by
  obtain ⟨-, -, rfl, rfl, -, -⟩ := id h
  exact h.write (s := Journal.exec (Stmt.address i) db) rfl

theorem poll_writeAddress (i : AddressStmt) :
    PollTriple (PollOff φ nowMs params t y owed) (run (.address i)) fun _ => PollOff φ nowMs params
      (i.exec t) y (owed + (dueTotal nowMs params (i.exec t) y - dueTotal nowMs params t y)) :=
  memTriple_run (fun _ _ h => h.writeAddress i) fun _ _ _ => trivial

/-- A reading is the fixed time as long as the clock lasts. -/
theorem poll_now {R : Db → Prop} {ρ : Prop} :
    PollTriple (fun s m => PollOff φ nowMs params t y owed s m ∧ R s ∧ (m.clock ≠ [] → ρ)) now
      fun reading s m => PollOff φ nowMs params t y owed s m ∧ R s ∧
        (m.clock ≠ [] → ρ ∧ reading = nowMs) := by
  refine memTriple_mem _ fun s m h => ?_
  obtain ⟨hOff, hR, hρ⟩ := h
  have hLonger : m.clock.tail ≠ [] → m.clock ≠ [] := fun hTail hNil => hTail (by rw [hNil]; rfl)
  refine ⟨⟨hOff.cached, hOff.depth, hOff.table, hOff.sync, fun reading hMem =>
    hOff.clock reading (List.mem_of_mem_tail hMem), fun hTail => hOff.count (hLonger hTail)⟩, hR,
    fun hTail => ⟨hρ (hLonger hTail), ?_⟩⟩
  cases hReadings : m.clock with
  | nil => exact absurd hReadings (hLonger hTail)
  | cons reading rest => exact hOff.clock reading (by rw [hReadings]; exact List.mem_cons_self)

/-- An adjustment by a part of what is owed; the rest is within the total. -/
theorem poll_adjustPollDue {d : Int} (hOwed : φ → owed = d + rest)
    (hRest : φ → rest ≤ dueTotal nowMs params t y) :
    PollTriple (PollOff φ nowMs params t y owed)
      (adjustPollDueOrMarkDirty d params.maxDepth params.minIntervalSec params.minExpandSats)
      fun _ => PollOff φ nowMs params t y rest := by
  refine memTriple_when (fun _ => ?_) fun hZero s m h => h.settle fun hφ => ⟨hφ, ?_⟩
  · refine MemTriple.bind (Q := fun state s m => PollOff φ nowMs params t y owed s m ∧
      s.scheduler = state ∧ (m.clock ≠ [] → True))
      (memTriple_step (fun s m h => ⟨h, rfl, fun _ => trivial⟩) fun _ _ _ => trivial) fun state => ?_
    refine poll_now.bind fun reading => poll_now.bind fun polledAt => ?_
    split
    · next hFresh =>
      refine memTriple_run (fun s m h => ?_) fun _ _ _ => trivial
      obtain ⟨hOff, rfl, hTimes⟩ := h
      refine ⟨hOff.cached, hOff.depth, hOff.table, hOff.sync, hOff.clock, fun hClock _ => ?_⟩
      obtain ⟨⟨-, hReading⟩, -⟩ := hTimes hClock
      obtain ⟨hHolds, hCount⟩ := hOff.count hClock (hReading ▸ hFresh)
      have hPart := hOwed hHolds
      have hLe := hRest hHolds
      refine ⟨hHolds, ?_⟩
      show max 0 (s.scheduler.downstreamPollDueCount + d) + rest = _
      omega
    · refine memTriple_run (fun s m h => ?_) fun _ _ _ => trivial
      exact ⟨h.1.cached, h.1.depth, h.1.table, h.1.sync, h.1.clock, fun _ hFresh =>
        absurd hFresh (not_freshFor_of_dirty rfl)⟩
  · rw [not_not] at hZero
    rw [hOwed hφ, hZero, zero_add]


end Owed

/-! ## Eligible rows -/

def isPollEligible (params : PollParams) (row : Option AddressRow) : Bool :=
  row.any (·.pollEligible params.maxDepth params.minExpandSats)

/-- Where the row of an address becomes eligible or ceases to be, polls are scheduled at an interval and
the address is due. -/
def DueOnChange (nowMs : Nat) (params : PollParams) (sync : Option SyncStateRow)
    (before after : Option AddressRow) : Prop :=
  isPollEligible params before ≠ isPollEligible params after →
    0 < params.minIntervalSec ∧ pollCountsAsDue sync params.minIntervalSec nowMs = true

theorem dueShare_eq (nowMs : Nat) (params : PollParams) (y : SyncTable) (a : Address)
    (row : Option AddressRow) : dueShare nowMs params y a row =
      if isPollEligible params row && pollCountsAsDue (y.lookup a) params.minIntervalSec nowMs then 1
      else 0 := by
  cases row <;> rfl

theorem dueShare_congr {nowMs : Nat} {params : PollParams} {y : SyncTable} {a : Address}
    {row row' : Option AddressRow} (h : isPollEligible params row = isPollEligible params row') :
    dueShare nowMs params y a row = dueShare nowMs params y a row' := by
  rw [dueShare_eq, dueShare_eq, h]

/-- No row is eligible at depth zero. -/
theorem pollEligible_depth_zero (row : AddressRow) (floor : Int) : row.pollEligible 0 floor = false := by
  simp [AddressRow.pollEligible, isDownstreamPollEligibleAddress]

theorem isPollEligible_depth_zero {params : PollParams} (h : params.maxDepth = 0)
    (row : Option AddressRow) : isPollEligible params row = false := by
  cases row with
  | none => rfl
  | some row => rw [isPollEligible, Option.any_some, h, pollEligible_depth_zero]

section Settle

variable {φ : Prop} {nowMs : Nat} {params : PollParams} {t t' : AddressTable} {y : SyncTable}
  {owed rest : Int}

/-- The scheduler row that is read has the parameters. -/
theorem poll_getSchedulerState :
    PollTriple (PollOff φ nowMs params t y owed) getSchedulerState fun state s m =>
      (state.pollParams = params ∧ state.downstreamTreeMaxDepth = params.maxDepth) ∧
        PollOff φ nowMs params t y owed s m :=
  memTriple_step (fun _ _ h => ⟨⟨h.cached, h.depth⟩, h⟩) fun _ _ _ => trivial

theorem poll_getAddress (a : Address) :
    PollTriple (PollOff φ nowMs params t y owed) (getAddress a) fun row s m =>
      row = t.lookup a ∧ PollOff φ nowMs params t y owed s m :=
  memTriple_step (fun _ _ h => ⟨h.table ▸ rfl, h⟩) fun _ _ _ => trivial

/-- The adjustment that follows a change of a row settles what it owes. -/
theorem poll_maybeMark {a : Address} {before after : Option AddressRow}
    (hDue : φ → DueOnChange nowMs params (y.lookup a) before after)
    (hOwed : φ → owed = dueShare nowMs params y a after - dueShare nowMs params y a before + rest)
    (hRest : φ → rest ≤ dueTotal nowMs params t y) :
    PollTriple (PollOff φ nowMs params t y owed) (maybeMarkMonitorSnapshotDirty before after)
      fun _ => PollOff φ nowMs params t y rest := by
  refine poll_getSchedulerState.bind fun state => memTriple_of_fact fun hState => ?_
  obtain ⟨rfl, hDepth⟩ := hState
  rw [hDepth]
  refine memTriple_when (fun h => ?_) fun h s m hOff => hOff.settle fun hφ => ⟨hφ, ?_⟩
  · change 0 < _ ∧ isPollEligible state.pollParams before ≠ isPollEligible state.pollParams after ∧ _ at h
    refine poll_adjustPollDue (fun hφ => ?_) hRest
    rw [hOwed hφ, dueShare_eq, dueShare_eq, (hDue hφ h.2.1).2, Bool.and_true, Bool.and_true]
    change _ = (if isPollEligible state.pollParams after then 1 else -1) + rest
    have hChange := h.2.1
    cases hBefore : isPollEligible state.pollParams before <;>
      cases hAfter : isPollEligible state.pollParams after <;> simp [hBefore, hAfter] at hChange ⊢
  · change ¬ (0 < _ ∧ isPollEligible state.pollParams before ≠ isPollEligible state.pollParams after ∧
      0 < state.pollParams.minIntervalSec) at h
    have hSame : isPollEligible state.pollParams after = isPollEligible state.pollParams before := by
      by_contra hChange
      refine h ⟨Nat.pos_of_ne_zero fun hZero => hChange ?_, Ne.symm hChange,
        (hDue hφ (Ne.symm hChange)).1⟩
      rw [isPollEligible_depth_zero hZero, isPollEligible_depth_zero hZero]
    rw [hOwed hφ, dueShare_congr hSame, sub_self, zero_add]

theorem poll_getSyncState (a : Address) :
    PollTriple (PollOff φ nowMs params t y owed) (getSyncState a) fun sync s m =>
      sync = y.lookup a ∧ PollOff φ nowMs params t y owed s m :=
  memTriple_step (fun _ _ h => ⟨h.sync ▸ rfl, h⟩) fun _ _ _ => trivial

/-- Nothing is known of the count after the clock has run out. -/
theorem PollOff.exhausted {db : Db} {m : Mem} (h : PollOff φ nowMs params t y owed db m)
    (hClock : m.clock = []) (owed' : Int) : PollOff False nowMs params t y owed' db m :=
  { h with count := fun hLasts => absurd hClock hLasts }

theorem PollOff.of_false {db : Db} {m : Mem} (h : PollOff False nowMs params t y owed db m) :
    PollOff φ nowMs params t y owed db m := h.settle False.elim

end Settle

/-! ## Inbound totals -/

theorem pollEligible_eq (row : AddressRow) (maxDepth : Nat) (floor : Int) :
    row.pollEligible maxDepth floor =
      (row.pollEligible maxDepth 0 && (floor ≤ 0 || floor ≤ max 0 row.inboundSats)) := by
  simp [AddressRow.pollEligible, isDownstreamPollEligibleAddress]

/-- The row with another inbound total. -/
def AddressRow.withInbound (row : AddressRow) (inbound : Int) : AddressRow :=
  { row with inboundSats := inbound }

theorem pollEligible_withInbound (row : AddressRow) (maxDepth : Nat) (inbound : Int) :
    (row.withInbound inbound).pollEligible maxDepth 0 = row.pollEligible maxDepth 0 := by
  unfold AddressRow.pollEligible isDownstreamPollEligibleAddress
  simp only [le_refl, decide_true, Bool.true_or]
  rfl

theorem isPollEligible_withInbound (params : PollParams) (row : AddressRow) (inbound : Int) :
    isPollEligible params (some (row.withInbound inbound)) =
      (row.pollEligible params.maxDepth 0 &&
        (params.minExpandSats ≤ 0 || params.minExpandSats ≤ max 0 inbound)) := by
  rw [isPollEligible, Option.any_some, pollEligible_eq, pollEligible_withInbound]
  rfl

/-- Eligible rows change where the total crosses the floor. -/
theorem dueShare_withInbound (nowMs : Nat) (params : PollParams) (y : SyncTable) (a : Address)
    (row : AddressRow) (after : Int) :
    dueShare nowMs params y a (some (row.withInbound after)) - dueShare nowMs params y a (some row) =
      if crossedMinExpandThreshold row.inboundSats after params.minExpandSats = true ∧
          row.pollEligible params.maxDepth 0 = true ∧
          pollCountsAsDue (y.lookup a) params.minIntervalSec nowMs = true then
        if params.minExpandSats ≤ after then 1 else -1
      else 0 := by
  have hBefore := isPollEligible_withInbound params row row.inboundSats
  change isPollEligible params (some row) = _ at hBefore
  rw [dueShare_eq, dueShare_eq, isPollEligible_withInbound, hBefore]
  unfold crossedMinExpandThreshold
  generalize row.pollEligible params.maxDepth 0 = static
  generalize pollCountsAsDue (y.lookup a) params.minIntervalSec nowMs = due
  cases static <;> cases due <;> simp
  split <;> split <;> split <;> (try split) <;> omega

section Inbound

variable {φ : Prop} {nowMs : Nat} {params : PollParams} {t : AddressTable} {y : SyncTable}

/-- The adjustment that follows an addition to an inbound total settles what it owes. -/
theorem poll_adjustForInbound {a : Address} {row : AddressRow} {d : Int} {state : SchedulerState}
    (hParams : state.pollParams = params) (hDepth : state.downstreamTreeMaxDepth = params.maxDepth)
    (hInterval : 0 < params.minIntervalSec) :
    PollTriple (PollOff φ nowMs params t y (dueShare nowMs params y a
        (some (row.withInbound (row.inboundSats + d))) - dueShare nowMs params y a (some row)))
      (adjustPollDueForInbound a row d state) fun _ => PollOff φ nowMs params t y 0 := by
  subst hParams
  rw [dueShare_withInbound]
  unfold adjustPollDueForInbound
  dsimp only
  rw [hDepth]
  refine memTriple_when (fun h => ?_) fun h s m hOff => hOff.settle fun hφ => ⟨hφ, ?_⟩
  · obtain ⟨-, -, hCrossed, hStatic⟩ := h
    refine (poll_getSyncState a).bind fun sync => memTriple_of_fact fun hSync => ?_
    refine MemTriple.pre (P := fun s m => PollOff φ nowMs state.pollParams t y _ s m ∧ True ∧
      (m.clock ≠ [] → True)) ?_ fun _ _ h => ⟨h, trivial, fun _ => trivial⟩
    refine poll_now.bind fun reading => ?_
    by_cases hTime : reading = nowMs
    · subst hTime hSync
      refine MemTriple.pre (P := PollOff φ reading state.pollParams t y _) ?_ fun _ _ h => h.1
      refine memTriple_when (fun hDue => poll_adjustPollDue (fun _ => ?_) fun _ => dueTotal_nonneg)
        fun hNot s m hOff => hOff.settle fun hφ => ⟨hφ, if_neg fun h => hNot h.2.2⟩
      rw [if_pos ⟨hCrossed, hStatic, hDue⟩, add_zero]
      rfl
    · refine MemTriple.pre (P := PollOff False nowMs state.pollParams t y 0) ?_ fun s m h =>
        h.1.exhausted (by_contra fun hLasts => hTime (h.2.2 hLasts).2) 0
      refine memTriple_when (fun _ => ?_) fun _ _ _ hOff => hOff.of_false
      exact (poll_adjustPollDue False.elim False.elim).post fun _ _ _ hOff => hOff.of_false
  · refine if_neg fun hChange => h ⟨?_, hInterval, hChange.1, hChange.2.1⟩
    refine Nat.pos_of_ne_zero fun hZero => ?_
    have hNever := hChange.2.1
    rw [hZero, pollEligible_depth_zero] at hNever
    cases hNever

end Inbound

/-! ## What is written beside the tables -/

section Beside

theorem still_adjustCounter (c : Counter) (d : Int) :
    (adjustCounter c d).Still fun i => i.apartFromPoll = true := still_when fun _ => still_run rfl

theorem still_adjustHackStatsCounter (id : HackId) (f : HackStatsField) (d : Int) :
    (adjustHackStatsCounter id f d).Still fun i => i.apartFromPoll = true :=
  still_when fun _ => Still.bind (p := ensureHackStatsRow id) (still_run rfl) fun _ => still_run rfl

theorem still_adjustOnChange {S : Stmt → Prop} {adjust : Int → StoreM Unit} (h : ∀ d, (adjust d).Still S)
    (was is : Bool) : (adjustOnChange adjust was is).Still S := still_when fun _ => h _

theorem still_adjustHackerActive (before : Option AddressRow) (after : AddressRow) (d : Int) :
    (adjustHackerActive before after d).Still fun i => i.apartFromPoll = true :=
  (still_adjustCounter _ _).bind fun _ => still_forEach fun _ _ =>
    still_when fun _ => still_adjustHackStatsCounter _ _ _

theorem still_moveHackStats (row : AddressRow) (sign : Int) (countHacker : Bool) :
    (moveHackStats row sign countHacker).Still fun i => i.apartFromPoll = true :=
  still_when fun _ => (still_adjustHackStatsCounter _ _ _).bind fun _ =>
    still_when fun _ => still_adjustHackStatsCounter _ _ _

theorem still_applyAddressStatsDelta (before : Option AddressRow) (after : AddressRow) :
    (applyAddressStatsDelta before after).Still fun i => i.apartFromPoll = true := by
  have hCounter : ∀ c was is, (adjustOnChange (adjustCounter c) was is).Still
      fun i => i.apartFromPoll = true := fun c => still_adjustOnChange (still_adjustCounter c)
  refine (still_query _).bind fun state => (hCounter _ _ _).bind fun _ => (hCounter _ _ _).bind fun _ => ?_
  refine (still_when fun _ => hCounter _ _ _).bind fun _ => ?_
  refine (still_adjustOnChange (still_adjustHackerActive _ _) _ _).bind fun _ => ?_
  refine Still.bind ?_ fun _ => still_when fun _ => still_run rfl
  exact still_when fun _ => (still_forEach fun row _ => still_moveHackStats row _ _).bind fun _ =>
    still_moveHackStats _ _ _

theorem still_countNewVictims (rows : List EdgeUpsertData) :
    (countNewVictims rows).Still fun i => i.apartFromPoll = true := by
  refine still_when fun _ => (still_query _).bind fun hackers => still_forEach fun row _ =>
    still_forEach fun hacker _ => ?_
  exact (still_step _ fun i hi => List.mem_singleton.mp hi ▸ rfl).bind fun _ =>
    still_when fun _ => still_adjustHackStatsCounter _ _ _

theorem still_applyPeakDeltas (old : EdgeKey → Option Int) (chunk : List EdgeUpsertData) :
    (applyPeakDeltas old chunk).Still fun i => i.apartFromPoll = true := by
  refine still_forEach fun row _ => Still.tryCatch ?_ fun _ => still_pure ()
  refine still_when fun _ => ?_
  split
  · exact still_run rfl
  · refine (still_query _).bind fun _ => still_when fun _ => (still_query _).bind fun _ => still_run ?_
    split <;> rfl

theorem still_executeSqlBatch {S : Stmt → Prop} (env : Env) {statements : List Stmt}
    (h : ∀ i ∈ statements, S i) : (executeSqlBatch env statements).Still S := by
  unfold executeSqlBatch
  split
  · exact still_pure ()
  · split
    · exact still_step _ h
    · exact still_forEach fun i hi => still_run (h i hi)

end Beside

/-! ## Edges -/

/-- Where polls are scheduled at an interval the count owes nothing; else it owes what the total has
gained since it was `before`. -/
def drift (params : PollParams) (before after : Int) : Int :=
  if 0 < params.minIntervalSec then 0 else after - before

def PollDrift (φ : Prop) (nowMs : Nat) (params : PollParams) (y : SyncTable) (before : Int) (db : Db)
    (m : Mem) : Prop :=
  ∃ t, PollOff φ nowMs params t y (drift params before (dueTotal nowMs params t y)) db m

section Drift

variable {φ : Prop} {nowMs : Nat} {params : PollParams} {y : SyncTable} {before : Int}

theorem drift_still {α : Type} {p : StoreM α} (h : p.Still fun i => i.apartFromPoll = true) :
    PollTriple (PollDrift φ nowMs params y before) p fun _ => PollDrift φ nowMs params y before :=
  memTriple_exists fun t => (poll_still h).post fun _ _ _ hOff => ⟨t, hOff⟩

theorem drift_applyInbound (a : Address) (d : Int) :
    PollTriple (PollDrift φ nowMs params y before) (applyInboundSatsDelta a d)
      fun _ => PollDrift φ nowMs params y before := by
  refine memTriple_when (fun _ => memTriple_exists fun t => ?_) fun _ _ _ h => h
  refine (poll_getAddress a).bind fun existing => memTriple_of_fact fun hExisting => ?_
  refine poll_getSchedulerState.bind fun state => memTriple_of_fact fun hState => ?_
  refine (poll_writeAddress (.addInboundSats a d)).bind fun _ => ?_
  subst hExisting
  have hRow : ((AddressStmt.addInboundSats a d).exec t).lookup a =
      (t.lookup a).map fun row => row.withInbound (row.inboundSats + d) := by
    unfold AddressStmt.exec
    rw [Table.lookup_modify, if_pos rfl]
    rfl
  have hTotal : dueTotal nowMs params ((AddressStmt.addInboundSats a d).exec t) y =
      dueTotal nowMs params t y + (dueShare nowMs params y a
        (((AddressStmt.addInboundSats a d).exec t).lookup a) - dueShare nowMs params y a (t.lookup a)) := by
    refine dueTotal_row fun b hb => ?_
    unfold AddressStmt.exec
    rw [Table.lookup_modify, if_neg hb]
  rw [hRow] at hTotal
  generalize (AddressStmt.addInboundSats a d).exec t = t' at hTotal
  cases hOld : t.lookup a with
  | none =>
    rw [hOld, Option.map_none, sub_self, add_zero] at hTotal
    refine memTriple_pure () fun s m hOff => ⟨t', hOff.settle fun hφ => ⟨hφ, ?_⟩⟩
    rw [hTotal, sub_self, add_zero]
  | some row =>
    rw [hOld, Option.map_some] at hTotal
    refine MemTriple.bind ?_ fun _ => memTriple_pure () fun _ _ hs => hs
    by_cases hInterval : 0 < params.minIntervalSec
    · rw [drift, if_pos hInterval, hTotal, zero_add, add_sub_cancel_left]
      refine (poll_adjustForInbound hState.1 hState.2 hInterval).post fun _ _ _ hOff => ⟨t', ?_⟩
      rwa [drift, if_pos hInterval]
    · refine memTriple_when (fun h => absurd h.2.1 ?_) fun _ s m hOff => ⟨t', hOff.settle fun hφ => ⟨hφ, ?_⟩⟩
      · rw [← hState.1] at hInterval
        exact hInterval
      · rw [drift, drift, if_neg hInterval, if_neg hInterval]
        ring

theorem drift_applyReceived (a : Address) (d : Int) :
    PollTriple (PollDrift φ nowMs params y before) (applyTotalReceivedDelta a d)
      fun _ => PollDrift φ nowMs params y before := by
  refine memTriple_when (fun _ => (drift_still (still_query _)).bind fun existing => ?_) fun _ _ _ h => h
  refine MemTriple.bind (Q := fun _ => PollDrift φ nowMs params y before) (memTriple_exists fun t => ?_)
    fun _ => drift_still (still_forEach fun row _ => ?_)
  · refine (poll_writeAddress (.addTotalReceivedSats a d)).post fun _ _ _ hOff =>
      ⟨_, hOff.settle fun hφ => ⟨hφ, ?_⟩⟩
    have hSame : dueTotal nowMs params ((AddressStmt.addTotalReceivedSats a d).exec t) y =
        dueTotal nowMs params t y := by
      refine dueTotal_congr fun b => dueShare_congr ?_
      unfold AddressStmt.exec
      rw [Table.lookup_modify]
      split
      · cases t.lookup b <;> rfl
      · rfl
    rw [hSame, sub_self, add_zero]
  · exact (still_adjustOnChange (still_adjustHackerActive _ _) _ _).bind fun _ =>
      still_when fun _ => still_adjustHackStatsCounter _ _ _

theorem drift_upsertEdgesChunk (env : Env) (chunk : List EdgeUpsertData) :
    PollTriple (PollDrift φ nowMs params y before) (upsertEdgesChunk env chunk)
      fun _ => PollDrift φ nowMs params y before := by
  refine (drift_still (still_query _)).bind fun old => ?_
  refine (drift_still (still_executeSqlBatch env fun i hi => ?_)).bind fun _ => ?_
  · obtain ⟨data, _, rfl⟩ := List.mem_map.mp hi
    rfl
  refine MemTriple.bind ?_ fun _ => drift_still (still_pure _)
  refine (memTriple_forEach fun e _ => drift_applyReceived e.1 e.2).bind fun _ => ?_
  refine (memTriple_forEach fun e _ => drift_applyInbound e.1 e.2).bind fun _ => ?_
  exact (drift_still (still_countNewVictims _)).bind fun _ => drift_still (still_applyPeakDeltas _ _)

theorem drift_upsertEdgesChunks (env : Env) (chunks : List (List EdgeUpsertData)) (totalIn totalOut : Int) :
    PollTriple (PollDrift φ nowMs params y before) (upsertEdgesChunks env chunks totalIn totalOut)
      fun _ => PollDrift φ nowMs params y before := by
  induction chunks generalizing totalIn totalOut with
  | nil => exact drift_still (still_pure _)
  | cons chunk rest ih => exact (drift_upsertEdgesChunk env chunk).bind fun _ => ih _ _

theorem drift_upsertEdgesBatch (env : Env) (rows : List EdgeUpsertData) :
    PollTriple (PollDrift φ nowMs params y before) (upsertEdgesBatch env rows)
      fun _ => PollDrift φ nowMs params y before := by
  refine memTriple_when (fun _ => ?_) fun _ _ _ h => h
  exact (drift_upsertEdgesChunks env _ 0 0).bind fun _ => drift_still (still_when fun _ => still_run rfl)

end Drift

end Bloodhound.Store
