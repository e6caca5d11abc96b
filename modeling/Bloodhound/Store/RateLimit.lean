import Mathlib.Data.Rat.Floor
import Mathlib.Data.Set.Card
import Bloodhound.Lib.Process
import Bloodhound.Lib.Table

/-!
# The shared rate limiter

`consumeRateLimit` of `store.ts` as a process of three conditional statements on the table
`rate_limits`, with the middleware `applyRateLimit` of `app.ts` that answers 429 to a denied request,
and `pruneStaleRateLimits`. Requests and prunings interleave at every statement, and any statement
may fail instead.

Between two writes of `window_start` no more requests of a key are allowed than its limit
(`grants_le_limit`): every grant is paid for by one unit of the stored count.
-/

namespace Bloodhound.Store.RateLimit

open Journal Process

/-! ## The table -/

/-- `window_start` in milliseconds. -/
structure RateRow where
  windowStart : Nat
  count : Nat
  deriving DecidableEq, Repr

abbrev RateTable : Type := Table.Rows String RateRow

/-- `unixepoch`. -/
def unixepoch (ms : Nat) : Nat := ms / 1000

/-- `(unixepoch(windowStart) - unixepoch(window_start)) * 1000`. -/
def RateRow.elapsedMs (row : RateRow) (windowStart : Nat) : Int :=
  ((unixepoch windowStart : Int) - unixepoch row.windowStart) * 1000

/-- The statements on the row of one key. -/
inductive RowStmt where
  | reset (windowStart : Nat) (windowMs : ℚ)
  | insertOrIgnore (windowStart : Nat)
  | increment (limit windowStart : Nat) (windowMs : ℚ)

/-- The row that the statement writes in place of the stored one, where its condition holds. -/
def RowStmt.written : RowStmt → Option RateRow → Option RateRow
  | .reset windowStart windowMs, some row =>
    if windowMs ≤ row.elapsedMs windowStart then some ⟨windowStart, 1⟩ else none
  | .insertOrIgnore windowStart, none => some ⟨windowStart, 1⟩
  | .increment limit windowStart windowMs, some row =>
    if row.count < limit ∧ row.elapsedMs windowStart < windowMs then
      some { row with count := row.count + 1 }
    else none
  | _, _ => none

inductive RateStmt where
  | row (key : String) (stmt : RowStmt)
  | deleteStale (nowMs inactiveSec size : Nat)

/-- The keys that a batch of the pruning deletes: the oldest windows first. -/
def staleKeys (nowMs inactiveSec size : Nat) (t : RateTable) : List String :=
  (((t.entries.filter fun e => unixepoch e.2.windowStart + inactiveSec < unixepoch nowMs).mergeSort
    fun e e' => e.2.windowStart ≤ e'.2.windowStart).take size).map (·.1)

def RateStmt.exec : RateStmt → RateTable → RateTable
  | .row key stmt, t => (stmt.written (t.lookup key)).elim t (t.insert key)
  | .deleteStale nowMs inactiveSec size, t =>
    let keys := staleKeys nowMs inactiveSec size t
    Table.filter (fun key _ => !keys.contains key) t

instance : Statement RateStmt RateTable where
  exec := RateStmt.exec

theorem exec_row (key : String) (stmt : RowStmt) (t : RateTable) :
    exec (RateStmt.row key stmt) t = (stmt.written (t.lookup key)).elim t (t.insert key) := rfl

/-- `changesCount` of the statement's result. -/
def RateStmt.changes : RateStmt → RateTable → Nat
  | .row key stmt, t => if (stmt.written (t.lookup key)).isSome then 1 else 0
  | .deleteStale nowMs inactiveSec size, t => (staleKeys nowMs inactiveSec size t).length

/-! ## The calls -/

inductive ApiError where
  | database
  | tooManyRequests (retryAfterSec : Int)

abbrev RateM : Type → Type := Process Unit RateStmt RateTable ApiError

structure Verdict where
  allowed : Bool
  retryAfterSec : Int
  deriving DecidableEq, Repr

def consumeRateLimit (key : String) (limit : Nat) (windowSec : ℚ) : RateM Verdict := do
  let ts ← input
  let windowMs := max 1 windowSec * 1000
  let reset := RateStmt.row key (.reset ts windowMs)
  let resetChanges ← execute [reset] reset.changes
  if 0 < resetChanges then pure ⟨true, 0⟩
  else do
    let insert := RateStmt.row key (.insertOrIgnore ts)
    let inserted ← execute [insert] insert.changes
    if 0 < inserted then pure ⟨true, 0⟩
    else do
      let increment := RateStmt.row key (.increment limit ts windowMs)
      let incremented ← execute [increment] increment.changes
      if 0 < incremented then pure ⟨true, 0⟩
      else do
        let row ← execute [] fun t => t.lookup key
        let windowStartMs := row.elim ts (·.windowStart)
        pure ⟨false, max 1 ⌈((windowStartMs + windowMs - ts) / 1000 : ℚ)⌉⟩

/-- A limited request. -/
structure Request where
  key : String
  limit : Nat
  windowSec : ℚ

/-- A denied request is answered with 429. -/
def answer (result : Verdict) : RateM Unit :=
  if result.allowed then pure () else .ret (.error (.tooManyRequests (max 1 result.retryAfterSec)))

/-- `applyRateLimit` in production. -/
def applyRateLimit (req : Request) : RateM Unit := do
  let result ← consumeRateLimit req.key req.limit req.windowSec
  answer result

def pruneStaleRateLimitsBatch (batchSize inactiveSec : Nat) : RateM Nat := do
  let nowMs ← input
  let stmt := RateStmt.deleteStale nowMs inactiveSec (max 1 batchSize)
  execute [stmt] stmt.changes

structure MaintenanceBatchOpts where
  batchSize : Nat := 200
  maxBatchesPerRun : Nat := 10
  maxPerRun : Nat := 2000
  inactiveSec : Nat := 7 * 24 * 60 * 60

/-- The loop of `pruneStaleRateLimits` over the batches that are left; whether the maintenance has to
stop is an input. -/
def pruneLoop (opts : MaintenanceBatchOpts) : Nat → Nat → RateM Bool
  | 0, _ => pure false
  | batches + 1, affected => do
    if opts.maxPerRun ≤ affected then pure false
    else do
      let stop ← input
      if stop ≠ 0 then pure false
      else do
        let n ← pruneStaleRateLimitsBatch opts.batchSize opts.inactiveSec
        if n = 0 then pure true else pruneLoop opts batches (affected + n)

def pruneStaleRateLimits (opts : MaintenanceBatchOpts) : RateM Unit := do
  let complete ← pruneLoop opts opts.maxBatchesPerRun 0
  if complete then pure ()
  else do
    let _ ← pruneStaleRateLimitsBatch 1 opts.inactiveSec
    pure ()

/-! ## The system -/

inductive Client where
  | request (n : Nat)
  | maintenance (n : Nat)
  deriving DecidableEq

abbrev RateView : Type := View Client Unit RateStmt RateTable ApiError
abbrev RateEvent : Type := Event Client Unit RateStmt ApiError
abbrev RateConfig : Type := Config Client Unit RateStmt RateTable ApiError

/-- Any number of requests and of maintenance runs. -/
structure Traffic where
  request : Nat → Request
  maintenance : Nat → MaintenanceBatchOpts

def Traffic.process (traffic : Traffic) : Client → RateM Unit
  | .request n => applyRateLimit (traffic.request n)
  | .maintenance n => pruneStaleRateLimits (traffic.maintenance n)

def Traffic.start (traffic : Traffic) : RateConfig := ⟨⟨∅, []⟩, traffic.process⟩

/-- The call of the request has returned `allowed`. -/
def Allowed (c : RateConfig) (n : Nat) : Prop := c.process (.request n) = .ret (.ok ())

/-- The requests of the key that are allowed in `c'` and were not in `c`. -/
def Traffic.granted (traffic : Traffic) (key : String) (c c' : RateConfig) : Set Nat :=
  {n | (traffic.request n).key = key ∧ Allowed c' n ∧ ¬ Allowed c n}

/-- The statement writes the `window_start` of the key. -/
def RateStmt.writesWindowStart (key : String) (t : RateTable) : RateStmt → Bool
  | .row _ (.increment _ _ _) => false
  | .row k stmt => k = key && (stmt.written (t.lookup k)).isSome
  | .deleteStale _ _ _ => false

def KeepsWindowStart (key : String) (v : RateView) (ev : RateEvent) : Prop :=
  ∀ group, ev.outcome = .ok group → ∀ i ∈ group, i.writesWindowStart key v.state = false

/-! ## What a request pays -/

/-- The call returns without an error only right after a statement of its own that has written the row
of the key. -/
def Pays (key : String) : RateM Unit → Prop
  | .ret _ => True
  | .step _ group next =>
    (∀ t, next (.ok t) = .ret (.ok ()) →
      ∃ stmt, group = [.row key stmt] ∧ (stmt.written (t.lookup key)).isSome = true) ∧
    (∀ e, next (.error e) ≠ .ret (.ok ())) ∧ ∀ r, Pays key (next r)
  | .observe next => ∀ n, next n ≠ .ret (.ok ()) ∧ Pays key (next n)

theorem changes_row_pos (key : String) (stmt : RowStmt) (t : RateTable) :
    0 < (RateStmt.row key stmt).changes t ↔ (stmt.written (t.lookup key)).isSome = true := by
  show 0 < (if (stmt.written (t.lookup key)).isSome then 1 else 0) ↔ _
  split
  · next h => exact ⟨fun _ => h, fun _ => Nat.one_pos⟩
  · next h => exact ⟨fun hPos => absurd hPos (Nat.lt_irrefl 0), fun hSome => absurd hSome h⟩

/-- A statement that allows the request where it writes the row, and `rest` where it does not. -/
theorem pays_attempt {key : String} {stmt : RowStmt} {rest : RateM Verdict}
    (hRest : Pays key (rest >>= answer)) (hOpen : (rest >>= answer) ≠ .ret (.ok ())) :
    Pays key ((execute [RateStmt.row key stmt] (RateStmt.row key stmt).changes >>= fun changes =>
      if 0 < changes then pure ⟨true, 0⟩ else rest) >>= answer) := by
  refine ⟨fun t h => ?_, fun e => by rintro ⟨⟩, fun r => ?_⟩
  · refine ⟨stmt, rfl, ?_⟩
    by_contra hNone
    change (if 0 < (RateStmt.row key stmt).changes t then pure ⟨true, 0⟩ else rest) >>= answer = _ at h
    rw [if_neg (mt (changes_row_pos key stmt t).mp hNone)] at h
    exact hOpen h
  · cases r with
    | error e => trivial
    | ok t =>
      change Pays key
        ((if 0 < (RateStmt.row key stmt).changes t then pure ⟨true, 0⟩ else rest) >>= answer)
      split
      · trivial
      · exact hRest

theorem pays_applyRateLimit (req : Request) : Pays req.key (applyRateLimit req) := by
  intro ts
  refine ⟨by rintro ⟨⟩, ?_⟩
  apply pays_attempt
  · apply pays_attempt
    · apply pays_attempt
      · -- the last query only reads the row, and the request is denied after it
        refine ⟨fun t h => ?_, fun e => by rintro ⟨⟩, fun r => ?_⟩
        · cases h
        · cases r <;> trivial
      · rintro ⟨⟩
    · rintro ⟨⟩
  · rintro ⟨⟩

/-! ## Limits -/

/-- The statement counts the requests of the key up to the limit. -/
def Limits (key : String) (limit : Nat) : RateStmt → Prop
  | .row k (.increment l _ _) => k = key → l = limit
  | _ => True

/-- At most one statement, which counts up to the limit. -/
def LimitsGroup (key : String) (limit : Nat) (group : List RateStmt) : Prop :=
  group = [] ∨ ∃ i, group = [i] ∧ Limits key limit i

theorem emits_applyRateLimit {key : String} {limit : Nat} {req : Request}
    (hReq : req.key = key → req.limit = limit) :
    (applyRateLimit req).Emits (LimitsGroup key limit) := by
  have hExecute : ∀ stmt : RowStmt, Limits key limit (.row req.key stmt) →
      (execute [RateStmt.row req.key stmt] (RateStmt.row req.key stmt).changes : RateM Nat).Emits
        (LimitsGroup key limit) :=
    fun stmt h => ⟨.inr ⟨_, rfl, h⟩, fun _ => trivial⟩
  refine Emits.bind (fun ts => ?_) fun result => ?_
  · refine (hExecute (.reset ts _) trivial).bind fun resetChanges => ?_
    split
    · trivial
    · refine (hExecute (.insertOrIgnore ts) trivial).bind fun inserted => ?_
      split
      · trivial
      · refine (hExecute (.increment _ ts _) hReq).bind fun incremented => ?_
        split
        · trivial
        · exact ⟨.inl rfl, fun r => by cases r <;> trivial⟩
  · unfold answer
    split
    · trivial
    · trivial

theorem emits_pruneStaleRateLimitsBatch (key : String) (limit batchSize inactiveSec : Nat) :
    (pruneStaleRateLimitsBatch batchSize inactiveSec).Emits (LimitsGroup key limit) :=
  fun _ => ⟨.inr ⟨_, rfl, trivial⟩, fun _ => trivial⟩

theorem emits_pruneLoop (key : String) (limit : Nat) (opts : MaintenanceBatchOpts)
    (batches affected : Nat) : (pruneLoop opts batches affected).Emits (LimitsGroup key limit) := by
  induction batches generalizing affected with
  | zero => trivial
  | succ batches ih =>
    unfold pruneLoop
    split
    · trivial
    · refine Emits.bind (fun _ => trivial) fun stop => ?_
      split
      · trivial
      · refine (emits_pruneStaleRateLimitsBatch key limit _ _).bind fun n => ?_
        split
        · trivial
        · exact ih _

theorem emits_pruneStaleRateLimits (key : String) (limit : Nat) (opts : MaintenanceBatchOpts) :
    (pruneStaleRateLimits opts).Emits (LimitsGroup key limit) := by
  refine (emits_pruneLoop key limit opts _ _).bind fun complete => ?_
  split
  · trivial
  · exact (emits_pruneStaleRateLimitsBatch key limit _ _).bind fun _ => trivial

/-- What a statement does to the row of the key. -/
inductive RowStep (limit : Nat) : Option RateRow → Option RateRow → Prop where
  | same (row : Option RateRow) : RowStep limit row row
  | deleted (row : Option RateRow) : RowStep limit row none
  | counted (row : RateRow) (h : row.count < limit) :
      RowStep limit (some row) (some { row with count := row.count + 1 })

theorem written_of_keeps {key : String} {limit : Nat} {stmt : RowStmt} {t : RateTable}
    (hLimits : Limits key limit (.row key stmt))
    (hKeeps : (RateStmt.row key stmt).writesWindowStart key t = false) {new : RateRow}
    (h : stmt.written (t.lookup key) = some new) :
    ∃ row, t.lookup key = some row ∧ row.count < limit ∧ new = { row with count := row.count + 1 } := by
  cases stmt with
  | reset windowStart windowMs => simp [RateStmt.writesWindowStart, h] at hKeeps
  | insertOrIgnore windowStart => simp [RateStmt.writesWindowStart, h] at hKeeps
  | increment l windowStart windowMs =>
    cases hRow : t.lookup key with
    | none =>
      rw [hRow] at h
      cases h
    | some row =>
      rw [hRow] at h
      simp only [RowStmt.written] at h
      split at h
      · next hLt =>
        cases h
        exact ⟨row, rfl, hLimits rfl ▸ hLt.1, rfl⟩
      · cases h

theorem lookup_exec_row (k key : String) (stmt : RowStmt) (t : RateTable) :
    (exec (RateStmt.row k stmt) t).lookup key =
      if key = k then (stmt.written (t.lookup k)).or (t.lookup k) else t.lookup key := by
  rw [exec_row]
  cases h : stmt.written (t.lookup k) with
  | none =>
    rw [Option.elim_none, Option.none_or]
    split
    · next hk => rw [hk]
    · rfl
  | some row => rw [Option.elim_some, Table.lookup_insert_if, Option.some_or]

theorem rowStep_of_keeps {key : String} {limit : Nat} {i : RateStmt} {t : RateTable}
    (hLimits : Limits key limit i) (hKeeps : i.writesWindowStart key t = false) :
    RowStep limit (t.lookup key) ((exec i t).lookup key) := by
  cases i with
  | row k stmt =>
    rw [lookup_exec_row]
    split
    · next hk =>
      subst hk
      cases h : stmt.written (t.lookup key) with
      | none => exact .same _
      | some new =>
        obtain ⟨row, hRow, hLt, rfl⟩ := written_of_keeps hLimits hKeeps h
        rw [hRow]
        exact .counted row hLt
    · exact .same _
  | deleteStale nowMs inactiveSec size =>
    show RowStep limit (t.lookup key) ((Table.filter _ t).lookup key)
    rw [Table.lookup_filter]
    cases t.lookup key with
    | none => exact .same _
    | some row =>
      rw [Option.filter_some]
      split
      · exact .same _
      · exact .deleted _

/-- A statement that writes the window of the key leaves a count of one. -/
theorem lookup_of_writesWindowStart {key : String} {i : RateStmt} {t : RateTable}
    (h : i.writesWindowStart key t = true) :
    ∃ row, (exec i t).lookup key = some row ∧ row.count = 1 := by
  -- an update and an insert of the window alike write a count of one
  have hRow : ∀ (k : String) (stmt : RowStmt) (new : RateRow), stmt.written (t.lookup k) = some new →
      new.count = 1 → k = key → ∃ row, (exec (RateStmt.row k stmt) t).lookup key = some row ∧
        row.count = 1 := by
    intro k stmt new hWritten hCount hk
    rw [lookup_exec_row, if_pos hk.symm, hWritten, Option.some_or]
    exact ⟨new, rfl, hCount⟩
  cases i with
  | deleteStale nowMs inactiveSec size => cases h
  | row k stmt =>
    cases stmt with
    | increment limit windowStart windowMs => cases h
    | reset windowStart windowMs =>
      simp only [RateStmt.writesWindowStart, Bool.and_eq_true, decide_eq_true_eq] at h
      obtain ⟨new, hNew⟩ := Option.isSome_iff_exists.mp h.2
      refine hRow k _ new hNew ?_ h.1
      cases hOld : t.lookup k with
      | none =>
        rw [hOld] at hNew
        cases hNew
      | some row =>
        simp only [hOld, RowStmt.written] at hNew
        split at hNew
        · cases hNew
          rfl
        · cases hNew
    | insertOrIgnore windowStart =>
      simp only [RateStmt.writesWindowStart, Bool.and_eq_true, decide_eq_true_eq] at h
      obtain ⟨new, hNew⟩ := Option.isSome_iff_exists.mp h.2
      refine hRow k _ new hNew ?_ h.1
      cases hOld : t.lookup k with
      | none =>
        rw [hOld] at hNew
        cases hNew
        rfl
      | some row =>
        rw [hOld] at hNew
        cases hNew

/-! ## Steps -/

/-- The granted requests are paid for by the stored count, which is within the limit. -/
def Covers (limit : Nat) (granted : Set Nat) : Option RateRow → Prop
  | none => granted.encard ≤ limit
  | some row => granted.encard ≤ row.count ∧ row.count ≤ limit

theorem Covers.mono {limit : Nat} {granted granted' : Set Nat} {o : Option RateRow}
    (h : Covers limit granted o) (hSubset : granted' ⊆ granted) : Covers limit granted' o := by
  cases o with
  | none => exact (Set.encard_le_encard hSubset).trans h
  | some row => exact ⟨(Set.encard_le_encard hSubset).trans h.1, h.2⟩

theorem Covers.encard_le {limit : Nat} {granted : Set Nat} {o : Option RateRow}
    (h : Covers limit granted o) : granted.encard ≤ limit := by
  cases o with
  | none => exact h
  | some row => exact h.1.trans (Nat.cast_le.mpr h.2)

theorem Covers.rowStep {limit : Nat} {granted : Set Nat} {o o' : Option RateRow}
    (h : Covers limit granted o) (hStep : RowStep limit o o') : Covers limit granted o' := by
  cases hStep with
  | same => exact h
  | deleted => exact h.encard_le
  | counted row hLt => exact ⟨h.1.trans (Nat.cast_le.mpr (Nat.le_succ _)), hLt⟩

theorem Covers.counted {limit : Nat} {granted : Set Nat} {row : RateRow}
    (h : Covers limit granted (some row)) (hLt : row.count < limit) (n : Nat) :
    Covers limit (insert n granted) (some { row with count := row.count + 1 }) := by
  refine ⟨?_, hLt⟩
  calc (insert n granted).encard ≤ granted.encard + 1 := Set.encard_insert_le granted n
    _ ≤ (row.count : ℕ∞) + 1 := by gcongr; exact h.1
    _ = ((row.count + 1 : Nat) : ℕ∞) := by push_cast; rfl

section System

variable {traffic : Traffic} {key : String} {limit : Nat} {c₀ c c' : RateConfig}

/-- The processes of the clients limit the key, and its requests pay. -/
structure Honest (traffic : Traffic) (key : String) (limit : Nat) (c : RateConfig) : Prop where
  limits : ∀ k, (c.process k).Emits (LimitsGroup key limit)
  pays : ∀ n, (traffic.request n).key = key → Pays key (c.process (.request n))

theorem honest_start (hLimit : ∀ n, (traffic.request n).key = key → (traffic.request n).limit = limit) :
    Honest traffic key limit traffic.start where
  limits k := by
    cases k with
    | request n => exact emits_applyRateLimit (hLimit n)
    | maintenance n => exact emits_pruneStaleRateLimits key limit _
  pays n hKey := hKey ▸ pays_applyRateLimit (traffic.request n)

theorem Honest.update (h : Honest traffic key limit c) {k : Client} {p : RateM Unit} {view : RateView}
    (hLimits : p.Emits (LimitsGroup key limit))
    (hPays : ∀ n, k = .request n → (traffic.request n).key = key → Pays key p) :
    Honest traffic key limit ⟨view, Function.update c.process k p⟩ where
  limits j := by
    by_cases hj : j = k
    · subst hj
      simpa using hLimits
    · simpa [hj] using h.limits j
  pays n hKey := by
    by_cases hj : Client.request n = k
    · subst hj
      simpa using hPays n rfl hKey
    · simpa [hj] using h.pays n hKey

/-- What a client does in one step: it executes a group, and a request of the key that is allowed after
it has written the row with it. -/
structure Move (traffic : Traffic) (key : String) (limit : Nat) (c c' : RateConfig) (k : Client)
    (group : List RateStmt) : Prop where
  others : ∀ j, j ≠ k → c'.process j = c.process j
  state : c'.view.state = replay group c.view.state
  limits : LimitsGroup key limit group
  paid : ∀ n, k = .request n → (traffic.request n).key = key → Allowed c' n →
    ∃ stmt, group = [.row key stmt] ∧ (stmt.written (c.view.state.lookup key)).isSome = true

/-- A client whose process goes on with `p`. -/
theorem Honest.move (h : Honest traffic key limit c) (k : Client) (p : RateM Unit) (view : RateView)
    {group : List RateStmt} (hState : view.state = replay group c.view.state)
    (hGroup : LimitsGroup key limit group) (hLimits : p.Emits (LimitsGroup key limit))
    (hPays : ∀ n, k = .request n → (traffic.request n).key = key → Pays key p ∧
      (p = .ret (.ok ()) → ∃ stmt, group = [.row key stmt] ∧
        (stmt.written (c.view.state.lookup key)).isSome = true)) :
    Honest traffic key limit ⟨view, Function.update c.process k p⟩ ∧
      Move traffic key limit c ⟨view, Function.update c.process k p⟩ k group := by
  refine ⟨h.update hLimits fun n hk hKey => (hPays n hk hKey).1, fun j hj => ?_, hState, hGroup,
    fun n hk hKey hAllowed => (hPays n hk hKey).2 ?_⟩
  · exact Function.update_of_ne hj _ _
  · subst hk
    simpa [Allowed] using hAllowed

theorem Honest.step {guard : RateView → RateEvent → Prop} (h : Honest traffic key limit c)
    (hStep : Config.Step guard c c') :
    Honest traffic key limit c' ∧ ∃ k group, Move traffic key limit c c' k group ∧
      (group = [] ∨ ∃ l, guard c.view ⟨k, l, .ok group⟩) := by
  have hPays : ∀ {k p}, c.process k = p → ∀ n, k = .request n → (traffic.request n).key = key →
      Pays key p := by
    rintro k p rfl n rfl hKey
    exact h.pays n hKey
  cases hStep with
  | execute k l g next hp hGuard =>
    have hLimits := h.limits k
    rw [hp] at hLimits
    obtain ⟨hHonest, hMove⟩ := h.move k (next (.ok c.view.state))
      (c.view.after ⟨k, l, .ok g⟩) rfl hLimits.1 (hLimits.2 _) fun n hk hKey =>
        ⟨(hPays hp n hk hKey).2.2 _, (hPays hp n hk hKey).1 _⟩
    exact ⟨hHonest, k, g, hMove, .inr ⟨l, hGuard⟩⟩
  | fail k l g next e hp hGuard =>
    have hLimits := h.limits k
    rw [hp] at hLimits
    obtain ⟨hHonest, hMove⟩ := h.move k (next (.error e))
      (c.view.after ⟨k, l, .error e⟩) rfl (.inl rfl) (hLimits.2 _) fun n hk hKey =>
        ⟨(hPays hp n hk hKey).2.2 _, fun hRet => absurd hRet ((hPays hp n hk hKey).2.1 e)⟩
    exact ⟨hHonest, k, [], hMove, .inl rfl⟩
  | observe k next n hp =>
    have hLimits := h.limits k
    rw [hp] at hLimits
    obtain ⟨hHonest, hMove⟩ := h.move k (next n) c.view rfl (.inl rfl) (hLimits n)
      fun m hk hKey =>
        ⟨(hPays hp m hk hKey n).2, fun hRet => absurd hRet (hPays hp m hk hKey n).1⟩
    exact ⟨hHonest, k, [], hMove, .inl rfl⟩

/-- A move grants at most the request that makes it, and that one only where it pays. -/
theorem Move.granted_cases {k : Client} {group : List RateStmt} (h : Move traffic key limit c c' k group)
    (c₀ : RateConfig) :
    traffic.granted key c₀ c' ⊆ traffic.granted key c₀ c ∨
      ∃ n stmt, group = [.row key stmt] ∧ (stmt.written (c.view.state.lookup key)).isSome = true ∧
        traffic.granted key c₀ c' ⊆ insert n (traffic.granted key c₀ c) := by
  by_cases hPaid : ∃ n, k = .request n ∧ (traffic.request n).key = key ∧ Allowed c' n
  · obtain ⟨n, hk, hKey, hAllowed⟩ := hPaid
    obtain ⟨stmt, hGroup, hWritten⟩ := h.paid n hk hKey hAllowed
    refine .inr ⟨n, stmt, hGroup, hWritten, ?_⟩
    rintro m ⟨hm, hAllowed', hNot⟩
    by_cases hmn : m = n
    · exact .inl hmn
    · have hOther := h.others (.request m) (by simpa [hk] using hmn)
      exact .inr ⟨hm, hOther.symm.trans hAllowed', hNot⟩
  · refine .inl ?_
    rintro m ⟨hm, hAllowed', hNot⟩
    have hmk : Client.request m ≠ k := fun hmk => hPaid ⟨m, hmk.symm, hm, hAllowed'⟩
    exact ⟨hm, (h.others _ hmk).symm.trans hAllowed', hNot⟩

/-- A move that keeps the window of the key keeps the bound. -/
theorem Move.covers_keeps {k : Client} {group : List RateStmt}
    (h : Move traffic key limit c c' k group)
    (hKeeps : ∀ i ∈ group, i.writesWindowStart key c.view.state = false)
    (hCovers : Covers limit (traffic.granted key c₀ c) (c.view.state.lookup key)) :
    Covers limit (traffic.granted key c₀ c') (c'.view.state.lookup key) := by
  have hRowStep : RowStep limit (c.view.state.lookup key) (c'.view.state.lookup key) := by
    rw [h.state]
    rcases h.limits with rfl | ⟨i, rfl, hLimits⟩
    · exact .same _
    · exact rowStep_of_keeps hLimits (hKeeps i List.mem_cons_self)
  rcases h.granted_cases c₀ with hSubset | ⟨n, stmt, rfl, hWritten, hSubset⟩
  · exact (hCovers.rowStep hRowStep).mono hSubset
  · obtain ⟨new, hNew⟩ := Option.isSome_iff_exists.mp hWritten
    have hLimits : Limits key limit (.row key stmt) := by
      rcases h.limits with hNil | ⟨i, hi, hLimits⟩
      · cases hNil
      · cases hi
        exact hLimits
    -- the request is allowed by an increment, which its statement has counted
    obtain ⟨row, hRow, hLt, rfl⟩ := written_of_keeps hLimits (hKeeps _ List.mem_cons_self) hNew
    have hNext : c'.view.state.lookup key = some { row with count := row.count + 1 } := by
      rw [h.state, replay_cons, replay_nil, lookup_exec_row, if_pos rfl, hNew, Option.some_or]
    rw [hRow] at hCovers
    rw [hNext]
    exact (hCovers.counted hLt n).mono hSubset

theorem granted_self (traffic : Traffic) (key : String) (c : RateConfig) :
    traffic.granted key c c = ∅ := by
  ext n
  simp [Traffic.granted]

/-- After a write of the window its count covers the request that has made it. -/
theorem Move.covers_writes (hLimit : 1 ≤ limit) {k : Client} {i : RateStmt}
    (h : Move traffic key limit c c' k [i]) (hWrites : i.writesWindowStart key c.view.state = true) :
    Covers limit (traffic.granted key c c') (c'.view.state.lookup key) := by
  obtain ⟨row, hRow, hCount⟩ := lookup_of_writesWindowStart hWrites
  have hNext : c'.view.state.lookup key = some row := by
    rw [h.state, replay_cons, replay_nil, hRow]
  rw [hNext]
  refine ⟨?_, hCount ▸ hLimit⟩
  rw [hCount, Nat.cast_one]
  rcases h.granted_cases c with hSubset | ⟨n, stmt, -, -, hSubset⟩
  · rw [granted_self] at hSubset
    simp [Set.subset_empty_iff.mp hSubset]
  · rw [granted_self, insert_empty_eq] at hSubset
    exact (Set.encard_le_encard hSubset).trans (Set.encard_singleton n).le

/-- Every step keeps the bound for the requests that are allowed in it. -/
theorem covers_step (hLimit : 1 ≤ limit) (h : Honest traffic key limit c)
    (hCovers : Covers limit ∅ (c.view.state.lookup key))
    (hStep : Config.Step (fun _ _ => True) c c') :
    Covers limit (traffic.granted key c c') (c'.view.state.lookup key) := by
  obtain ⟨-, k, group, hMove, -⟩ := h.step hStep
  have hKept : (∀ i ∈ group, i.writesWindowStart key c.view.state = false) →
      Covers limit (traffic.granted key c c') (c'.view.state.lookup key) :=
    fun hKeeps => hMove.covers_keeps hKeeps ((granted_self traffic key c).symm ▸ hCovers)
  rcases hMove.limits with rfl | ⟨i, rfl, hLimits⟩
  · exact hKept (by simp)
  · cases hWrites : i.writesWindowStart key c.view.state with
    | true => exact hMove.covers_writes hLimit hWrites
    | false => exact hKept (by simpa using hWrites)

/-! ## Runs -/

theorem covers_run (hLimit : 1 ≤ limit) (hRun : Config.Run (fun _ _ => True) c c')
    (h : Honest traffic key limit c) (hCovers : Covers limit ∅ (c.view.state.lookup key)) :
    Honest traffic key limit c' ∧ Covers limit ∅ (c'.view.state.lookup key) := by
  induction hRun with
  | refl => exact ⟨h, hCovers⟩
  | tail _ hStep ih =>
    exact ⟨(ih.1.step hStep).1, (covers_step hLimit ih.1 ih.2 hStep).mono (Set.empty_subset _)⟩

theorem covers_run_keeps (hRun : Config.Run (KeepsWindowStart key) c c')
    (h : Honest traffic key limit c)
    (hCovers : Covers limit (traffic.granted key c₀ c) (c.view.state.lookup key)) :
    Covers limit (traffic.granted key c₀ c') (c'.view.state.lookup key) := by
  have hBoth : Honest traffic key limit c' ∧
      Covers limit (traffic.granted key c₀ c') (c'.view.state.lookup key) := by
    induction hRun with
    | refl => exact ⟨h, hCovers⟩
    | tail _ hStep ih =>
      obtain ⟨hNext, k, group, hMove, hGuard⟩ := ih.1.step hStep
      refine ⟨hNext, hMove.covers_keeps ?_ ih.2⟩
      rcases hGuard with rfl | ⟨l, hGuard⟩
      · simp
      · exact hGuard group rfl
  exact hBoth.2

end System

/-- In every interleaving of requests and maintenance, no more requests of the key are allowed from one
write of its window on, until the next, than the limit; and the stored count stays within it. -/
theorem grants_le_limit (traffic : Traffic) (key : String) (limit : Nat) (hLimit : 1 ≤ limit)
    (hRequests : ∀ n, (traffic.request n).key = key → (traffic.request n).limit = limit)
    {before write after : RateConfig} (hRun : Config.Run (fun _ _ => True) traffic.start before)
    (hWrite : Config.Step (fun _ _ => True) before write)
    (hKeeps : Config.Run (KeepsWindowStart key) write after) :
    (traffic.granted key before after).encard ≤ limit ∧
      ∀ row, after.view.state.lookup key = some row → row.count ≤ limit := by
  obtain ⟨hHonest, hCovers⟩ := covers_run hLimit hRun (honest_start hRequests)
    (show Covers limit ∅ none by simp [Covers])
  have hAfter := covers_run_keeps hKeeps (hHonest.step hWrite).1
    (covers_step hLimit hHonest hCovers hWrite)
  refine ⟨hAfter.encard_le, ?_⟩
  intro row hRow
  rw [hRow] at hAfter
  exact hAfter.2

/-- Requests of one address, one of them allowed in a minute. -/
def oneAMinute : Traffic := ⟨fun _ => ⟨"get:192.0.2.1", 1, 60⟩, fun _ => {}⟩

def keepsWindowStart (key : String) (v : RateView) (ev : RateEvent) : Bool :=
  match ev.outcome with
  | .ok group => group.all fun i => !i.writesWindowStart key v.state
  | .error _ => true

theorem keepsWindowStart_iff {key : String} {v : RateView} {ev : RateEvent} :
    keepsWindowStart key v ev = true ↔ KeepsWindowStart key v ev := by
  unfold keepsWindowStart KeepsWindowStart
  cases ev.outcome with
  | ok group =>
    simp only [List.all_eq_true, Bool.not_eq_true', Except.ok.injEq]
    exact ⟨fun h _ hGroup => hGroup ▸ h, fun h => h group rfl⟩
  | error _ => simp

/-- The first request inserts the row while the second one takes its time; the second one finds the window used
up and is denied. -/
theorem grants_le_limit_oneAMinute :
    let before := oneAMinute.start.follow [(Client.request 0, .observe 5000), (Client.request 0, .execute)]
    let write := before.follow [(Client.request 0, .execute)]
    let after := write.follow ((Client.request 1, .observe 5001) :: List.replicate 4 (Client.request 1, .execute))
    (oneAMinute.granted "get:192.0.2.1" before after).encard ≤ (1 : Nat) ∧
      ∀ row, after.view.state.lookup "get:192.0.2.1" = some row → row.count ≤ 1 :=
  grants_le_limit oneAMinute "get:192.0.2.1" 1 le_rfl (fun _ _ => rfl)
    (Config.run_follow _ _ fun _ _ _ _ _ _ => trivial)
    (.execute _ (Client.request 0) () _ _ rfl trivial)
    (Config.run_of_admits (fun _ _ => keepsWindowStart_iff.mp) (by decide +kernel))

example :
    let after := oneAMinute.start.follow ([(Client.request 0, .observe 5000), (Client.request 0, .execute),
      (Client.request 0, .execute), (Client.request 1, .observe 5001)] ++
        List.replicate 4 (Client.request 1, .execute))
    (match after.process (.request 1) with
      | .ret (.error (.tooManyRequests retryAfterSec)) => decide (retryAfterSec = 60)
      | _ => false) = true := by
  decide +kernel

end Bloodhound.Store.RateLimit
