import Bloodhound.Indexer.Crawl
import Bloodhound.Indexer.MaxDepth
import Bloodhound.Lib.Tally

/-!
# The audit of a backfill

`auditHackerBackfill` of `processor.ts`: it compares the number of transactions of a hacker with the number of
transactions that the stored edges of the hacker mention, and opens the backfill again where the former is
larger by more than the slack. A transaction that was processed may leave no edge, so an audit after a
complete backfill can ask for another one, and so can the audit after that.
-/

namespace Bloodhound.Indexer

open Chain Store Bloodhound.Graph
open Journal.Op (query run when)

/-- The distinct transactions of the stored edges that touch the address. -/
def indexedTxids (t : Table.Rows EdgeKey EdgeRow) (address : Address) : List Txid :=
  ((t.entries.filter fun e => e.1.toAddress = address || e.1.fromAddress = address).map
    (·.1.txid)).dedup

def countIndexedTxsForHacker (address : Address) : StoreM Nat :=
  query fun db => (indexedTxids db.edges address).length

/-- The row keeps its other columns; a new one belongs to no complete backfill. -/
def updateBackfillAudit (address : Address) : StoreM Unit := do
  let existing ← getSyncState address
  let ts ← now
  run (.syncState address { existing.getD {} with lastBackfillAuditAt := some ts })

/-- The branch of the audit that opens the backfill again. -/
def reopenBackfill (env : Env) (address : Address) : StoreM Unit := do
  setExpandStatus address .backfilling
  upsertBackfillState address none false
  enqueueBackfillResume env address

/-- `auditHackerBackfill`; the slack is the setting `backfillHealTxSlack`. -/
def auditHackerBackfill (env : Env) (backfillHealTxSlack : Nat) (address : Address) : StoreM Unit := do
  let stats ← withProvider env (·.getAddressStats address)
  let _ ← applyAddressStats address stats
  let chainTxCount := stats.txCount
  let indexedTxs ← countIndexedTxsForHacker address
  updateBackfillAudit address
  if indexedTxs + backfillHealTxSlack < chainTxCount then reopenBackfill env address
  else upsertBackfillState address none true

/-! ## What an audit requests -/

/-- The statement opens a backfill again, or it inserts a job. -/
def requestsBackfill : Stmt → Bool
  | .address (.setExpandStatus _ .backfilling) => true
  | .job _ => true
  | _ => false

/-- The statement writes the status of an address whose backfill is open. -/
def reopens (address : Address) : Stmt → Option Unit
  | .address (.setExpandStatus a .backfilling) => if a = address then some () else none
  | _ => none

theorem reopens_of_isCounter (address : Address) {i : Stmt} (h : i.isCounter) : reopens address i = none := by
  cases i with
  | address s => cases h
  | _ => rfl

theorem reopens_of_quiet {address : Address} {i : Stmt} (h : requestsBackfill i = false) :
    reopens address i = none := by
  cases i with
  | address s =>
    cases s with
    | setExpandStatus a status => cases status <;> first | rfl | cases h
    | _ => rfl
  | _ => rfl

theorem requestsBackfill_of_isCounter {i : Stmt} (h : i.isCounter) : requestsBackfill i = false := by
  cases i with
  | address s => cases h
  | job s => cases h
  | _ => rfl

section Audit

open Journal Journal.Op

variable {κ : Type} {π : Stmt → Option κ} {env : Env} {slack : Nat} {address : Address} {db : Db}

/-- More transactions than the stored edges mention, by more than the slack. -/
def isShort (env : Env) (slack : Nat) (address : Address) (db : Db) : Bool :=
  (indexedTxids db.edges address).length + slack < (env.provider.getAddressStats address).txCount

/-- An audit writes what its branch writes. -/
theorem writesAt_auditHackerBackfill (hπ : ∀ i, requestsBackfill i = false → π i = none) {k : List κ}
    (hBranch : (if isShort env slack address db then reopenBackfill env address
      else upsertBackfillState address none true).Writes π k) :
    (auditHackerBackfill env slack address).WritesAt π db k := by
  have hQuiet : ∀ {α : Type} {p : StoreM α}, (p.Emits fun i => requestsBackfill i = false) →
      p.Writes π [] := fun h => writes_nil_of_emits (h.mono fun i hi => hπ i hi)
  have hStats : (applyAddressStats address (env.provider.getAddressStats address)).Writes π [] :=
    hQuiet (emits_applyAddressStats (fun _ => requestsBackfill_of_isCounter) rfl _)
  have hAudit : (updateBackfillAudit address).Writes π [] :=
    hQuiet ((emits_query _).bind fun _ => (emits_mem _).bind fun _ => emits_run rfl)
  refine WritesAt.query_bind ((hStats db).bind fun c _ _ => WritesAt.query_bind ?_)
  rw [edges_final (pollWrites_keepsEdges.applyAddressStats _ _)]
  refine (hAudit _).bind fun _ _ _ => ?_
  simpa only [isShort, decide_eq_true_eq] using hBranch _

theorem writes_reopenBackfill : (reopenBackfill env address).Writes (reopens address) [()] := by
  have hCounter : ∀ i : Stmt, i.isCounter → reopens address i = none := fun _ => reopens_of_isCounter address
  have hRun : (run (.address (.setExpandStatus address .backfilling)) : StoreM Unit).Writes
      (reopens address) [()] := by
    have hKept : [Stmt.address (.setExpandStatus address .backfilling)].filterMap (reopens address) = [()] := by
      simp [reopens]
    rw [← hKept]
    exact writes_run _
  have hAdjust : ∀ existing : Option AddressRow, (forEach existing.toList fun row => do
      adjustCrawlPendingCount (crawlPendingDelta existing (some { row with expandStatus := .backfilling }))
      adjustOnChange (adjustCounter .crawlExpanded) (isExpandedStatus row.expandStatus)
        (isExpandedStatus .backfilling)
      let updated ← getAddress address
      forEach updated.toList fun after => maybeMarkMonitorSnapshotDirty existing (some after)).Emits
      fun i => reopens address i = none := by
    refine fun existing => emits_forEach fun row _ => (emits_adjustCounter hCounter _ _).bind fun _ => ?_
    refine (emits_adjustOnChange (emits_adjustCounter hCounter _) _ _).bind fun _ => ?_
    exact (emits_query _).bind fun updated => emits_forEach fun after _ =>
      emits_maybeMarkMonitorSnapshotDirty hCounter _ _
  have hStatus : (setExpandStatus address .backfilling).Writes (reopens address) [()] :=
    (writes_nil_of_emits (emits_query _)).bind_right fun existing =>
      hRun.bind_left fun _ => writes_nil_of_emits (hAdjust existing)
  have hBackfill : (upsertBackfillState address none false).Emits fun i => reopens address i = none :=
    (emits_query _).bind fun _ => emits_run rfl
  have hEnqueue : (enqueueBackfillResume env address).Emits fun i => reopens address i = none := by
    refine ((emits_query _).bind fun _ => emits_pure _).bind fun payload => ?_
    exact (emits_enqueueJobIfAbsent (queueCounters hCounter) rfl env (fun _ _ _ _ => rfl) none _).bind
      fun _ => emits_pure _
  exact hStatus.bind_left fun _ => (writes_nil_of_emits hBackfill).bind_right fun _ =>
    writes_nil_of_emits hEnqueue

/-- An audit that returns requests no backfill exactly when the transactions of the history without a stored
edge are no more than the stored transactions outside the history and the slack together. -/
theorem audit_quiet_iff {history : List Txid} (hHistory : history.Nodup)
    (hCount : (env.provider.getAddressStats address).txCount = history.length) {c : Ctl Mem Err}
    (hOk : (auditHackerBackfill env slack address db c).res = .ok ()) :
    (∀ i ∈ (auditHackerBackfill env slack address db c).log, requestsBackfill i = false) ↔
      (history.filter (· ∉ indexedTxids db.edges address)).length ≤
        ((indexedTxids db.edges address).filter (· ∉ history)).length + slack := by
  have hShort : isShort env slack address db = false ↔
      (history.filter (· ∉ indexedTxids db.edges address)).length ≤
        ((indexedTxids db.edges address).filter (· ∉ history)).length + slack := by
    have hIndexed : (indexedTxids db.edges address).Nodup := List.nodup_dedup _
    have hBalance := Tally.length_add_length_filter hHistory hIndexed
    rw [isShort, decide_eq_false_iff_not, hCount]
    omega
  rw [← hShort]
  constructor
  · intro hQuiet
    by_contra hMore
    rw [Bool.not_eq_false] at hMore
    have hWrites : (auditHackerBackfill env slack address).WritesAt (reopens address) db [()] :=
      writesAt_auditHackerBackfill (fun i hi => reopens_of_quiet hi) (by
        rw [if_pos hMore]
        exact writes_reopenBackfill)
    have hKept := (hWrites c).2 () hOk
    have hNone : (auditHackerBackfill env slack address db c).log.filterMap (reopens address) = [] :=
      List.filterMap_eq_nil_iff.mpr fun i hi => reopens_of_quiet (hQuiet i hi)
    rw [hNone] at hKept
    cases hKept
  · intro hEnough
    have hWrites : (auditHackerBackfill env slack address).WritesAt
        (fun i => if requestsBackfill i then some () else none) db [] :=
      writesAt_auditHackerBackfill (fun i hi => by rw [hi]; rfl) (by
        rw [hEnough]
        exact writes_nil_of_emits ((emits_query _).bind fun _ => emits_run rfl))
    intro i hi
    simpa using List.filterMap_eq_nil_iff.mp ((hWrites c).2 () hOk) i hi

end Audit

/-! ### A history of one transaction -/

/-- One job of the backfill, which goes on where the job before has stopped. -/
def BackfillStep (env : Env) (address : Address) (db db' : Db) : Prop :=
  ∃ c, (backfillHacker env { address } none true db c).res = .ok () ∧
    db' = (backfillHacker env { address } none true).final db c

def isBackfillComplete (db : Db) (address : Address) : Bool :=
  (db.syncState.lookup address).any (·.backfillComplete)

/-- The history of `h` is one payment. -/
def oneTxEnv (sender target : Name) (sats : Int) : Env where
  provider :=
    { Provider.ofTxs [payment (name "t") sender target sats] with
      getAddressTxs := fun _ => [(payment (name "t") sender target sats).toSummary]
      getAddressStats := fun _ => { spentTxoSum := 0, txCount := 1 } }

/-- The store after a number of jobs. -/
def backfilled (env : Env) : Nat → Db
  | 0 => twoHackers
  | n + 1 => (backfillHacker env { address := name "h" } none true).final (backfilled env n) ⟨{}, []⟩

theorem reflTransGen_backfilled {env : Env} (h : ∀ n < 2, (backfillHacker env { address := name "h" } none
    true (backfilled env n) ⟨{}, []⟩).res.toOption.map id = some ()) :
    Relation.ReflTransGen (BackfillStep env (name "h")) twoHackers (backfilled env 2) := by
  have hStep : ∀ n < 2, BackfillStep env (name "h") (backfilled env n) (backfilled env (n + 1)) := by
    intro n hn
    obtain ⟨_, hRes, _⟩ := Journal.Op.exists_ok (h n hn)
    exact ⟨⟨{}, []⟩, hRes, rfl⟩
  exact (Relation.ReflTransGen.single (hStep 0 (by decide))).tail (hStep 1 (by decide))

/-- The audit after the two jobs that the history takes. -/
def auditedOnce (env : Env) : Journal.Out Stmt Mem Err Unit :=
  auditHackerBackfill env 0 (name "h") (backfilled env 2) ⟨{}, []⟩

/-- The hacker has spent, and the edge of the payment is stored. -/
theorem audit_quiet_payment :
    ((auditedOnce (oneTxEnv (name "h") (name "x") 800000)).log.all (!requestsBackfill ·)) = true := by
  have hOk : (auditedOnce (oneTxEnv (name "h") (name "x") 800000)).res.toOption.map id = some () := by
    decide +kernel
  obtain ⟨_, hRes, _⟩ := Journal.Op.exists_ok hOk
  have hStored : ([name "t"].filter
      (· ∉ indexedTxids (backfilled (oneTxEnv (name "h") (name "x") 800000) 2).edges (name "h"))).length ≤
      ((indexedTxids (backfilled (oneTxEnv (name "h") (name "x") 800000) 2).edges (name "h")).filter
        (· ∉ [name "t"])).length + 0 := by decide +kernel
  have hQuiet := (audit_quiet_iff (List.nodup_singleton _) rfl hRes).mpr hStored
  exact List.all_eq_true.mpr fun i hi => by rw [hQuiet i hi, Bool.not_false]

/-- The hacker has received an amount below the floor, which leaves no edge. -/
theorem audit_reopens : ¬ ∀ (env : Env) (slack : Nat) (address : Address) (history : List Txid)
    (db db' : Db) (c : Journal.Ctl Mem Err), history.Nodup →
    (env.provider.getAddressStats address).txCount = history.length →
    Relation.ReflTransGen (BackfillStep env address) db db' → isBackfillComplete db' address = true →
    (auditHackerBackfill env slack address db' c).res = .ok () →
    ∀ i ∈ (auditHackerBackfill env slack address db' c).log, requestsBackfill i = false := by
  intro h
  have hOk : (auditedOnce (oneTxEnv (name "v") (name "h") 500)).res.toOption.map id = some () := by
    decide +kernel
  have hJobs : ∀ n < 2, (backfillHacker (oneTxEnv (name "v") (name "h") 500) { address := name "h" } none
      true (backfilled (oneTxEnv (name "v") (name "h") 500) n) ⟨{}, []⟩).res.toOption.map id = some () := by
    decide +kernel
  have hComplete : isBackfillComplete (backfilled (oneTxEnv (name "v") (name "h") 500) 2) (name "h") =
      true := by decide +kernel
  have hReopened : ((auditedOnce (oneTxEnv (name "v") (name "h") 500)).log.any requestsBackfill) = true := by
    decide +kernel
  obtain ⟨_, hRes, _⟩ := Journal.Op.exists_ok hOk
  have hQuiet := h _ 0 (name "h") [name "t"] _ _ ⟨{}, []⟩ (List.nodup_singleton _) rfl
    (reflTransGen_backfilled hJobs) hComplete hRes
  obtain ⟨i, hi, hRequest⟩ := List.any_eq_true.mp hReopened
  rw [hQuiet i hi] at hRequest
  cases hRequest

end Bloodhound.Indexer
