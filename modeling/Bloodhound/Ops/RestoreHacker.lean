import Bloodhound.Indexer.Untouched
import Bloodhound.Ops.RemoveHacker

/-!
# Removing a hacker and adding it again

A removal that prunes deletes the edges of the hacker and keeps the rows of their transactions. The
backfill of the hacker that is added again skips every transaction with a row, and so do the
expansions that follow: no edge comes back (`restored_iff`).
-/

namespace Bloodhound.Ops

open Chain Indexer Store Journal Journal.Op

/-! ## Fully indexed hackers -/

def Touches (hacker : Address) (k : EdgeKey) : Prop := k.fromAddress = hacker ∨ k.toAddress = hacker

/-- The transaction has an edge of the hacker. -/
def HasEdge (db : Db) (hacker : Address) (txid : Txid) : Prop :=
  ∃ k, Touches hacker k ∧ k.txid = txid ∧ (db.edges.lookup k).isSome

/-- The transactions of the hacker's edges have rows, and no active job and no saved backfill has a
partial trace of one of them. -/
structure FullyIndexed (db : Db) (hacker : Address) : Prop where
  indexed : ∀ txid, HasEdge db hacker txid → (db.transactions.lookup txid).isSome
  jobs : ∀ id row, db.jobs.lookup id = some row → row.active = true →
    JobApart (HasEdge db hacker) row.job
  saved : ∀ a row payload, db.syncState.lookup a = some row → row.backfillState = some payload →
    TraceApart (HasEdge db hacker) payload.trace

/-! ## The runs after the addition -/

/-- A claim of a job, the run of a backfill or an expansion, or the crawl step of a tick. -/
inductive HistoryStep : Db → Db → Prop
  | claim (db : Db) (id ts : Nat) (c : Ctl Mem Err) :
    HistoryStep db ((markJobRunning id ts : StoreM (Option JobRow)).final db c)
  | process (env : Env) (inputs : JobInputs) (db : Db) (id : Nat) (row : JobRow) (c : Ctl Mem Err)
    (hAnswers : Answers env.provider) (hRow : db.jobs.lookup id = some row) (hActive : row.active = true)
    (hType : isHistoryJob row.job = true) :
    HistoryStep db ((JobRun.processClaimed env inputs id row).final db c)
  | crawl (env : Env) (db : Db) (addresses : List Address) (c : Ctl Mem Err) :
    HistoryStep db ((enqueueFrontier env addresses).final db c)

abbrev HistoryRun : Db → Db → Prop := Relation.ReflTransGen HistoryStep

/-- The backfill of the hacker is complete, and no backfill or expansion is left to run. -/
def Settled (db : Db) (hacker : Address) : Prop :=
  (db.syncState.lookup hacker).any (·.backfillComplete) = true ∧
    ∀ id row, db.jobs.lookup id = some row → isHistoryJob row.job = true → row.active = false

/-- Every edge of the hacker is there again. -/
def Restored (db db' : Db) (hacker : Address) : Prop :=
  ∀ k, Touches hacker k → (db.edges.lookup k).isSome → (db'.edges.lookup k).isSome

/-! ## The removal leaves the transactions as they are -/

/-- The statements of a removal. -/
def RemovalStmt : Stmt → Prop
  | .edge (.deleteTouching _) | .deleteSyncState _ | .address _ | .job (.deleteActiveForAddress _) => True
  | i => i.isCounter = true

theorem removalStmt_of_isCounter (i : Stmt) (h : i.isCounter) : RemovalStmt i := by
  cases i with
  | edge s => cases h
  | job s => cases h
  | address s => cases h
  | deleteSyncState a => cases h
  | _ => exact h

theorem removalStmt_of_prunes (i : Stmt) (hi : PruneStmt i) : RemovalStmt i := by
  cases i with
  | edge s =>
    cases s with
    | deleteTouching => trivial
    | _ => cases hi
  | address | deleteSyncState => trivial
  | _ => cases hi

theorem removal_removeHacker (hacker : Address) (pruneExclusive : Bool) :
    (removeHacker hacker pruneExclusive).Emits RemovalStmt := by
  have hUnflag : (upsertAddress { address := hacker, isFlaggedHacker := some false }).Emits
      RemovalStmt := emits_upsertAddress removalStmt_of_isCounter trivial
  have hCancel : (deleteActiveJobsForAddress hacker : StoreM Unit).Emits RemovalStmt :=
    emits_deleteActiveJobsForAddress (queueCounters removalStmt_of_isCounter) trivial
  refine (emits_query _).bind fun existing => ?_
  split
  · unfold removeFlagged
    cases pruneExclusive with
    | false =>
      refine Emits.bind (emits_pure _) fun _ => Emits.bind (emits_pure _) fun _ => ?_
      exact hUnflag.bind fun _ => hCancel.bind fun _ => emits_pure _
    | true =>
      refine Emits.bind (emits_query _) fun victims =>
        (emits_collectDownstreamAddresses hacker).bind fun downstream => hUnflag.bind fun _ =>
        hCancel.bind fun _ => ((prunes_deleteEdges hacker).mono removalStmt_of_prunes).bind fun _ => ?_
      exact ((prunes_pruneVictims _ _ _).mono removalStmt_of_prunes).bind fun _ =>
        ((prunes_pruneDownstream _ _ _ _).mono removalStmt_of_prunes).bind fun _ => emits_pure _
  · exact emits_pure _

variable {T : Txid → Prop} {P : Db → Prop}

theorem untouchedStmt_of_removalStmt {id : Nat} {i : Stmt} (hi : RemovalStmt i) :
    UntouchedStmt T id i ∨ ∃ a, i = .edge (.deleteTouching a) := by
  cases i with
  | edge s =>
    cases s with
    | deleteTouching a => exact Or.inr ⟨a, rfl⟩
    | _ => cases hi
  | job s =>
    cases s with
    | deleteActiveForAddress a => exact Or.inl trivial
    | _ => cases hi
  | syncState a row => cases hi
  | _ => exact Or.inl trivial

theorem untouched_removal {i : Stmt} (hi : RemovalStmt i) {db : Db} {id : Nat}
    (h : Untouched T id (fun _ => True) db) : Untouched T id (fun _ => True) (exec i db) := by
  rcases untouchedStmt_of_removalStmt (T := T) hi with hStmt | ⟨a, rfl⟩
  · exact h.exec (fun _ _ => trivial) hStmt
  · exact ⟨h.indexed, h.jobs, h.saved, trivial⟩

/-! ## No job traces the transactions -/

/-- No job that may run resumes a trace of the transactions. -/
def Idle (T : Txid → Prop) (P : Db → Prop) (db : Db) : Prop := ∃ id, Untouched T id P db

theorem FullyIndexed.idle {db : Db} {hacker : Address} (h : FullyIndexed db hacker) :
    Idle (HasEdge db hacker) (fun _ => True) db := by
  refine ⟨db.jobs.nextId, h.indexed, fun id row hRow hActive => ?_, h.saved, trivial⟩
  rcases hActive with hActive | rfl
  · exact h.jobs id row hRow hActive
  · have hIn : db.jobs.nextId ∈ db.jobs.rows := by
      refine AList.lookup_isSome.mp ?_
      rw [show db.jobs.rows.lookup db.jobs.nextId = some row from hRow]
      rfl
    exact absurd (db.jobs.fresh _ hIn) (lt_irrefl _)

theorem untouched_withJob {id id' : Nat} {row : JobRow} {db : Db} (h : Untouched T id P db)
    (hRow : db.jobs.lookup id' = some row) (hActive : row.active = true) :
    Untouched T id' P db ∧ JobApart T row.job := by
  have hJob : JobApart T row.job := h.jobs id' row hRow (Or.inl hActive)
  refine ⟨⟨h.indexed, fun id'' row' hRow' hCase => ?_, h.saved, h.also⟩, hJob⟩
  rcases hCase with hCase | rfl
  · exact h.jobs id'' row' hRow' (Or.inl hCase)
  · rw [hRow] at hRow'
    cases hRow'
    exact hJob

theorem untouched_enqueueForTick {env : Env} {job : Job} (hJob : JobApart T job) (id : Nat)
    (priority : Int) (opts : EnqueueIfAbsentOptions) :
    (enqueueForTick env job priority opts).Emits (UntouchedStmt T id) :=
  emits_enqueueJobIfAbsent (queueCounters untouchedStmt_of_isCounter) trivial env (fun _ _ _ _ => hJob) none opts

section Runs

variable (hP : ∀ id i, UntouchedStmt T id i → ∀ s, P s → P (exec i s))
include hP

theorem Idle.emits {α : Type} {p : StoreM α} (hp : ∀ id, p.Emits (UntouchedStmt T id)) {db : Db}
    (h : Idle T P db) (c : Ctl Mem Err) : Idle T P (p.final db c) := by
  obtain ⟨id, h⟩ := h
  exact ⟨id, replay_inv (P := Untouched T id P) (fun i hi s hs =>
    hs.exec (hP id i (hp id db c i hi)) (hp id db c i hi)) h⟩

theorem Idle.historyStep {db db' : Db} (hStep : HistoryStep db db') (h : Idle T P db) :
    Idle T P db' := by
  cases hStep with
  | claim _ id ts c =>
    refine h.emits hP (fun id' => ?_) c
    exact emits_markJobRunning (queueCounters untouchedStmt_of_isCounter) trivial
  | process env inputs _ id row c hAnswers hRow hActive hType =>
    obtain ⟨id', h⟩ := h
    obtain ⟨hJob, hApart⟩ := untouched_withJob h hRow hActive
    have hKeeps := keepsUntouched_processClaimed (hP id) hAnswers inputs hType hApart
    cases hRes : (JobRun.processClaimed env inputs id row db c).res with
    | ok a => exact ⟨id, hKeeps.ok hJob hRes⟩
    | error e => exact ⟨id, hKeeps.error hJob hRes⟩
  | crawl env _ addresses c =>
    refine h.emits hP (fun id => ?_) c
    clear h c
    have hJob : ∀ address, JobApart T (.expandDownstream { address, cron := true }) := fun _ => traceApart_empty
    induction addresses with
    | nil => exact emits_pure _
    | cons address rest ih =>
      refine (untouched_enqueueForTick (hJob address) id _ _).bind fun jobId => ?_
      refine (emits_when fun _ => ?_).bind fun _ => ih.bind fun _ => emits_pure _
      have hNoEdges : Traces (fun _ => False) (setExpandStatus address .queued) :=
        traces_setExpandStatus _ _
      exact Emits.mono hNoEdges fun _ hi => untouchedStmt_of_traceStmt (fun _ h => h.elim) hi

theorem Idle.historyRun {db db' : Db} (hRun : HistoryRun db db') (h : Idle T P db) : Idle T P db' := by
  induction hRun with
  | refl => exact h
  | tail _ hStep ih => exact ih.historyStep hP hStep

theorem Idle.addHacker {db : Db} (h : Idle T P db) (env : Env) (hacker : Address) (hackId : HackId)
    (c : Ctl Mem Err) : Idle T P ((addHacker env hacker hackId).final db c) := by
  refine h.emits hP (fun id => ?_) c
  have hJob : JobApart T (.backfillHackerAddress { address := hacker }) := traceApart_empty
  refine (emits_upsertAddress untouchedStmt_of_isCounter trivial).bind fun _ => ?_
  exact (untouched_enqueueForTick hJob id _ _).bind fun _ => emits_pure _

end Runs

/-! ## The edges after the runs -/

/-- The edges of the hacker that the transactions had are gone. -/
def Gone (T : Txid → Prop) (hacker : Address) (s : Db) : Prop :=
  ∀ k, Touches hacker k → T k.txid → s.edges.lookup k = none

theorem gone_exec {hacker : Address} {id : Nat} {i : Stmt} (hi : UntouchedStmt T id i) {s : Db}
    (h : Gone T hacker s) : Gone T hacker (exec i s) := by
  intro k hTouch hT
  cases i with
  | edge s' =>
    cases s' with
    | upsert data =>
      have hKey : k ≠ data.key := by
        rintro rfl
        exact hi hT
      exact (Table.lookup_insert_if _ _ _ _).trans ((if_neg hKey).trans (h k hTouch hT))
    | _ => cases hi
  | _ => exact h k hTouch hT

/-- Every edge of a store is there. -/
def Kept (db s : Db) : Prop := ∀ k, (db.edges.lookup k).isSome → (s.edges.lookup k).isSome

theorem kept_exec {db : Db} {id : Nat} {i : Stmt} (hi : UntouchedStmt T id i) {s : Db}
    (h : Kept db s) : Kept db (exec i s) := by
  intro k hRow
  cases i with
  | edge s' =>
    cases s' with
    | upsert data =>
      show ((s.edges.insert data.key _).lookup k).isSome = true
      rw [Table.lookup_insert_if]
      split
      · rfl
      · exact h k hRow
    | _ => cases hi
  | _ => exact h k hRow

theorem idle_removeHacker_prune {db : Db} {hacker : Address} (hFlagged : flag db hacker = some true)
    (hIndexed : FullyIndexed db hacker) {c : Ctl Mem Err} {result : RemoveHackerResult}
    (hOk : (removeHacker hacker true db c).res = .ok result) :
    Idle (HasEdge db hacker) (Gone (HasEdge db hacker) hacker)
      ((removeHacker hacker true).final db c) := by
  obtain ⟨id, h⟩ := hIndexed.idle
  have hAfter : Untouched (HasEdge db hacker) id (fun _ => True)
      ((removeHacker hacker true).final db c) :=
    replay_inv (fun i hi s hs => untouched_removal (removal_removeHacker hacker true db c i hi) hs) h
  obtain ⟨pruned, hRemoved, _⟩ := (triple_removeHacker hFlagged).ok rfl hOk
  refine ⟨id, hAfter.indexed, hAfter.jobs, hAfter.saved, fun k hTouch _ => ?_⟩
  rw [hRemoved.edges, if_pos]
  rcases hTouch with rfl | rfl
  · exact Or.inl List.mem_cons_self
  · exact Or.inr List.mem_cons_self

theorem idle_removeHacker_keep {db : Db} {hacker : Address} (hIndexed : FullyIndexed db hacker)
    (c : Ctl Mem Err) :
    Idle (HasEdge db hacker) (Kept db) ((removeHacker hacker false).final db c) := by
  obtain ⟨id, h⟩ := hIndexed.idle
  have hStart : Idle (HasEdge db hacker) (Kept db) db :=
    ⟨id, h.indexed, h.jobs, h.saved, fun _ hRow => hRow⟩
  refine hStart.emits (fun _ _ => kept_exec) (fun id => ?_) c
  refine (emits_query _).bind fun existing => ?_
  split
  · unfold removeFlagged
    refine Emits.bind (emits_pure _) fun _ => Emits.bind (emits_pure _) fun _ => ?_
    refine (emits_upsertAddress untouchedStmt_of_isCounter trivial).bind fun _ => ?_
    exact (emits_deleteActiveJobsForAddress (queueCounters untouchedStmt_of_isCounter) trivial).bind fun _ =>
      emits_pure _
  · exact emits_pure _

/-- After the removal of a fully indexed hacker, its addition and any run of backfills, expansions
and crawl steps, the edges are there again exactly when the removal did not delete them. -/
theorem restored_iff {env : Env} {db db' : Db} {hacker : Address} {hackId : HackId}
    {pruneExclusive : Bool} (hFlagged : flag db hacker = some true)
    (hIndexed : FullyIndexed db hacker) {c c' : Ctl Mem Err} {result : RemoveHackerResult}
    (hOk : (removeHacker hacker pruneExclusive db c).res = .ok result)
    (hRun : HistoryRun ((addHacker env hacker hackId).final
      ((removeHacker hacker pruneExclusive).final db c) c') db') :
    Restored db db' hacker ↔
      pruneExclusive = false ∨ ∀ k, Touches hacker k → db.edges.lookup k = none := by
  cases pruneExclusive with
  | false =>
    have hStart := (idle_removeHacker_keep hIndexed c).addHacker (fun _ _ => kept_exec)
      env hacker hackId c'
    obtain ⟨id, hEnd⟩ := hStart.historyRun (fun _ _ => kept_exec) hRun
    exact iff_of_true (fun k _ hRow => hEnd.also k hRow) (Or.inl rfl)
  | true =>
    have hStart := (idle_removeHacker_prune hFlagged hIndexed hOk).addHacker (fun _ _ => gone_exec)
      env hacker hackId c'
    obtain ⟨id, hEnd⟩ := hStart.historyRun (fun _ _ => gone_exec) hRun
    constructor
    · refine fun hRestored => Or.inr fun k hTouch => ?_
      by_contra hRow
      have hIs : (db.edges.lookup k).isSome := Option.isSome_iff_ne_none.mpr hRow
      have hThere := hRestored k hTouch hIs
      rw [hEnd.also k hTouch ⟨k, hTouch, rfl, hIs⟩] at hThere
      cases hThere
    · rintro (hFalse | hNone) k hTouch hIs
      · cases hFalse
      · rw [hNone k hTouch] at hIs
        cases hIs

/-! ### A hacker with one payment -/

/-- The claim of a job and its run, without faults. -/
def runJob (env : Env) (inputs : JobInputs) (db : Db) (id : Nat) : Db :=
  let claimed := (markJobRunning id 0 : StoreM (Option JobRow)).final db ⟨{}, []⟩
  match claimed.jobs.lookup id with
  | none => claimed
  | some row =>
    if row.active ∧ isHistoryJob row.job then
      (JobRun.processClaimed env inputs id row).final claimed ⟨{}, []⟩
    else claimed

theorem historyRun_runJob {env : Env} (hAnswers : Answers env.provider) (inputs : JobInputs)
    {db db' : Db} (h : HistoryRun db db') (id : Nat) : HistoryRun db (runJob env inputs db' id) := by
  have hClaim := h.tail (.claim db' id 0 ⟨{}, []⟩)
  unfold runJob
  dsimp only
  split
  · exact hClaim
  · next row hRow =>
    split
    · next hReady => exact hClaim.tail (.process env inputs _ id row _ hAnswers hRow hReady.1 hReady.2)
    · exact hClaim

def hackerPayment : ChainTxDetail where
  txid := name "t"
  vin := [{ prevout := some ⟨some (name "h"), some 200000⟩ }]
  vout := [{ scriptpubkeyAddress := some (name "sink"), value := some 150000 }]

def paymentProvider : Provider :=
  { Provider.ofTxs [hackerPayment] with getAddressTxs := fun _ => [hackerPayment.toSummary] }

def paymentEnv : Env := { provider := paymentProvider, config := {} }

theorem answers_paymentEnv : Answers paymentEnv.provider := by
  intro txid
  show (([hackerPayment].find? (·.txid = txid)).getD { txid, vin := [], vout := [] }).txid = txid
  by_cases h : hackerPayment.txid = txid
  · rw [List.find?_cons_of_pos (by simpa using h)]
    exact h
  · rw [List.find?_cons_of_neg (by simpa using h)]
    rfl

/-- The hacker with its edge, and the row of the transaction. -/
def paymentIndexed : Db :=
  { Db.initial with
    addresses := ((∅ : Table.Rows Address AddressRow).insert (name "sink")
      (addressRow .downstream false)).insert (name "h") (addressRow .hacker true)
    edges := outEdge (name "h") (name "sink") ∅
    transactions := (∅ : Table.Rows Txid TransactionRow).insert (name "t")
      { blockHeight := none, blockTime := none, feeSats := none, opReturnDisplay := none } }

theorem fullyIndexed_paymentIndexed : FullyIndexed paymentIndexed (name "h") := by
  refine ⟨fun txid hEdge => ?_, fun id row hRow => ?_, fun a row payload hRow => ?_⟩
  · obtain ⟨k, _, rfl, hRow⟩ := hEdge
    have hKey : k = ⟨name "h", name "sink", name "t"⟩ := by
      by_contra hOther
      have hLookup : paymentIndexed.edges.lookup k = none :=
        (Table.lookup_insert_if _ _ _ _).trans (if_neg hOther)
      rw [hLookup] at hRow
      cases hRow
    subst hKey
    decide
  · cases hRow
  · cases hRow

def paymentInputs : JobInputs where
  calls := ⟨paymentProvider, paymentProvider, paymentProvider, paymentProvider⟩

/-- The store after the removal, the addition and the runs of the two jobs of the backfill. -/
def restoredPayment (pruneExclusive : Bool) : Db :=
  let removed := (removeHacker (name "h") pruneExclusive).final paymentIndexed ⟨{}, []⟩
  let added := (addHacker paymentEnv (name "h") "coldcard").final removed ⟨{}, []⟩
  runJob paymentEnv paymentInputs (runJob paymentEnv paymentInputs added 1) 2

theorem historyRun_restoredPayment (pruneExclusive : Bool) :
    HistoryRun ((addHacker paymentEnv (name "h") "coldcard").final
      ((removeHacker (name "h") pruneExclusive).final paymentIndexed ⟨{}, []⟩) ⟨{}, []⟩)
      (restoredPayment pruneExclusive) := by
  have hFirst := historyRun_runJob answers_paymentEnv paymentInputs
    (@Relation.ReflTransGen.refl _ HistoryStep ((addHacker paymentEnv (name "h") "coldcard").final
      ((removeHacker (name "h") pruneExclusive).final paymentIndexed ⟨{}, []⟩) ⟨{}, []⟩)) 1
  exact historyRun_runJob answers_paymentEnv paymentInputs hFirst 2

/-- A store in which no backfill or expansion is active. -/
theorem settled_of_entries {db : Db} {hacker : Address}
    (hComplete : (db.syncState.lookup hacker).any (·.backfillComplete) = true)
    (hJobs : (db.jobs.rows.entries.all fun e => !(isHistoryJob e.2.job && e.2.active)) = true) :
    Settled db hacker := by
  refine ⟨hComplete, fun id row hRow hHistory => ?_⟩
  have hEntry := List.all_eq_true.mp hJobs ⟨id, row⟩ (Table.lookup_eq_some_iff.mp hRow)
  simpa [hHistory] using hEntry

/-- The completed backfill leaves the payment without its edge. -/
theorem restored_edgeMissing : ¬ ∀ (env : Env) (db db' : Db) (hacker : Address) (hackId : HackId)
    (pruneExclusive : Bool) (c c' : Ctl Mem Err) (result : RemoveHackerResult) (added : AddHackerResult),
    flag db hacker = some true → FullyIndexed db hacker →
    (removeHacker hacker pruneExclusive db c).res = .ok result →
    (addHacker env hacker hackId ((removeHacker hacker pruneExclusive).final db c) c').res = .ok added →
    HistoryRun ((addHacker env hacker hackId).final
      ((removeHacker hacker pruneExclusive).final db c) c') db' →
    Settled db' hacker → Restored db db' hacker := by
  intro h
  have hRemove : ((removeHacker (name "h") true paymentIndexed ⟨{}, []⟩).res.toOption).map id =
      some { unflagged := true, victimsPruned := 0, downstreamPruned := 1 } := by decide +kernel
  have hAdd : ((addHacker paymentEnv (name "h") "coldcard" ((removeHacker (name "h") true).final
      paymentIndexed ⟨{}, []⟩) ⟨{}, []⟩).res.toOption).map id = some ⟨true⟩ := by decide +kernel
  obtain ⟨result, hRemoveOk, _⟩ := exists_ok hRemove
  obtain ⟨added, hAddOk, _⟩ := exists_ok hAdd
  have hSettled : Settled (restoredPayment true) (name "h") :=
    settled_of_entries (by decide +kernel) (by decide +kernel)
  have hRestored := h _ _ _ _ _ _ _ _ _ _ (by decide +kernel) fullyIndexed_paymentIndexed hRemoveOk
    hAddOk (historyRun_restoredPayment true) hSettled
  have hEdge := hRestored ⟨name "h", name "sink", name "t"⟩ (Or.inl rfl) (by decide +kernel)
  have hMissing : ((restoredPayment true).edges.lookup
      ⟨name "h", name "sink", name "t"⟩).isSome = false := by decide +kernel
  rw [hMissing] at hEdge
  cases hEdge

/-- A removal that prunes nothing keeps the edge. -/
theorem restored_payment : Restored paymentIndexed (restoredPayment false) (name "h") := by
  have hRemove : ((removeHacker (name "h") false paymentIndexed ⟨{}, []⟩).res.toOption).map id =
      some { unflagged := true, victimsPruned := 0, downstreamPruned := 0 } := by decide +kernel
  obtain ⟨result, hOk, _⟩ := exists_ok hRemove
  exact (restored_iff (by decide +kernel) fullyIndexed_paymentIndexed hOk
    (historyRun_restoredPayment false)).mpr (Or.inl rfl)

end Bloodhound.Ops
