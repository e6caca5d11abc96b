import Bloodhound.Indexer.TraceWrites

/-!
# What processing an entry writes

The statements of `processClassifiedPendingTx` and of what it calls: upserts of edges of the
transaction of the entry, and statements on other tables than `edges`, `jobs` and `sync_state`
(`traces_processClassifiedPendingTx`).
-/

namespace Bloodhound.Indexer

open Chain Store Bloodhound.Graph
open Journal Journal.Op

/-- The provider answers with the transaction it is asked for. -/
def Answers (p : Provider) : Prop := ∀ txid, (p.getTx txid).txid = txid

/-- A statement of a trace: of edges it upserts those that `ok` admits, it deletes nothing, and it
writes neither jobs nor poll states. -/
def TraceStmt (ok : EdgeUpsertData → Prop) : Stmt → Prop
  | .edge (.upsert data) => ok data
  | .edge _ | .job _ | .syncState _ _ | .deleteSyncState _ | .address (.delete _) => False
  | _ => True

/-- Every statement of the operation is one of a trace. -/
abbrev Traces {α : Type} (ok : EdgeUpsertData → Prop) (p : StoreM α) : Prop := p.Emits (TraceStmt ok)

variable {ok : EdgeUpsertData → Prop} {α : Type}

theorem traceStmt_of_isCounter (i : Stmt) (h : i.isCounter) : TraceStmt ok i := by
  cases i with
  | edge s => cases h
  | job s => cases h
  | syncState a row => cases h
  | deleteSyncState a => cases h
  | address s => cases h
  | _ => trivial

theorem traceWrites_traceStmt : TraceWrites (TraceStmt ok) where
  counter := traceStmt_of_isCounter
  victim _ := trivial
  downstream _ _ := trivial
  profile _ _ := trivial
  inbound _ _ := trivial
  received _ _ := trivial
  peak _ := trivial
  totals _ _ := trivial
  transaction _ := trivial

theorem traces_upsertAddress (data : AddressUpsertData) : Traces ok (upsertAddress data) :=
  emits_upsertAddress traceStmt_of_isCounter trivial

theorem traces_setExpandStatus (address : Address) (status : ExpandStatus) :
    Traces ok (setExpandStatus address status) := emits_setExpandStatus traceStmt_of_isCounter trivial

theorem traces_setExpandProfile (address : Address) (profile : ExpandProfile) :
    Traces ok (setExpandProfile address profile) := emits_setExpandProfile traceWrites_traceStmt _ _

/-! ## Entries -/

/-- The page of the entry is one of its transaction. -/
def PendingTxRuntime.Consistent (entry : PendingTxRuntime) : Prop :=
  ∀ page, entry.pageEntry = some page → page.txid = entry.txid

theorem consistent_of_mem_classifyPageTxs {txs : List ChainTxSummary} {address : Address}
    {entry : PendingTxRuntime} (h : entry ∈ classifyPageTxs txs address) : entry.Consistent := by
  obtain ⟨tx, _, rfl⟩ := List.mem_map.mp h
  intro page hPage
  cases hPage
  rfl

theorem consistent_of_mem_readPending {raw : PendingPayloadFields} {entry : PendingTxRuntime}
    (h : entry ∈ readPending raw) : entry.Consistent := by
  obtain ⟨e, _, rfl⟩ := List.mem_map.mp h
  intro page hPage
  obtain ⟨snapshot, _, rfl⟩ := Option.map_eq_some_iff.mp hPage
  rfl

section Entry

variable {env : Env} {address : Address} {hop : Nat} {entry : PendingTxRuntime}
  {hackers : List Address} {state : TraceProcessState} {opts : ProcessEntryOpts}

/-- An entry writes edges of its transaction only. -/
theorem traces_processClassifiedPendingTx (hAnswers : Answers env.provider)
    (hEntry : entry.Consistent) : Traces (·.txid = entry.txid)
      (processClassifiedPendingTx env address hop entry hackers state opts) :=
  emits_processClassifiedPendingTx (Q := (· = entry.txid)) traceWrites_traceStmt (fun _ hTxid => hTxid)
    rfl (hAnswers _) hEntry

/-- An entry whose transaction has a row writes no edge, unless its trace is resumed or the caller
does not skip such entries. -/
theorem triple_processClassifiedPendingTx_indexed {P : Db → Prop}
    (hP : ∀ i, TraceStmt (fun _ => False) i → ∀ s, P s → P (exec i s))
    (hRow : ∀ s, P s → (s.transactions.lookup entry.txid).isSome)
    (hActive : state.activeOn entry.txid = false) (hSkip : opts.skipIfIndexed = true) :
    Triple P (processClassifiedPendingTx env address hop entry hackers state opts)
      (fun result s => P s ∧ result.traceState = {}) fun _ => P := by
  have hKeeps : ∀ {α : Type} {p : StoreM α}, Traces (fun _ => False) p →
      Triple P p (fun _ => P) fun _ => P := fun h => triple_of_emits h hP
  have hDone : ∀ s, P s → P s ∧ ({} : ProcessClassifiedTxResult).traceState = {} :=
    fun s hs => ⟨hs, rfl⟩
  have hUnskipped : Triple P (processUnskipped env address hop entry hackers state opts)
      (fun result s => P s ∧ result.traceState = {}) fun _ => P := by
    unfold processUnskipped
    rw [if_pos (by rw [hActive, hSkip]; rfl)]
    refine Triple.bind (Q := fun indexed s => P s ∧ indexed.isSome = true)
      (triple_query (fun s hs => ⟨hs, hRow s hs⟩) fun s hs _ => hs) fun indexed =>
      triple_of_fact fun hIndexed => ?_
    obtain ⟨row, rfl⟩ := Option.isSome_iff_exists.mp hIndexed
    exact (hKeeps (emits_captureIndexed traceWrites_traceStmt.transaction env entry row _)).bind fun _ =>
      triple_pure _ hDone
  unfold processClassifiedPendingTx
  split
  · refine (hKeeps (emits_patchOpReturnFromPageIfNeeded traceWrites_traceStmt.transaction env entry _)).bind
      fun _ => ?_
    split
    · exact triple_pure _ hDone
    · exact hUnskipped
  · exact hUnskipped

/-- What the operation leaves to resume is a trace of the transaction. -/
abbrev Resumes (txid : Txid) (p : StoreM ProcessClassifiedTxResult) : Prop :=
  Triple (fun _ => True) p (fun result _ => ∀ t, result.traceState.activeOn t = true → t = txid)
    fun _ _ => True

theorem resumes_done {txid : Txid} (calls : Nat) :
    Resumes txid (pure { chainCallsUsed := calls }) :=
  triple_pure _ fun _ _ _ h => nomatch h

theorem resumes_processDetail (tx : ChainTxDetail) (calls : Nat) : Resumes entry.txid
    (processDetail env address hop entry tx hackers state opts calls) := by
  unfold processDetail
  dsimp only
  split
  · exact triple_result fun _ => resumes_done _
  · split
    · exact resumes_done _
    · refine triple_result fun trace => ?_
      split
      · exact resumes_done _
      · refine triple_pure _ fun _ _ t hActive => ?_
        simpa [TraceProcessState.activeOn, eq_comm] using hActive

theorem resumes_processUnindexed : Resumes entry.txid
    (processUnindexed env address hop entry hackers state opts) := by
  unfold processUnindexed
  split
  · exact triple_result fun _ => resumes_done 0
  · split
    · exact triple_result fun _ => triple_result fun _ => resumes_done 0
    · unfold fetchAndProcess
      split
      · exact resumes_processDetail _ _
      · refine triple_result fun tx => ?_
        split
        · exact triple_result fun _ => resumes_done _
        · exact resumes_processDetail _ _

theorem resumes_processClassifiedPendingTx : Resumes entry.txid
    (processClassifiedPendingTx env address hop entry hackers state opts) := by
  have hUnskipped : Resumes entry.txid
      (processUnskipped env address hop entry hackers state opts) := by
    unfold processUnskipped
    split
    · refine triple_result fun indexed => ?_
      cases indexed with
      | some row => exact triple_result fun _ => resumes_done 0
      | none => exact resumes_processUnindexed
    · exact resumes_processUnindexed
  unfold processClassifiedPendingTx
  split
  · refine triple_result fun _ => ?_
    split
    · exact resumes_done 0
    · exact hUnskipped
  · exact hUnskipped

end Entry

/-! ## Reads of an invocation, and the handling of its exceptions -/

section Reads

variable {P : Stmt → Prop}

theorem emits_readBudget : readBudget.Emits P := emits_mem _

theorem emits_canCallAndUse : canCallAndUse.Emits P :=
  emits_readBudget.bind fun _ => Emits.bind (emits_mem _) fun _ => emits_pure _

theorem emits_budgetsExhausted : budgetsExhausted.Emits P :=
  emits_readBudget.bind fun _ => Emits.bind (emits_mem _) fun _ => emits_pure _

theorem emits_canProcess : canProcess.Emits P :=
  emits_canCallAndUse.bind fun _ => Emits.bind (emits_mem _) fun _ => emits_pure _

theorem emits_mustStop : mustStop.Emits P :=
  emits_budgetsExhausted.bind fun _ => Emits.bind (emits_mem _) fun _ => emits_pure _

theorem emits_processLimit (config : AppConfig) (fallback : Nat) :
    (processLimit config fallback).Emits P :=
  emits_readBudget.bind fun _ => emits_pure _

theorem emits_consumeBudget : consumeBudget.Emits P := emits_mem _

theorem emits_createChainCallBudget (env : Env) : (createChainCallBudget env).Emits P := emits_mem _

theorem emits_givenHackers (hackers : Option (List Address)) :
    (hackers.elim getHackerAddressSet pure : StoreM (List Address)).Emits P := by
  cases hackers with
  | none => exact emits_query _
  | some given => exact emits_pure given

theorem emits_fetchAddressTxPage (env : Env) (address : Address) (chainCursor : Option Txid) :
    (fetchAddressTxPage env address chainCursor).Emits P := emits_query _

theorem emits_onJobError (hP : ∀ i, Stmt.isCounter i → P i) {id : Nat}
    (hJob : ∀ attempts runAt, P (.job (.requeue id attempts runAt))) (config : AppConfig)
    (inputs : JobInputs) (row : JobRow) (e : Err) :
    (JobRun.onJobError config inputs id row e).Emits P := by
  have hFail : ∀ (runAfter : Option Nat) (stop : Bool),
      (do failJob id runAfter; pure stop : StoreM Bool).Emits P := fun runAfter stop =>
    (emits_failJob (queueCounters hP) hJob runAfter).bind fun _ => emits_pure stop
  have hDefer : ∀ (runAt : Nat) (stop : Bool),
      (do deferJob id runAt; pure stop : StoreM Bool).Emits P := fun runAt stop =>
    (emits_deferJob_of (queueCounters hP) (hJob 0 runAt)).bind fun _ => emits_pure stop
  refine Emits.bind ?_ fun _ => emits_pure ()
  cases e with
  | enqueueBlocked paused => exact emits_now.bind fun nowMs => hDefer _ _
  | rateLimitNotReady =>
    show Emits P (if _ then _ else _)
    split
    · exact emits_now.bind fun nowMs => hDefer _ _
    · exact hFail _ _
  | d1QuotaExceeded => exact (emits_run (hP _ rfl)).bind fun _ => hFail _ _
  | rateLimit =>
    refine Emits.bind ((emits_query _).bind fun state => emits_now.bind fun nowMs => ?_)
      fun retry => hFail _ _
    dsimp only
    split
    · exact emits_pure _
    · exact (emits_query _).bind fun later => emits_pure _
  | provider => exact emits_now.bind fun nowMs => hFail _ _

end Reads

end Bloodhound.Indexer
