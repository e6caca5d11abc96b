import Bloodhound.Indexer.Effects

/-!
# Transactions that no job traces again

A set of transactions that have rows, and that no job and no saved backfill has a partial trace of. A
backfill or an expansion skips them: whatever it does, it upserts no edge of them, and afterwards
still no job has a trace of them to resume (`triple_processClaimed`).
-/

namespace Bloodhound.Indexer

open Chain Store Bloodhound.Graph
open Journal Journal.Op

/-! ## The invariant -/

variable (T : Txid → Prop) (id : Nat)

/-- The state resumes no trace of the transactions. -/
def TraceApart (trace : TraceProcessState) : Prop := ∀ txid, trace.activeOn txid = true → ¬ T txid

/-- The payload of a backfill or an expansion resumes none. -/
def JobApart : Job → Prop
  | .backfillHackerAddress payload => TraceApart T payload.trace
  | .expandDownstream payload => TraceApart T payload.trace
  | _ => True

/-- The active jobs and the given job resume none. -/
def JobsApart (t : JobTable) : Prop :=
  ∀ id' row, t.lookup id' = some row → row.active = true ∨ id' = id → JobApart T row.job

/-- The transactions have rows; the active jobs, the given job and the saved backfills resume no
trace of them; and a further condition holds. -/
structure Untouched (P : Db → Prop) (db : Db) : Prop where
  indexed : ∀ txid, T txid → (db.transactions.lookup txid).isSome
  jobs : JobsApart T id db.jobs
  saved : ∀ a row payload, db.syncState.lookup a = some row → row.backfillState = some payload →
    TraceApart T payload.trace
  also : P db

/-- A statement that leaves the transactions untouched and deletes no edge. -/
def UntouchedStmt : Stmt → Prop
  | .edge (.upsert data) => ¬ T data.txid
  | .edge _ => False
  | .job (.insert job _ _ _) | .job (.insertIfAbsent job _ _ _ _ _) => JobApart T job
  | .job (.requeue id' _ _) => id' = id
  | .job (.reclaim _ _ _) => False
  | .syncState _ row => ∀ payload, row.backfillState = some payload → TraceApart T payload.trace
  | _ => True

variable {T id} {P : Db → Prop}

theorem traceApart_empty : TraceApart T {} := fun _ h => nomatch h

theorem untouchedStmt_of_isCounter (i : Stmt) (h : i.isCounter) : UntouchedStmt T id i := by
  cases i with
  | edge s => cases h
  | job s => cases h
  | syncState a row => cases h
  | _ => trivial

/-- A trace of another transaction. -/
theorem untouchedStmt_of_traceStmt {ok : EdgeUpsertData → Prop} (hOk : ∀ data, ok data → ¬ T data.txid)
    {i : Stmt} (h : TraceStmt ok i) : UntouchedStmt T id i := by
  cases i with
  | edge s =>
    cases s with
    | upsert data => exact hOk data h
    | _ => cases h
  | job s => cases h
  | syncState a row => cases h
  | _ => trivial

/-! ## Statements -/

theorem isSome_lookup_transaction (data : TransactionUpsertData)
    {t : Table.Rows Txid TransactionRow} {txid : Txid} (h : (t.lookup txid).isSome) :
    ((data.exec t).lookup txid).isSome := by
  unfold TransactionUpsertData.exec
  rw [Table.lookup_insert_if]
  split
  · rfl
  · exact h

theorem jobs_insertRow {t : JobTable} {row : JobRow} (hRow : JobApart T row.job)
    (h : JobsApart T id t) : JobsApart T id (t.insertRow row) := by
  intro id' r hr hActive
  rw [lookup_insertRow] at hr
  split at hr
  · cases hr
    exact hRow
  · exact h id' r hr hActive

theorem jobs_update {t : JobTable} {id₀ : Nat} {f : JobRow → JobRow} (hJob : ∀ r, (f r).job = r.job)
    (hActive : ∀ r, (f r).active = true → r.active = true ∨ id₀ = id)
    (h : JobsApart T id t) : JobsApart T id (t.update id₀ f) := by
  intro id' r hr hr'
  rw [lookup_update] at hr
  split at hr
  · next hId =>
    obtain ⟨old, hOld, rfl⟩ := Option.map_eq_some_iff.mp hr
    rw [hJob]
    refine h id' old hOld ?_
    rcases hr' with hr' | hr'
    · rcases hActive old hr' with hOldActive | hEq
      · exact Or.inl hOldActive
      · exact Or.inr (hId.trans hEq)
    · exact Or.inr hr'
  · exact h id' r hr hr'

theorem jobs_keep {t : JobTable} {p : Nat → JobRow → Bool}
    (h : JobsApart T id t) : JobsApart T id (t.keep p) := by
  intro id' r hr hActive
  rw [lookup_keep] at hr
  exact h id' r (Option.eq_some_of_filter_eq_some hr) hActive

theorem jobs_exec {s : JobStmt} (hs : UntouchedStmt T id (.job s)) {t : JobTable}
    (h : JobsApart T id t) : JobsApart T id (s.exec t) := by
  cases s with
  | insert job priority runAfter createdAt => exact jobs_insertRow hs h
  | insertIfAbsent job priority runAfter createdAt types address =>
    show JobsApart T id (if _ then _ else _)
    split
    · exact h
    · exact jobs_insertRow hs h
  | claim id' startedAt =>
    refine jobs_update (fun r => ?_) (fun r hr => Or.inl ?_) h
    · split <;> rfl
    · split at hr
      · next hPending => simp [JobRow.active, hPending]
      · exact hr
  | complete id' completedAt => exact jobs_update (fun _ => rfl) (fun _ hr => nomatch hr) h
  | requeue id' attempts runAfter => exact jobs_update (fun _ => rfl) (fun _ _ => Or.inr hs) h
  | reclaim => cases hs
  | clearReclaim id' => exact jobs_update (fun _ => rfl) (fun _ hr => Or.inl hr) h
  | deleteActiveForAddress => exact jobs_keep h
  | deleteActive => exact jobs_keep h
  | pruneDone => exact jobs_keep h

theorem Untouched.exec {i : Stmt} (hP : ∀ s, P s → P (exec i s)) (hi : UntouchedStmt T id i) {db : Db}
    (h : Untouched T id P db) : Untouched T id P (exec i db) := by
  refine ⟨?_, ?_, ?_, hP db h.also⟩
  · cases i with
    | transaction data => exact fun txid hT => isSome_lookup_transaction data (h.indexed txid hT)
    | _ => exact h.indexed
  · cases i with
    | job s => exact jobs_exec hi h.jobs
    | _ => exact h.jobs
  · cases i with
    | syncState a row =>
      intro b row' payload hRow hPayload
      have hLookup : (db.syncState.insert a row).lookup b =
          if b = a then some row else db.syncState.lookup b := Table.lookup_insert_if _ _ _ _
      rw [show (Journal.exec (Stmt.syncState a row) db).syncState.lookup b = _ from hLookup] at hRow
      split at hRow
      · cases hRow
        exact hi payload hPayload
      · exact h.saved b row' payload hRow hPayload
    | deleteSyncState a =>
      intro b row' payload hRow hPayload
      have hErase : (db.syncState.erase a).lookup b = some row' := hRow
      by_cases hb : b = a
      · rw [hb, AList.lookup_erase] at hErase
        cases hErase
      · rw [AList.lookup_erase_ne hb] at hErase
        exact h.saved b row' payload hErase hPayload
    | _ => exact h.saved

/-! ## Operations -/

/-- The operation keeps the invariant, whether it returns or throws. -/
abbrev KeepsUntouched {α : Type} (T : Txid → Prop) (id : Nat) (P : Db → Prop) (p : StoreM α) : Prop :=
  Triple (Untouched T id P) p (fun _ => Untouched T id P) fun _ => Untouched T id P

section Operations

variable (hP : ∀ i, UntouchedStmt T id i → ∀ s, P s → P (exec i s))
include hP

variable {α : Type} {env : Env}

theorem keepsUntouched_of_emits {p : StoreM α} (h : p.Emits (UntouchedStmt T id)) :
    KeepsUntouched T id P p :=
  triple_of_emits h fun i hi _ hs => hs.exec (hP i hi) hi

theorem keepsUntouched_of_traces {ok : EdgeUpsertData → Prop} {p : StoreM α} (h : Traces ok p)
    (hOk : ∀ data, ok data → ¬ T data.txid) : KeepsUntouched T id P p :=
  keepsUntouched_of_emits hP (Emits.mono h fun _ hi => untouchedStmt_of_traceStmt hOk hi)

theorem keepsUntouched_of_noEdges {p : StoreM α} (h : Traces (fun _ => False) p) :
    KeepsUntouched T id P p := keepsUntouched_of_traces hP h fun _ hFalse => hFalse.elim

omit hP in
theorem keepsUntouched_query (read : Db → α) : KeepsUntouched T id P (query read) :=
  triple_query (fun _ h => h) fun _ h _ => h

/-! ### Poll states and the queue -/

theorem keepsUntouched_upsertBackfillState {address : Address} {payload : Option BackfillPayload}
    {complete : Bool} (hPayload : ∀ p, payload = some p → TraceApart T p.trace) :
    KeepsUntouched T id P (upsertBackfillState address payload complete) := by
  refine Triple.bind (Q := fun existing s => Untouched T id P s ∧
    ∀ row p, existing = some row → row.backfillState = some p → TraceApart T p.trace)
    (triple_query (fun s hs => ⟨hs, fun row p hRow => hs.saved address row p hRow⟩) fun _ hs _ => hs)
    fun existing => triple_of_fact fun hExisting => ?_
  refine keepsUntouched_of_emits hP (emits_run fun p hp => ?_)
  unfold backfilledSync at hp
  cases complete with
  | true => cases hp
  | false =>
    rcases Option.or_eq_some_iff.mp hp with h | ⟨_, h⟩
    · exact hPayload p h
    · cases existing with
      | none => cases h
      | some row => exact hExisting row p rfl h

theorem keepsUntouched_recordSyncPoll (address : Address) (data : Option SyncPollData) :
    KeepsUntouched T id P (recordSyncPoll address data) := by
  refine (keepsUntouched_query _).bind fun addr => ?_
  refine Triple.bind (Q := fun existing s => Untouched T id P s ∧
    ∀ row p, existing = some row → row.backfillState = some p → TraceApart T p.trace)
    (triple_query (fun s hs => ⟨hs, fun row p hRow => hs.saved address row p hRow⟩) fun _ hs _ => hs)
    fun existing => triple_of_fact fun hExisting => ?_
  refine keepsUntouched_of_emits hP ?_
  refine (emits_query _).bind fun state => emits_now.bind fun nowMs => emits_now.bind fun ts =>
    (emits_run fun p hp => ?_).bind fun _ =>
    emits_when fun _ => emits_adjustPollDueOrMarkDirty untouchedStmt_of_isCounter _ _ _ _
  cases existing with
  | none => cases hp
  | some row => exact hExisting row p rfl hp

theorem keepsUntouched_enqueueJob {job : Job} (hJob : JobApart T job) (priority : Int)
    (runAfter : Option Nat) (bypass : Bool) :
    KeepsUntouched T id P (enqueueJob env job priority runAfter bypass) :=
  keepsUntouched_of_emits hP
    (emits_enqueueJob (queueCounters untouchedStmt_of_isCounter) trivial env (fun _ _ => hJob) runAfter bypass)

/-! ### Entries -/

/-- An entry leaves the transactions untouched, and no trace of them to resume. -/
theorem triple_processEntry {address : Address} {hop : Nat} {entry : PendingTxRuntime}
    {hackers : List Address} {state : TraceProcessState} {opts : ProcessEntryOpts}
    (hAnswers : Answers env.provider) (hEntry : entry.Consistent) (hSkip : opts.skipIfIndexed = true)
    (hState : TraceApart T state) :
    Triple (Untouched T id P) (processClassifiedPendingTx env address hop entry hackers state opts)
      (fun result s => Untouched T id P s ∧ TraceApart T result.traceState)
      fun _ => Untouched T id P := by
  by_cases hT : T entry.txid
  · -- its transaction has a row and no trace of it is resumed, so it is skipped
    have hActive : state.activeOn entry.txid = false := by
      by_contra h
      exact hState _ (by simpa using h) hT
    refine (triple_processClassifiedPendingTx_indexed (P := Untouched T id P) (fun i hi s hs => ?_)
      (fun s hs => hs.indexed _ hT) hActive hSkip).post fun result s hs => ⟨hs.1, ?_⟩
    · have hStmt : UntouchedStmt T id i := untouchedStmt_of_traceStmt (fun _ h => h.elim) hi
      exact hs.exec (hP i hStmt) hStmt
    · rw [hs.2]
      exact traceApart_empty
  · have hKeeps : KeepsUntouched T id P
        (processClassifiedPendingTx env address hop entry hackers state opts) :=
      keepsUntouched_of_traces hP (traces_processClassifiedPendingTx hAnswers hEntry)
        fun data hData => by rwa [hData]
    refine (hKeeps.and resumes_processClassifiedPendingTx).conseq (fun s hs => ⟨hs, trivial⟩)
      (fun result s hs => ⟨hs.1, fun txid hActive => ?_⟩) fun _ _ hs => hs.1
    rw [hs.2 txid hActive]
    exact hT

omit hP in
theorem triple_withD1QuotaContinuationSave {save : StoreM Unit} {body : StoreM α}
    {Q : α → Db → Prop} (hSave : KeepsUntouched T id P save)
    (hBody : Triple (Untouched T id P) body Q fun _ => Untouched T id P) :
    Triple (Untouched T id P) (withD1QuotaContinuationSave save body) Q
      fun _ => Untouched T id P := by
  refine hBody.tryCatch fun e => ?_
  refine Triple.bind (Q := fun _ => Untouched T id P) (triple_when (fun _ => hSave) fun _ _ hs => hs)
    fun _ => triple_throw e fun _ hs => hs

/-! ### Backfills -/

theorem keepsUntouched_enqueueBackfillContinuation {payload : BackfillPayload}
    (h : TraceApart T payload.trace) (enqueueContinuation : Bool) :
    KeepsUntouched T id P (enqueueBackfillContinuation env payload enqueueContinuation) := by
  refine (keepsUntouched_upsertBackfillState hP fun p hp => ?_).bind fun _ =>
    triple_when (fun _ => ?_) fun _ _ hs => hs
  · cases hp
    exact h
  · have hJob : JobApart T (.backfillHackerAddress payload) := h
    exact (keepsUntouched_enqueueJob hP hJob _ _ _).bind fun _ => triple_pure () fun _ hs => hs

/-- The loop over consistent entries. -/
theorem triple_backfillLoop (hAnswers : Answers env.provider) (b : BackfillRun)
    {entries : List PendingTxRuntime} (hEntries : ∀ e ∈ entries, e.Consistent) {l : EntryLoop}
    (hl : TraceApart T l.trace) :
    Triple (Untouched T id P) (backfillLoop env b entries l)
      (fun stopped s => Untouched T id P s ∧ ∀ l', stopped = some l' → TraceApart T l'.trace)
      fun _ => Untouched T id P := by
  induction entries generalizing l with
  | nil =>
    refine triple_pure _ fun s hs => ⟨hs, fun l' h => ?_⟩
    cases h
    exact hl
  | cons entry rest ih =>
    have hRest := fun e he => hEntries e (List.mem_cons_of_mem _ he)
    refine (keepsUntouched_of_emits hP emits_canProcess).bind fun ready => ?_
    split
    · refine triple_pure _ fun s hs => ⟨hs, fun l' h => ?_⟩
      cases h
      exact hl
    split
    · exact ih hRest hl
    have hSave : KeepsUntouched T id P (b.saveAt env l.processedIndex {}) :=
      keepsUntouched_enqueueBackfillContinuation hP traceApart_empty _
    have hEntry : Triple (Untouched T id P) (b.processEntry env entry l)
        (fun result s => Untouched T id P s ∧ TraceApart T result.traceState)
        fun _ => Untouched T id P :=
      triple_withD1QuotaContinuationSave hSave
        (triple_processEntry hP hAnswers (hEntries entry List.mem_cons_self) rfl hl)
    refine hEntry.bind fun result => triple_of_fact fun hResult => ?_
    refine (keepsUntouched_of_emits hP (emits_when fun _ => emits_consumeBudget)).bind fun _ => ?_
    split
    · refine (keepsUntouched_enqueueBackfillContinuation hP hResult _).bind fun _ =>
        triple_pure _ fun s hs => ⟨hs, fun _ h => absurd h.symm (Option.some_ne_none _)⟩
    · refine (keepsUntouched_of_emits hP emits_mustStop).bind fun stop => ?_
      dsimp only
      split
      · refine triple_pure _ fun s hs => ⟨hs, fun l' h => ?_⟩
        cases h
        exact hResult
      · exact ih hRest hResult

/-- The entries that an invocation holds are consistent. -/
def HistoryState.Consistent (h : HistoryState) : Prop := ∀ e ∈ h.pending, e.Consistent

omit hP in
theorem HistoryState.Consistent.fetched {h : HistoryState} (hh : h.Consistent)
    (txs : List ChainTxSummary) {page : List ChainTxSummary} {address : Address} :
    (h.fetched txs (classifyPageTxs page address)).Consistent := by
  cases txs with
  | nil => exact hh
  | cons tx rest => exact fun e he => consistent_of_mem_classifyPageTxs he

theorem keepsUntouched_finishBackfill (b : BackfillRun) (l : EntryLoop) :
    KeepsUntouched T id P (b.finish env l) := by
  unfold BackfillRun.finish
  split
  · exact keepsUntouched_enqueueBackfillContinuation hP traceApart_empty _
  · refine Triple.bind (triple_when (fun _ => keepsUntouched_recordSyncPoll hP _ _) fun _ _ hs => hs)
      fun _ => ?_
    refine (keepsUntouched_upsertBackfillState hP fun p hp => by cases hp).bind fun _ => ?_
    exact keepsUntouched_of_noEdges hP (traces_setExpandStatus _ _)

theorem keepsUntouched_processBackfill (hAnswers : Answers env.provider) {h : HistoryState}
    (hh : h.Consistent) {trace : TraceProcessState} (hTrace : TraceApart T trace)
    (address : Address) (hackers : List Address) (enqueueContinuation : Bool) :
    KeepsUntouched T id P (processBackfill env address h hackers trace enqueueContinuation) := by
  refine (keepsUntouched_of_emits hP (emits_processLimit _ _)).bind fun limit =>
    (keepsUntouched_query _).bind fun addrRow => ?_
  refine (triple_backfillLoop hP hAnswers _ (fun e he => hh e (List.mem_of_mem_drop he))
    hTrace).bind fun stopped => triple_of_fact fun _ => ?_
  exact triple_forEach fun l _ => keepsUntouched_finishBackfill hP _ l

/-- The history that an invocation goes on with is consistent. -/
theorem triple_fetchForBackfill {address : Address} {h : HistoryState} (hh : h.Consistent) :
    Triple (Untouched T id P) (fetchForBackfill env address h)
      (fun fetched s => Untouched T id P s ∧ fetched.1.Consistent) fun _ => Untouched T id P := by
  refine (keepsUntouched_of_emits hP emits_canCallAndUse).bind fun ready => ?_
  split
  · refine (keepsUntouched_of_emits hP (emits_fetchAddressTxPage _ _ _)).bind fun txs => ?_
    refine (keepsUntouched_of_emits hP emits_consumeBudget).bind fun _ =>
      (keepsUntouched_of_emits hP emits_budgetsExhausted).bind fun exhausted => ?_
    exact triple_pure _ fun s hs => ⟨hs, hh.fetched txs⟩
  · exact triple_pure _ fun s hs => ⟨hs, hh⟩

theorem keepsUntouched_backfillHacker (hAnswers : Answers env.provider) {raw : BackfillPayload}
    (hRaw : TraceApart T raw.trace) (hackers : Option (List Address)) (enqueueContinuation : Bool) :
    KeepsUntouched T id P (backfillHacker env raw hackers enqueueContinuation) := by
  have hPayload : Triple (Untouched T id P) (hydrateBackfillPayload raw)
      (fun payload s => Untouched T id P s ∧ TraceApart T payload.trace)
      fun _ => Untouched T id P := by
    unfold hydrateBackfillPayload
    dsimp only
    split
    · exact triple_pure _ fun s hs => ⟨hs, hRaw⟩
    · refine Triple.bind (Q := fun saved s => Untouched T id P s ∧
        ∀ p, saved = some p → TraceApart T p.trace) ?_ fun saved => triple_of_fact fun hSaved => ?_
      · refine Triple.bind (Q := fun row s => Untouched T id P s ∧
          ∀ r p, row = some r → r.backfillState = some p → TraceApart T p.trace)
          (triple_query (fun s hs => ⟨hs, fun r p hRow => hs.saved _ r p hRow⟩) fun _ hs _ => hs)
          fun row => triple_pure _ fun s hs => ⟨hs.1, fun p hp => ?_⟩
        obtain ⟨r, hRow, hState⟩ := Option.bind_eq_some_iff.mp hp
        exact hs.2 r p hRow hState
      · refine triple_pure _ fun s hs => ⟨hs, ?_⟩
        cases saved with
        | none => exact hRaw
        | some p => exact hSaved p rfl
  refine hPayload.bind fun payload => triple_of_fact fun hTrace => ?_
  refine (keepsUntouched_of_emits hP (emits_givenHackers hackers)).bind fun hackers =>
    (keepsUntouched_of_noEdges hP (traces_setExpandStatus _ _)).bind fun _ =>
    (keepsUntouched_of_emits hP (emits_createChainCallBudget env)).bind fun _ => ?_
  have hHistory : payload.history.Consistent := fun e he => consistent_of_mem_readPending he
  refine (triple_fetchForBackfill hP hHistory).bind fun fetched => triple_of_fact fun hFetched => ?_
  split
  · exact keepsUntouched_enqueueBackfillContinuation hP traceApart_empty _
  · exact keepsUntouched_processBackfill hP hAnswers hFetched hTrace _ _ _

/-! ### Expansions -/

theorem keepsUntouched_enqueueExpandContinuation {payload : ExpandPayload}
    (h : TraceApart T payload.trace) :
    KeepsUntouched T id P (enqueueExpandContinuation env payload) := by
  have hJob : JobApart T (.expandDownstream payload) := h
  refine (keepsUntouched_enqueueJob hP hJob _ _ _).bind fun jobId =>
    triple_when (fun _ => ?_) fun _ _ hs => hs
  exact (keepsUntouched_query _).bind fun state => triple_throw _ fun _ hs => hs

theorem triple_expandLoop (hAnswers : Answers env.provider) (x : ExpandRun)
    {entries : List PendingTxRuntime} (hEntries : ∀ e ∈ entries, e.Consistent) {l : EntryLoop}
    (hl : TraceApart T l.trace) :
    Triple (Untouched T id P) (expandLoop env x entries l)
      (fun stopped s => Untouched T id P s ∧ ∀ l', stopped = some l' → TraceApart T l'.trace)
      fun _ => Untouched T id P := by
  induction entries generalizing l with
  | nil =>
    refine triple_pure _ fun s hs => ⟨hs, fun l' h => ?_⟩
    cases h
    exact hl
  | cons entry rest ih =>
    have hRest := fun e he => hEntries e (List.mem_cons_of_mem _ he)
    refine (keepsUntouched_of_emits hP emits_canProcess).bind fun ready => ?_
    split
    · refine triple_pure _ fun s hs => ⟨hs, fun l' h => ?_⟩
      cases h
      exact hl
    have hSave : KeepsUntouched T id P (x.saveAt env none l.processedIndex l.trace) :=
      keepsUntouched_enqueueExpandContinuation hP hl
    have hEntry : Triple (Untouched T id P) (x.processEntry env entry l)
        (fun result s => Untouched T id P s ∧ TraceApart T result.traceState)
        fun _ => Untouched T id P :=
      triple_withD1QuotaContinuationSave hSave
        (triple_processEntry hP hAnswers (hEntries entry List.mem_cons_self) rfl hl)
    refine hEntry.bind fun result => triple_of_fact fun hResult => ?_
    refine (keepsUntouched_of_emits hP (emits_when fun _ => emits_consumeBudget)).bind fun _ => ?_
    split
    · refine (keepsUntouched_enqueueExpandContinuation hP hResult).bind fun _ =>
        triple_pure _ fun s hs => ⟨hs, fun _ h => absurd h.symm (Option.some_ne_none _)⟩
    · refine (keepsUntouched_of_emits hP emits_mustStop).bind fun stop => ?_
      dsimp only
      split
      · refine triple_pure _ fun s hs => ⟨hs, fun l' h => ?_⟩
        cases h
        exact hResult
      · exact ih hRest hResult

theorem keepsUntouched_finishExpand (x : ExpandRun) {l : EntryLoop} (hl : TraceApart T l.trace) :
    KeepsUntouched T id P (x.finish env l) := by
  have hClose : Traces (fun _ => False) (closeChildren env x.payload.address) :=
    (emits_query _).bind fun children => emits_forEach fun child _ => traces_upsertAddress _
  unfold ExpandRun.finish
  dsimp only
  split
  · exact keepsUntouched_enqueueExpandContinuation hP hl
  · refine (keepsUntouched_of_noEdges hP (traces_setExpandStatus _ _)).bind fun _ => ?_
    refine Triple.bind (triple_when (fun _ => keepsUntouched_recordSyncPoll hP _ _) fun _ _ hs => hs)
      fun _ => ?_
    exact triple_when (fun _ => keepsUntouched_of_noEdges hP hClose) fun _ _ hs => hs

theorem keepsUntouched_processExpand (hAnswers : Answers env.provider) {payload : ExpandPayload}
    {h : ExpandHistory} (hh : h.Consistent) (hPayload : TraceApart T payload.trace)
    (hackers : List Address) (addr : Option AddressRow) :
    KeepsUntouched T id P (processExpand env payload h hackers addr) := by
  refine (keepsUntouched_of_emits hP (emits_processLimit _ _)).bind fun limit => ?_
  refine (triple_expandLoop hP hAnswers _ (fun e he => hh e (List.mem_of_mem_drop he))
    hPayload).bind fun stopped => triple_of_fact fun hStopped => ?_
  refine triple_forEach fun l hl => keepsUntouched_finishExpand hP _ (hStopped l ?_)
  exact Option.mem_toList.mp hl

theorem triple_fetchForExpand {address : Address} {h : ExpandHistory} (hh : h.Consistent) :
    Triple (Untouched T id P) (fetchForExpand env address h)
      (fun fetched s => Untouched T id P s ∧ fetched.1.Consistent) fun _ => Untouched T id P := by
  have hProfile : ∀ h', Traces (fun _ => False) (profileFirstPage env address h') := fun h' =>
    emits_when fun _ => traces_setExpandProfile _ _
  refine (keepsUntouched_of_emits hP emits_canCallAndUse).bind fun ready => ?_
  split
  · refine (keepsUntouched_of_emits hP (emits_fetchAddressTxPage _ _ _)).bind fun txs => ?_
    refine (keepsUntouched_of_emits hP emits_consumeBudget).bind fun _ =>
      (keepsUntouched_of_noEdges hP (emits_when fun _ => hProfile _)).bind fun _ =>
      (keepsUntouched_of_emits hP emits_budgetsExhausted).bind fun exhausted => ?_
    exact triple_pure _ fun s hs => ⟨hs, hh.fetched txs⟩
  · exact triple_pure _ fun s hs => ⟨hs, hh⟩

theorem keepsUntouched_expandDownstream (hAnswers : Answers env.provider) {payload : ExpandPayload}
    (hPayload : TraceApart T payload.trace) (hackers : Option (List Address)) :
    KeepsUntouched T id P (expandDownstream env payload hackers) := by
  refine (keepsUntouched_query _).bind fun addr => ?_
  split
  · refine (keepsUntouched_of_emits hP (emits_givenHackers hackers)).bind fun hackers =>
      (keepsUntouched_of_noEdges hP (traces_setExpandStatus _ _)).bind fun _ =>
      (keepsUntouched_of_emits hP (emits_createChainCallBudget env)).bind fun _ => ?_
    have hHistory : payload.history.Consistent := fun e he => consistent_of_mem_readPending he
    refine (triple_fetchForExpand hP hHistory).bind fun fetched => triple_of_fact fun hFetched => ?_
    split
    · exact keepsUntouched_enqueueExpandContinuation hP traceApart_empty
    · exact keepsUntouched_processExpand hP hAnswers hFetched hPayload _ _
  · exact keepsUntouched_of_noEdges hP (traces_setExpandStatus _ _)

/-! ### Runs of jobs -/

/-- The job is a backfill or an expansion. -/
def isHistoryJob : Job → Bool
  | .backfillHackerAddress _ | .expandDownstream _ => true
  | _ => false

/-- The run of a claimed backfill or expansion, and the handling of its outcome. -/
theorem keepsUntouched_processClaimed (hAnswers : Answers env.provider) (inputs : JobInputs)
    {row : JobRow} (hType : isHistoryJob row.job = true) (hRow : JobApart T row.job) :
    KeepsUntouched T id P (JobRun.processClaimed env inputs id row) := by
  have hWork : KeepsUntouched T id P (JobRun.work env inputs row.job) := by
    cases hJob : row.job with
    | backfillHackerAddress payload =>
      rw [hJob] at hRow
      exact keepsUntouched_backfillHacker hP hAnswers hRow _ _
    | expandDownstream payload =>
      rw [hJob] at hRow
      exact keepsUntouched_expandDownstream hP hAnswers hRow _
    | _ =>
      rw [hJob] at hType
      cases hType
  have hFlush : KeepsUntouched T id P (JobRun.flushRecentHackerActivity inputs) :=
    keepsUntouched_of_emits hP (emits_when fun _ => emits_run trivial)
  have hComplete : KeepsUntouched T id P (completeJob id : StoreM Unit) :=
    keepsUntouched_of_emits hP (emits_completeJob (queueCounters untouchedStmt_of_isCounter) fun _ => trivial)
  have hAfter : KeepsUntouched T id P (JobRun.afterCompletion env inputs) := by
    refine keepsUntouched_of_emits hP (Emits.bind ?_ fun _ => (emits_query _).bind fun _ =>
      emits_when fun _ => emits_query _)
    exact (emits_query _).bind fun state => emits_when fun _ => emits_run trivial
  have hTry : KeepsUntouched T id P (JobRun.tryJob env inputs id row) := by
    refine Triple.bind (Triple.bind (hWork.tryCatch fun e => ?_) fun _ => hFlush) fun _ =>
      hComplete.bind fun _ => hAfter
    exact hFlush.bind fun _ => triple_throw e fun _ hs => hs
  exact hTry.tryCatch fun e => keepsUntouched_of_emits hP
    (emits_onJobError untouchedStmt_of_isCounter (fun _ _ => rfl) _ _ _ e)

end Operations

end Bloodhound.Indexer
