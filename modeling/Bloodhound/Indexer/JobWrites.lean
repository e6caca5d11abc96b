import Bloodhound.Indexer.Effects

/-!
# The statements of jobs

Backfills, expansions, polls and the processing of a transaction write what traces write, and the status of
an address, jobs and poll states. Every statement of such a job satisfies a condition that holds of these
kinds (`emits_work`).
-/

namespace Bloodhound.Indexer

open Chain Store Bloodhound.Graph
open Journal Journal.Op

/-- A condition of what a poll writes outside its traces. -/
structure PollWrites (P : Stmt → Prop) : Prop where
  counter : ∀ i : Stmt, i.isCounter → P i
  seen : ∀ a, P (.address (.upsert { address := a }))
  job : ∀ job priority runAt createdAt, P (.job (.insert job priority runAt createdAt))
  sync : ∀ a row, P (.syncState a row)

section Polls

variable {P : Stmt → Prop} (hP : PollWrites P) {env : Env}

theorem emits_canCall : canCall.Emits P := emits_readBudget.bind fun _ => emits_pure _

theorem emits_budgetExhausted : budgetExhausted.Emits P := emits_readBudget.bind fun _ => emits_pure _

theorem emits_readCpuGuard : readCpuGuard.Emits P := emits_mem _

theorem emits_applyAddressStats (hCounter : ∀ i : Stmt, i.isCounter → P i) {address : Address}
    (hSeen : P (.address (.upsert { address }))) (stats : ChainAddressStats) :
    (applyAddressStats address stats).Emits P :=
  (emits_upsertAddress hCounter hSeen).bind fun _ => emits_pure _

theorem emits_recordSyncPoll (hCounter : ∀ i : Stmt, i.isCounter → P i) {address : Address}
    (hSync : ∀ row, P (.syncState address row)) (data : Option SyncPollData) :
    (recordSyncPoll address data).Emits P :=
  (emits_query _).bind fun _ => (emits_query _).bind fun _ => (emits_query _).bind fun _ =>
    emits_now.bind fun _ => emits_now.bind fun _ => (emits_run (hSync _)).bind fun _ =>
      emits_when fun _ => emits_adjustPollDueOrMarkDirty hCounter _ _ _ _

include hP

theorem PollWrites.recordSyncPoll (address : Address) (data : Option SyncPollData) :
    (recordSyncPoll address data).Emits P :=
  emits_recordSyncPoll hP.counter (hP.sync address) data

theorem PollWrites.enqueueJob (job : Job) (priority : Int) (runAfter : Option Nat) (bypass : Bool) :
    (Store.enqueueJob env job priority runAfter bypass : StoreM (Option Nat)).Emits P :=
  emits_enqueueJob (queueCounters hP.counter) (hP.counter _ rfl) env (hP.job _ _) runAfter bypass

theorem PollWrites.applyAddressStats (address : Address) (stats : ChainAddressStats) :
    (applyAddressStats address stats).Emits P :=
  emits_applyAddressStats hP.counter (hP.seen address) stats

/-- What a poll does before its page, where its continuation is admitted. -/
theorem PollWrites.probePoll {save : PollState → StoreM Unit} (hSave : ∀ s, (save s).Emits P)
    (calls : PollCalls) (s : PollState) : (probePoll env calls save s).Emits P := by
  unfold Indexer.probePoll
  split
  · exact emits_pure _
  · have hProbe : (probePollAddressStats env calls s.payload.address).Emits P :=
      (emits_query _).bind fun stats => (hP.applyAddressStats _ stats).bind fun _ =>
        (emits_query _).bind fun _ => emits_pure _
    refine hProbe.bind fun probe => emits_consumeBudget.bind fun _ => ?_
    dsimp only
    split
    · exact (hP.recordSyncPoll _ _).bind fun _ => emits_pure _
    · refine emits_budgetExhausted.bind fun exhausted => ?_
      split
      · exact (hSave _).bind fun _ => emits_pure _
      · exact emits_pure _

theorem PollWrites.enqueuePoll (job : Job) (priority : Int) : (enqueuePoll env job priority).Emits P :=
  (hP.enqueueJob _ _ _ _).bind fun _ => emits_pure _

theorem PollWrites.continueWithin (s : PollState) (more : Bool) : (continueWithin env s more).Emits P := by
  refine emits_budgetExhausted.bind fun exhausted => ?_
  split
  · exact (hP.enqueuePoll _ _).bind fun _ => emits_pure _
  · exact emits_pure _

theorem PollWrites.fetchDownstreamPage (calls : PollCalls) (s : PollState) :
    (fetchDownstreamPage env calls s).Emits P := by
  refine (emits_query _).bind fun sync => (emits_query _).bind fun page =>
    emits_consumeBudget.bind fun _ => ?_
  split
  · exact (hP.recordSyncPoll _ _).bind fun _ => emits_pure _
  · exact hP.continueWithin _ _

end Polls

/-- The statement leaves the edges as they are. -/
def KeepsEdges (i : Stmt) : Prop := ∀ db, (exec i db).edges = db.edges

theorem keepsEdges_of_isCounter (i : Stmt) (h : i.isCounter) : KeepsEdges i := fun db => by
  cases i with
  | edge s => cases h
  | _ => rfl

theorem pollWrites_keepsEdges : PollWrites KeepsEdges where
  counter := keepsEdges_of_isCounter
  seen _ _ := rfl
  job _ _ _ _ _ := rfl
  sync _ _ _ := rfl

/-- An operation without statements on edges leaves the edges as they are. -/
theorem edges_final {α : Type} {p : StoreM α} (h : p.Emits KeepsEdges) (db : Db) (c : Ctl Mem Err) :
    (p.final db c).edges = db.edges :=
  replay_frame (f := Db.edges) (h db c) db

/-- A condition of the statements of the jobs that trace. -/
structure JobWrites (P : Stmt → Prop) : Prop extends TraceWrites P where
  edge : ∀ data, P (.edge (.upsert data))
  seen : ∀ a, P (.address (.upsert { address := a }))
  child : ∀ a, P (.address (.upsert { address := a, expandStatus := some .maxDepth }))
  status : ∀ a status, status ≠ .maxDepth → P (.address (.setExpandStatus a status))
  job : ∀ job priority runAt createdAt, P (.job (.insert job priority runAt createdAt))
  sync : ∀ a row, P (.syncState a row)

/-- The job traces transactions. -/
def isTraceJob : Job → Bool
  | .backfillHackerAddress _ | .expandDownstream _ | .pollHackerAddress _ => true
  | .pollDownstreamAddress _ | .processTx _ | .refreshLiveBalance _ => true
  | _ => false

section Writes

variable {P : Stmt → Prop} (hP : JobWrites P) {env : Env}

include hP

theorem JobWrites.poll : PollWrites P := ⟨hP.counter, hP.seen, hP.job, hP.sync⟩

theorem JobWrites.setExpandStatus {address : Address} {status : ExpandStatus} (h : status ≠ .maxDepth) :
    (setExpandStatus address status).Emits P :=
  emits_setExpandStatus hP.counter (hP.status address status h)

theorem JobWrites.processEntry {address : Address} {hop : Nat} {entry : PendingTxRuntime}
    {hackers : List Address} {state : TraceProcessState} {opts : ProcessEntryOpts} :
    (processClassifiedPendingTx env address hop entry hackers state opts).Emits P :=
  emits_processClassifiedPendingTx (Q := fun _ => True) hP.toTraceWrites (fun data _ => hP.edge data)
    trivial trivial fun _ _ => trivial

theorem JobWrites.upsertBackfillState (address : Address) (payload : Option BackfillPayload)
    (complete : Bool) : (upsertBackfillState address payload complete).Emits P :=
  (emits_query _).bind fun _ => emits_run (hP.sync _ _)

omit hP in
theorem emits_withD1QuotaContinuationSave {α : Type} {save : StoreM Unit} {body : StoreM α}
    (hSave : save.Emits P) (hBody : body.Emits P) : (withD1QuotaContinuationSave save body).Emits P :=
  hBody.tryCatch fun e => (emits_when fun _ => hSave).bind fun _ => emits_throw e

/-! ## Backfills -/

theorem JobWrites.enqueueBackfillContinuation (payload : BackfillPayload) (enqueueContinuation : Bool) :
    (enqueueBackfillContinuation env payload enqueueContinuation).Emits P :=
  (hP.upsertBackfillState _ _ _).bind fun _ => emits_when fun _ =>
    (hP.poll.enqueueJob _ _ _ _).bind fun _ => emits_pure _

theorem JobWrites.backfillLoop (b : BackfillRun) (entries : List PendingTxRuntime) (l : EntryLoop) :
    (backfillLoop env b entries l).Emits P := by
  induction entries generalizing l with
  | nil => exact emits_pure _
  | cons entry rest ih =>
    refine emits_canProcess.bind fun ready => ?_
    split
    · exact emits_pure _
    split
    · exact ih _
    have hEntry : (b.processEntry env entry l).Emits P :=
      emits_withD1QuotaContinuationSave (hP.enqueueBackfillContinuation _ _) hP.processEntry
    refine hEntry.bind fun result => (emits_when fun _ => emits_consumeBudget).bind fun _ => ?_
    split
    · exact (hP.enqueueBackfillContinuation _ _).bind fun _ => emits_pure _
    · refine emits_mustStop.bind fun stop => ?_
      dsimp only
      split
      · exact emits_pure _
      · exact ih _

theorem JobWrites.finishBackfill (b : BackfillRun) (l : EntryLoop) : (b.finish env l).Emits P := by
  unfold BackfillRun.finish
  split
  · exact hP.enqueueBackfillContinuation _ _
  · exact (emits_when fun _ => hP.poll.recordSyncPoll _ _).bind fun _ =>
      (hP.upsertBackfillState _ _ _).bind fun _ => hP.setExpandStatus (by decide)

theorem JobWrites.backfillHacker (raw : BackfillPayload) (hackers : Option (List Address))
    (enqueueContinuation : Bool) : (backfillHacker env raw hackers enqueueContinuation).Emits P := by
  have hPayload : (hydrateBackfillPayload raw).Emits P := by
    unfold hydrateBackfillPayload
    dsimp only
    split
    · exact emits_pure _
    · exact Emits.bind ((emits_query _).bind fun row => emits_pure _) fun saved => emits_pure _
  have hFetch : ∀ address h, (fetchForBackfill env address h).Emits P := by
    intro address h
    refine emits_canCallAndUse.bind fun ready => ?_
    split
    · exact (emits_fetchAddressTxPage _ _ _).bind fun txs => emits_consumeBudget.bind fun _ =>
        emits_budgetsExhausted.bind fun exhausted => emits_pure _
    · exact emits_pure _
  refine hPayload.bind fun payload => (emits_givenHackers hackers).bind fun hackers =>
    (hP.setExpandStatus (by decide)).bind fun _ => (emits_createChainCallBudget env).bind fun _ =>
      (hFetch _ _).bind fun fetched => ?_
  split
  · exact hP.enqueueBackfillContinuation _ _
  · refine (emits_processLimit _ _).bind fun limit => (emits_query _).bind fun addrRow => ?_
    exact (hP.backfillLoop _ _ _).bind fun stopped => emits_forEach fun l _ => hP.finishBackfill _ l

/-! ## Expansions -/

theorem JobWrites.enqueueExpandContinuation (payload : ExpandPayload) :
    (enqueueExpandContinuation env payload).Emits P :=
  (hP.poll.enqueueJob _ _ _ _).bind fun _ => emits_when fun _ => (emits_query _).bind fun _ => emits_throw _

theorem JobWrites.expandLoop (x : ExpandRun) (entries : List PendingTxRuntime) (l : EntryLoop) :
    (expandLoop env x entries l).Emits P := by
  induction entries generalizing l with
  | nil => exact emits_pure _
  | cons entry rest ih =>
    refine emits_canProcess.bind fun ready => ?_
    split
    · exact emits_pure _
    have hEntry : (x.processEntry env entry l).Emits P :=
      emits_withD1QuotaContinuationSave (hP.enqueueExpandContinuation _) hP.processEntry
    refine hEntry.bind fun result => (emits_when fun _ => emits_consumeBudget).bind fun _ => ?_
    split
    · exact (hP.enqueueExpandContinuation _).bind fun _ => emits_pure _
    · refine emits_mustStop.bind fun stop => ?_
      dsimp only
      split
      · exact emits_pure _
      · exact ih _

theorem JobWrites.finishExpand (x : ExpandRun) (l : EntryLoop) : (x.finish env l).Emits P := by
  have hClose : (closeChildren env x.payload.address).Emits P :=
    (emits_query _).bind fun children => emits_forEach fun child _ =>
      emits_upsertAddress hP.counter (hP.child child)
  unfold ExpandRun.finish
  dsimp only
  split
  · exact hP.enqueueExpandContinuation _
  · exact (hP.setExpandStatus (by decide)).bind fun _ =>
      (emits_when fun _ => hP.poll.recordSyncPoll _ _).bind fun _ => emits_when fun _ => hClose

theorem JobWrites.expandDownstream (payload : ExpandPayload) (hackers : Option (List Address)) :
    (expandDownstream env payload hackers).Emits P := by
  have hFetch : ∀ address h, (fetchForExpand env address h).Emits P := by
    intro address h
    refine emits_canCallAndUse.bind fun ready => ?_
    split
    · exact (emits_fetchAddressTxPage _ _ _).bind fun txs => emits_consumeBudget.bind fun _ =>
        (emits_when fun _ => emits_when fun _ => emits_setExpandProfile hP.toTraceWrites _ _).bind fun _ =>
          emits_budgetsExhausted.bind fun exhausted => emits_pure _
    · exact emits_pure _
  refine (emits_query _).bind fun addr => ?_
  split
  · refine (emits_givenHackers hackers).bind fun hackers => (hP.setExpandStatus (by decide)).bind fun _ =>
      (emits_createChainCallBudget env).bind fun _ => (hFetch _ _).bind fun fetched => ?_
    split
    · exact hP.enqueueExpandContinuation _
    · refine (emits_processLimit _ _).bind fun limit => (hP.expandLoop _ _ _).bind fun stopped => ?_
      exact emits_forEach fun l _ => hP.finishExpand _ l
  · exact hP.setExpandStatus (by decide)

/-! ## Polls -/

theorem JobWrites.processHackerPoll (hackers : Option (List Address)) (s : PollState) :
    (processHackerPoll env hackers s).Emits P := by
  have hLoop : ∀ hackers limit entries processed s,
      (pollHackerLoop env hackers limit entries processed s).Emits P := by
    intro hackers limit entries
    induction entries with
    | nil => exact fun _ _ => emits_pure _
    | cons entry rest ih =>
      intro processed s
      refine emits_canCall.bind fun ready => emits_readCpuGuard.bind fun guard => ?_
      split
      · exact emits_pure _
      · refine (emits_withD1QuotaContinuationSave (hP.poll.enqueuePoll _ _) hP.processEntry).bind fun result =>
          (emits_when fun _ => emits_consumeBudget).bind fun _ => emits_budgetExhausted.bind fun exhausted => ?_
        split
        · exact emits_pure _
        · exact ih _ _
  refine (emits_givenHackers hackers).bind fun hackers => (emits_processLimit _ _).bind fun limit =>
    (hLoop _ _ _ _ _).bind fun s' => ?_
  unfold finishHackerPoll
  split
  · exact hP.poll.enqueuePoll _ _
  split
  · exact hP.poll.recordSyncPoll _ _
  · exact emits_when fun _ => hP.poll.recordSyncPoll _ _

theorem JobWrites.pollHacker (calls : PollCalls) (raw : PollPayload) (hackers : Option (List Address)) :
    (pollHacker env calls raw hackers).Emits P := by
  have hFetch : ∀ s, (fetchHackerPage env calls s).Emits P := by
    intro s
    refine (emits_query _).bind fun sync => (emits_query _).bind fun page =>
      emits_consumeBudget.bind fun _ => ?_
    split
    · exact (hP.poll.recordSyncPoll _ _).bind fun _ => emits_pure _
    · dsimp only
      split
      · exact (hP.poll.recordSyncPoll _ _).bind fun _ => emits_pure _
      · refine emits_budgetExhausted.bind fun exhausted => ?_
        split
        · exact (hP.poll.enqueuePoll _ _).bind fun _ => emits_pure _
        · exact emits_pure _
  refine (emits_createChainCallBudget env).bind fun _ => emits_canCall.bind fun ready => ?_
  split
  · refine (hP.poll.probePoll (fun s => hP.poll.enqueuePoll _ _) calls _).bind fun probed => ?_
    refine Emits.bind ?_ fun fetched => emits_forEach fun s _ => hP.processHackerPoll hackers s
    cases probed with
    | none => exact emits_pure _
    | some s => exact hFetch s
  · exact hP.processHackerPoll hackers _

theorem JobWrites.checkGap (calls : PollCalls) (needsProcess : Bool) (s : PollState) :
    (checkGap env calls needsProcess s).Emits P := by
  refine emits_canCall.bind fun ready => ?_
  split
  · refine (emits_query _).bind fun stats => emits_consumeBudget.bind fun _ =>
      (hP.poll.applyAddressStats _ _).bind fun observed => (emits_query _).bind fun indexedOut => ?_
    dsimp only
    split
    · split <;> exact (hP.poll.recordSyncPoll _ _).bind fun _ => emits_pure _
    · exact hP.poll.continueWithin _ _
  · exact emits_pure _

theorem JobWrites.fillGap (calls : PollCalls) (s : PollState) : (fillGap env calls s).Emits P := by
  refine emits_canCall.bind fun ready => ?_
  dsimp only
  split
  · exact (emits_fetchAddressTxPage _ _ _).bind fun txs => emits_consumeBudget.bind fun _ =>
      hP.poll.continueWithin _ _
  · exact emits_pure _

theorem JobWrites.processBatch (hackers : List Address) (addr : Option AddressRow) (s : PollState) :
    (processBatch env hackers addr s).Emits P := by
  have hTxs : ∀ address hop maxCalls profile entries calls trace,
      (processAddressTxs env address hackers hop maxCalls profile entries calls trace).Emits P := by
    intro address hop maxCalls profile entries
    induction entries with
    | nil => exact fun _ _ => emits_pure _
    | cons entry rest ih =>
      intro calls trace
      refine emits_readCpuGuard.bind fun guard => ?_
      split
      · exact emits_pure _
      · refine hP.processEntry.bind fun result => ?_
        split
        · exact emits_pure _
        · exact ih _ _
  refine (emits_processLimit _ _).bind fun limit => emits_canCall.bind fun ready =>
    emits_readCpuGuard.bind fun guard => ?_
  dsimp only
  refine Emits.bind (emits_when fun _ => ?_) fun _ => emits_pure _
  exact (emits_withD1QuotaContinuationSave (hP.poll.enqueuePoll _ _) (hTxs _ _ _ _ _ _ _)).bind fun _ =>
    emits_consumeBudget

theorem JobWrites.processDownstreamPoll (calls : PollCalls) (hackers : Option (List Address))
    (addr : Option AddressRow) (needsProcess : Bool) (s : PollState) :
    (processDownstreamPoll env calls hackers addr needsProcess s).Emits P := by
  refine (hP.checkGap calls needsProcess s).bind fun checked => Emits.bind ?_ fun filled =>
    emits_forEach fun s' _ => (emits_givenHackers hackers).bind fun hackers =>
      (hP.processBatch hackers addr s').bind fun s'' => ?_
  · cases checked with
    | none => exact emits_pure _
    | some s => exact hP.fillGap calls s
  · unfold finishDownstreamPoll
    dsimp only
    split
    · exact hP.poll.enqueuePoll _ _
    split
    · exact hP.poll.recordSyncPoll _ _
    · exact emits_when fun _ => hP.poll.recordSyncPoll _ _

theorem JobWrites.pollDownstream (calls : PollCalls) (raw : PollPayload)
    (hackers : Option (List Address)) : (pollDownstream env calls raw hackers).Emits P := by
  refine (emits_query _).bind fun addr => emits_when fun _ => ?_
  refine (emits_createChainCallBudget env).bind fun _ => emits_canCall.bind fun ready => ?_
  split
  · refine (hP.poll.probePoll (fun s => hP.poll.enqueuePoll _ _) calls _).bind fun probed => ?_
    refine Emits.bind ?_ fun fetched => emits_forEach fun s _ => hP.processDownstreamPoll calls hackers addr _ s
    cases probed with
    | none => exact emits_pure _
    | some s => exact hP.poll.fetchDownstreamPage calls s
  · exact hP.processDownstreamPoll calls hackers addr _ _

/-! ## Jobs -/

/-- What a job that traces writes. -/
theorem emits_work (inputs : JobInputs) {job : Job} (hJob : isTraceJob job = true) :
    (JobRun.work env inputs job).Emits P := by
  cases job with
  | backfillHackerAddress payload => exact hP.backfillHacker _ _ _
  | expandDownstream payload => exact hP.expandDownstream _ _
  | pollHackerAddress payload => exact hP.pollHacker _ _ _
  | pollDownstreamAddress payload => exact hP.pollDownstream _ _ _
  | processTx txid =>
    exact (emits_givenHackers _).bind fun hackers =>
      (emits_processTxForHackTrace hP.toTraceWrites env hackers _ fun data _ => hP.edge data).bind fun _ =>
        emits_pure _
  | refreshLiveBalance address =>
    exact (emits_query _).bind fun stats => (hP.poll.applyAddressStats _ _).bind fun _ => emits_pure _
  | _ => cases hJob

end Writes

end Bloodhound.Indexer
