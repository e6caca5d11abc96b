import Bloodhound.Lib.Triple
import Bloodhound.Indexer.JobRun

/-!
# The statements of traces

Every statement of a trace satisfies a condition that holds of the kinds of statements a trace is made of:
counters, upserts of victims and of downstream addresses, sums of addresses, peaks, transactions, and the
upserts of edges, which are told apart (`emits_processClassifiedPendingTx`).
-/

namespace Bloodhound.Indexer

open Chain Store Bloodhound.Graph
open Journal Journal.Op

/-- The upsert of a target of a trace: it flags no address, and it ends no crawl. -/
structure DownstreamUpsert (data : AddressUpsertData) : Prop where
  role : data.role = some .downstream
  flag : data.isFlaggedHacker = none
  status : data.expandStatus ≠ some .maxDepth

/-- A condition of the statements of traces, edges apart. -/
structure TraceWrites (P : Stmt → Prop) : Prop where
  counter : ∀ i : Stmt, i.isCounter → P i
  victim : ∀ a, P (.address (.upsert (victimRow a)))
  downstream : ∀ data, DownstreamUpsert data → P (.address (.upsert data))
  profile : ∀ a profile, P (.address (.setExpandProfile a profile))
  inbound : ∀ a d, P (.address (.addInboundSats a d))
  received : ∀ a d, P (.address (.addTotalReceivedSats a d))
  peak : ∀ s, P (.peak s)
  totals : ∀ totalIn totalOut, P (.scheduler (.adjustEdgeTotals totalIn totalOut))
  transaction : ∀ data, P (.transaction data)

section Writes

variable {P : Stmt → Prop} (hP : TraceWrites P)

include hP

/-! ## Addresses -/

omit hP in
theorem emits_upsertAddressesBatch (hCounter : ∀ i : Stmt, i.isCounter → P i) (env : Env)
    {rows : List AddressUpsertData} (h : ∀ data ∈ rows, P (.address (.upsert data))) :
    (upsertAddressesBatch env rows).Emits P := by
  have hChunk : ∀ chunk ∈ chunkArray env.store.d1BatchSize rows,
      (executeSqlBatch env (chunk.map fun data => .address (.upsert data))).Emits P := by
    intro chunk hMem
    refine emits_executeSqlBatch env fun i hi => ?_
    obtain ⟨data, hData, rfl⟩ := List.mem_map.mp hi
    refine h data ?_
    rw [← flatten_chunkArray env.store.d1BatchSize rows]
    exact List.mem_flatten_of_mem hMem hData
  refine emits_when fun _ => (emits_query _).bind fun before =>
    (emits_forEach hChunk).bind fun _ => ?_
  refine (emits_when fun _ => emits_run (hCounter _ rfl)).bind fun _ => (emits_query _).bind fun after => ?_
  refine Emits.bind (emits_forEach fun address _ => ?_) fun _ => emits_adjustCounter hCounter _ _
  exact (emits_forEach fun row _ => emits_applyAddressStatsDelta hCounter _ _).bind
    fun _ => emits_maybeMarkMonitorSnapshotDirty hCounter _ _

omit hP in
theorem emits_setExpandStatus (hCounter : ∀ i : Stmt, i.isCounter → P i) {address : Address}
    {status : ExpandStatus} (h : P (.address (.setExpandStatus address status))) :
    (setExpandStatus address status).Emits P := by
  refine (emits_query _).bind fun existing => (emits_run h).bind fun _ =>
    emits_forEach fun row _ => (emits_adjustCounter hCounter _ _).bind fun _ => ?_
  refine (emits_adjustOnChange (emits_adjustCounter hCounter _) _ _).bind fun _ => ?_
  exact (emits_query _).bind fun updated => emits_forEach fun after _ =>
    emits_maybeMarkMonitorSnapshotDirty hCounter _ _

theorem emits_setExpandProfile (address : Address) (profile : ExpandProfile) :
    (setExpandProfile address profile).Emits P := emits_run (hP.profile _ _)

theorem emits_applyInboundSatsDelta (a : Address) (d : Int) : (applyInboundSatsDelta a d).Emits P := by
  refine emits_when fun _ => (emits_query _).bind fun existing => (emits_query _).bind fun state =>
    (emits_run (hP.inbound _ _)).bind fun _ => emits_forEach fun row _ => ?_
  exact emits_when fun _ => (emits_query _).bind fun sync => emits_now.bind fun nowMs =>
    emits_when fun _ => emits_adjustPollDueOrMarkDirty hP.counter _ _ _ _

theorem emits_applyTotalReceivedDelta (a : Address) (d : Int) :
    (applyTotalReceivedDelta a d).Emits P := by
  have hActive : ∀ before after d, (adjustHackerActive before after d).Emits P :=
    fun before after d => (emits_adjustCounter hP.counter _ _).bind fun _ => emits_forEach fun _ _ =>
      emits_when fun _ => emits_adjustHackStatsCounter hP.counter _ _ _
  refine emits_when fun _ => (emits_query _).bind fun before => (emits_run (hP.received _ _)).bind fun _ =>
    emits_forEach fun row _ => ?_
  exact (emits_adjustOnChange (hActive _ _) _ _).bind fun _ =>
    emits_when fun _ => emits_adjustHackStatsCounter hP.counter _ _ _

/-! ## Edges -/

theorem emits_applyEdgeDeltas (old : EdgeKey → Option Int) (chunk : List EdgeUpsertData) :
    (applyEdgeDeltas old chunk).Emits P := by
  have hPeak : ∀ h s new old, (applyHackerVictimPeakDelta h s new old).Emits P := by
    intro h s new old
    refine emits_when fun _ => ?_
    split
    · exact emits_run (hP.peak _)
    · exact (emits_query _).bind fun peak => emits_when fun _ => (emits_query _).bind fun v =>
        emits_run (hP.peak _)
  refine (emits_forEach fun e _ => emits_applyTotalReceivedDelta hP e.1 e.2).bind fun _ =>
    (emits_forEach fun e _ => emits_applyInboundSatsDelta hP e.1 e.2).bind fun _ => ?_
  refine Emits.bind (emits_when fun _ => (emits_query _).bind fun hackers =>
    emits_forEach fun row _ => emits_forEach fun hacker _ => ?_) fun _ =>
    emits_forEach fun row _ => (hPeak _ _ _ _).tryCatch fun _ => emits_pure ()
  exact (emits_tryInsertHackVictim hP.counter _ _).bind fun _ =>
    emits_when fun _ => emits_adjustHackStatsCounter hP.counter _ _ _

theorem emits_upsertEdgesChunk (env : Env) {chunk : List EdgeUpsertData}
    (h : ∀ data ∈ chunk, P (.edge (.upsert data))) : (upsertEdgesChunk env chunk).Emits P := by
  have hRows : (executeSqlBatch env (chunk.map fun data => .edge (.upsert data))).Emits P := by
    refine emits_executeSqlBatch env fun i hi => ?_
    obtain ⟨data, hData, rfl⟩ := List.mem_map.mp hi
    exact h data hData
  exact (emits_query _).bind fun old => hRows.bind fun _ =>
    (emits_applyEdgeDeltas hP old chunk).bind fun _ => emits_pure _

theorem emits_upsertEdgesChunks (env : Env) {chunks : List (List EdgeUpsertData)}
    (h : ∀ data ∈ chunks.flatten, P (.edge (.upsert data))) (totalIn totalOut : Int) :
    (upsertEdgesChunks env chunks totalIn totalOut).Emits P := by
  induction chunks generalizing totalIn totalOut with
  | nil => exact emits_pure _
  | cons chunk rest ih =>
    rw [List.flatten_cons] at h
    have hChunk := emits_upsertEdgesChunk hP env fun data hData => h data (List.mem_append_left _ hData)
    exact hChunk.bind fun delta => ih (fun data hData => h data (List.mem_append_right _ hData)) _ _

theorem emits_upsertEdgesBatch (env : Env) {rows : List EdgeUpsertData}
    (h : ∀ data ∈ rows, P (.edge (.upsert data))) : (upsertEdgesBatch env rows).Emits P := by
  have hFlat : ∀ data ∈ (chunkArray env.store.d1BatchSize rows).flatten, P (.edge (.upsert data)) := by
    rw [flatten_chunkArray]
    exact h
  exact emits_when fun _ => (emits_upsertEdgesChunks hP env hFlat 0 0).bind fun totals =>
    emits_when fun _ => emits_run (hP.totals _ _)

/-! ## Traces -/

omit hP in
/-- The capture of texts writes rows of transactions only. -/
theorem emits_captureOpReturnForTx (hTransaction : ∀ data, P (.transaction data)) (env : Env) (txid : Txid)
    (given : Option ChainTxDetail) (opts : CaptureOpReturnOpts) :
    (captureOpReturnForTx env txid given opts).Emits P := by
  have hFetch : (fetchForCapture env txid opts).Emits P :=
    (emits_query _).bind fun tx => (emits_when fun _ => emits_mem _).bind fun _ => emits_pure _
  have hSource : (captureSource env txid given opts).Emits P := by
    refine Emits.bind ((emits_mem _).bind fun budget => (emits_mem _).bind fun subreq =>
      (emits_mem _).bind fun guard => emits_pure _) fun fetch => ?_
    split
    · exact hFetch.bind fun tx => emits_pure _
    · exact emits_pure _
  refine (emits_query _).bind fun existing => ?_
  split
  · exact emits_pure _
  · exact hSource.bind fun source => (emits_forEach fun tx _ => emits_run (hTransaction _)).bind
      fun _ => emits_pure _

omit hP in
/-- Only an address without a crawl to end gets a status. -/
theorem expandStatusToWrite_ne_maxDepth (existing : Option ExpandStatus) (inboundSats minExpandSats : Int) :
    expandStatusToWrite existing inboundSats minExpandSats ≠ some .maxDepth := by
  unfold expandStatusToWrite
  split
  · split <;> simp
  · split <;> simp
  · simp

/-- A range of drafts writes edges of its transaction between the ends of its drafts. -/
theorem emits_applySlice (env : Env) (applyMeta : HackTraceApplyMeta) (opts : HackTraceApplyChunkOptions)
    {slice : List HackTraceEdgeDraft} (hEdge : ∀ data, data.txid = applyMeta.txid →
      (∃ e ∈ slice, data.fromAddress = e.fromAddress ∧ data.toAddress = e.toAddress) →
      P (.edge (.upsert data))) : (applySlice env applyMeta opts slice).Emits P := by
  refine (emits_query _).bind fun victimTargets => (emits_query _).bind fun context =>
    (emits_query _).bind fun existing =>
    (emits_upsertAddressesBatch hP.counter env fun data hData => ?_).bind fun _ => ?_
  · obtain ⟨e, _, rfl⟩ := List.mem_map.mp hData
    exact hP.downstream _ ⟨rfl, rfl, expandStatusToWrite_ne_maxDepth _ _ _⟩
  · refine (emits_forEach fun e _ => emits_applyInboundSatsDelta hP e.1 e.2).bind fun _ => ?_
    refine (emits_when fun _ => (emits_when fun _ => emits_query _).bind fun _ =>
      emits_upsertEdgesBatch hP env fun data hData => ?_).bind fun _ => emits_when fun _ => emits_query _
    obtain ⟨e, he, rfl⟩ := List.mem_map.mp hData
    exact hEdge _ rfl ⟨e, (List.mem_filter.mp he).1, rfl, rfl⟩

theorem emits_applyHackTraceEdgesChunk (env : Env) (applyMeta : HackTraceApplyMeta)
    {input : HackTraceApplyInput} (opts : HackTraceApplyChunkOptions)
    (hEdge : ∀ data, data.txid = applyMeta.txid →
      (∃ e ∈ input.flat, data.fromAddress = e.fromAddress ∧ data.toAddress = e.toAddress) →
      P (.edge (.upsert data))) : (applyHackTraceEdgesChunk env applyMeta input opts).Emits P := by
  refine (emits_mem _).bind fun guard => ?_
  split
  · exact emits_pure _
  · refine Emits.bind (emits_when fun _ => (emits_query _).bind fun _ =>
      emits_upsertAddressesBatch hP.counter env fun data hData => ?_) fun _ => ?_
    · obtain ⟨a, _, rfl⟩ := List.mem_map.mp hData
      exact hP.victim a
    · refine Emits.bind (emits_applySlice hP env applyMeta opts fun data hTxid hEnds => ?_)
        fun _ => emits_pure _
      obtain ⟨e, he, hEnds⟩ := hEnds
      exact hEdge data hTxid ⟨e, List.mem_of_mem_take (List.mem_of_mem_drop he), hEnds⟩

theorem emits_processTxForHackTrace (env : Env) {txid : Txid} (hackers : List Address)
    (options : ProcessTxOptions) (hEdge : ∀ data, data.txid = txid → P (.edge (.upsert data))) :
    (processTxForHackTrace env txid hackers options).Emits P := by
  have hFetch : (fetchTraced env txid options.tx).Emits P := by
    unfold fetchTraced
    cases options.tx with
    | none => exact emits_query _
    | some tx => exact emits_pure _
  have hInput : ∀ tx, (traceInput tx hackers options).Emits P := by
    intro tx
    unfold traceInput
    split
    · exact emits_pure _
    · exact (emits_mem _).bind fun _ => emits_pure _
  refine hFetch.bind fun tx => (emits_run (hP.transaction _)).bind fun _ => (hInput tx).bind fun input => ?_
  refine Emits.bind (emits_applyHackTraceEdgesChunk hP env _ _ fun data hTxid _ => hEdge data hTxid)
    fun result => ?_
  exact (emits_captureOpReturnForTx hP.transaction env txid _ _).bind fun _ => emits_pure _

theorem emits_applySpendFanoutSummary (env : Env) {tx : ChainTxDetail} (spender : Address) (hop : Nat)
    (hEdge : ∀ data, data.txid = tx.txid → P (.edge (.upsert data))) :
    (applySpendFanoutSummary env tx spender hop).Emits P := by
  refine (emits_run (hP.transaction _)).bind fun _ => emits_forEach fun primary _ =>
    Emits.bind ?_ fun _ => emits_setExpandProfile hP _ _
  have hTarget : ∀ context sats, P (.address (.upsert (fanoutTargetRow context primary.1 sats hop
      env.config.minExpandSats))) := fun context sats =>
    hP.downstream _ ⟨rfl, rfl, expandStatusToWrite_ne_maxDepth _ _ _⟩
  refine (emits_query _).bind fun context =>
    (emits_upsertAddress hP.counter (hTarget context _)).bind fun _ => ?_
  split
  · exact emits_applyInboundSatsDelta hP _ _
  · refine emits_upsertEdgesBatch hP env fun data hData => ?_
    rw [List.mem_singleton.mp hData]
    exact hEdge _ rfl

end Writes

/-! ## Entries -/

section Capture
variable {P : Stmt → Prop} (hTransaction : ∀ data, P (.transaction data))

include hTransaction

theorem emits_capturePage (env : Env) (page : ChainTxSummary) (txid : Txid)
    (capture : CaptureOpReturnOpts) : (capturePage env page txid capture).Emits P :=
  (emits_captureOpReturnForTx hTransaction env txid _ _).bind fun _ => emits_pure _

theorem emits_patchOpReturnFromPageIfNeeded (env : Env) (entry : PendingTxRuntime)
    (capture : CaptureOpReturnOpts) : (patchOpReturnFromPageIfNeeded env entry capture).Emits P :=
  emits_forEach fun page _ => (emits_query _).bind fun _ =>
    emits_when fun _ => emits_capturePage hTransaction env page _ _

theorem emits_captureIndexed (env : Env) (entry : PendingTxRuntime) (row : TransactionRow)
    (capture : CaptureOpReturnOpts) : (captureIndexed env entry row capture).Emits P :=
  emits_forEach fun page _ => emits_when fun _ => emits_capturePage hTransaction env page _ _

end Capture

section Entry

variable {P : Stmt → Prop} (hP : TraceWrites P) {env : Env} {address : Address} {hop : Nat}
  {entry : PendingTxRuntime} {hackers : List Address} {state : TraceProcessState} {opts : ProcessEntryOpts}

include hP

variable {Q : Txid → Prop} (hEdge : ∀ data, Q data.txid → P (.edge (.upsert data)))
  (hEntry : Q entry.txid)

include hEdge hEntry

theorem emits_processDetail (tx : ChainTxDetail) (calls : Nat) :
    (processDetail env address hop entry tx hackers state opts calls).Emits P := by
  unfold processDetail
  dsimp only
  split
  · exact (emits_captureOpReturnForTx hP.transaction env _ _ _).bind fun _ => emits_pure _
  · split
    · exact emits_pure _
    · refine Emits.bind (emits_processTxForHackTrace hP env _ _ fun data hTxid => ?_) fun trace => ?_
      · rw [← hTxid] at hEntry
        exact hEdge data hEntry
      · split <;> exact emits_pure _

theorem emits_fetchAndProcess (hAnswer : Q (env.provider.getTx entry.txid).txid) :
    (fetchAndProcess env address hop entry hackers state opts).Emits P := by
  unfold fetchAndProcess
  split
  · exact emits_processDetail hP hEdge hEntry _ _
  · -- a fan-out is written under the transaction id of the answer
    refine emits_query_bind fun s => ?_
    split
    · refine Emits.bind (emits_applySpendFanoutSummary hP env address hop fun data hTxid => ?_)
        fun _ => emits_pure _
      rw [← hTxid] at hAnswer
      exact hEdge data hAnswer
    · exact emits_processDetail hP hEdge hEntry _ _

variable (hAnswer : Q (env.provider.getTx entry.txid).txid)
  (hPage : ∀ page, entry.pageEntry = some page → Q page.txid)

include hAnswer hPage

theorem emits_processUnindexed :
    (processUnindexed env address hop entry hackers state opts).Emits P := by
  unfold processUnindexed
  split
  · exact (emits_patchOpReturnFromPageIfNeeded hP.transaction env entry _).bind fun _ => emits_pure _
  · split
    · next pageTx hFanout =>
      have hTx : Q pageTx.txid := by
        unfold pageFanout at hFanout
        split at hFanout
        · obtain ⟨page, hFilter, rfl⟩ := Option.map_eq_some_iff.mp hFanout
          exact hPage page (Option.mem_filter_iff.mp hFilter).1
        · cases hFanout
      refine Emits.bind (emits_applySpendFanoutSummary hP env address hop fun data hTxid => ?_) fun _ =>
        (emits_captureOpReturnForTx hP.transaction env _ _ _).bind fun _ => emits_pure _
      rw [← hTxid] at hTx
      exact hEdge data hTx
    · exact emits_fetchAndProcess hP hEdge hEntry hAnswer

/-- An entry writes edges under its own transaction id, that of its page and that of the answer. -/
theorem emits_processClassifiedPendingTx :
    (processClassifiedPendingTx env address hop entry hackers state opts).Emits P := by
  have hUnskipped : (processUnskipped env address hop entry hackers state opts).Emits P := by
    unfold processUnskipped
    split
    · refine (emits_query _).bind fun indexed => ?_
      cases indexed with
      | some row => exact (emits_captureIndexed hP.transaction env entry row _).bind fun _ => emits_pure _
      | none => exact emits_processUnindexed hP hEdge hEntry hAnswer hPage
    · exact emits_processUnindexed hP hEdge hEntry hAnswer hPage
  unfold processClassifiedPendingTx
  split
  · refine (emits_patchOpReturnFromPageIfNeeded hP.transaction env entry _).bind fun _ => ?_
    split
    · exact emits_pure _
    · exact hUnskipped
  · exact hUnskipped

end Entry

end Bloodhound.Indexer
