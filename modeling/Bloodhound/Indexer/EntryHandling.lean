import Bloodhound.Lib.Leads
import Bloodhound.Indexer.Effects

/-!
# What is done about the edges of an entry

`processClassifiedPendingTx` leaves the edges of an entry alone, summarizes a fan-out, or traces a
transaction. `entryHandling` is that decision as a function of what the code reads, and
`processClassifiedPendingTx_performs` says that the operation comes down to it: all else that it
executes are rows of transactions.
-/

namespace Bloodhound.Indexer

open Chain Store Bloodhound.Graph Journal.Op
open Journal (exec replay)

/-! ## What is done about the edges of an entry -/

/-- An entry is left alone, summarized as a fan-out, or traced. -/
inductive Handling where
  | leave
  | fanout (tx : ChainTxDetail)
  | trace (tx : ChainTxDetail)
  deriving DecidableEq

section Handling
variable (env : Env) (address : Address) (hop : Nat) (entry : PendingTxRuntime)
  (state : TraceProcessState) (opts : ProcessEntryOpts)

def detailHandling (tx : ChainTxDetail) : Handling :=
  let active := state.activeOn entry.txid
  let config := env.config
  if !active && (isSubFloorSpendFromPage (some tx.toSummary) address config.minExpandSats ||
      decide (hop = 0) &&
        isSubFloorReceiveFromPage (some tx.toSummary) address config.minVictimIngestSats) then .leave
  else if !active && !shouldTraceHackerReceive entry.toClassifiedPendingTx config
      (skipOpts address hop entry opts) && !txInvolvesSpend tx address then .leave
  else .trace tx

def fetchHandling : Handling :=
  match entry.pageEntry.filter hasPageVinVout with
  | some page => detailHandling env address hop entry state opts (pageEntryToChainTxDetail page)
  | none =>
    let tx := env.provider.getTx entry.txid
    if isFanout env.config (fanoutEntry entry tx address) (some tx.toSummary) address then .fanout tx
    else detailHandling env address hop entry state opts tx

def skipsGetTx : Bool :=
  shouldSkipGetTx entry.toClassifiedPendingTx address env.config (skipOpts address hop entry opts)

def unindexedHandling : Handling :=
  if skipsGetTx env address hop entry opts then .leave
  else
    match pageFanout env.config entry address with
    | some pageTx => .fanout pageTx
    | none => fetchHandling env address hop entry state opts

/-- `indexed` says whether the transaction has a row when it is looked up. -/
def unskippedHandling (indexed : Bool) : Handling :=
  if !state.activeOn entry.txid && opts.skipIfIndexed && indexed then .leave
  else unindexedHandling env address hop entry state opts

/-- The capture of the texts of a page entry creates the row of its transaction. -/
def pageCreatesRow : Bool := entry.pageEntry.any pageEntryHasOpReturnAsm

/-- What `processClassifiedPendingTx` does about the edges of an entry; `indexed` says whether its
transaction has a row before. -/
def entryHandling (indexed : Bool) : Handling :=
  if !state.activeOn entry.txid && entry.isSpend = some false then
    if skipsGetTx env address hop entry opts then .leave
    else unskippedHandling env address hop entry state opts (indexed || pageCreatesRow entry)
  else unskippedHandling env address hop entry state opts indexed

end Handling

/-! ## The edges of a handling -/

/-- The list that a trace applies: the resumed one, or the one computed from the transaction. -/
def tracedFlat (tx : ChainTxDetail) (hackers : List Address) (options : ProcessTxOptions) :
    List HackTraceEdgeDraft :=
  (resumedFlat options).getD
    (flattenHackTraceEdges (computeHackTraceEdges tx hackers options.spending options.maxGraphEdgesPerTx))

theorem triple_traceInput (tx : ChainTxDetail) (hackers : List Address) (options : ProcessTxOptions) :
    Triple (fun _ => True) (traceInput tx hackers options)
      (fun input _ => input.flat = tracedFlat tx hackers options) fun _ _ => True := by
  unfold traceInput tracedFlat
  cases resumedFlat options with
  | some flat => exact triple_pure _ fun _ _ => rfl
  | none => exact triple_result fun _ => triple_pure _ fun _ _ => rfl

/-- The edge of a fan-out, from the spender to the target of its largest output. -/
def summaryEdges (config : AppConfig) (tx : ChainTxDetail) (spender : Address) (hop : Nat) :
    List HackTraceEdgeDraft :=
  (buildFanoutMeta config tx spender).topOutputs.head?.toList.map fun primary =>
    ⟨spender, primary.1, (buildFanoutMeta config tx spender).totalOutSats, hop + 1, .outFromHacker⟩

section Edges
variable (env : Env) (address : Address) (hop : Nat) (txid : Txid) (hackers : List Address)
  (state : TraceProcessState) (opts : ProcessEntryOpts)

def Handling.edges : Handling → List HackTraceEdgeDraft
  | .leave => []
  | .fanout tx => summaryEdges env.config tx address hop
  | .trace tx =>
    tracedFlat tx hackers (traceOptions env.config state tx txid ⟨address, hop⟩ opts.capture)

/-- The edges that the processing of an entry computes. -/
def entryEdges (entry : PendingTxRuntime) (indexed : Bool) : List HackTraceEdgeDraft :=
  (entryHandling env address hop entry state opts indexed).edges env address hop entry.txid hackers state
    opts

end Edges

/-! ## The operation performs the handling -/

section Performs
variable (env : Env) (address : Address) (hop : Nat) (txid : Txid) (hackers : List Address)
  (state : TraceProcessState) (opts : ProcessEntryOpts)

/-- The operations that an entry comes down to: one that writes no edge, the summary of a fan-out,
the trace of a transaction. -/
def Handling.Ops : Handling → StoreM ProcessClassifiedTxResult → Prop
  | .leave, p => p.Emits Stmt.Quiet
  | .fanout tx, p => ∃ rest : StoreM ProcessClassifiedTxResult, rest.Emits Stmt.Quiet ∧
      p = applySpendFanoutSummary env tx address hop >>= fun _ => rest
  | .trace tx, p => ∃ chainCallsUsed,
      p = traceTx env address hop txid tx hackers state opts chainCallsUsed

/-- The operation passes over statements outside the core and performs the handling. -/
def Performs (db : Db) (p : StoreM ProcessClassifiedTxResult) (handling : Handling) : Prop :=
  p.Leads Stmt.Quiet (handling.Ops env address hop txid hackers state opts) db

end Performs

section Link
variable {env : Env} {address : Address} {hop : Nat} {entry : PendingTxRuntime}
  {hackers : List Address} {state : TraceProcessState} {opts : ProcessEntryOpts}

theorem quiet_transaction (data : TransactionUpsertData) : (Stmt.transaction data).Quiet := rfl

theorem performs_processDetail (tx : ChainTxDetail) (chainCallsUsed : Nat) (db : Db) :
    Performs env address hop entry.txid hackers state opts db
      (processDetail env address hop entry tx hackers state opts chainCallsUsed)
      (detailHandling env address hop entry state opts tx) := by
  unfold processDetail detailHandling
  dsimp only
  split
  · exact leads_refl ((emits_captureOpReturnForTx quiet_transaction _ _ _ _).bind fun _ => emits_pure _)
  · split
    · exact leads_refl (emits_pure _)
    · exact leads_refl ⟨chainCallsUsed, rfl⟩

theorem performs_fetchAndProcess (db : Db) :
    Performs env address hop entry.txid hackers state opts db
      (fetchAndProcess env address hop entry hackers state opts)
      (fetchHandling env address hop entry state opts) := by
  unfold fetchAndProcess fetchHandling
  cases entry.pageEntry.filter hasPageVinVout with
  | some page => exact performs_processDetail _ _ _
  | none =>
    refine leads_query_bind ?_
    dsimp only
    by_cases hFanout : isFanout env.config (fanoutEntry entry (env.provider.getTx entry.txid) address)
        (some (env.provider.getTx entry.txid).toSummary) address = true
    · rw [if_pos hFanout, if_pos hFanout]
      exact leads_refl ⟨pure { chainCallsUsed := 1 }, emits_pure _, rfl⟩
    · rw [if_neg hFanout, if_neg hFanout]
      exact performs_processDetail _ _ _

theorem performs_processUnindexed (db : Db) :
    Performs env address hop entry.txid hackers state opts db
      (processUnindexed env address hop entry hackers state opts)
      (unindexedHandling env address hop entry state opts) := by
  unfold processUnindexed unindexedHandling skipsGetTx
  split
  · have hPatch := emits_patchOpReturnFromPageIfNeeded quiet_transaction env entry opts.capture
    exact leads_refl (hPatch.bind fun _ => emits_pure _)
  · cases pageFanout env.config entry address with
    | some pageTx =>
      have hRest := emits_captureOpReturnForTx quiet_transaction env entry.txid (some pageTx) opts.capture
      exact leads_refl ⟨_, hRest.bind fun _ => emits_pure _, rfl⟩
    | none => exact performs_fetchAndProcess _

theorem performs_processUnskipped (db : Db) :
    Performs env address hop entry.txid hackers state opts db
      (processUnskipped env address hop entry hackers state opts)
      (unskippedHandling env address hop entry state opts
        (db.transactions.lookup entry.txid).isSome) := by
  unfold processUnskipped unskippedHandling
  by_cases hLookup : (!state.activeOn entry.txid && opts.skipIfIndexed) = true
  · rw [if_pos hLookup, hLookup, Bool.true_and]
    refine leads_query_bind ?_
    cases hRow : db.transactions.lookup entry.txid with
    | some row =>
      have hCapture := emits_captureIndexed quiet_transaction env entry row opts.capture
      exact leads_refl (hCapture.bind fun _ => emits_pure _)
    | none => exact performs_processUnindexed _
  · rw [if_neg hLookup, Bool.eq_false_of_not_eq_true hLookup, Bool.false_and]
    exact performs_processUnindexed _

/-- A capture that is given a transaction writes its row, unless there is one with a text. -/
theorem triple_captureOpReturnForTx (txid : Txid) (tx : ChainTxDetail) (capture : CaptureOpReturnOpts) :
    Triple (fun _ => True) (captureOpReturnForTx env txid (some tx) capture)
      (fun _ db => (db.transactions.lookup txid).isSome = true) fun _ _ => True := by
  have hSource : Triple (fun _ : Db => True) (captureSource env txid (some tx) capture)
      (fun source _ => source.1.isSome = true) fun _ _ => True := by
    refine triple_result fun fetch => ?_
    split
    · exact triple_result fun _ => triple_pure _ fun _ _ => rfl
    · exact triple_pure _ fun _ _ => rfl
  refine Triple.bind (Q := fun existing db => db.transactions.lookup txid = existing)
    (triple_query (fun _ _ => rfl) fun _ _ _ => trivial) fun existing => ?_
  split
  next hText =>
    refine triple_pure _ fun db hRow => ?_
    rw [hRow]
    cases existing with
    | none => cases hText
    | some row => rfl
  next =>
    refine Triple.bind (hSource.pre fun _ _ => trivial) fun source => ?_
    refine (triple_of_fact (P := fun _ => True) fun hSome => ?_).pre fun _ h => ⟨trivial, h⟩
    obtain ⟨found, hFound⟩ := Option.isSome_iff_exists.mp hSome
    rw [hFound]
    refine Triple.bind (Q := fun _ db => (db.transactions.lookup txid).isSome = true) ?_ fun _ =>
      triple_pure _ fun _ h => h
    refine Triple.bind (Q := fun _ db => (db.transactions.lookup txid).isSome = true) ?_ fun _ =>
      triple_pure _ fun _ h => h
    refine triple_run (fun db _ => ?_) fun _ _ _ => trivial
    change ((TransactionUpsertData.exec _ db.transactions).lookup txid).isSome = true
    rw [TransactionUpsertData.exec]
    exact (congrArg Option.isSome (AList.lookup_insert _)).trans rfl

/-- After the capture of its texts the transaction of a page entry has a row. -/
theorem triple_patchOpReturnFromPageIfNeeded (capture : CaptureOpReturnOpts) (indexed : Bool) :
    Triple (fun db => (db.transactions.lookup entry.txid).isSome = indexed)
      (patchOpReturnFromPageIfNeeded env entry capture)
      (fun _ db => (db.transactions.lookup entry.txid).isSome = (indexed || pageCreatesRow entry))
      fun _ _ => True := by
  unfold patchOpReturnFromPageIfNeeded pageCreatesRow
  cases hPage : entry.pageEntry.filter pageEntryHasOpReturnAsm with
  | none =>
    have hNone : entry.pageEntry.any pageEntryHasOpReturnAsm = false := by
      cases hEntry : entry.pageEntry with
      | none => rfl
      | some page => simpa [hEntry, Option.filter] using hPage
    rw [hNone]
    exact triple_pure _ fun db h => by rw [h, Bool.or_false]
  | some page =>
    obtain ⟨hEntry, hText⟩ := Option.filter_eq_some_iff.mp hPage
    rw [hEntry, Option.any_some, hText]
    simp only [Bool.or_true]
    refine Triple.bind (Q := fun _ db => (db.transactions.lookup entry.txid).isSome = true) ?_ fun _ =>
      triple_pure _ fun _ h => h
    refine Triple.bind (Q := fun row db => db.transactions.lookup entry.txid = row)
      (triple_query (fun _ _ => rfl) fun _ _ _ => trivial) fun row => ?_
    refine triple_when (fun _ => ?_) fun hShown db hRow => ?_
    · exact Triple.bind ((triple_captureOpReturnForTx _ _ _).pre fun _ _ => trivial) fun _ =>
        triple_pure _ fun _ h => h
    · rw [hRow]
      cases row with
      | none => exact absurd rfl hShown
      | some _ => rfl

/-- An entry comes down to its handling, and so to the edges of it. -/
theorem processClassifiedPendingTx_performs (db : Db) :
    Performs env address hop entry.txid hackers state opts db
      (processClassifiedPendingTx env address hop entry hackers state opts)
      (entryHandling env address hop entry state opts
        (db.transactions.lookup entry.txid).isSome) := by
  unfold processClassifiedPendingTx entryHandling
  split
  · refine leads_bind (emits_patchOpReturnFromPageIfNeeded quiet_transaction _ _ _) fun c _ hPatched => ?_
    unfold skipsGetTx
    split
    · exact leads_refl (emits_pure _)
    · have hRow := (triple_patchOpReturnFromPageIfNeeded opts.capture
        (db.transactions.lookup entry.txid).isSome).ok rfl hPatched
      rw [← hRow]
      exact performs_processUnskipped _
  · exact performs_processUnskipped _

end Link

end Bloodhound.Indexer
