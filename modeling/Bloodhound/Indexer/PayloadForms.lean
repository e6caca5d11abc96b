import Bloodhound.Indexer.EntryHandling

/-!
# Persisted page entries

An entry of an address page is processed at once, or written into a continuation payload and
processed when the job runs again. With the configuration at hand the payload keeps a snapshot of
the page entry of a receive that may be traced (`configured`); without it, the classification only
(`slim`); a payload of the older kind has just the transaction ids (`txids`).

`readPending_entries` says when the processing of a reloaded entry computes the edges of the live one.
-/

namespace Bloodhound.Indexer

open Chain Store Bloodhound.Graph

/-! ## Forms -/

inductive PayloadForm where
  | configured
  | slim
  | txids
  deriving DecidableEq

def PayloadForm.opts (config : AppConfig) : PayloadForm → Option SerializeOpts
  | .configured => some (serializeOpts config)
  | .slim | .txids => none

def PayloadForm.write (config : AppConfig) (form : PayloadForm) (pending : List PendingTxRuntime)
    (processedIndex : Nat) : PendingPayloadFields :=
  let raw := writePendingPayload pending processedIndex (form.opts config)
  if form = .txids then { raw with pendingTxs := [] } else raw

/-- An entry as it is after its payload was reloaded. -/
def PayloadForm.reload (config : AppConfig) (form : PayloadForm) (entry : PendingTxRuntime) :
    PendingTxRuntime :=
  let kept := if form = .txids then { txid := entry.txid } else serializePendingTx (form.opts config) entry
  { kept with pageEntry := kept.pageSnapshot.map (pageSnapshotToSummary kept.txid) }

theorem PayloadForm.txid_reload (config : AppConfig) (form : PayloadForm) (entry : PendingTxRuntime) :
    (form.reload config entry).txid = entry.txid := by
  cases form <;> rfl

/-- Snapshots and classifications keep what the page said about the entry. -/
theorem PayloadForm.classification_reload (config : AppConfig) {form : PayloadForm} (h : form ≠ .txids)
    (entry : PendingTxRuntime) : (form.reload config entry).isSpend = entry.isSpend ∧
      (form.reload config entry).voutCount = entry.voutCount := by
  cases form with
  | configured | slim => exact ⟨rfl, rfl⟩
  | txids => exact absurd rfl h

theorem readPending_write (config : AppConfig) (form : PayloadForm) {pending : List PendingTxRuntime}
    {processedIndex : Nat} (h : processedIndex < pending.length) :
    readPending (form.write config pending processedIndex) = pending.map (form.reload config) := by
  have hPending : pending ≠ [] := fun hNil => by rw [hNil] at h; exact absurd h (Nat.not_lt_zero _)
  have hKept : serializePendingTxs (form.opts config) pending ≠ [] := by
    unfold serializePendingTxs
    exact fun hNil => hPending (List.map_eq_nil_iff.mp hNil)
  unfold PayloadForm.write writePendingPayload readPending parsePendingTxs runtimeFromClassified
  rw [if_pos h]
  by_cases hForm : form = .txids
  · subst hForm
    dsimp only
    rw [if_pos rfl, if_neg (fun hNil => hNil rfl), List.map_map, List.map_map]
    rfl
  · unfold PayloadForm.reload
    dsimp only
    simp only [if_neg hForm]
    rw [if_pos hKept, serializePendingTxs, List.map_map]
    rfl

/-! ## The decision as a whole -/

section Decision
variable (env : Env) (address : Address) (hop : Nat) (entry : PendingTxRuntime)
  (state : TraceProcessState) (opts : ProcessEntryOpts) (tx : ChainTxDetail)

/-- The transaction is a fan-out when it is classified again. -/
def fansOut : Bool := isFanout env.config (fanoutEntry entry tx address) (some tx.toSummary) address

/-- Its amounts are below the floors. -/
def belowFloors : Bool :=
  isSubFloorSpendFromPage (some tx.toSummary) address env.config.minExpandSats ||
    decide (hop = 0) &&
      isSubFloorReceiveFromPage (some tx.toSummary) address env.config.minVictimIngestSats

def traces : Bool :=
  shouldTraceHackerReceive entry.toClassifiedPendingTx env.config (skipOpts address hop entry opts)

/-- The entry is skipped because its transaction has a row, which the entry itself may have created. -/
def skipsIndexed (indexed : Bool) : Bool :=
  !state.activeOn entry.txid && opts.skipIfIndexed &&
    (indexed || decide (entry.isSpend = some false) && pageCreatesRow entry)

/-- The edges of the transaction are computed. -/
def proceeds (indexed : Bool) : Bool :=
  !skipsIndexed entry state opts indexed && !skipsGetTx env address hop entry opts &&
    (fansOut env address entry tx || state.activeOn entry.txid ||
      !belowFloors env address hop tx && (traces env address hop entry opts || txInvolvesSpend tx address))

/-- What is done about a transaction whose edges are computed. -/
def plainHandling : Handling := if fansOut env address entry tx then .fanout tx else .trace tx

/-- The entry is for a transaction: its page shows it, classified as its details are, or it is fetched. -/
structure Shows : Prop where
  page : ∀ page, entry.pageEntry.filter hasPageVinVout = some page →
    pageEntryToChainTxDetail page = tx ∧
      isFanout env.config entry.toClassifiedPendingTx (some page) address = fansOut env address entry tx
  fetched : entry.pageEntry.filter hasPageVinVout = none → env.provider.getTx entry.txid = tx

end Decision

section Plain
variable {env : Env} {address : Address} {hop : Nat} {entry : PendingTxRuntime}
  {state : TraceProcessState} {opts : ProcessEntryOpts} {tx : ChainTxDetail}

theorem detailHandling_eq : detailHandling env address hop entry state opts tx =
    if state.activeOn entry.txid || !belowFloors env address hop tx &&
      (traces env address hop entry opts || txInvolvesSpend tx address) then .trace tx else .leave := by
  unfold detailHandling belowFloors traces
  dsimp only
  cases state.activeOn entry.txid <;> grind

theorem unindexedHandling_eq (h : Shows env address entry tx) :
    unindexedHandling env address hop entry state opts =
      if skipsGetTx env address hop entry opts then .leave
      else if fansOut env address entry tx then .fanout tx
      else detailHandling env address hop entry state opts tx := by
  unfold unindexedHandling pageFanout spendFanoutTxFromPage fetchHandling
  cases hPage : entry.pageEntry.filter hasPageVinVout with
  | none =>
    rw [h.fetched hPage]
    simp only [Option.map_none, ite_self]
    rfl
  | some page =>
    obtain ⟨hDetail, hFanout⟩ := h.page page hPage
    have hEntry : entry.pageEntry = some page := (Option.filter_eq_some_iff.mp hPage).1
    rw [hEntry, hFanout]
    cases fansOut env address entry tx with
    | true => simp [hDetail]
    | false => simp [hDetail]

/-- An entry computes the edges of its transaction, or none. -/
theorem entryEdges_eq (hackers : List Address) (indexed : Bool) (h : Shows env address entry tx) :
    entryEdges env address hop hackers state opts entry indexed =
      if proceeds env address hop entry state opts tx indexed then
        (plainHandling env address entry tx).edges env address hop entry.txid hackers state opts
      else [] := by
  have hHandling : entryHandling env address hop entry state opts indexed =
      if proceeds env address hop entry state opts tx indexed then plainHandling env address entry tx
      else .leave := by
    unfold entryHandling unskippedHandling proceeds plainHandling skipsIndexed
    rw [unindexedHandling_eq h, detailHandling_eq]
    grind
  unfold entryEdges
  rw [hHandling]
  split <;> rfl

end Plain

/-! ## Live and reloaded entries -/

/-- The entry that `classifyPageTxs` makes of a page entry. -/
def liveEntry (page : ChainTxSummary) (address : Address) : PendingTxRuntime :=
  { classifyPageTx page address with pageEntry := some page }

/-- A transaction as a snapshot of it shows it: no input is marked as a coinbase. -/
def snapshotDetail (tx : ChainTxDetail) : ChainTxDetail :=
  { tx with vin := tx.vin.map fun i => { prevout := i.prevout } }

theorem pageEntryToChainTxDetail_snapshot (page : ChainTxSummary) :
    pageEntryToChainTxDetail (pageSnapshotToSummary page.txid (compactPageSnapshot page)) =
      snapshotDetail (pageEntryToChainTxDetail page) := by
  unfold pageEntryToChainTxDetail pageSnapshotToSummary compactPageSnapshot snapshotDetail
  dsimp only [Option.getD_some]
  rw [List.map_map]
  rfl

section Snapshot
variable {config : AppConfig} {env : Env} {address : Address} {hop : Nat} {tx : ChainTxDetail}

theorem txInvolvesSpend_snapshotDetail :
    txInvolvesSpend (snapshotDetail tx) address = txInvolvesSpend tx address := by
  unfold txInvolvesSpend snapshotDetail
  rw [List.any_map]
  rfl

theorem belowFloors_snapshotDetail :
    belowFloors env address hop (snapshotDetail tx) = belowFloors env address hop tx := by
  unfold belowFloors isSubFloorSpendFromPage isSubFloorReceiveFromPage txInvolvesSpendFromPage pageSpendSats
    pageReceiveSats snapshotDetail ChainTxDetail.toSummary
  simp only [Option.any_some, Option.getD_some, List.any_map, List.map_map, ne_eq, List.map_eq_nil_iff,
    Function.comp_def]

/-- A coinbase input shows no output that it spends. -/
def CoinbaseBlank (page : ChainTxSummary) : Prop :=
  ∀ i ∈ page.vin.getD [], i.isCoinbase = true → i.prevout = none

theorem computeHackTraceEdges_snapshotDetail {page : ChainTxSummary} (h : CoinbaseBlank page)
    (hackers : List Address) (spending : Option Spender) (maxEdges : Option Nat) :
    computeHackTraceEdges (snapshotDetail (pageEntryToChainTxDetail page)) hackers spending maxEdges =
      computeHackTraceEdges (pageEntryToChainTxDetail page) hackers spending maxEdges := by
  have hInputs : inputAddresses (snapshotDetail (pageEntryToChainTxDetail page)) =
      inputAddresses (pageEntryToChainTxDetail page) := by
    unfold inputAddresses snapshotDetail
    rw [List.filterMap_map]
    rfl
  have hVictims : victimInputAmounts (snapshotDetail (pageEntryToChainTxDetail page)) hackers =
      victimInputAmounts (pageEntryToChainTxDetail page) hackers := by
    unfold victimInputAmounts snapshotDetail
    rw [List.filterMap_map]
    refine List.filterMap_congr fun i hi => ?_
    dsimp only [Function.comp_apply]
    cases hFlag : i.isCoinbase with
    | false => rfl
    | true => rw [h i hi hFlag]; rfl
  unfold computeHackTraceEdges aggregateInputsByAddress
  rw [hInputs, hVictims]
  rfl

end Snapshot

section Entries
variable {env : Env} {address : Address} {hop : Nat} {hackers : List Address}
  {state : TraceProcessState} {opts : ProcessEntryOpts} {page : ChainTxSummary}

theorem shows_liveEntry (hGet : env.provider.getTx page.txid = pageEntryToChainTxDetail page) :
    Shows env address (liveEntry page address) (pageEntryToChainTxDetail page) where
  page shown hPage := by
    obtain ⟨hShown, hFull⟩ := Option.filter_eq_some_iff.mp hPage
    cases Option.some.inj hShown
    refine ⟨rfl, ?_⟩
    have hVin : page.vin.getD [] ≠ [] := by
      unfold hasPageVinVout at hFull
      simp only [ne_eq, Bool.and_eq_true, decide_eq_true_eq] at hFull
      exact hFull.1
    unfold fansOut isFanout isSpendFanout fanoutEntry liveEntry classifyPageTx
    simp only [if_neg hVin]
    rfl
  fetched _ := hGet

theorem shows_of_pageEntry_none {entry : PendingTxRuntime} (hNone : entry.pageEntry = none)
    (hTxid : entry.txid = page.txid)
    (hGet : env.provider.getTx page.txid = pageEntryToChainTxDetail page) :
    Shows env address entry (pageEntryToChainTxDetail page) where
  page shown hPage := by rw [hNone] at hPage; cases hPage
  fetched _ := by rw [hTxid, hGet]

/-- A transaction that lacks inputs or outputs has no edges. -/
theorem flattenHackTraceEdges_of_blank {tx : ChainTxDetail} (hBlank : tx.vin = [] ∨ tx.vout = [])
    (hackers : List Address) (spending : Option Spender) (maxEdges : Option Nat) :
    flattenHackTraceEdges (computeHackTraceEdges tx hackers spending maxEdges) = [] := by
  have hIn : ((aggregateInputsByAddress tx hackers).flatMap fun e =>
      inEdgesOf ((aggregateHackerOutputs tx hackers).filter (0 < ·.2)) e.1 e.2) = [] := by
    rcases hBlank with hVin | hVout
    · unfold aggregateInputsByAddress victimInputAmounts
      rw [hVin]
      rfl
    · unfold aggregateHackerOutputs hackerOutputAmounts
      rw [hVout]
      exact List.flatMap_eq_nil_iff.mpr fun _ _ => rfl
  have hOut : (collectSpenders (inputAddresses tx) hackers spending).flatMap
      (outEdgesOf (outputAddresses tx)) = [] := by
    rcases hBlank with hVin | hVout
    · unfold inputAddresses
      rw [hVin]
      cases spending with
      | none => rfl
      | some s => rw [collectSpenders, List.filterMap_nil, if_neg fun h => nomatch h.1]; rfl
    · unfold outputAddresses outputAmounts
      rw [hVout]
      exact List.flatMap_eq_nil_iff.mpr fun _ _ => rfl
  unfold computeHackTraceEdges flattenHackTraceEdges
  dsimp only
  rw [hIn, hOut, List.nil_append]
  cases maxEdges with
  | none => rfl
  | some n => exact List.take_nil

theorem fansOut_eq_false {entry : PendingTxRuntime} {tx : ChainTxDetail}
    (h : txInvolvesSpend tx address = false) : fansOut env address entry tx = false := by
  unfold fansOut isFanout isSpendFanout fanoutEntry
  rw [h]
  rfl

theorem edges_plainHandling_of_blank {entry : PendingTxRuntime} {tx : ChainTxDetail} {txid : Txid}
    (hActive : state.activeOn txid = false) (hBlank : tx.vin = [] ∨ tx.vout = []) :
    (plainHandling env address entry tx).edges env address hop txid hackers state opts = [] := by
  unfold plainHandling
  split
  next hFans =>
    rcases hBlank with hVin | hVout
    · rw [fansOut_eq_false (by rw [txInvolvesSpend, hVin]; rfl)] at hFans
      cases hFans
    · have hTop : (buildFanoutMeta env.config tx address).topOutputs = [] := by
        unfold buildFanoutMeta fanoutOutputs fanoutAmounts
        rw [hVout]
        exact List.take_nil
      change summaryEdges env.config tx address hop = []
      unfold summaryEdges
      rw [hTop]
      rfl
  next =>
    unfold Handling.edges tracedFlat resumedFlat traceOptions
    rw [hActive]
    exact flattenHackTraceEdges_of_blank hBlank _ _ _

/-- The resumed entry is left out only if it is skipped before its transaction is fetched. -/
theorem proceeds_of_active {entry : PendingTxRuntime} {tx : ChainTxDetail} {indexed : Bool}
    (hActive : state.activeOn entry.txid = true) :
    proceeds env address hop entry state opts tx indexed = !skipsGetTx env address hop entry opts := by
  unfold proceeds skipsIndexed
  rw [hActive]
  simp

/-- The two classifications of an entry of a page with inputs agree. -/
theorem isSpend_liveEntry (hVin : page.vin.getD [] ≠ []) : (liveEntry page address).isSpend =
    some (txInvolvesSpend (pageEntryToChainTxDetail page) address) :=
  if_neg hVin

/-- A spend proceeds, unless it has a row or its amounts are below the floors. -/
theorem proceeds_of_spend {entry : PendingTxRuntime} {indexed : Bool}
    (hActive : state.activeOn entry.txid = false) (hEntry : entry.isSpend ≠ some false)
    (hSpend : txInvolvesSpend (pageEntryToChainTxDetail page) address = true)
    (hSkips : skipsGetTx env address hop entry opts = true →
      isSubFloorSpendFromPage (some page) address env.config.minExpandSats = true) :
    proceeds env address hop entry state opts (pageEntryToChainTxDetail page) indexed =
      (!(opts.skipIfIndexed && indexed) &&
        (fansOut env address entry (pageEntryToChainTxDetail page) ||
          !belowFloors env address hop (pageEntryToChainTxDetail page))) := by
  have hFloor : isSubFloorSpendFromPage (some (pageEntryToChainTxDetail page).toSummary) address
      env.config.minExpandSats = isSubFloorSpendFromPage (some page) address env.config.minExpandSats := rfl
  unfold proceeds skipsIndexed fansOut isFanout belowFloors
  rw [hFloor, hActive, hSpend]
  grind

/-- A receive proceeds if it is traced as a deposit and has no row. -/
theorem proceeds_of_receive {entry : PendingTxRuntime} {indexed : Bool}
    (hActive : state.activeOn entry.txid = false)
    (hSpend : txInvolvesSpend (pageEntryToChainTxDetail page) address = false) :
    proceeds env address hop entry state opts (pageEntryToChainTxDetail page) indexed =
      (!(opts.skipIfIndexed && (indexed || pageCreatesRow entry)) && traces env address hop entry opts &&
        !isSubFloorReceiveFromPage (some page) address env.config.minVictimIngestSats) := by
  have hFloor : isSubFloorReceiveFromPage (some (pageEntryToChainTxDetail page).toSummary) address
      env.config.minVictimIngestSats =
      isSubFloorReceiveFromPage (some page) address env.config.minVictimIngestSats := rfl
  have hNoSpend : isSubFloorSpendFromPage (some (pageEntryToChainTxDetail page).toSummary) address
      env.config.minExpandSats = false := by
    have hPage : txInvolvesSpendFromPage (pageEntryToChainTxDetail page).toSummary address = false := hSpend
    unfold isSubFloorSpendFromPage
    rw [Option.any_some, hPage, Bool.and_false, Bool.false_and, Bool.false_and]
  unfold proceeds skipsIndexed belowFloors
  rw [fansOut_eq_false hSpend, hFloor, hNoSpend, hActive, hSpend]
  unfold skipsGetTx shouldSkipGetTx traces shouldTraceHackerReceive skipOpts
  grind

/-- The entry is kept with its page. -/
def keepsPage (config : AppConfig) (form : PayloadForm) (entry : PendingTxRuntime) : Bool :=
  form = .configured &&
    (config.traceFlaggedHackerReceives && shouldSnapshotReceivePage entry config.maxVoutCountSkipGetTx)

theorem reload_liveEntry (config : AppConfig) (form : PayloadForm) :
    (form.reload config (liveEntry page address)).pageEntry =
      if keepsPage config form (liveEntry page address) then
        some (pageSnapshotToSummary page.txid (compactPageSnapshot page))
      else none := by
  cases form with
  | configured =>
    unfold PayloadForm.reload keepsPage serializePendingTx PayloadForm.opts serializeOpts
    dsimp only [Option.bind_some]
    cases config.traceFlaggedHackerReceives &&
      shouldSnapshotReceivePage (liveEntry page address) config.maxVoutCountSkipGetTx <;> rfl
  | slim | txids => rfl

theorem isSpend_of_keepsPage {config : AppConfig} {form : PayloadForm}
    (h : keepsPage config form (liveEntry page address) = true) :
    txInvolvesSpend (pageEntryToChainTxDetail page) address = false ∧
      page.vin.getD [] ≠ [] ∧ page.vout.getD [] ≠ [] := by
  unfold keepsPage shouldSnapshotReceivePage hasPageVinVout at h
  simp only [Bool.and_eq_true, decide_eq_true_eq] at h
  obtain ⟨-, -, ⟨hSpend, -⟩, hFull⟩ := h
  have hPage : page.vin.getD [] ≠ [] ∧ page.vout.getD [] ≠ [] := by
    simpa [liveEntry] using hFull
  rw [isSpend_liveEntry hPage.1] at hSpend
  exact ⟨Option.some.inj hSpend, hPage⟩

theorem shows_snapshot {form : PayloadForm}
    (h : keepsPage env.config form (liveEntry page address) = true) :
    Shows env address (form.reload env.config (liveEntry page address))
      (snapshotDetail (pageEntryToChainTxDetail page)) := by
  obtain ⟨hSpend, hVin, hVout⟩ := isSpend_of_keepsPage h
  have hEntry := @reload_liveEntry address page env.config form
  rw [h, if_pos rfl] at hEntry
  have hIsSpend : (form.reload env.config (liveEntry page address)).isSpend = some false := by
    cases form with
    | configured => exact (isSpend_liveEntry hVin).trans (congrArg some hSpend)
    | slim | txids => cases h
  constructor
  · intro shown hShown
    rw [hEntry] at hShown
    cases (Option.filter_eq_some_iff.mp hShown).1
    refine ⟨pageEntryToChainTxDetail_snapshot page, ?_⟩
    rw [fansOut_eq_false (txInvolvesSpend_snapshotDetail.trans hSpend)]
    unfold isFanout isSpendFanout
    rw [hIsSpend]
    rfl
  · intro hNone
    rw [hEntry] at hNone
    refine absurd (Option.filter_eq_none_iff.mp hNone _ rfl) (not_not_intro ?_)
    unfold hasPageVinVout pageSnapshotToSummary compactPageSnapshot
    simpa using ⟨hVin, hVout⟩

/-- A reloaded entry computes the edges of the live transaction, or none. -/
theorem entryEdges_reload {form : PayloadForm} {indexed : Bool}
    (hGet : env.provider.getTx page.txid = pageEntryToChainTxDetail page) (hCoinbase : CoinbaseBlank page) :
    entryEdges env address hop hackers state opts (form.reload env.config (liveEntry page address)) indexed =
      if proceeds env address hop (form.reload env.config (liveEntry page address)) state opts
          (pageEntryToChainTxDetail page) indexed then
        (plainHandling env address (liveEntry page address) (pageEntryToChainTxDetail page)).edges
          env address hop page.txid hackers state opts
      else [] := by
  have hTxid : (form.reload env.config (liveEntry page address)).txid = page.txid :=
    PayloadForm.txid_reload _ _ _
  have hEntry := @reload_liveEntry address page env.config form
  cases hKeeps : keepsPage env.config form (liveEntry page address) with
  | false =>
    rw [hKeeps, if_neg Bool.false_ne_true] at hEntry
    rw [entryEdges_eq hackers indexed (shows_of_pageEntry_none hEntry hTxid hGet), hTxid]
    rfl
  | true =>
    rw [hKeeps, if_pos rfl] at hEntry
    obtain ⟨hSpend, hVin, hVout⟩ := isSpend_of_keepsPage hKeeps
    have hFans : ∀ entry : PendingTxRuntime,
        fansOut env address entry (pageEntryToChainTxDetail page) = false := fun _ => fansOut_eq_false hSpend
    have hFansSnapshot : ∀ entry : PendingTxRuntime,
        fansOut env address entry (snapshotDetail (pageEntryToChainTxDetail page)) = false := fun _ =>
      fansOut_eq_false (txInvolvesSpend_snapshotDetail.trans hSpend)
    have hShows : Shows env address (form.reload env.config (liveEntry page address))
        (snapshotDetail (pageEntryToChainTxDetail page)) :=
      shows_snapshot hKeeps
    rw [entryEdges_eq hackers indexed hShows]
    have hProceeds : proceeds env address hop (form.reload env.config (liveEntry page address)) state opts
        (snapshotDetail (pageEntryToChainTxDetail page)) indexed =
        proceeds env address hop (form.reload env.config (liveEntry page address)) state opts
          (pageEntryToChainTxDetail page) indexed := by
      unfold proceeds
      rw [hFans, hFansSnapshot, belowFloors_snapshotDetail, txInvolvesSpend_snapshotDetail]
    have hEdges : (plainHandling env address (form.reload env.config (liveEntry page address))
        (snapshotDetail (pageEntryToChainTxDetail page))).edges env address hop page.txid hackers state opts =
        (plainHandling env address (liveEntry page address) (pageEntryToChainTxDetail page)).edges
          env address hop page.txid hackers state opts := by
      unfold plainHandling
      rw [hFans, hFansSnapshot]
      unfold Handling.edges tracedFlat
      rw [if_neg Bool.false_ne_true, if_neg Bool.false_ne_true]
      dsimp only
      rw [computeHackTraceEdges_snapshotDetail hCoinbase]
      rfl
    rw [hProceeds, hTxid, hEdges]

end Entries

/-! ## When a reloaded entry behaves like the live one -/

section Condition
variable (env : Env) (address : Address) (hop : Nat) (hackers : List Address)
  (state : TraceProcessState) (opts : ProcessEntryOpts) (indexed : Bool) (form : PayloadForm)
  (page : ChainTxSummary)

/-- The edges of the transaction of a page entry, where nothing keeps them from being computed. -/
def pageEdges : List HackTraceEdgeDraft :=
  (plainHandling env address (liveEntry page address) (pageEntryToChainTxDetail page)).edges env address hop
    page.txid hackers state opts

/-- The transaction has a row when a deposit that the page shows is looked up. -/
def depositIndexed : Bool :=
  opts.skipIfIndexed && (indexed || pageCreatesRow (liveEntry page address))

/-- What a form must not meet: a deposit that is traced live, but whose reloaded entry is not, or the
other way round. -/
def DepositKept : PayloadForm → Prop
  | .configured => True
  | .slim => traces env address hop (liveEntry page address) opts = true →
      depositIndexed address opts indexed page = true → opts.skipIfIndexed = true ∧ indexed = true
  | .txids => traces env address hop (liveEntry page address) opts = true →
      depositIndexed address opts indexed page = true

/-- The transaction has no edges, or the reloaded entry is treated like the live one: where its trace is
resumed, both are skipped or none is; otherwise deposits are kept. -/
def ReloadsAlike : Prop :=
  pageEdges env address hop hackers state opts page = [] ∨
    if state.activeOn page.txid then
      skipsGetTx env address hop (form.reload env.config (liveEntry page address)) opts =
        skipsGetTx env address hop (liveEntry page address) opts
    else DepositKept env address hop opts indexed page form

end Condition

section Alike
variable {env : Env} {address : Address} {hop : Nat} {hackers : List Address}
  {state : TraceProcessState} {opts : ProcessEntryOpts} {indexed : Bool} {page : ChainTxSummary}

theorem traces_eq_false_of_spend {entry : PendingTxRuntime} (h : entry.isSpend ≠ some false) :
    traces env address hop entry opts = false := by
  unfold traces shouldTraceHackerReceive
  simp [h]

/-- A spend is skipped only if its page shows an amount below the floor. -/
theorem skipsGetTx_of_spend {entry : PendingTxRuntime} (h : entry.isSpend = some true) :
    skipsGetTx env address hop entry opts =
      isSubFloorSpendFromPage entry.pageEntry address env.config.minExpandSats := by
  have hTraces : traces env address hop entry opts = false :=
    traces_eq_false_of_spend (by rw [h]; decide)
  unfold skipsGetTx shouldSkipGetTx
  change (if _ then true else if traces env address hop entry opts then false else _) = _
  rw [hTraces, h]
  cases hFloor : isSubFloorSpendFromPage entry.pageEntry address env.config.minExpandSats <;>
    simp [skipOpts, hFloor]

/-- A transaction id alone is not skipped. -/
theorem skipsGetTx_txids (entry : PendingTxRuntime) :
    skipsGetTx env address hop (PayloadForm.reload env.config .txids entry) opts = false := by
  unfold skipsGetTx shouldSkipGetTx shouldTraceHackerReceive
  simp [PayloadForm.reload, skipOpts, isSubFloorSpendFromPage]

theorem proceeds_reload_spend (form : PayloadForm) (hActive : state.activeOn page.txid = false)
    (hVin : page.vin.getD [] ≠ []) (hSpend : txInvolvesSpend (pageEntryToChainTxDetail page) address = true) :
    proceeds env address hop (form.reload env.config (liveEntry page address)) state opts
        (pageEntryToChainTxDetail page) indexed =
      proceeds env address hop (liveEntry page address) state opts (pageEntryToChainTxDetail page)
        indexed := by
  have hLive : (liveEntry page address).isSpend = some true :=
    (isSpend_liveEntry hVin).trans (congrArg some hSpend)
  have hEntry := @reload_liveEntry address page env.config form
  have hKeeps : keepsPage env.config form (liveEntry page address) = false := by
    by_contra hKeeps
    have hReceive := (isSpend_of_keepsPage (Bool.eq_true_of_not_eq_false hKeeps)).1
    rw [hSpend] at hReceive
    cases hReceive
  rw [hKeeps, if_neg Bool.false_ne_true] at hEntry
  have hReloaded : (form.reload env.config (liveEntry page address)).isSpend ≠ some false ∧
      skipsGetTx env address hop (form.reload env.config (liveEntry page address)) opts = false := by
    by_cases hForm : form = .txids
    · subst hForm
      exact ⟨nofun, skipsGetTx_txids _⟩
    · have hSame := (PayloadForm.classification_reload env.config hForm (liveEntry page address)).1.trans hLive
      refine ⟨by rw [hSame]; decide, ?_⟩
      rw [skipsGetTx_of_spend hSame, hEntry]
      rfl
  rw [proceeds_of_spend (by rw [PayloadForm.txid_reload]; exact hActive) hReloaded.1 hSpend
      (fun h => absurd (hReloaded.2.symm.trans h) Bool.false_ne_true),
    proceeds_of_spend hActive (by rw [hLive]; decide) hSpend
      (fun h => (skipsGetTx_of_spend hLive).symm.trans h)]
  rfl

theorem traces_of_receive {entry : PendingTxRuntime} {n : Nat} (hReceive : entry.isSpend = some false)
    (hCount : entry.voutCount = some n) : traces env address hop entry opts =
      (decide (opts.expandProfile ≠ some .sweepRelay) && decide (hop = 0) &&
        env.config.traceFlaggedHackerReceives && decide (n ≤ env.config.maxVoutCountSkipGetTx) &&
        !isSubFloorReceiveFromPage entry.pageEntry address env.config.minVictimIngestSats) := by
  unfold traces shouldTraceHackerReceive skipOpts
  rw [hReceive, hCount]
  simp

/-- Where the page is kept, the reloaded entry decides as the live one. -/
theorem kept_page (config : AppConfig) (txid : Txid) (page : ChainTxSummary) :
    isSubFloorReceiveFromPage (some (pageSnapshotToSummary txid (compactPageSnapshot page))) address
        config.minVictimIngestSats =
      isSubFloorReceiveFromPage (some page) address config.minVictimIngestSats ∧
    pageEntryHasOpReturnAsm (pageSnapshotToSummary txid (compactPageSnapshot page)) =
      pageEntryHasOpReturnAsm page :=
  ⟨rfl, rfl⟩

/-- What a reloaded deposit decides. -/
theorem proceeds_reload_receive (form : PayloadForm) (hActive : state.activeOn page.txid = false)
    (hVin : page.vin.getD [] ≠ []) (hVout : page.vout.getD [] ≠ [])
    (hSpend : txInvolvesSpend (pageEntryToChainTxDetail page) address = false) :
    proceeds env address hop (form.reload env.config (liveEntry page address)) state opts
        (pageEntryToChainTxDetail page) indexed =
      (traces env address hop (liveEntry page address) opts &&
        match form with
        | .configured => !depositIndexed address opts indexed page
        | .slim => !(opts.skipIfIndexed && indexed)
        | .txids => false) := by
  have hLive : (liveEntry page address).isSpend = some false :=
    (isSpend_liveEntry hVin).trans (congrArg some hSpend)
  have hEntry := @reload_liveEntry address page env.config form
  rw [proceeds_of_receive (by rw [PayloadForm.txid_reload]; exact hActive) hSpend,
    traces_of_receive hLive rfl]
  by_cases hForm : form = .txids
  · subst hForm
    rw [traces_eq_false_of_spend (by nofun), Bool.and_false, Bool.false_and, Bool.and_false]
  · obtain ⟨hSame, hCount⟩ := PayloadForm.classification_reload env.config hForm (liveEntry page address)
    rw [traces_of_receive (hSame.trans hLive) (hCount.trans rfl)]
    have hPage : (liveEntry page address).pageEntry = some page := rfl
    unfold depositIndexed pageCreatesRow
    rw [hEntry, hPage]
    cases form with
    | txids => exact absurd rfl hForm
    | slim =>
      rw [show keepsPage env.config .slim (liveEntry page address) = false from rfl,
        if_neg Bool.false_ne_true]
      simp only [isSubFloorReceiveFromPage, Option.any_none, Option.any_some]
      grind
    | configured =>
      cases hKeeps : keepsPage env.config .configured (liveEntry page address) with
      | true =>
        have hKept := @kept_page address env.config page.txid page
        rw [if_pos rfl, hKept.1, Option.any_some, Option.any_some, hKept.2]
        grind
      | false =>
        -- a receive that is not kept with its page is not traced either
        have hOff : (env.config.traceFlaggedHackerReceives &&
            decide (txVoutCount page ≤ env.config.maxVoutCountSkipGetTx)) = false := by
          unfold keepsPage shouldSnapshotReceivePage hasPageVinVout at hKeeps
          rw [hLive, hPage] at hKeeps
          simpa [hVin, hVout, liveEntry, classifyPageTx] using hKeeps
        grind

theorem proceeds_reload_receive_iff (form : PayloadForm) (hActive : state.activeOn page.txid = false)
    (hVin : page.vin.getD [] ≠ []) (hVout : page.vout.getD [] ≠ [])
    (hSpend : txInvolvesSpend (pageEntryToChainTxDetail page) address = false) :
    proceeds env address hop (form.reload env.config (liveEntry page address)) state opts
        (pageEntryToChainTxDetail page) indexed =
      proceeds env address hop (liveEntry page address) state opts (pageEntryToChainTxDetail page)
        indexed ↔ DepositKept env address hop opts indexed page form := by
  have hLive : (liveEntry page address).isSpend = some false :=
    (isSpend_liveEntry hVin).trans (congrArg some hSpend)
  have hProceeds : proceeds env address hop (liveEntry page address) state opts
      (pageEntryToChainTxDetail page) indexed =
      (traces env address hop (liveEntry page address) opts &&
        !depositIndexed address opts indexed page) := by
    have hPage : (liveEntry page address).pageEntry = some page := rfl
    rw [proceeds_of_receive hActive hSpend, traces_of_receive hLive rfl, hPage]
    unfold depositIndexed
    grind
  rw [hProceeds, proceeds_reload_receive form hActive hVin hVout hSpend]
  unfold DepositKept
  cases form with
  | configured => exact iff_of_true rfl trivial
  | slim =>
    dsimp only
    unfold depositIndexed
    grind
  | txids =>
    dsimp only
    grind

theorem entryEdges_reload_iff (form : PayloadForm)
    (hGet : env.provider.getTx page.txid = pageEntryToChainTxDetail page) (hCoinbase : CoinbaseBlank page) :
    entryEdges env address hop hackers state opts (form.reload env.config (liveEntry page address)) indexed =
        entryEdges env address hop hackers state opts (liveEntry page address) indexed ↔
      ReloadsAlike env address hop hackers state opts indexed form page := by
  have hTxid : (form.reload env.config (liveEntry page address)).txid = page.txid :=
    PayloadForm.txid_reload _ _ _
  rw [entryEdges_reload hGet hCoinbase, entryEdges_eq hackers indexed (shows_liveEntry hGet)]
  unfold ReloadsAlike
  change (if _ then pageEdges env address hop hackers state opts page else []) =
    (if _ then pageEdges env address hop hackers state opts page else []) ↔ _
  by_cases hNone : pageEdges env address hop hackers state opts page = []
  · rw [hNone, ite_self, ite_self]
    exact iff_of_true rfl (Or.inl rfl)
  have hProceeds : ∀ a b : Bool, ((if a then pageEdges env address hop hackers state opts page else []) =
      if b then pageEdges env address hop hackers state opts page else []) ↔ a = b := by
    intro a b
    cases a <;> cases b <;> simp [hNone, Ne.symm hNone]
  rw [hProceeds, or_iff_right hNone]
  cases hActive : state.activeOn page.txid with
  | true =>
    rw [if_pos rfl, proceeds_of_active (by rw [hTxid]; exact hActive), proceeds_of_active hActive]
    exact Bool.not_inj_iff
  | false =>
    rw [if_neg Bool.false_ne_true]
    have hBlank : ¬(page.vin.getD [] = [] ∨ page.vout.getD [] = []) := fun hBlank =>
      hNone (edges_plainHandling_of_blank hActive hBlank)
    obtain ⟨hVin, hVout⟩ := not_or.mp hBlank
    cases hSpend : txInvolvesSpend (pageEntryToChainTxDetail page) address with
    | true =>
      have hTraces : traces env address hop (liveEntry page address) opts = false :=
        traces_eq_false_of_spend (by rw [isSpend_liveEntry hVin, hSpend]; decide)
      refine iff_of_true (proceeds_reload_spend form hActive hVin hSpend) ?_
      cases form with
      | configured => trivial
      | slim | txids => exact fun h => absurd (hTraces.symm.trans h) Bool.false_ne_true
    | false => exact proceeds_reload_receive_iff form hActive hVin hVout hSpend

end Alike

/-! ## Pages -/

section Page
variable {env : Env} {address : Address}

/-- A page that is written into a payload and reloaded keeps the order of its transactions, and an entry
of it computes the edges of the live entry exactly if the two are treated alike. -/
theorem readPending_entries (form : PayloadForm) (txs : List ChainTxSummary) (processedIndex : Nat)
    (hIndex : processedIndex < txs.length)
    (hGet : ∀ page ∈ txs, env.provider.getTx page.txid = pageEntryToChainTxDetail page)
    (hCoinbase : ∀ page ∈ txs, CoinbaseBlank page) :
    let live := classifyPageTxs txs address
    let reloaded := readPending (form.write env.config live processedIndex)
    reloaded.map (·.txid) = live.map (·.txid) ∧
      ∀ (k hop : Nat) (hackers : List Address) (state : TraceProcessState) (opts : ProcessEntryOpts)
          (indexed : Bool),
        reloaded[k]?.map (entryEdges env address hop hackers state opts · indexed) =
            live[k]?.map (entryEdges env address hop hackers state opts · indexed) ↔
          ∀ page, txs[k]? = some page →
            ReloadsAlike env address hop hackers state opts indexed form page := by
  intro live reloaded
  have hReloaded : reloaded = txs.map fun page => form.reload env.config (liveEntry page address) := by
    have hLength : processedIndex < live.length := by
      rw [show live.length = txs.length from List.length_map _]
      exact hIndex
    rw [show reloaded = _ from readPending_write env.config form hLength]
    exact List.map_map
  have hLive : live = txs.map (liveEntry · address) := rfl
  refine ⟨?_, fun k hop hackers state opts indexed => ?_⟩
  · rw [hReloaded, hLive, List.map_map, List.map_map]
    exact List.map_congr_left fun page _ => PayloadForm.txid_reload _ _ _
  · rw [hReloaded, hLive, List.getElem?_map, List.getElem?_map]
    cases hPage : txs[k]? with
    | none => exact iff_of_true rfl fun page h => nomatch h
    | some page =>
      have hMem : page ∈ txs := List.mem_of_getElem? hPage
      rw [Option.map_some, Option.map_some, Option.map_some, Option.map_some, Option.some_inj,
        entryEdges_reload_iff form (hGet page hMem) (hCoinbase page hMem)]
      constructor
      · intro h other hOther
        cases hOther
        exact h
      · exact fun h => h page rfl

end Page

/-! A deposit of a flagged address. -/

/-- The victim `v` pays the hacker `h`. -/
def depositTx : ChainTxDetail where
  txid := name "deposit"
  vin := [{ prevout := some ⟨some (name "v"), some 300000⟩ }]
  vout := [⟨some (name "h"), some 300000, none, none, none⟩]

def depositEnv : Env where
  provider := { Provider.ofTxs [depositTx] with getAddressTxs := fun _ => [depositTx.toSummary] }

def depositOpts : ProcessEntryOpts where
  capture := captureOpReturnJobOpts false

def depositPending : List PendingTxRuntime := classifyPageTxs [depositTx.toSummary] (name "h")

/-- Reloaded with its snapshot the deposit computes the edges of the live entry. -/
theorem readPending_entries_deposit :
    (readPending (PayloadForm.configured.write depositEnv.config depositPending 0))[0]?.map
        (entryEdges depositEnv (name "h") 0 [name "h"] {} depositOpts · false) =
      depositPending[0]?.map (entryEdges depositEnv (name "h") 0 [name "h"] {} depositOpts · false) := by
  have hSame : ∀ page ∈ [depositTx.toSummary],
      depositEnv.provider.getTx page.txid = pageEntryToChainTxDetail page := by
    intro page hPage
    rw [List.mem_singleton.mp hPage]
    decide
  have hBlank : ∀ page ∈ [depositTx.toSummary], CoinbaseBlank page := by
    intro page hPage
    rw [List.mem_singleton.mp hPage]
    intro i hi
    rw [List.mem_singleton.mp hi]
    decide
  have hPage := @readPending_entries depositEnv (name "h") .configured [depositTx.toSummary] 0 (by decide)
    hSame hBlank
  exact (hPage.2 0 0 [name "h"] {} depositOpts false).mpr fun _ _ => Or.inr trivial

/-- Reloaded from a list of transaction ids the deposit computes no edge. -/
theorem readPending_drops_deposit :
    depositEnv.provider.getTx depositTx.txid = pageEntryToChainTxDetail depositTx.toSummary ∧
      depositPending.map (entryEdges depositEnv (name "h") 0 [name "h"] {} depositOpts · false) =
        [[⟨name "v", name "h", 300000, 0, .inToHacker⟩]] ∧
      (readPending (PayloadForm.txids.write depositEnv.config depositPending 0)).map
        (entryEdges depositEnv (name "h") 0 [name "h"] {} depositOpts · false) = [[]] := by
  decide +kernel

end Bloodhound.Indexer
