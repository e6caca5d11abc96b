import Bloodhound.Indexer.MaxDepth

/-!
# The gap check of a poll

Where a page of a downstream poll does not reach the stored cursor, the poll compares what the address has
spent on the chain with the amounts of its stored out-edges, and moves the cursor past the gap where the
difference is below the floor. The edges of a transaction carry its whole outputs, whoever else pays for them,
so they can outweigh what the address spent there and hide spends that were not traced.
-/

namespace Bloodhound.Indexer

open Chain Store Bloodhound.Graph
open Journal Journal.Op

/-! ## Spent amounts -/

/-- What the address pays into the transaction. -/
def spentBy (address : Address) (tx : ChainTxDetail) : Int :=
  (((tx.vin.filterMap (·.prevout)).filter (·.scriptpubkeyAddress = some address)).map
    (·.value.getD 0)).sum

def spentIn (address : Address) (txs : List ChainTxDetail) : Int := (txs.map (spentBy address)).sum

/-- What `sumOutFromHacker` returns. -/
def indexedOut (t : Table.Rows EdgeKey EdgeRow) (address : Address) : Int :=
  Table.sum (fun k r => if k.fromAddress = address ∧ r.direction = .outFromHacker then r.amountSats else 0) t

theorem spentIn_add (address : Address) (p : ChainTxDetail → Bool) (txs : List ChainTxDetail) :
    spentIn address (txs.filter p) + spentIn address (txs.filter fun tx => !p tx) = spentIn address txs := by
  induction txs with
  | nil => rfl
  | cons tx txs ih =>
    unfold spentIn at ih ⊢
    cases h : p tx <;> simp only [List.filter_cons, h, Bool.not_true, Bool.not_false, if_true, List.map_cons,
      List.sum_cons, Bool.false_eq_true, if_false] <;> omega

/-- By how much the stored out-edges of the address exceed what it spent in the traced transactions. -/
def excess (t : Table.Rows EdgeKey EdgeRow) (address : Address) (history : List ChainTxDetail)
    (traced : List Txid) : Int :=
  indexedOut t address - spentIn address (history.filter (·.txid ∈ traced))

/-- What the address spent in the transactions that have not been traced. -/
def untracedSpent (address : Address) (history : List ChainTxDetail) (traced : List Txid) : Int :=
  spentIn address (history.filter (·.txid ∉ traced))

/-! ## The run up to the check -/

/-- A poll up to its gap check: the state that is checked, whether the payload had entries left, and the row of
the address. -/
def reachGapCheck (env : Env) (calls : PollCalls) (raw : PollPayload) :
    StoreM (Option (Option AddressRow × Bool × PollState)) := do
  let s := parsePollPayload raw
  let addr ← getAddress s.payload.address
  if qualifiesForExpand ((addr.map (·.inboundSats)).getD 0) env.config.minExpandSats then do
    createChainCallBudget env
    let ready ← canCall
    if !s.payload.pollFetched && !s.hasPending && ready then do
      let probed ← probePoll env calls (enqueuePollDownstream env) s
      let fetched ← probed.elim (pure none) (fetchDownstreamPage env calls)
      pure (fetched.map fun s' => (addr, false, s'))
    else pure (some (addr, s.hasPending, s))
  else pure none

theorem pollDownstream_eq (env : Env) (calls : PollCalls) (raw : PollPayload)
    (hackers : Option (List Address)) :
    pollDownstream env calls raw hackers = (do
      let reached ← reachGapCheck env calls raw
      forEach reached.toList fun r => processDownstreamPoll env calls hackers r.1 r.2.1 r.2.2) := by
  have hOne : ∀ (addr : Option AddressRow) (needs : Bool) (s : PollState),
      forEach [(addr, needs, s)] (fun r => processDownstreamPoll env calls hackers r.1 r.2.1 r.2.2) =
        processDownstreamPoll env calls hackers addr needs s := fun _ _ _ => Op.bind_pure _
  unfold pollDownstream reachGapCheck
  simp only [Op.bind_assoc]
  congr 1
  funext addr
  unfold when pollQualified
  split
  · simp only [Op.bind_assoc]
    congr 1
    funext _
    congr 1
    funext ready
    split
    · simp only [Op.bind_assoc]
      congr 1
      funext probed
      congr 1
      funext fetched
      rw [Op.pure_bind]
      cases fetched <;> rfl
    · rw [Op.pure_bind]
      exact (hOne addr _ _).symm
  · rw [Op.pure_bind]
    rfl

theorem edges_reachGapCheck (env : Env) (calls : PollCalls) (raw : PollPayload) (db : Db) (c : Ctl Mem Err) :
    ((reachGapCheck env calls raw).final db c).edges = db.edges := by
  have hP := pollWrites_keepsEdges
  refine edges_final ((emits_query _).bind fun addr => ?_) db c
  split
  · refine (emits_createChainCallBudget env).bind fun _ => emits_canCall.bind fun ready => ?_
    split
    · refine (hP.probePoll (fun s => hP.enqueuePoll _ _) calls _).bind fun probed => ?_
      refine Emits.bind ?_ fun fetched => emits_pure _
      cases probed with
      | none => exact emits_pure _
      | some s => exact hP.fetchDownstreamPage calls s
    · exact emits_pure _
  · exact emits_pure _

/-! ## The check -/

/-- The cursor that a statement writes. -/
def cursorOf : Stmt → Option (Address × Option Txid)
  | .syncState address row => some (address, row.lastSeenTxid)
  | _ => none

theorem cursorOf_of_isCounter {i : Stmt} (h : i.isCounter) : cursorOf i = none := by
  cases i with
  | syncState a row => cases h
  | _ => rfl

theorem writes_upsertSyncState {address : Address} {data : SyncPollData} {newest : Txid}
    (h : data.lastSeenTxid = some newest) :
    (upsertSyncState address data).Writes cursorOf [(address, some newest)] := by
  have hRow : ∀ (existing : Option SyncStateRow) (ts : Nat),
      (run (.syncState address (recordedSync existing (some data) ts)) : StoreM Unit).Writes cursorOf
        [(address, some newest)] := by
    intro existing ts
    have hKept : [Stmt.syncState address (recordedSync existing (some data) ts)].filterMap cursorOf =
        [(address, some newest)] := by
      simp [cursorOf, recordedSync, h]
    rw [← hKept]
    exact writes_run _
  have hNone : ∀ {α : Type} {p : StoreM α}, (p.Emits fun i => cursorOf i = none) → p.Writes cursorOf [] :=
    fun hp => writes_nil_of_emits hp
  refine (hNone (emits_query _)).bind_right fun addr => (hNone (emits_query _)).bind_right fun existing =>
    (hNone (emits_query _)).bind_right fun state => (hNone emits_now).bind_right fun nowMs =>
      (hNone emits_now).bind_right fun ts => (hRow existing ts).bind_left fun _ => hNone ?_
  exact emits_when fun _ => emits_adjustPollDueOrMarkDirty (fun i hi => cursorOf_of_isCounter hi) _ _ _ _

section Check

variable {env : Env} {calls : PollCalls} {needs : Bool} {s : PollState} {db : Db} {c : Ctl Mem Err}

/-- The poll has missed the cursor, has processed what it holds, and has not checked the gap. -/
def isGapCheckDue (needs : Bool) (s : PollState) : Bool :=
  s.payload.pollFetched && s.payload.cursorMiss && !s.payload.gapChecked && !needs && !s.hasPending

/-- What the chain says that the address has spent. -/
def chainSpent (calls : PollCalls) (address : Address) : Int :=
  (calls.gapCheck.getAddressStats address).spentTxoSum +
    (calls.gapCheck.getAddressStats address).mempoolSpentTxoSum

/-- The check writes the newest transaction of the page as the cursor of the address. -/
def MovesCursor (s : PollState) (log : List Stmt) : Prop :=
  ∃ newest, s.payload.newestTxid = some newest ∧
    (s.payload.address, some newest) ∈ log.filterMap cursorOf

/-- Where the check is due and may call, it writes the cursor of a gap below the floor, and no other. -/
theorem writes_checkGap (hDue : isGapCheckDue needs s = true) (hReady : c.mem.budget.canCall = true)
    {newest : Txid} (hNewest : s.payload.newestTxid = some newest) {checked : Option PollState}
    (hOk : (checkGap env calls needs s db c).res = .ok checked) :
    (checkGap env calls needs s db c).log.filterMap cursorOf =
      if spendGapExceedsFloor (chainSpent calls s.payload.address) (indexedOut db.edges s.payload.address)
        env.config.minExpandSats then [] else [(s.payload.address, some newest)] := by
  have hNone : ∀ {α : Type} {p : StoreM α}, (p.Emits fun i => cursorOf i = none) → p.Writes cursorOf [] :=
    fun hp => writes_nil_of_emits hp
  have hCounter : ∀ i : Stmt, i.isCounter → cursorOf i = none := fun i hi => cursorOf_of_isCounter hi
  have hContinue : ∀ s', (continueWithin env s' true).Writes cursorOf [] := by
    intro s'
    refine hNone (emits_budgetExhausted.bind fun exhausted => ?_)
    split
    · refine Emits.bind ?_ fun _ => emits_pure _
      exact (emits_enqueueJob (queueCounters hCounter) rfl env (fun _ _ => rfl) _ _).bind fun _ => emits_pure _
    · exact emits_pure _
  have hStats : (applyAddressStats s.payload.address
      (calls.gapCheck.getAddressStats s.payload.address)).Writes cursorOf [] :=
    hNone (emits_applyAddressStats hCounter rfl _)
  unfold checkGap canCall readBudget at hOk ⊢
  rw [Op.bind_assoc, mem_bind, Op.pure_bind] at hOk ⊢
  rw [if_pos (by simpa [isGapCheckDue, hReady] using hDue)] at hOk ⊢
  generalize hKept : (if spendGapExceedsFloor (chainSpent calls s.payload.address)
    (indexedOut db.edges s.payload.address) env.config.minExpandSats then ([] : List (Address × Option Txid))
    else [(s.payload.address, some newest)]) = kept
  refine ((?_ : Op.WritesAt cursorOf _ db kept) c).2 checked hOk
  refine WritesAt.query_bind ((hNone emits_consumeBudget _).bind fun c₁ _ _ => ?_)
  refine (hStats _).bind fun c₂ observed _ => WritesAt.query_bind ?_
  rw [edges_final (pollWrites_keepsEdges.applyAddressStats _ _), edges_final emits_consumeBudget]
  dsimp only
  split
  · next hBelow =>
    have hFalse : spendGapExceedsFloor (chainSpent calls s.payload.address)
        (indexedOut db.edges s.payload.address) env.config.minExpandSats = false :=
      (Bool.not_eq_true' _).mp hBelow
    rw [← hKept, hFalse, if_neg Bool.false_ne_true, if_pos (by rw [hNewest]; rfl)]
    refine Writes.bind_left (writes_upsertSyncState ?_) (fun _ => hNone (emits_pure _)) _
    exact hNewest
  · next hAbove =>
    have hTrue : spendGapExceedsFloor (chainSpent calls s.payload.address)
        (indexedOut db.edges s.payload.address) env.config.minExpandSats = true := by
      rwa [Bool.not_eq_true', Bool.not_eq_false] at hAbove
    rw [← hKept, hTrue, if_pos rfl]
    exact hContinue _ _

theorem movesCursor_checkGap_iff (hDue : isGapCheckDue needs s = true)
    (hReady : c.mem.budget.canCall = true) (hNewest : s.payload.newestTxid.isSome = true)
    {checked : Option PollState} (hOk : (checkGap env calls needs s db c).res = .ok checked) :
    MovesCursor s (checkGap env calls needs s db c).log ↔
      spendGapExceedsFloor (chainSpent calls s.payload.address) (indexedOut db.edges s.payload.address)
        env.config.minExpandSats = false := by
  obtain ⟨newest, hNewest⟩ := Option.isSome_iff_exists.mp hNewest
  unfold MovesCursor
  rw [writes_checkGap hDue hReady hNewest hOk]
  cases spendGapExceedsFloor (chainSpent calls s.payload.address) (indexedOut db.edges s.payload.address)
    env.config.minExpandSats <;> simp [hNewest]

end Check

/-! ## The claim of the check -/

/-- The run comes to its gap check with `s` and a newest transaction, and the check returns. -/
structure ChecksGap (env : Env) (calls : PollCalls) (raw : PollPayload) (db : Db) (c : Ctl Mem Err)
    (s : PollState) (check : Out Stmt Mem Err (Option PollState)) : Prop where
  reached : ∃ addr needs, (reachGapCheck env calls raw db c).res = .ok (some (addr, needs, s)) ∧
    isGapCheckDue needs s = true ∧
    check = checkGap env calls needs s ((reachGapCheck env calls raw).final db c)
      (reachGapCheck env calls raw db c).ctl
  ready : (reachGapCheck env calls raw db c).ctl.mem.budget.canCall = true
  newest : s.payload.newestTxid.isSome = true
  returned : ∃ checked, check.res = .ok checked

/-- The gap check of a run that comes to one, with the state that it checks. -/
def gapCheckOf (env : Env) (calls : PollCalls) (raw : PollPayload) (db : Db) (c : Ctl Mem Err) :
    Option (PollState × Out Stmt Mem Err (Option PollState)) :=
  let o := reachGapCheck env calls raw db c
  match o.res with
  | .ok (some (_, needs, s)) =>
    if isGapCheckDue needs s && o.ctl.mem.budget.canCall && s.payload.newestTxid.isSome then
      some (s, checkGap env calls needs s (replay o.log db) o.ctl)
    else none
  | _ => none

section Sound

variable {env : Env} {calls : PollCalls} {raw : PollPayload} {db : Db} {c : Ctl Mem Err} {s : PollState}
  {check : Out Stmt Mem Err (Option PollState)}

theorem checksGap_of_eq (h : gapCheckOf env calls raw db c = some (s, check))
    (hReturned : check.res.toOption.isSome = true) : ChecksGap env calls raw db c s check := by
  unfold gapCheckOf at h
  dsimp only at h
  split at h
  · next addr needs s' hReached =>
    split at h
    · next hDue =>
      cases h
      rw [Bool.and_eq_true, Bool.and_eq_true] at hDue
      obtain ⟨checked, hChecked⟩ := Option.isSome_iff_exists.mp hReturned
      refine ⟨⟨addr, needs, hReached, hDue.1.1, rfl⟩, hDue.1.2, hDue.2, checked, ?_⟩
      obtain ⟨_, hRes, rfl⟩ := Op.exists_ok (f := id) (by rwa [Option.map_id, id])
      exact hRes
    · cases h
  · cases h

/-- The statements of the check are those of the poll after the ones that lead to it. -/
theorem ChecksGap.prefix_log (h : ChecksGap env calls raw db c s check) (hackers : Option (List Address)) :
    (reachGapCheck env calls raw db c).log ++ check.log <+: (pollDownstream env calls raw hackers db c).log := by
  obtain ⟨addr, needs, hReached, -, rfl⟩ := h.reached
  rw [pollDownstream_eq, bind_of_ok hReached]
  refine (List.prefix_append_right_inj _).mpr ?_
  exact (prefix_log_bind (checkGap env calls needs s) _ _ _).trans (prefix_log_bind _ _ _ _)

/-- The check lets no untraced spends of the floor or more pass exactly where there are none, or where the floor
and the excess of the stored out-edges together are at most the untraced spends. -/
theorem gapCheck_sound_iff {history : List ChainTxDetail} {traced : List Txid}
    (h : ChecksGap env calls raw db c s check)
    (hChain : chainSpent calls s.payload.address = spentIn s.payload.address history) :
    (MovesCursor s check.log → untracedSpent s.payload.address history traced < env.config.minExpandSats) ↔
      untracedSpent s.payload.address history traced < env.config.minExpandSats ∨
        max 0 env.config.minExpandSats + excess db.edges s.payload.address history traced ≤
          untracedSpent s.payload.address history traced := by
  obtain ⟨addr, needs, hReached, hDue, rfl⟩ := h.reached
  obtain ⟨checked, hChecked⟩ := h.returned
  rw [movesCursor_checkGap_iff hDue h.ready h.newest hChecked, edges_reachGapCheck, spendGapExceedsFloor,
    decide_eq_false_iff_not, hChain]
  have hSplit := spentIn_add s.payload.address (fun tx => decide (tx.txid ∈ traced)) history
  unfold excess untracedSpent
  simp only [decide_not]
  omega

end Sound

/-! ### A transaction with another payer -/

/-- The transactions of the stored out-edges of the address. -/
def tracedTxids (t : Table.Rows EdgeKey EdgeRow) (address : Address) : List Txid :=
  (t.entries.filter fun e => e.1.fromAddress = address && e.2.direction = .outFromHacker).map (·.1.txid)

/-- `d` pays, and another address with it. -/
def jointPayment (other : Int) : ChainTxDetail where
  txid := name "j"
  vin := [{ prevout := some ⟨some (name "d"), some 800000⟩ }, { prevout := some ⟨some (name "e"), some other⟩ }]
  vout := [{ scriptpubkeyAddress := some (name "x"), value := some (800000 + other) }]

/-- The history of `d` when it is expanded, the newest first. -/
def expandedHistory (other : Int) : List ChainTxDetail :=
  [jointPayment other, payment (name "t") (name "h") (name "d") 800000]

/-- What comes later: a receipt that is spent again, and a page of receipts. -/
def laterHistory : List ChainTxDetail :=
  ((List.range 25).map fun n =>
    payment ⟨"r" ++ toString n, by simp⟩ (name "f") (name "d") 1000) ++
    [payment (name "u") (name "d") (name "y") 700000, payment (name "s") (name "f") (name "d") 700000]

/-- A job while the history is as given. -/
def historyJob (history : List ChainTxDetail) (job : Job) (h : isTraceJob job = true) : CrawlJob 5 :=
  let provider := { Provider.ofTxs history with getAddressTxs := fun _ => history.map (·.toSummary) }
  { env := { provider, config := { backfillMaxTxs := 25 } }
    inputs := { calls := ⟨provider, provider, provider, provider⟩ }
    job
    traces := h
    maxCrawlDepth := rfl }

theorem isTraceJob_payment : isTraceJob (.processTx (name "t")) = true := rfl

def paidJob (other : Int) : CrawlJob 5 :=
  historyJob (expandedHistory other) (.processTx (name "t")) isTraceJob_payment

def expandedJob (other : Int) : CrawlJob 5 :=
  historyJob (expandedHistory other) (.expandDownstream { address := name "d" }) rfl

def paidOnce (other : Int) : Db := (paidJob other).op.final twoHackers ⟨{}, []⟩

/-- The store after the payment to `d` is processed and `d` is expanded. -/
def expanded (other : Int) : Db := (expandedJob other).op.final (paidOnce other) ⟨{}, []⟩

/-- The later transactions are on the chain; a page holds 25 of them. -/
def laterCalls (other : Int) : PollCalls :=
  let provider :=
    { Provider.ofTxs (laterHistory ++ expandedHistory other) with
      getAddressTxs := fun _ => (laterHistory.take 25).map (·.toSummary)
      getAddressStats := fun _ => { spentTxoSum := 1500000, txCount := 29 } }
  ⟨provider, provider, provider, provider⟩

/-- The gap check of the poll of `d`. -/
def laterCheck (other : Int) : Option (PollState × Out Stmt Mem Err (Option PollState)) :=
  gapCheckOf { provider := (laterCalls other).page } (laterCalls other) { address := name "d" } (expanded other)
    ⟨{}, []⟩

/-- The poll of `d` checks a gap, and whether the check moves the cursor. -/
def laterMoves (other : Int) : Option Bool :=
  (laterCheck other).bind fun r =>
    if r.1.payload.address = name "d" && r.2.res.toOption.isSome then
      some (decide ((name "d", r.1.payload.newestTxid) ∈ r.2.log.filterMap cursorOf))
    else none

/-- The history of `d` at the poll. -/
def wholeHistory (other : Int) : List ChainTxDetail := laterHistory ++ expandedHistory other

theorem exists_laterCheck {other : Int} {moves : Bool} (h : laterMoves other = some moves) :
    ∃ s check, ChecksGap { provider := (laterCalls other).page } (laterCalls other) { address := name "d" }
      (expanded other) ⟨{}, []⟩ s check ∧ s.payload.address = name "d" ∧
      ((name "d", s.payload.newestTxid) ∈ check.log.filterMap cursorOf ↔ moves = true) := by
  obtain ⟨⟨s, check⟩, hCheck, hMoves⟩ := Option.bind_eq_some_iff.mp h
  dsimp only at hMoves
  split at hMoves
  · next hFacts =>
    rw [Bool.and_eq_true, decide_eq_true_eq] at hFacts
    cases hMoves
    exact ⟨s, check, checksGap_of_eq hCheck hFacts.2, hFacts.1, decide_eq_true_iff.symm⟩
  · cases hMoves

/-- Where `d` pays alone, the check sees the untraced spend. -/
theorem gapCheck_sound_alone : ∃ s check, ChecksGap { provider := (laterCalls 0).page } (laterCalls 0)
      { address := name "d" } (expanded 0) ⟨{}, []⟩ s check ∧ ¬ MovesCursor s check.log := by
  obtain ⟨s, check, hCheck, hAddress, -⟩ := exists_laterCheck
    (show laterMoves 0 = some false by decide +kernel)
  have hChain : chainSpent (laterCalls 0) s.payload.address = spentIn s.payload.address (wholeHistory 0) := by
    rw [hAddress]
    decide +kernel
  have hSound : MovesCursor s check.log → untracedSpent s.payload.address (wholeHistory 0)
      (tracedTxids (expanded 0).edges (name "d")) < 100000 :=
    (gapCheck_sound_iff hCheck hChain).mpr (by
      rw [hAddress]
      decide +kernel)
  refine ⟨s, check, hCheck, fun hMoves => absurd (hSound hMoves) ?_⟩
  rw [hAddress]
  decide +kernel

/-- Where another address pays most of a traced transaction, its outputs hide the untraced spend. -/
theorem gapCheck_hides : ¬ ∀ (env : Env) (calls : PollCalls) (raw : PollPayload) (db : Db) (c : Ctl Mem Err)
    (s : PollState) (check : Out Stmt Mem Err (Option PollState)) (history : List ChainTxDetail),
    Attempts (CrawlJob.op : CrawlJob 5 → StoreM Unit) (fun _ _ => True) twoHackers db →
    ChecksGap env calls raw db c s check →
    chainSpent calls s.payload.address = spentIn s.payload.address history →
    MovesCursor s check.log →
    untracedSpent s.payload.address history (tracedTxids db.edges s.payload.address) <
      env.config.minExpandSats := by
  intro h
  obtain ⟨s, check, hCheck, hAddress, hMoves⟩ := exists_laterCheck
    (show laterMoves 9200000 = some true by decide +kernel)
  have hJobs : Attempts (CrawlJob.op : CrawlJob 5 → StoreM Unit) (fun _ _ => True) twoHackers
      (expanded 9200000) :=
    (Relation.ReflTransGen.single ⟨paidJob 9200000, ⟨{}, []⟩, trivial, rfl⟩).tail
      ⟨expandedJob 9200000, ⟨{}, []⟩, trivial, rfl⟩
  obtain ⟨newest, hNewest⟩ := Option.isSome_iff_exists.mp hCheck.newest
  have hChain : chainSpent (laterCalls 9200000) s.payload.address =
      spentIn s.payload.address (wholeHistory 9200000) := by
    rw [hAddress]
    decide +kernel
  have hWritten : (s.payload.address, some newest) ∈ check.log.filterMap cursorOf := by
    rw [hAddress, ← hNewest]
    exact hMoves.mpr rfl
  have hBelow := h _ _ _ _ _ s check (wholeHistory 9200000) hJobs hCheck hChain ⟨newest, hNewest, hWritten⟩
  rw [hAddress] at hBelow
  revert hBelow
  decide +kernel

end Bloodhound.Indexer
