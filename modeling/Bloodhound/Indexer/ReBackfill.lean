import Bloodhound.Indexer.JobWrites
import Bloodhound.Lib.Logged

/-!
# A fresh backfill of a hacker

`runReBackfillHacker` of `processor.ts` opens the backfill of a hacker again before a job without a continuation is
enqueued. It does not give a payload to `upsertBackfillState`, which keeps the stored one then, and a job without a
continuation goes on from the stored payload.

* `Announced`: a job puts the payload of each backfill that it enqueues into the row of the hacker first.
* `startsOver_iff`: the jobs of the new backfill begin with the first page, or where one of them stopped, exactly
  when the payload that was stored before holds no work.
-/

namespace Bloodhound.Indexer

open Chain Store Bloodhound.Graph
open Journal Journal.Op

def runReBackfillHacker (address : Address) : StoreM Address := do
  setExpandStatus address .pending
  upsertBackfillState address none false
  pure address

/-! ## Where a payload stands -/

/-- The place in the history: the cursor of the next page, the entries that are left of the page before it, and
whether all pages were read. -/
structure HistoryPosition where
  chainCursor : Option Txid := none
  pending : List Txid := []
  pagesExhausted : Bool := false
  deriving DecidableEq

def BackfillPayload.position (payload : BackfillPayload) : HistoryPosition where
  chainCursor := payload.chainCursor
  pending := ((readPending payload.toPendingPayloadFields).drop payload.processedIndex).map (·.txid)
  pagesExhausted := payload.pagesExhausted

/-- Nothing of the history was read. -/
def firstPage : HistoryPosition := {}

theorem map_txid_readPending (pending : List PendingTxRuntime) (processedIndex : Nat)
    (opts : Option SerializeOpts) :
    (readPending (writePendingPayload pending processedIndex opts)).map (·.txid) =
      if processedIndex < pending.length then pending.map (·.txid) else [] := by
  unfold writePendingPayload
  split
  · next hLeft =>
    have hSome : serializePendingTxs opts pending ≠ [] := by
      unfold serializePendingTxs
      exact fun hNil => by rw [List.map_eq_nil_iff.mp hNil] at hLeft; exact absurd hLeft (Nat.not_lt_zero _)
    unfold readPending runtimeFromClassified parsePendingTxs
    rw [if_pos hSome, serializePendingTxs, List.map_map, List.map_map]
    rfl
  · rfl

/-- A payload that is parsed stands where it stood. -/
theorem position_parse (raw : BackfillPayload) : (parseBackfillPayload raw).position = raw.position := by
  have hTxids := map_txid_readPending (readPending raw.toPendingPayloadFields) raw.processedIndex none
  unfold BackfillPayload.position parseBackfillPayload
  dsimp only
  rw [List.map_drop, List.map_drop, hTxids]
  by_cases hLeft : raw.processedIndex < (readPending raw.toPendingPayloadFields).length
  · rw [if_pos hLeft, writePendingPayload, if_pos hLeft]
  · rw [if_neg hLeft, List.drop_nil, List.drop_of_length_le (by rw [List.length_map]; omega)]

/-! ## Stored payloads -/

def storedPayload (db : Db) (address : Address) : Option BackfillPayload :=
  (db.syncState.lookup address).bind (·.backfillState)

/-- The payload that a statement stores with the address, where it is another than before. -/
def newPayload (address : Address) (db : Db) (i : Stmt) : Option BackfillPayload :=
  if storedPayload (exec i db) address = storedPayload db address then none
  else storedPayload (exec i db) address

/-- The payloads that a log stores with the address. -/
def savedBy (address : Address) : Db → List Stmt → List BackfillPayload
  | _, [] => []
  | db, i :: log => (newPayload address db i).toList ++ savedBy address (exec i db) log

theorem savedBy_append (address : Address) (db : Db) (l l' : List Stmt) :
    savedBy address db (l ++ l') = savedBy address db l ++ savedBy address (replay l db) l' := by
  induction l generalizing db with
  | nil => rfl
  | cons i l ih =>
    rw [List.cons_append, savedBy, ih, savedBy, replay_cons, List.append_assoc]

/-- The payload after a log is the one before it, or one that the log stored. -/
theorem storedPayload_replay {address : Address} {db : Db} {log : List Stmt} {p : BackfillPayload}
    (h : storedPayload (replay log db) address = some p) :
    storedPayload db address = some p ∨ p ∈ savedBy address db log := by
  induction log generalizing db with
  | nil => exact Or.inl h
  | cons i log ih =>
    rcases ih h with hStored | hSaved
    · by_cases hSame : storedPayload (exec i db) address = storedPayload db address
      · exact Or.inl (hSame ▸ hStored)
      · refine Or.inr (List.mem_append_left _ ?_)
        rw [newPayload, if_neg hSame, hStored]
        exact List.mem_singleton_self p
    · exact Or.inr (List.mem_append_right _ hSaved)

/-- The backfill that a statement enqueues. -/
def backfillOf : Stmt → Option BackfillPayload
  | .job (.insert (.backfillHackerAddress payload) _ _ _) => some payload
  | .job (.insertIfAbsent (.backfillHackerAddress payload) _ _ _ _ _) => some payload
  | _ => none

/-- A backfill of the address that is enqueued has the payload that is stored then. -/
def Announced (address : Address) (db : Db) (log : List Stmt) : Prop :=
  ∀ payload ∈ log.filterMap backfillOf, payload.address = address →
    storedPayload db address = some payload ∨ payload ∈ savedBy address db log

theorem composes_announced (address : Address) : Composes (Announced address) where
  nil _ payload hMem := absurd hMem List.not_mem_nil
  append db l l' h h' payload hMem hAddress := by
    rw [savedBy_append]
    rw [List.filterMap_append] at hMem
    rcases List.mem_append.mp hMem with hMem | hMem
    · exact (h payload hMem hAddress).imp_right (List.mem_append_left _)
    · rcases h' payload hMem hAddress with hStored | hSaved
      · exact (storedPayload_replay hStored).imp_right (List.mem_append_left _)
      · exact Or.inr (List.mem_append_right _ hSaved)

/-! ## What a backfill announces -/

section Announces

variable {env : Env} {address : Address} {α : Type}

/-- A statement that enqueues no backfill. -/
def Unannounced (i : Stmt) : Prop := backfillOf i = none

theorem unannounced_of_isCounter (i : Stmt) (h : i.isCounter) : Unannounced i := by
  cases i with
  | job s => cases h
  | _ => rfl

theorem traceWrites_unannounced : TraceWrites Unannounced where
  counter := unannounced_of_isCounter
  victim _ := rfl
  downstream _ _ := rfl
  profile _ _ := rfl
  inbound _ _ := rfl
  received _ _ := rfl
  peak _ := rfl
  totals _ _ := rfl
  transaction _ := rfl

theorem announced_of_emits {p : StoreM α} (h : p.Emits Unannounced) : p.Logs (Announced address) := by
  refine (composes_announced address).logs_of_emits h fun i hi db payload hMem => ?_
  rw [List.filterMap_cons_none hi] at hMem
  exact absurd hMem List.not_mem_nil

theorem storedPayload_insert (db : Db) (address : Address) (row : SyncStateRow) :
    storedPayload (exec (Stmt.syncState address row) db) address = row.backfillState := by
  show ((db.syncState.insert address row).lookup address).bind (·.backfillState) = _
  rw [Table.lookup_insert_if, if_pos rfl, Option.bind_some]

/-- The row has the payload, or keeps the one before where none is given. -/
theorem stores_upsertBackfillState (address : Address) (payload before : Option BackfillPayload) :
    Triple (fun db => storedPayload db address = before) (upsertBackfillState address payload false)
      (fun _ db => storedPayload db address = payload.or before) fun _ _ => True := by
  refine Triple.bind (Q := fun existing db => existing.bind (·.backfillState) = before)
    (triple_query (fun db h => h) fun _ _ _ => trivial) fun existing => ?_
  refine triple_run (fun db h => ?_) fun _ _ _ => trivial
  rw [storedPayload_insert, backfilledSync, ← h]
  cases existing <;> rfl

/-- A continuation is stored before it is enqueued. -/
theorem announces_continuation (payload : BackfillPayload) (enqueueContinuation : Bool) :
    (enqueueBackfillContinuation env payload enqueueContinuation).Logs (Announced address) := by
  have hUpsert : (upsertBackfillState payload.address (some payload) false).Emits Unannounced :=
    (emits_query _).bind fun _ => emits_run rfl
  refine (composes_announced address).logs_bind_of (announced_of_emits hUpsert) fun db c _ hOk q hMem hAddress => ?_
  have hStored := (stores_upsertBackfillState payload.address (some payload) _).ok (c := c) rfl hOk
  have hOnly : (when (enqueueContinuation = true) (do
      let _ ← (enqueueJob env (.backfillHackerAddress payload) JobPriority.backfillHacker none false :
        StoreM (Option Nat))
      pure ())).Emits fun i => ∀ q, backfillOf i = some q → q = payload := by
    have hCounter : ∀ i : Stmt, i.isCounter → ∀ q, backfillOf i = some q → q = payload := fun i hi q hq => by
      rw [unannounced_of_isCounter i hi] at hq
      cases hq
    refine emits_when fun _ => Emits.bind ?_ fun _ => emits_pure _
    refine emits_enqueueJob (queueCounters hCounter) (hCounter _ rfl) env (fun _ _ q hq => ?_) _ _
    exact (Option.some.inj hq).symm
  obtain ⟨i, hi, hq⟩ := List.mem_filterMap.mp hMem
  obtain rfl := hOnly _ _ i hi q hq
  exact Or.inl (hAddress ▸ hStored)

theorem announces_backfillLoop (b : BackfillRun) (entries : List PendingTxRuntime) (l : EntryLoop) :
    (backfillLoop env b entries l).Logs (Announced address) := by
  have hφ := composes_announced address
  induction entries generalizing l with
  | nil => exact hφ.logs_pure _
  | cons entry rest ih =>
    refine hφ.logs_bind (announced_of_emits emits_canProcess) fun ready => ?_
    split
    · exact hφ.logs_pure _
    split
    · exact ih _
    have hSave : (b.saveAt env l.processedIndex {}).Logs (Announced address) := announces_continuation _ _
    have hEntry : (b.processEntry env entry l).Logs (Announced address) := by
      refine hφ.logs_tryCatch (announced_of_emits ?_) fun e =>
        hφ.logs_bind (hφ.logs_when fun _ => hSave) fun _ => hφ.logs_throw e
      exact emits_processClassifiedPendingTx (Q := fun _ => True) traceWrites_unannounced (fun _ _ => rfl)
        trivial trivial fun _ _ => trivial
    refine hφ.logs_bind hEntry fun result =>
      hφ.logs_bind (announced_of_emits (emits_when fun _ => emits_consumeBudget)) fun _ => ?_
    split
    · exact hφ.logs_bind (announces_continuation _ _) fun _ => hφ.logs_pure _
    · refine hφ.logs_bind (announced_of_emits emits_mustStop) fun stop => ?_
      dsimp only
      split
      · exact hφ.logs_pure _
      · exact ih _

theorem announces_finish (b : BackfillRun) (l : EntryLoop) : (b.finish env l).Logs (Announced address) := by
  have hPoll : ∀ data, (upsertSyncState b.address data).Emits Unannounced := fun data =>
    emits_recordSyncPoll unannounced_of_isCounter (fun _ => rfl) (some data)
  have hComplete : (upsertBackfillState b.address none true).Emits Unannounced :=
    (emits_query _).bind fun _ => emits_run rfl
  unfold BackfillRun.finish
  split
  · exact announces_continuation _ _
  · exact announced_of_emits ((emits_when fun _ => hPoll _).bind fun _ => hComplete.bind fun _ =>
      emits_setExpandStatus unannounced_of_isCounter rfl)

/-- A job stores the payload of a backfill of the address before it enqueues the backfill. -/
theorem announces_backfillHacker (raw : BackfillPayload) (hackers : Option (List Address))
    (enqueueContinuation : Bool) :
    (backfillHacker env raw hackers enqueueContinuation).Logs (Announced address) := by
  have hφ := composes_announced address
  have hPayload : (hydrateBackfillPayload raw).Emits Unannounced := by
    unfold hydrateBackfillPayload
    dsimp only
    split
    · exact emits_pure _
    · exact Emits.bind ((emits_query _).bind fun _ => emits_pure _) fun _ => emits_pure _
  have hFetch : ∀ (a : Address) h, (fetchForBackfill env a h).Emits Unannounced := by
    intro a h
    refine emits_canCallAndUse.bind fun ready => ?_
    split
    · exact (emits_fetchAddressTxPage _ _ _).bind fun _ => emits_consumeBudget.bind fun _ =>
        emits_budgetsExhausted.bind fun _ => emits_pure _
    · exact emits_pure _
  refine hφ.logs_bind (announced_of_emits hPayload) fun payload =>
    hφ.logs_bind (announced_of_emits (emits_givenHackers hackers)) fun hackers =>
      hφ.logs_bind (announced_of_emits (emits_setExpandStatus unannounced_of_isCounter rfl)) fun _ =>
        hφ.logs_bind (announced_of_emits (emits_createChainCallBudget env)) fun _ =>
          hφ.logs_bind (announced_of_emits (hFetch _ _)) fun fetched => ?_
  split
  · exact announces_continuation _ _
  · refine hφ.logs_bind (announced_of_emits (emits_processLimit _ _)) fun limit =>
      hφ.logs_bind (announced_of_emits (emits_query _)) fun addrRow => ?_
    exact hφ.logs_bind (announces_backfillLoop _ _ _) fun stopped =>
      hφ.logs_forEach fun l _ => announces_finish _ l

end Announces

/-! ## The jobs of a new backfill -/

/-- A new backfill of an address: the payloads of its jobs, and the payloads that these have saved. -/
structure ReBackfill where
  db : Db
  jobs : List BackfillPayload
  saved : List BackfillPayload

/-- The new backfill begins with a job without a continuation. -/
def ReBackfill.start (db : Db) (address : Address) : ReBackfill := ⟨db, [{ address }], []⟩

/-- What a job of the backfill adds, when its run has this log. -/
def ReBackfill.ran (s : ReBackfill) (address : Address) (log : List Stmt) : ReBackfill where
  db := replay log s.db
  jobs := s.jobs ++ (log.filterMap backfillOf).filter (·.address = address)
  saved := s.saved ++ savedBy address s.db log

/-- One step: a job of the backfill runs, whatever faults and budgets it meets, and perhaps not for the first time;
or something else changes the database, but stores no payload with work left for the address. -/
inductive ReBackfill.Step (env : Env) (address : Address) : ReBackfill → ReBackfill → Prop
  | job {s : ReBackfill} {raw : BackfillPayload} (hJob : raw ∈ s.jobs) (hackers : Option (List Address))
      (enqueueContinuation : Bool) (c : Ctl Mem Err) :
      Step env address s (s.ran address (backfillHacker env raw hackers enqueueContinuation s.db c).log)
  | other {s : ReBackfill} (db : Db) (hStored : storedPayload db address = storedPayload s.db address ∨
      ∀ p ∈ storedPayload db address, p.position = firstPage) : Step env address s { s with db }

/-- Every job of the backfill reads the history from the first page on, or from where a job of the backfill has
stopped. -/
def ReBackfill.StartsOver (s : ReBackfill) : Prop :=
  ∀ raw ∈ s.jobs, ∀ c payload, (hydrateBackfillPayload raw s.db c).res = .ok payload →
    payload.position = firstPage ∨ ∃ p ∈ s.saved, payload.position = p.position

section Runs

variable {env : Env} {address : Address}

/-- The payload is at the first page, or was saved. -/
def ReBackfill.Fresh (s : ReBackfill) (p : BackfillPayload) : Prop := p.position = firstPage ∨ p ∈ s.saved

/-- What every step keeps. -/
structure ReBackfill.Inv (address : Address) (s : ReBackfill) : Prop where
  jobs : ∀ raw ∈ s.jobs, raw.address = address ∧ s.Fresh raw
  stored : ∀ p, storedPayload s.db address = some p → s.Fresh p

theorem ReBackfill.Fresh.ran {s : ReBackfill} {p : BackfillPayload} (h : s.Fresh p) (log : List Stmt) :
    (s.ran address log).Fresh p := h.imp_right (List.mem_append_left _)

theorem ReBackfill.Inv.step {s s' : ReBackfill} (h : s.Inv address) (hStep : ReBackfill.Step env address s s') :
    s'.Inv address := by
  cases hStep with
  | @job raw hJob hackers enqueueContinuation c =>
    have hAnnounced := @announces_backfillHacker env address raw hackers enqueueContinuation s.db c
    constructor
    · intro p hp
      rcases List.mem_append.mp hp with hp | hp
      · exact ⟨(h.jobs p hp).1, (h.jobs p hp).2.ran _⟩
      · obtain ⟨hMem, hAddress⟩ := List.mem_filter.mp hp
        have hOwn := of_decide_eq_true hAddress
        refine ⟨hOwn, ?_⟩
        rcases hAnnounced p hMem hOwn with hStored | hSaved
        · exact (h.stored p hStored).ran _
        · exact Or.inr (List.mem_append_right _ hSaved)
    · intro p hp
      rcases storedPayload_replay hp with hStored | hSaved
      · exact (h.stored p hStored).ran _
      · exact Or.inr (List.mem_append_right _ hSaved)
  | other db hStored =>
    refine ⟨h.jobs, fun p hp => ?_⟩
    rcases hStored with hSame | hIdle
    · exact h.stored p (hSame ▸ hp)
    · exact Or.inl (hIdle p hp)

theorem ReBackfill.Inv.run {s s' : ReBackfill} (h : s.Inv address)
    (hRun : Relation.ReflTransGen (ReBackfill.Step env address) s s') : s'.Inv address := by
  induction hRun with
  | refl => exact h
  | tail _ hStep ih => exact ih.step hStep

/-- What a job reads is its payload or the stored one. -/
theorem position_hydrate {raw : BackfillPayload} {db : Db} {c : Ctl Mem Err} {payload : BackfillPayload}
    (hOk : (hydrateBackfillPayload raw db c).res = .ok payload) :
    payload.position = raw.position ∨
      ∃ p, storedPayload db raw.address = some p ∧ payload.position = p.position := by
  unfold hydrateBackfillPayload at hOk
  split at hOk
  · cases hOk
    exact Or.inl (position_parse raw)
  · have hSaved : Triple (fun s => s = db) (getBackfillPayload raw.address)
        (fun saved s => s = db ∧ saved = storedPayload db raw.address) fun _ _ => True := by
      refine Triple.bind (Q := fun row s => s = db ∧ row = db.syncState.lookup raw.address)
        (triple_query (fun s hs => ⟨hs, by rw [hs]⟩) fun _ _ _ => trivial) fun row => ?_
      exact triple_pure _ fun s hs => ⟨hs.1, by rw [hs.2]; rfl⟩
    have hRead : Triple (fun s => s = db) (do
        let saved ← getBackfillPayload (parseBackfillPayload raw).address
        pure ((saved.map parseBackfillPayload).getD (parseBackfillPayload raw)))
        (fun payload _ => payload =
          ((storedPayload db raw.address).map parseBackfillPayload).getD (parseBackfillPayload raw))
        fun _ _ => True := hSaved.bind fun saved => triple_pure _ fun s hs => by rw [hs.2]
    have hPayload := hRead.ok (c := c) rfl hOk
    rw [hPayload]
    cases hStored : storedPayload db raw.address with
    | none => exact Or.inl (position_parse raw)
    | some p => exact Or.inr ⟨p, rfl, position_parse p⟩

theorem ReBackfill.Inv.startsOver {s : ReBackfill} (h : s.Inv address) : s.StartsOver := by
  have hFresh : ∀ {p payload : BackfillPayload}, s.Fresh p → payload.position = p.position →
      payload.position = firstPage ∨ ∃ p ∈ s.saved, payload.position = p.position := by
    rintro p payload (hFirst | hSaved) hSame
    · exact Or.inl (hSame.trans hFirst)
    · exact Or.inr ⟨p, hSaved, hSame⟩
  intro raw hRaw c payload hOk
  obtain ⟨hAddress, hRawFresh⟩ := h.jobs raw hRaw
  rcases position_hydrate hOk with hOwn | ⟨p, hStored, hSame⟩
  · exact hFresh hRawFresh hOwn
  · exact hFresh (h.stored p (hAddress ▸ hStored)) hSame

/-- The reset keeps the stored payload. -/
theorem storedPayload_reset {db : Db} {c : Ctl Mem Err} {a : Address}
    (hOk : (runReBackfillHacker address db c).res = .ok a) :
    storedPayload ((runReBackfillHacker address).final db c) address = storedPayload db address := by
  have hStatus : (setExpandStatus address .pending).Emits fun i => ∀ db, storedPayload (exec i db) address =
      storedPayload db address := by
    refine emits_setExpandStatus (fun i hi db => ?_) fun db => rfl
    cases i with
    | syncState a row => cases hi
    | deleteSyncState a => cases hi
    | _ => rfl
  have hReset : Triple (fun s => storedPayload s address = storedPayload db address) (runReBackfillHacker address)
      (fun _ s => storedPayload s address = storedPayload db address) fun _ _ => True :=
    Triple.bind (Q := fun _ s => storedPayload s address = storedPayload db address)
      ((triple_of_emits hStatus fun i hi s hs => (hi s).trans hs).conseq (fun _ h => h) (fun _ _ h => h)
        fun _ _ _ => trivial) fun _ =>
      (stores_upsertBackfillState address none (storedPayload db address)).bind fun _ => triple_pure _ fun _ h => h
  exact hReset.ok rfl hOk

/-- The first job goes on from a stored payload. -/
theorem hydrate_first {db : Db} {p : BackfillPayload} (hStored : storedPayload db address = some p) :
    (hydrateBackfillPayload { address } db ⟨{}, []⟩).res = .ok (parseBackfillPayload p) := by
  have hRead : (hydrateBackfillPayload { address } db ⟨{}, []⟩).res =
      .ok (((storedPayload db address).map parseBackfillPayload).getD (parseBackfillPayload { address })) := rfl
  rw [hRead, hStored]
  rfl

end Runs

/-- After a reset, every run of the new backfill reads the history from its first page on exactly when the payload
that was stored before the reset is at the first page. -/
theorem startsOver_iff (env : Env) (address : Address) (db : Db) (c : Ctl Mem Err) (a : Address)
    (hReset : (runReBackfillHacker address db c).res = .ok a) :
    (∀ s, Relation.ReflTransGen (ReBackfill.Step env address)
        (.start ((runReBackfillHacker address).final db c) address) s → s.StartsOver) ↔
      ∀ p, storedPayload db address = some p → p.position = firstPage := by
  have hKept := storedPayload_reset hReset
  constructor
  · intro hRuns p hStored
    have hFirst := hRuns _ .refl { address } List.mem_cons_self ⟨{}, []⟩ _ (hydrate_first (hKept.trans hStored))
    rw [position_parse] at hFirst
    exact hFirst.resolve_right fun ⟨_, hNone, _⟩ => List.not_mem_nil hNone
  · intro hIdle s hRun
    have hInv : (ReBackfill.start ((runReBackfillHacker address).final db c) address).Inv address := by
      constructor
      · intro raw hRaw
        rw [List.mem_singleton.mp hRaw]
        exact ⟨rfl, Or.inl rfl⟩
      · intro p hp
        exact Or.inl (hIdle p (hKept ▸ hp))
    exact (hInv.run hRun).startsOver

/-- The database after a fresh reset of a hacker of which nothing is stored. -/
def resetDb : Db := (runReBackfillHacker (name "h")).final Db.initial ⟨{}, []⟩

/-- A victim has paid the hacker. -/
def firstPayment : ChainTxDetail where
  txid := name "t"
  vin := [{ prevout := some ⟨name "v", some 700000⟩ }]
  vout := [{ scriptpubkeyAddress := name "h", value := some 690000 }]

/-- The history of the hacker has one page, with the payment. -/
def onePageEnv : Env where
  provider := { Provider.ofTxs [firstPayment] with getAddressTxs := fun _ => [firstPayment.toSummary] }

theorem startsOver_after_job :
    ((ReBackfill.start resetDb (name "h")).ran (name "h")
      (backfillHacker onePageEnv { address := name "h" } (some [name "h"]) true resetDb
        ⟨{}, []⟩).log).StartsOver :=
  (startsOver_iff onePageEnv (name "h") Db.initial ⟨{}, []⟩ (name "h") rfl).mpr
    (fun _ hStored => nomatch hStored) _ (.single (.job List.mem_cons_self (some [name "h"]) true ⟨{}, []⟩))

-- the job lists the edge of the payment
example : ((backfillHacker onePageEnv { address := name "h" } (some [name "h"]) true).final resetDb
    ⟨{}, []⟩).edges.keys = [⟨name "v", name "h", name "t"⟩] := by
  decide +kernel

/-- The database of an interrupted backfill, which has saved a cursor and an entry. -/
def interruptedDb : Db :=
  { Db.initial with
    syncState := AList.insert (name "h")
      { backfillState := some
          { address := name "h", chainCursor := some (name "t1"), pendingTxs := [{ txid := name "t0" }] } } ∅ }

/-- The first job of a new backfill goes on with the cursor and the entry of the interrupted one. -/
theorem interrupted_goes_on :
    (hydrateBackfillPayload { address := name "h" }
      ((runReBackfillHacker (name "h")).final interruptedDb ⟨{}, []⟩) ⟨{}, []⟩).res.toOption.map (·.position) =
      some ⟨some (name "t1"), [name "t0"], false⟩ := by
  decide

end Bloodhound.Indexer
