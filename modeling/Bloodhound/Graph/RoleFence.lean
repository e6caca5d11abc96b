import Bloodhound.Lib.Runs
import Bloodhound.Indexer.SpendFanout

/-!
# The role of a flagged hacker

Every upsert of an address may write its role and its hop. The merge keeps a hacker's row where a victim
would replace it, and nowhere else: an output to a flagged hacker makes it a downstream address.

* `keepsHacker_iff`: which upserts leave a flagged address the role and the hop of a hacker.
* `hackersKeep_of_attempts`: runs of traces, fan-outs and upserts whose outputs avoid the flagged addresses,
  apart from known victims, keep every flagged address a hacker at hop 0.
-/

namespace Bloodhound.Graph

open Bloodhound.Chain Bloodhound.Store Bloodhound.Indexer
open Journal Journal.Op

/-- Every flagged address has the role of a hacker and hop 0. -/
def HackersKeep (t : Table.Rows Address AddressRow) : Prop :=
  ∀ a row, t.lookup a = some row → row.isFlaggedHacker = true →
    row.role = .hacker ∧ row.hopFromHacker = some 0

def flaggedIn (t : Table.Rows Address AddressRow) (a : Address) : Bool :=
  (t.lookup a).any (·.isFlaggedHacker)

/-! ## Upserts -/

/-- An upsert that leaves its address flagged is kept off a hacker's row by the fence, or it leaves the role
and the hop of a hacker: it names them, or names none where the row has them. -/
def KeepsHacker (data : AddressUpsertData) (before : Option AddressRow) : Prop :=
  data.isFlaggedHacker.getD (before.any (·.isFlaggedHacker)) = true →
    (∃ row, before = some row ∧ data.fenced row = true ∧ row.role = .hacker ∧
      row.hopFromHacker = some 0) ∨
    (data.role = some .hacker ∨ data.role = none ∧ before.any (·.role = .hacker) = true) ∧
      (data.hopFromHacker = some (some 0) ∨
        data.hopFromHacker = none ∧ before.any (·.hopFromHacker = some 0) = true)

/-- A flagged row is a hacker's. -/
def AddressRowKeeps (row : AddressRow) : Prop :=
  row.isFlaggedHacker = true → row.role = .hacker ∧ row.hopFromHacker = some 0

theorem keepsHacker_iff (data : AddressUpsertData) (before : Option AddressRow) :
    KeepsHacker data before ↔ AddressRowKeeps (before.elim data.inserted data.updated) := by
  unfold KeepsHacker AddressRowKeeps
  cases before with
  | none =>
    have hRole : data.role.getD .unknown = .hacker ↔ data.role = some .hacker := by
      cases data.role <;> simp
    have hHop : data.hopFromHacker.getD none = some 0 ↔ data.hopFromHacker = some (some 0) := by
      cases data.hopFromHacker <;> simp
    simp only [Option.any_none, Option.elim_none, AddressUpsertData.inserted, hRole, hHop, reduceCtorEq,
      false_and, exists_false, Bool.false_eq_true, and_false, or_false, false_or]
  | some row =>
    simp only [Option.any_some, Option.elim_some, AddressUpsertData.updated, Option.some.injEq,
      exists_eq_left', decide_eq_true_eq]
    by_cases hFence : data.fenced row = true
    · -- a fenced upsert names the role of a victim
      have hVictim : data.role = some .victim := by
        unfold AddressUpsertData.fenced at hFence
        cases hRole : data.role with
        | none => simp [hRole] at hFence
        | some role => simpa [hRole] using (Bool.and_eq_true_iff.mp hFence).2
      simp only [hFence, if_true, true_and, hVictim, Option.some.injEq, reduceCtorEq, false_and, or_self,
        or_false]
    · have hRole : data.role.getD row.role = .hacker ↔
          data.role = some .hacker ∨ data.role = none ∧ row.role = .hacker := by
        cases data.role <;> simp
      have hHop : data.hopFromHacker.getD row.hopFromHacker = some 0 ↔
          data.hopFromHacker = some (some 0) ∨ data.hopFromHacker = none ∧ row.hopFromHacker = some 0 := by
        cases data.hopFromHacker <;> simp
      simp only [hFence, if_false, false_and, false_or, hRole, hHop, Bool.false_eq_true]

theorem hackersKeep_upsert {t : Table.Rows Address AddressRow} {data : AddressUpsertData}
    (hKeep : HackersKeep t) (hData : KeepsHacker data (t.lookup data.address)) :
    HackersKeep (AddressStmt.exec (.upsert data) t) := by
  intro a row hRow hFlag
  unfold AddressStmt.exec at hRow
  rw [Table.lookup_insert_if] at hRow
  split at hRow
  · cases hRow
    exact (keepsHacker_iff data _).mp hData hFlag
  · exact hKeep a row hRow hFlag

/-! ## Statements that leave the labels -/

/-- The flag, the role and the hop of an address. -/
def labels (t : Table.Rows Address AddressRow) (a : Address) : Option (Bool × Role × Option Nat) :=
  (t.lookup a).map fun row => (row.isFlaggedHacker, row.role, row.hopFromHacker)

theorem labels_modify {k : Address} {f : AddressRow → AddressRow} {t : Table.Rows Address AddressRow}
    (h : ∀ row, (f row).isFlaggedHacker = row.isFlaggedHacker ∧ (f row).role = row.role ∧
      (f row).hopFromHacker = row.hopFromHacker) : labels (Table.modify k f t) = labels t := by
  funext a
  unfold labels
  rw [Table.lookup_modify]
  split
  · rw [Option.map_map]
    refine congrArg (Option.map · (t.lookup a)) (funext fun row => ?_)
    obtain ⟨hFlag, hRole, hHop⟩ := h row
    simp only [Function.comp_apply, hFlag, hRole, hHop]
  · rfl

theorem hackersKeep_of_labels {t t' : Table.Rows Address AddressRow} (h : labels t' = labels t)
    (hKeep : HackersKeep t) : HackersKeep t' := by
  intro a row hRow hFlag
  have hLabel := congrFun h a
  unfold labels at hLabel
  rw [hRow, Option.map_some] at hLabel
  obtain ⟨row', hRow', hSame⟩ := Option.map_eq_some_iff.mp hLabel.symm
  simp only [Prod.mk.injEq] at hSame
  obtain ⟨hFlag', hRole, hHop⟩ := hSame
  rw [← hRole, ← hHop]
  exact hKeep a row' hRow' (hFlag'.trans hFlag)

theorem flaggedIn_of_labels {t t' : Table.Rows Address AddressRow} (h : labels t' = labels t) :
    flaggedIn t' = flaggedIn t := by
  funext a
  have hFlag : ∀ t : Table.Rows Address AddressRow, flaggedIn t a = (labels t a).any (·.1) := by
    intro t
    unfold flaggedIn labels
    rw [Option.any_map]
  rw [hFlag, hFlag, h]

/-- Statements that give no address a label. -/
def Unlabelled : Core → Prop
  | .address (.addInboundSats _ _) | .address (.addTotalReceivedSats _ _) => True
  | .address (.setExpandProfile _ _) => True
  | .address _ => False
  | .edge _ | .totals _ _ => True

theorem labels_exec {i : Core} (hi : Unlabelled i) (v : CoreView) :
    labels (exec i v).addresses = labels v.addresses := by
  cases i with
  | edge s => rfl
  | totals a b => rfl
  | address s =>
    cases s with
    | addInboundSats a d => exact labels_modify fun _ => ⟨rfl, rfl, rfl⟩
    | addTotalReceivedSats a d => exact labels_modify fun _ => ⟨rfl, rfl, rfl⟩
    | setExpandProfile a p => exact labels_modify fun _ => ⟨rfl, rfl, rfl⟩
    | _ => exact hi.elim

theorem unlabelled_inboundStmts {e : Address × Int} {i : Core} (h : i ∈ inboundStmts e) : Unlabelled i := by
  rw [eq_of_mem_inboundStmts h]
  trivial

theorem unlabelled_batchStmts {env : Env} {rows : List EdgeUpsertData} {t : Table.Rows EdgeKey EdgeRow}
    {i : Core} (h : i ∈ batchStmts env rows t) : Unlabelled i := by
  have hChunks : ∀ (chunks : List (List EdgeUpsertData)) (t : Table.Rows EdgeKey EdgeRow),
      i ∈ chunksStmts chunks t → Unlabelled i := by
    intro chunks
    induction chunks with
    | nil => exact fun t h => nomatch h
    | cons chunk rest ih =>
      intro t h
      rcases List.mem_append.mp h with hChunk | hRest
      · rcases List.mem_append.mp hChunk with hEdge | hDelta
        · obtain ⟨data, _, rfl⟩ := List.mem_map.mp hEdge
          trivial
        · rcases mem_deltaStmts hDelta with ⟨a, d, rfl⟩ | ⟨a, d, rfl⟩ <;> trivial
      · exact ih _ hRest
  rcases List.mem_append.mp h with hRows | hTotals
  · exact hChunks _ _ hRows
  · unfold totalsStmts at hTotals
    split at hTotals
    · cases hTotals
    · rw [List.mem_singleton.mp hTotals]
      trivial

/-! ## What traces write -/

/-- The upserts of a trace give no flag; they name a victim, or an address that is not flagged. Of the other
statements on `addresses` a trace only adds to totals. -/
def TraceLabel (flagged : Address → Bool) : Core → Prop
  | .address (.upsert data) =>
    data.isFlaggedHacker = none ∧
      (data.forceRole = false ∧ data.role = some .victim ∨ flagged data.address = false)
  | .address (.addInboundSats _ _) | .address (.addTotalReceivedSats _ _) => True
  | .address (.setExpandProfile _ _) => True
  | .address _ => False
  | .edge _ | .totals _ _ => True

/-- Flagged addresses are hackers, and no others are flagged. -/
def KeepsFlagged (flagged : Address → Bool) (v : CoreView) : Prop :=
  HackersKeep v.addresses ∧ ∀ a, flaggedIn v.addresses a = true → flagged a = true

theorem keepsFlagged_exec {flagged : Address → Bool} {i : Core} (hi : TraceLabel flagged i) {v : CoreView}
    (h : KeepsFlagged flagged v) : KeepsFlagged flagged (exec i v) := by
  have hSame : Unlabelled i → KeepsFlagged flagged (exec i v) := fun hUnlabelled =>
    ⟨hackersKeep_of_labels (labels_exec hUnlabelled v) h.1,
      fun a ha => h.2 a (flaggedIn_of_labels (labels_exec hUnlabelled v) ▸ ha)⟩
  cases i with
  | edge s => exact h
  | totals a b => exact h
  | address s =>
    cases s with
    | upsert data =>
      obtain ⟨hNoFlag, hRow⟩ := hi
      constructor
      · refine hackersKeep_upsert h.1 fun hFlag => ?_
        rw [hNoFlag, Option.getD_none] at hFlag
        rcases hRow with ⟨hForce, hVictim⟩ | hOther
        · -- the fence keeps the row of a hacker
          obtain ⟨row, hLookup, hFlagged⟩ := (Option.any_eq_true _ _).mp hFlag
          obtain ⟨hRole, hHop⟩ := h.1 _ row hLookup hFlagged
          refine Or.inl ⟨row, hLookup, ?_, hRole, hHop⟩
          simp [AddressUpsertData.fenced, hForce, hVictim, hRole]
        · rw [h.2 _ hFlag] at hOther
          cases hOther
      · intro a ha
        unfold flaggedIn at ha
        simp only [exec, Core.exec, AddressStmt.exec, Table.lookup_insert_if] at ha
        split at ha
        · next hAddress =>
          refine h.2 a ?_
          unfold flaggedIn
          rw [hAddress]
          cases hLookup : v.addresses.lookup data.address with
          | none => simp [hLookup, AddressUpsertData.inserted, hNoFlag] at ha
          | some row => simpa [hLookup, AddressUpsertData.updated, hNoFlag] using ha
        · exact h.2 a ha
    | addInboundSats a d => exact hSame trivial
    | addTotalReceivedSats a d => exact hSame trivial
    | setExpandProfile a p => exact hSame trivial
    | _ => exact hi.elim

section TraceLabel

variable {flagged : Address → Bool}

theorem traceLabel_of_unlabelled {i : Core} (h : Unlabelled i) : TraceLabel flagged i := by
  cases i with
  | edge s => trivial
  | totals a b => trivial
  | address s => cases s <;> trivial

theorem traceLabel_victimStmts {input : HackTraceApplyInput} {opts : HackTraceApplyChunkOptions} {i : Core}
    (h : i ∈ victimStmts input opts) : TraceLabel flagged i := by
  unfold victimStmts at h
  split at h
  · obtain ⟨data, hData, rfl⟩ := List.mem_map.mp h
    obtain ⟨a, _, rfl⟩ := List.mem_map.mp hData
    exact ⟨rfl, Or.inl ⟨rfl, rfl⟩⟩
  · cases h

/-- Where the outputs of the range to flagged addresses are returns to known victims, the range writes no
label of a flagged address. -/
theorem traceLabel_chunkCoreStmts {env : Env} {applyMeta : HackTraceApplyMeta} {input : HackTraceApplyInput}
    {opts : HackTraceApplyChunkOptions} {v : CoreView}
    (hOut : ∀ e ∈ chunkSlice input opts, e.direction = .outFromHacker → flagged e.toAddress = true →
      isVictimOf v.edges opts.flaggedHackers e.toAddress = true) {i : Core}
    (h : i ∈ chunkCoreStmts env applyMeta input opts v) : TraceLabel flagged i := by
  rcases List.mem_append.mp h with hVictims | hSlice
  · exact traceLabel_victimStmts hVictims
  · unfold sliceStmts at hSlice
    rw [edges_replay_victimStmts] at hSlice
    rcases List.mem_append.mp hSlice with hDown | hRest
    · obtain ⟨data, hData, rfl⟩ := List.mem_map.mp hDown
      obtain ⟨e, he, rfl⟩ := List.mem_map.mp hData
      obtain ⟨heSlice, hDownstream⟩ := List.mem_filter.mp he
      simp only [isDownstreamEdge, Bool.and_eq_true, decide_eq_true_eq, Bool.not_eq_true'] at hDownstream
      refine ⟨rfl, Or.inr ?_⟩
      by_contra hFlag
      have hVictim := hOut e heSlice hDownstream.1 (Bool.not_eq_false _ ▸ hFlag)
      rw [hDownstream.2] at hVictim
      cases hVictim
    · rcases List.mem_append.mp hRest with hSkipped | hBatch
      · obtain ⟨e, _, he⟩ := List.mem_flatMap.mp hSkipped
        exact traceLabel_of_unlabelled (unlabelled_inboundStmts he)
      · exact traceLabel_of_unlabelled (unlabelled_batchStmts hBatch)

/-- Where the target of the largest output is not flagged, a fan-out writes no label of a flagged address. -/
theorem traceLabel_fanoutCoreStmts {env : Env} {tx : ChainTxDetail} {spender : Address} {hop : Nat}
    {v : CoreView} (hTop : ∀ e ∈ (buildFanoutMeta env.config tx spender).topOutputs.head?,
      flagged e.1 = false) {i : Core} (h : i ∈ fanoutCoreStmts env tx spender hop v) :
    TraceLabel flagged i := by
  obtain ⟨primary, hPrimary, hStmts⟩ := List.mem_flatMap.mp h
  rcases List.mem_append.mp hStmts with hFanout | hProfile
  · rcases List.mem_append.mp hFanout with hRow | hRest
    · obtain ⟨data, hData, rfl⟩ := List.mem_map.mp hRow
      rw [List.mem_singleton.mp hData]
      exact ⟨rfl, Or.inr (hTop primary (Option.mem_toList.mp hPrimary))⟩
    · split at hRest
      · exact traceLabel_of_unlabelled (unlabelled_inboundStmts hRest)
      · exact traceLabel_of_unlabelled (unlabelled_batchStmts hRest)
  · rw [List.mem_singleton.mp hProfile]
    trivial

end TraceLabel

/-! ## Runs -/

/-- What may write the role and the hop of an address. -/
inductive FenceStep where
  | trace (applyMeta : HackTraceApplyMeta) (input : HackTraceApplyInput) (opts : HackTraceApplyChunkOptions)
  | fanout (tx : ChainTxDetail) (spender : Address) (hop : Nat)
  | upsert (data : AddressUpsertData)
  | upsertBatch (rows : List AddressUpsertData)

def FenceStep.op (env : Env) : FenceStep → StoreM Unit
  | .trace applyMeta input opts => do
    let _ ← applyHackTraceEdgesChunk env applyMeta input opts
  | .fanout tx spender hop => applySpendFanoutSummary env tx spender hop
  | .upsert data => upsertAddress data
  | .upsertBatch rows => upsertAddressesBatch env rows

/-- Each row keeps the hackers of the table that the rows before it leave. -/
def KeepsHackers : List AddressUpsertData → Table.Rows Address AddressRow → Prop
  | [], _ => True
  | data :: rest, t =>
    KeepsHacker data (t.lookup data.address) ∧ KeepsHackers rest (AddressStmt.exec (.upsert data) t)

/-- The outputs to flagged addresses that a trace applies are returns to known victims, a fan-out has none
as its largest output, and other upserts keep the hackers. -/
def FenceStep.Respects (env : Env) : FenceStep → Db → Prop
  | .trace _ input opts, db => ∀ e ∈ chunkSlice input opts, e.direction = .outFromHacker →
    flaggedIn db.addresses e.toAddress = true → isVictimOf db.edges opts.flaggedHackers e.toAddress = true
  | .fanout tx spender _, db => ∀ e ∈ (buildFanoutMeta env.config tx spender).topOutputs.head?,
    flaggedIn db.addresses e.1 = false
  | .upsert data, db => KeepsHacker data (db.addresses.lookup data.address)
  | .upsertBatch rows, db => KeepsHackers rows db.addresses

theorem hackersKeep_replay_upserts {rows : List AddressUpsertData} {stmts : List Core}
    (hStmts : stmts <+: upsertStmts rows) {v : CoreView} (hRows : KeepsHackers rows v.addresses)
    (h : HackersKeep v.addresses) : HackersKeep (replay stmts v).addresses := by
  induction rows generalizing stmts v with
  | nil =>
    rw [List.prefix_nil.mp hStmts]
    exact h
  | cons data rest ih =>
    cases stmts with
    | nil => exact h
    | cons i stmts =>
      obtain ⟨hFirst, hRest⟩ := List.cons_prefix_cons.mp hStmts
      subst hFirst
      exact ih hRest hRows.2 (hackersKeep_upsert h hRows.1)

theorem hackersKeep_of_traceLabel {α : Type} {p : StoreM α} {db : Db} {kept : List Core}
    (hWrites : p.WritesAt Stmt.core? db kept)
    (hLabels : ∀ i ∈ kept, TraceLabel (flaggedIn db.addresses) i) (h : HackersKeep db.addresses)
    (c : Ctl Mem Err) : HackersKeep (p.final db c).addresses := by
  have hFinal : KeepsFlagged (flaggedIn db.addresses) (p.final db c).core :=
    hWrites.final_inv tracks_core (fun i hi v hv => keepsFlagged_exec (hLabels i hi) hv)
      ⟨h, fun _ ha => ha⟩ c
  exact hFinal.1

/-- A chunk that the CPU guard keeps out leaves the state. -/
theorem final_chunk_of_exceeded {env : Env} {applyMeta : HackTraceApplyMeta} {input : HackTraceApplyInput}
    {opts : HackTraceApplyChunkOptions} {db : Db} {c : Ctl Mem Err} (hGuard : c.mem.cpuGuard.exceeded = true) :
    (applyHackTraceEdgesChunk env applyMeta input opts).final db c = db := by
  unfold Op.final applyHackTraceEdgesChunk readCpuGuard
  rw [mem_bind]
  simp only [hGuard, if_true]
  rfl

theorem final_chunk_of_range {env : Env} {applyMeta : HackTraceApplyMeta} {input : HackTraceApplyInput}
    {opts : HackTraceApplyChunkOptions} {db : Db} {c : Ctl Mem Err} {I : Db → Prop} (hI : I db)
    (hRange : ∀ guard c, I ((applyRange env applyMeta input opts guard).final db c)) :
    I ((applyHackTraceEdgesChunk env applyMeta input opts).final db c) := by
  cases hGuard : c.mem.cpuGuard.exceeded with
  | true =>
    rw [final_chunk_of_exceeded hGuard]
    exact hI
  | false =>
    unfold Op.final
    rw [applyHackTraceEdgesChunk_eq env applyMeta input opts db hGuard]
    exact hRange _ c

theorem final_discard {α : Type} (p : StoreM α) (db : Db) (c : Ctl Mem Err) :
    (do let _ ← p : StoreM Unit).final db c = p.final db c := by
  unfold Op.final
  cases h : (p db c).res with
  | ok a =>
    rw [bind_of_ok h]
    exact congrArg (replay · db) (List.append_nil _)
  | error e => rw [bind_of_error h]

theorem hackersKeep_step {env : Env} (step : FenceStep) (db : Db) (c : Ctl Mem Err)
    (hRespects : step.Respects env db) (h : HackersKeep db.addresses) :
    HackersKeep ((step.op env).final db c).addresses := by
  cases step with
  | trace applyMeta input opts =>
    show HackersKeep (Op.final (do let _ ← applyHackTraceEdgesChunk env applyMeta input opts) db c).addresses
    rw [final_discard]
    refine final_chunk_of_range (I := fun s => HackersKeep s.addresses) h fun guard c => ?_
    exact hackersKeep_of_traceLabel (writesAt_applyRange env applyMeta input opts guard db)
      (fun i hi => traceLabel_chunkCoreStmts (fun e he => hRespects e he) hi) h c
  | fanout tx spender hop =>
    exact hackersKeep_of_traceLabel (writesAt_applySpendFanoutSummary env tx spender hop db)
      (fun i hi => traceLabel_fanoutCoreStmts (fun e he => hRespects e he) hi) h c
  | upsert data =>
    have hPrefix := (writes_upsertAddress data db c).1
    have hCore : HackersKeep (replay _ db.core).addresses :=
      hackersKeep_replay_upserts hPrefix ⟨hRespects, trivial⟩ h
    rw [← core_replay] at hCore
    exact hCore
  | upsertBatch rows =>
    have hPrefix := (writes_upsertAddressesBatch env rows db c).1
    have hCore : HackersKeep (replay _ db.core).addresses := hackersKeep_replay_upserts hPrefix hRespects h
    rw [← core_replay] at hCore
    exact hCore

/-- In a run whose steps respect the hackers, each flagged address is a hacker at hop 0 in every state
reached, also where a step throws. -/
theorem hackersKeep_of_attempts {env : Env} {db db' : Db}
    (hRun : Attempts (FenceStep.op env) (FenceStep.Respects env) db db')
    (h : HackersKeep db.addresses) : HackersKeep db'.addresses :=
  attempts_invariant (I := fun s => HackersKeep s.addresses) hackersKeep_step hRun h

/-! ### Two hackers -/

instance (row : AddressRow) : Decidable (AddressRowKeeps row) :=
  inferInstanceAs (Decidable (_ = true → _ ∧ _))

instance (data : AddressUpsertData) (before : Option AddressRow) : Decidable (KeepsHacker data before) :=
  decidable_of_iff _ (keepsHacker_iff data before).symm

instance decidableKeepsHackers : (rows : List AddressUpsertData) → (t : Table.Rows Address AddressRow) →
    Decidable (KeepsHackers rows t)
  | [], _ => inferInstanceAs (Decidable True)
  | _ :: rest, _ => @instDecidableAnd _ _ inferInstance (decidableKeepsHackers rest _)

theorem hackersKeep_of_entries {t : Table.Rows Address AddressRow}
    (h : ∀ e ∈ t.entries, AddressRowKeeps e.2) : HackersKeep t :=
  fun _ _ hRow => h _ (Table.lookup_eq_some_iff.mp hRow)

def hackerRow (address : Address) : AddressUpsertData :=
  { address, role := some .hacker, isFlaggedHacker := some true, hopFromHacker := some (some 0) }

def fenceEnv : Env := { provider := .ofTxs [] }

/-- A payment of the first hacker. -/
def hackerPays (target : Address) : FenceStep :=
  let tx : ChainTxDetail :=
    { txid := name "t"
      vin := [{ prevout := some ⟨some (name "h"), some 900000⟩ }]
      vout := [{ scriptpubkeyAddress := some target, value := some 800000 }] }
  let computed := computeHackTraceEdges tx [name "h", name "g"] none none
  .trace ⟨name "t", none⟩ ⟨flattenHackTraceEdges computed, computed.victimAddresses⟩
    { flaggedHackers := [name "h", name "g"] }

def FenceStep.after (step : FenceStep) (db : Db) : Db := (step.op fenceEnv).final db ⟨{}, []⟩

def twoHackers : Db := (FenceStep.upsertBatch [hackerRow (name "h"), hackerRow (name "g")]).after .initial

/-- A payment to an address outside the hackers and a label as a victim leave both hackers. -/
theorem hackersKeep_twoHackers :
    HackersKeep ((FenceStep.upsert (victimRow (name "g"))).after
      ((hackerPays (name "x")).after twoHackers)).addresses := by
  have hStep : ∀ (step : FenceStep) (db : Db), step.Respects fenceEnv db →
      Attempt (FenceStep.op fenceEnv) (FenceStep.Respects fenceEnv) db (step.after db) :=
    fun step db h => ⟨step, ⟨{}, []⟩, h, rfl⟩
  have hFlag : (FenceStep.upsertBatch [hackerRow (name "h"), hackerRow (name "g")]).Respects fenceEnv
      .initial := by
    show KeepsHackers _ _
    decide +kernel
  have hPay : (hackerPays (name "x")).Respects fenceEnv twoHackers := by
    show ∀ e ∈ _, _
    decide +kernel
  have hVictim : (FenceStep.upsert (victimRow (name "g"))).Respects fenceEnv
      ((hackerPays (name "x")).after twoHackers) := by
    show KeepsHacker _ _
    decide +kernel
  exact hackersKeep_of_attempts
    (((Relation.ReflTransGen.single (hStep _ _ hFlag)).tail (hStep _ _ hPay)).tail (hStep _ _ hVictim))
    (hackersKeep_of_entries (by decide))

/-- A payment of one hacker to another makes the other one a downstream address. -/
theorem hacker_relabelled :
    HackersKeep twoHackers.addresses ∧
      Attempts (FenceStep.op fenceEnv) (fun _ _ => True) twoHackers
        ((hackerPays (name "g")).after twoHackers) ∧
      ¬ HackersKeep ((hackerPays (name "g")).after twoHackers).addresses := by
  refine ⟨hackersKeep_of_entries (by decide +kernel), .single ⟨hackerPays (name "g"), ⟨{}, []⟩, trivial, rfl⟩,
    fun h => ?_⟩
  have hRow : (((hackerPays (name "g")).after twoHackers).addresses.lookup (name "g")).map
      (fun row => (row.isFlaggedHacker, row.role, row.hopFromHacker)) =
      some (true, .downstream, some 1) := by decide +kernel
  obtain ⟨row, hLookup, hLabel⟩ := Option.map_eq_some_iff.mp hRow
  simp only [Prod.mk.injEq] at hLabel
  have hHacker := (h _ row hLookup hLabel.1).1
  rw [hLabel.2.1] at hHacker
  cases hHacker

end Bloodhound.Graph
