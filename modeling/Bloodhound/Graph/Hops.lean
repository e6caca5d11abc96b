import Bloodhound.Lib.Distance
import Bloodhound.Store.EdgeRows
import Bloodhound.Graph.RoleFence

/-!
# Hops

A trace writes the hop of its spender plus one to each of its targets, whatever hop the target has. The hop of
a downstream address is its distance from the flagged hackers along the stored out-edges as long as every hop
that is written is the least one that these edges allow.

* `hopEffect_trace`, `hopEffect_fanout`: what a trace and a fan-out do to the hops and to the out-edges.
* `hopsShortest_of_opRun`: runs of traces and fan-outs that write least hops keep every hop a distance.
-/

namespace Bloodhound.Graph

open Bloodhound.Chain Bloodhound.Store Bloodhound.Indexer
open Journal Journal.Op

/-! ## Labels and edges -/

/-- The hop of a flagged or downstream address. -/
def hopLabel (t : Table.Rows Address AddressRow) (a : Address) : Option Nat :=
  (labels t a).bind fun l => if l.1 = true ∨ l.2.1 = .downstream then l.2.2 else none

def HopsKnown (t : Table.Rows Address AddressRow) : Prop :=
  ∀ a row, t.lookup a = some row → row.role = .downstream → row.hopFromHacker.isSome = true

/-- The ends of the stored out-edges. -/
def outPairs (t : Table.Rows EdgeKey EdgeRow) : List (Address × Address) :=
  (t.entries.filter fun e => e.2.direction = .outFromHacker).map fun e => (e.1.fromAddress, e.1.toAddress)

def OutEdge (t : Table.Rows EdgeKey EdgeRow) (a b : Address) : Prop := (a, b) ∈ outPairs t

/-- The hop of every downstream address is the length of a shortest path of out-edges from a flagged hacker. -/
def HopsShortest (db : Db) : Prop :=
  ∀ a row, db.addresses.lookup a = some row → row.role = .downstream → ∃ n, row.hopFromHacker = some n ∧
    IsLeast {m | Distance.Path (fun a => flaggedIn db.addresses a = true) (OutEdge db.edges) m a} n

/-- No downstream address has a larger hop than before. -/
def HopsNotRaised (db db' : Db) : Prop :=
  ∀ a row row', db.addresses.lookup a = some row → db'.addresses.lookup a = some row' →
    row.role = .downstream → row'.role = .downstream → ∀ m n, row.hopFromHacker = some m →
      row'.hopFromHacker = some n → n ≤ m

structure HopsHold (db : Db) : Prop where
  hackers : HackersKeep db.addresses
  known : HopsKnown db.addresses
  distances : Distance.Labels (fun a => flaggedIn db.addresses a = true) (OutEdge db.edges)
    (hopLabel db.addresses)

theorem outEdge_iff {t : Table.Rows EdgeKey EdgeRow} {a b : Address} : OutEdge t a b ↔
    ∃ k row, t.lookup k = some row ∧ k.fromAddress = a ∧ k.toAddress = b ∧ row.direction = .outFromHacker := by
  unfold OutEdge outPairs
  rw [List.mem_map]
  constructor
  · rintro ⟨⟨k, row⟩, he, hPair⟩
    obtain ⟨hEntry, hOut⟩ := List.mem_filter.mp he
    cases hPair
    exact ⟨k, row, Table.lookup_eq_some_iff.mpr hEntry, rfl, rfl, of_decide_eq_true hOut⟩
  · rintro ⟨k, row, hRow, rfl, rfl, hOut⟩
    exact ⟨⟨k, row⟩, List.mem_filter.mpr ⟨Table.lookup_eq_some_iff.mp hRow, decide_eq_true hOut⟩, rfl⟩

theorem hopLabel_downstream {t : Table.Rows Address AddressRow} {a : Address} {row : AddressRow}
    (hRow : t.lookup a = some row) (hRole : row.role = .downstream) : hopLabel t a = row.hopFromHacker := by
  unfold hopLabel labels
  rw [hRow]
  simp [hRole]

theorem HopsHold.shortest {db : Db} (h : HopsHold db) : HopsShortest db := by
  intro a row hRow hRole
  obtain ⟨n, hn⟩ := Option.isSome_iff_exists.mp (h.known a row hRow hRole)
  exact ⟨n, hn, h.distances.isLeast ((hopLabel_downstream hRow hRole).trans hn)⟩

/-! ## Out-edges after upserts -/

section OutEdges

variable {rows : List EdgeUpsertData} {t : Table.Rows EdgeKey EdgeRow} {a b : Address}

/-- The ends of the out-edges among rows. -/
def rowPairs (rows : List EdgeUpsertData) : List (Address × Address) :=
  (rows.filter fun row => row.direction = .outFromHacker).map fun row => (row.fromAddress, row.toAddress)

theorem direction_upsert (data : EdgeUpsertData) (before : Option EdgeRow) :
    (before.elim data.inserted data.updated).direction = data.direction := by
  cases before <;> rfl

theorem outEdge_upsertEdge {data : EdgeUpsertData} : OutEdge ((EdgeStmt.upsert data).exec t) a b ↔
    (data.direction = .outFromHacker ∧ data.fromAddress = a ∧ data.toAddress = b) ∨
      ∃ k row, k ≠ data.key ∧ t.lookup k = some row ∧ k.fromAddress = a ∧ k.toAddress = b ∧
        row.direction = .outFromHacker := by
  rw [outEdge_iff]
  constructor
  · rintro ⟨k, row, hRow, hFrom, hTo, hOut⟩
    rw [lookup_upsertEdge] at hRow
    split at hRow
    · next hKey =>
      subst hKey
      cases hRow
      rw [direction_upsert] at hOut
      exact Or.inl ⟨hOut, hFrom, hTo⟩
    · next hKey => exact Or.inr ⟨k, row, hKey, hRow, hFrom, hTo, hOut⟩
  · rintro (⟨hOut, hFrom, hTo⟩ | ⟨k, row, hKey, hRow, hFrom, hTo, hOut⟩)
    · refine ⟨data.key, (t.lookup data.key).elim data.inserted data.updated, ?_, hFrom, hTo, ?_⟩
      · rw [lookup_upsertEdge, if_pos rfl]
      · rw [direction_upsert]
        exact hOut
    · refine ⟨k, row, ?_, hFrom, hTo, hOut⟩
      rw [lookup_upsertEdge, if_neg hKey]
      exact hRow

theorem outEdge_of_upsertedEdges (h : OutEdge (upsertedEdges rows t) a b) :
    OutEdge t a b ∨ (a, b) ∈ rowPairs rows := by
  induction rows generalizing t with
  | nil => exact Or.inl h
  | cons data rows ih =>
    rcases ih h with hFirst | hRest
    · rcases outEdge_upsertEdge.mp hFirst with ⟨hOut, rfl, rfl⟩ | ⟨k, row, _, hRow, hFrom, hTo, hOut⟩
      · exact Or.inr (List.mem_map.mpr ⟨data, List.mem_filter.mpr ⟨List.mem_cons_self, by simp [hOut]⟩, rfl⟩)
      · exact Or.inl (outEdge_iff.mpr ⟨k, row, hRow, hFrom, hTo, hOut⟩)
    · obtain ⟨row, hRow, hPair⟩ := List.mem_map.mp hRest
      obtain ⟨hMem, hOut⟩ := List.mem_filter.mp hRow
      exact Or.inr (List.mem_map.mpr ⟨row, List.mem_filter.mpr ⟨List.mem_cons_of_mem _ hMem, hOut⟩, hPair⟩)

/-- Out-edges stay where no other kind of edge to their target is written. -/
theorem outEdge_upsertedEdges (hRows : ∀ row ∈ rows, row.toAddress = b → row.direction = .outFromHacker)
    (h : OutEdge t a b ∨ (a, b) ∈ rowPairs rows) : OutEdge (upsertedEdges rows t) a b := by
  induction rows generalizing t with
  | nil =>
    rcases h with h | h
    · exact h
    · cases h
  | cons data rows ih =>
    apply ih fun row hRow => hRows row (List.mem_cons_of_mem _ hRow)
    rcases h with hOld | hNew
    · left
      obtain ⟨k, row, hRow, hFrom, hTo, hOut⟩ := outEdge_iff.mp hOld
      apply outEdge_upsertEdge.mpr
      by_cases hKey : k = data.key
      · subst hKey
        exact Or.inl ⟨hRows data List.mem_cons_self hTo, hFrom, hTo⟩
      · exact Or.inr ⟨k, row, hKey, hRow, hFrom, hTo, hOut⟩
    · obtain ⟨row, hRow, hPair⟩ := List.mem_map.mp hNew
      obtain ⟨hMem, hOut⟩ := List.mem_filter.mp hRow
      rcases List.mem_cons.mp hMem with rfl | hMem
      · cases hPair
        exact Or.inl (outEdge_upsertEdge.mpr (Or.inl ⟨of_decide_eq_true hOut, rfl, rfl⟩))
      · exact Or.inr (List.mem_map.mpr ⟨row, List.mem_filter.mpr ⟨hMem, hOut⟩, hPair⟩)

end OutEdges

/-! ## Labels after upserts -/

section Relabels

variable {t t' t'' : Table.Rows Address AddressRow} {a : Address}

/-- A change of a table that gives new hops and no flag. -/
structure Relabels (new : List (Address × Nat)) (t t' : Table.Rows Address AddressRow) : Prop where
  hackers : HackersKeep t'
  known : HopsKnown t'
  flagged : flaggedIn t' = flaggedIn t
  label : ∀ a, (hopLabel t' a = hopLabel t a ∧ a ∉ new.map Prod.fst) ∨
    ∃ n, (a, n) ∈ new ∧ hopLabel t' a = some n

theorem Relabels.trans {new new' : List (Address × Nat)} (h : Relabels new t t') (h' : Relabels new' t' t'') :
    Relabels (new ++ new') t t'' := by
  refine ⟨h'.hackers, h'.known, h'.flagged.trans h.flagged, fun a => ?_⟩
  rw [List.map_append]
  rcases h'.label a with ⟨hSame, hNot⟩ | ⟨n, hn, hLabel⟩
  · rcases h.label a with ⟨hSame', hNot'⟩ | ⟨n, hn, hLabel⟩
    · exact Or.inl ⟨hSame.trans hSame', fun hMem => (List.mem_append.mp hMem).elim hNot' hNot⟩
    · exact Or.inr ⟨n, List.mem_append_left _ hn, hSame.trans hLabel⟩
  · exact Or.inr ⟨n, List.mem_append_right _ hn, hLabel⟩

theorem relabels_of_labels (hHackers : HackersKeep t) (hKnown : HopsKnown t) (h : labels t' = labels t) :
    Relabels [] t t' := by
  refine ⟨hackersKeep_of_labels h hHackers, fun a row hRow hRole => ?_, flaggedIn_of_labels h, fun a => ?_⟩
  · have hLabel := congrFun h a
    unfold labels at hLabel
    rw [hRow, Option.map_some] at hLabel
    obtain ⟨before, hBefore, hSame⟩ := Option.map_eq_some_iff.mp hLabel.symm
    simp only [Prod.mk.injEq] at hSame
    rw [← hSame.2.2]
    exact hKnown a before hBefore (hSame.2.1.trans hRole)
  · refine Or.inl ⟨?_, fun hMem => nomatch hMem⟩
    unfold hopLabel
    rw [h]

theorem flaggedIn_upsert {data : AddressUpsertData} (h : data.isFlaggedHacker = none) :
    flaggedIn (AddressStmt.exec (.upsert data) t) = flaggedIn t := by
  funext a
  unfold flaggedIn
  rw [lookup_upsert]
  split
  · cases t.lookup a <;> simp [AddressUpsertData.inserted, AddressUpsertData.updated, h]
  · rfl

theorem hopLabel_upsert_ne {data : AddressUpsertData} (h : a ≠ data.address) :
    hopLabel (AddressStmt.exec (.upsert data) t) a = hopLabel t a := by
  unfold hopLabel labels
  rw [lookup_upsert, if_neg h]

/-- A victim's upsert leaves the flag and the hop, and the role of a hacker or a downstream address. -/
theorem label_updated_victimRow (v : Address) (row : AddressRow) :
    ((victimRow v).updated row).isFlaggedHacker = row.isFlaggedHacker ∧
      ((victimRow v).updated row).hopFromHacker = row.hopFromHacker ∧
      ((victimRow v).updated row).role =
        if row.role = .hacker ∨ row.role = .downstream then row.role else .victim := by
  unfold AddressUpsertData.updated AddressUpsertData.fenced victimRow
  cases row.role <;> simp

theorem relabels_victim (hHackers : HackersKeep t) (hKnown : HopsKnown t) (v : Address) :
    Relabels [] t (AddressStmt.exec (.upsert (victimRow v)) t) := by
  have hDownstream : ∀ row, ((victimRow v).updated row).role = .downstream ↔ row.role = .downstream := by
    intro row
    rw [(label_updated_victimRow v row).2.2]
    cases row.role <;> simp
  constructor
  · refine hackersKeep_upsert hHackers fun hFlag => Or.inl ?_
    obtain ⟨row, hRow, hFlagged⟩ := (Option.any_eq_true _ _).mp hFlag
    obtain ⟨hRole, hHop⟩ := hHackers _ row hRow hFlagged
    exact ⟨row, hRow, by simp [victimRow, AddressUpsertData.fenced, hRole], hRole, hHop⟩
  · intro a row hRow hRole
    rw [lookup_upsert] at hRow
    split at hRow
    · next hAddress =>
      cases hBefore : t.lookup a with
      | none =>
        rw [hBefore] at hRow
        cases hRow
        cases hRole
      | some before =>
        rw [hBefore] at hRow
        cases hRow
        rw [Option.elim_some, (label_updated_victimRow v before).2.1]
        exact hKnown a before hBefore ((hDownstream before).mp hRole)
    · exact hKnown a row hRow hRole
  · exact flaggedIn_upsert rfl
  · intro a
    refine Or.inl ⟨?_, fun hMem => absurd hMem List.not_mem_nil⟩
    by_cases hAddress : a = v
    · unfold hopLabel labels
      rw [lookup_upsert, if_pos (show a = (victimRow v).address from hAddress)]
      cases t.lookup a with
      | none => simp [victimRow, AddressUpsertData.inserted]
      | some before =>
        obtain ⟨hFlag, hHop, -⟩ := label_updated_victimRow v before
        simp only [Option.elim_some, Option.map_some, Option.bind_some, hFlag, hHop, hDownstream]
    · exact hopLabel_upsert_ne hAddress

/-- An upsert of a downstream address with a hop. -/
def IsHopRow (data : AddressUpsertData) (n : Nat) : Prop :=
  data.role = some .downstream ∧ data.hopFromHacker = some (some n) ∧ data.isFlaggedHacker = none

theorem relabels_downstream (hHackers : HackersKeep t) (hKnown : HopsKnown t) {data : AddressUpsertData}
    {n : Nat} (hData : IsHopRow data n) (hFlag : flaggedIn t data.address = false) :
    Relabels [(data.address, n)] t (AddressStmt.exec (.upsert data) t) := by
  obtain ⟨hRole, hHop, hNoFlag⟩ := hData
  have hAfter : ∀ before : Option AddressRow,
      (before.elim data.inserted data.updated).role = .downstream ∧
        (before.elim data.inserted data.updated).hopFromHacker = some n := by
    intro before
    cases before with
    | none => simp [AddressUpsertData.inserted, hRole, hHop]
    | some row => simp [AddressUpsertData.updated, AddressUpsertData.fenced, hRole, hHop]
  constructor
  · refine hackersKeep_upsert hHackers fun hFlagged => ?_
    rw [hNoFlag, Option.getD_none] at hFlagged
    unfold flaggedIn at hFlag
    rw [hFlag] at hFlagged
    cases hFlagged
  · intro a row hRow hDownstream
    rw [lookup_upsert] at hRow
    split at hRow
    · cases hRow
      rw [(hAfter _).2]
      rfl
    · exact hKnown a row hRow hDownstream
  · exact flaggedIn_upsert hNoFlag
  · intro a
    by_cases hAddress : a = data.address
    · subst hAddress
      refine Or.inr ⟨n, List.mem_singleton.mpr rfl, ?_⟩
      refine (hopLabel_downstream ?_ (hAfter (t.lookup data.address)).1).trans (hAfter _).2
      rw [lookup_upsert, if_pos rfl]
    · exact Or.inl ⟨hopLabel_upsert_ne hAddress, by simpa using hAddress⟩

/-! ### Lists of statements -/

theorem relabels_unlabelled {stmts : List Core} (hStmts : ∀ i ∈ stmts, Unlabelled i) {v : CoreView}
    (hHackers : HackersKeep v.addresses) (hKnown : HopsKnown v.addresses) :
    Relabels [] v.addresses (replay stmts v).addresses := by
  apply relabels_of_labels hHackers hKnown
  exact replay_frame (f := fun v : CoreView => labels v.addresses) (fun i hi v => labels_exec (hStmts i hi) v) v

theorem relabels_victims (victims : List Address) {v : CoreView} (hHackers : HackersKeep v.addresses)
    (hKnown : HopsKnown v.addresses) :
    Relabels [] v.addresses (replay (upsertStmts (victims.map victimRow)) v).addresses := by
  induction victims generalizing v with
  | nil => exact relabels_of_labels hHackers hKnown rfl
  | cons a rest ih =>
    have hFirst := relabels_victim hHackers hKnown a
    exact hFirst.trans (ih (v := exec (.address (.upsert (victimRow a)) : Core) v) hFirst.hackers hFirst.known)

theorem relabels_hopRows {β : Type} (row : β → AddressUpsertData) (hop : β → Nat) {rows : List β}
    (hRows : ∀ r ∈ rows, IsHopRow (row r) (hop r)) {v : CoreView}
    (hFlags : ∀ r ∈ rows, flaggedIn v.addresses (row r).address = false)
    (hHackers : HackersKeep v.addresses) (hKnown : HopsKnown v.addresses) :
    Relabels (rows.map fun r => ((row r).address, hop r)) v.addresses
      (replay (upsertStmts (rows.map row)) v).addresses := by
  induction rows generalizing v with
  | nil => exact relabels_of_labels hHackers hKnown rfl
  | cons r rest ih =>
    have hFirst := relabels_downstream hHackers hKnown (hRows r List.mem_cons_self)
      (hFlags r List.mem_cons_self)
    refine hFirst.trans (ih (v := exec (.address (.upsert (row r)) : Core) v)
      (fun r hr => hRows r (List.mem_cons_of_mem _ hr)) (fun r' hr' => ?_) hFirst.hackers hFirst.known)
    rw [show (exec (.address (.upsert (row r)) : Core) v).addresses =
      AddressStmt.exec (.upsert (row r)) v.addresses from rfl, hFirst.flagged]
    exact hFlags r' (List.mem_cons_of_mem _ hr')

theorem relabels_victimStmts (input : HackTraceApplyInput) (opts : HackTraceApplyChunkOptions) {v : CoreView}
    (hHackers : HackersKeep v.addresses) (hKnown : HopsKnown v.addresses) :
    Relabels [] v.addresses (replay (victimStmts input opts) v).addresses := by
  unfold victimStmts
  split
  · exact relabels_victims _ hHackers hKnown
  · exact relabels_of_labels hHackers hKnown rfl

theorem relabels_sliceStmts (env : Env) (applyMeta : HackTraceApplyMeta) (opts : HackTraceApplyChunkOptions)
    (slice : List HackTraceEdgeDraft) {v : CoreView} (hHackers : HackersKeep v.addresses)
    (hKnown : HopsKnown v.addresses)
    (hFlags : ∀ e ∈ slice.filter (isDownstreamEdge (isVictimOf v.edges opts.flaggedHackers)),
      flaggedIn v.addresses e.toAddress = false) :
    Relabels ((slice.filter (isDownstreamEdge (isVictimOf v.edges opts.flaggedHackers))).map
        fun e => (e.toAddress, e.hopFromHacker)) v.addresses
      (replay (sliceStmts env applyMeta opts slice v) v).addresses := by
  unfold sliceStmts
  rw [replay_append, ← List.append_nil (List.map _ _)]
  have hRows := relabels_hopRows (downstreamRow (expandContext v.addresses) (Tally.total · (downstreamAmounts
      (isVictimOf v.edges opts.flaggedHackers) slice)) opts.minExpandSats) (·.hopFromHacker)
    (fun e _ => ⟨rfl, rfl, rfl⟩) hFlags hHackers hKnown
  refine hRows.trans (relabels_unlabelled (fun i hi => ?_) hRows.hackers hRows.known)
  rcases List.mem_append.mp hi with hSkipped | hBatch
  · obtain ⟨e, _, he⟩ := List.mem_flatMap.mp hSkipped
    exact unlabelled_inboundStmts he
  · exact unlabelled_batchStmts hBatch

end Relabels

/-! ## Steps -/

/-- An output that a step applies: whether it relabels its target, and whether an edge is stored for it. -/
structure HopOutput where
  fromAddress : Address
  toAddress : Address
  hop : Nat
  downstream : Bool
  stored : Bool

/-- The hops that are written. -/
def newHops (outputs : List HopOutput) : List (Address × Nat) :=
  (outputs.filter (·.downstream)).map fun o => (o.toAddress, o.hop)

def addedPairs (outputs : List HopOutput) : List (Address × Address) :=
  (outputs.filter (·.stored)).map fun o => (o.fromAddress, o.toAddress)

/-- What a step does to the hops and to the out-edges. -/
structure HopEffect (outputs : List HopOutput) (payments : List Address) (db db' : Db) : Prop where
  relabels : Relabels (newHops outputs) db.addresses db'.addresses
  edge_of : ∀ a b, OutEdge db'.edges a b → OutEdge db.edges a b ∨ (a, b) ∈ addedPairs outputs
  edge_to : ∀ a b, b ∉ payments → OutEdge db.edges a b ∨ (a, b) ∈ addedPairs outputs →
    OutEdge db'.edges a b

inductive HopStep where
  | trace (applyMeta : HackTraceApplyMeta) (input : HackTraceApplyInput) (opts : HackTraceApplyChunkOptions)
  | fanout (tx : ChainTxDetail) (spender : Address) (hop : Nat)

def HopStep.op (env : Env) : HopStep → StoreM Unit
  | .trace applyMeta input opts => do
    let _ ← applyHackTraceEdgesChunk env applyMeta input opts
  | .fanout tx spender hop => applySpendFanoutSummary env tx spender hop

def outputOf (opts : HackTraceApplyChunkOptions) (victimTargets : Address → Bool) (e : HackTraceEdgeDraft) :
    HopOutput where
  fromAddress := e.fromAddress
  toAddress := e.toAddress
  hop := e.hopFromHacker
  downstream := !victimTargets e.toAddress
  stored := displayFloor opts e ≤ e.amountSats

def HopStep.outputs (env : Env) : HopStep → Db → List HopOutput
  | .trace _ input opts, db => ((chunkSlice input opts).filter (·.direction = .outFromHacker)).map
    (outputOf opts (isVictimOf db.edges opts.flaggedHackers))
  | .fanout tx spender hop, _ =>
    let fanoutMeta := buildFanoutMeta env.config tx spender
    fanoutMeta.topOutputs.head?.toList.map fun primary =>
      ⟨spender, primary.1, hop + 1, true, env.config.minExpandSats ≤ fanoutMeta.totalOutSats⟩

/-- The receivers of the payments to hackers that a step applies. -/
def HopStep.payments : HopStep → List Address
  | .trace _ input opts => ((chunkSlice input opts).filter (·.direction = .inToHacker)).map (·.toAddress)
  | .fanout _ _ _ => []

section Effects

variable {env : Env} {db : Db} {c : Ctl Mem Err}

theorem newHops_trace {applyMeta : HackTraceApplyMeta} {input : HackTraceApplyInput}
    {opts : HackTraceApplyChunkOptions} : newHops ((HopStep.trace applyMeta input opts).outputs env db) =
      ((chunkSlice input opts).filter (isDownstreamEdge (isVictimOf db.edges opts.flaggedHackers))).map
        fun e => (e.toAddress, e.hopFromHacker) := by
  unfold newHops HopStep.outputs
  rw [List.filter_map, List.map_map, List.filter_filter]
  refine congrArg (List.map _) (List.filter_congr fun e _ => ?_)
  simp [isDownstreamEdge, outputOf, Bool.and_comm]

theorem addedPairs_trace {applyMeta : HackTraceApplyMeta} {input : HackTraceApplyInput}
    {opts : HackTraceApplyChunkOptions} :
    addedPairs ((HopStep.trace applyMeta input opts).outputs env db) =
      rowPairs (edgeRows opts applyMeta (isVictimOf db.edges opts.flaggedHackers) (chunkSlice input opts)) := by
  unfold addedPairs rowPairs HopStep.outputs edgeRows
  rw [List.filter_map, List.map_map, List.filter_filter, List.filter_map, List.map_map, List.filter_filter]
  refine congrArg (List.map _) (List.filter_congr fun e _ => ?_)
  exact Bool.and_comm _ _

/-- A chunk that the CPU guard lets in. -/
theorem hopEffect_trace {applyMeta : HackTraceApplyMeta} {input : HackTraceApplyInput}
    {opts : HackTraceApplyChunkOptions} (hGuard : c.mem.cpuGuard.exceeded = false)
    {r : HackTraceApplyChunkResult} (hr : (applyHackTraceEdgesChunk env applyMeta input opts db c).res = .ok r)
    (hHackers : HackersKeep db.addresses) (hKnown : HopsKnown db.addresses)
    (hFlags : ∀ p ∈ newHops ((HopStep.trace applyMeta input opts).outputs env db),
      flaggedIn db.addresses p.1 = false) :
    HopEffect ((HopStep.trace applyMeta input opts).outputs env db)
      (HopStep.trace applyMeta input opts).payments db
      ((applyHackTraceEdgesChunk env applyMeta input opts).final db c) := by
  have hCore := core_final_applyHackTraceEdgesChunk env applyMeta input opts db hGuard hr
  have hEdges : ((applyHackTraceEdgesChunk env applyMeta input opts).final db c).edges = _ :=
    congrArg CoreView.edges hCore
  have hAddresses : ((applyHackTraceEdgesChunk env applyMeta input opts).final db c).addresses = _ :=
    congrArg CoreView.addresses hCore
  rw [edges_applyChunk, show db.core.edges = db.edges from rfl] at hEdges
  constructor
  · have hVictims := relabels_victimStmts input opts (v := db.core) hHackers hKnown
    rw [hAddresses]
    rw [newHops_trace] at hFlags ⊢
    refine hVictims.trans ?_
    have hSlice := relabels_sliceStmts env applyMeta opts (chunkSlice input opts) hVictims.hackers
      hVictims.known
    rw [edges_replay_victimStmts, hVictims.flagged] at hSlice
    exact hSlice fun e he => hFlags _ (List.mem_map.mpr ⟨e, he, rfl⟩)
  · intro a b hEdge
    rw [hEdges] at hEdge
    rw [addedPairs_trace]
    exact outEdge_of_upsertedEdges hEdge
  · intro a b hPayment hEdge
    rw [addedPairs_trace] at hEdge
    rw [hEdges]
    refine outEdge_upsertedEdges (fun row hRow hTo => ?_) hEdge
    obtain ⟨e, he, rfl⟩ := List.mem_map.mp hRow
    cases hDirection : e.direction with
    | outFromHacker => exact hDirection
    | inToHacker =>
      exact absurd (List.mem_map.mpr ⟨e, List.mem_filter.mpr ⟨List.mem_of_mem_filter he, by simp [hDirection]⟩,
        hTo⟩) hPayment

theorem edges_replay_fanoutStmts (applyMeta : HackTraceApplyMeta) (spender primary : Address) (hop : Nat)
    (fanoutMeta : FanoutMeta) (v : CoreView) :
    (replay (fanoutStmts env applyMeta spender primary hop fanoutMeta v) v).edges =
      upsertedEdges (if fanoutMeta.totalOutSats < env.config.minExpandSats then []
        else [fanoutEdge applyMeta spender primary hop fanoutMeta]) v.edges := by
  unfold fanoutStmts
  rw [replay_append]
  split
  · rw [← List.flatMap_singleton inboundStmts, edges_replay_inboundStmts, edges_replay_upsertStmts]
    rfl
  · exact edges_replay_batchStmts_of env _ (edges_replay_upsertStmts _ _)

theorem relabels_fanoutStmts (env : Env) (applyMeta : HackTraceApplyMeta) (spender : Address) {primary : Address}
    (hop : Nat) (fanoutMeta : FanoutMeta) {v : CoreView} (hHackers : HackersKeep v.addresses)
    (hKnown : HopsKnown v.addresses) (hFlag : flaggedIn v.addresses primary = false) :
    Relabels [(primary, hop + 1)] v.addresses
      (replay (fanoutStmts env applyMeta spender primary hop fanoutMeta v) v).addresses := by
  unfold fanoutStmts
  rw [replay_append, ← List.append_nil [(primary, hop + 1)]]
  have hData : IsHopRow (fanoutTargetRow (expandContext v.addresses) primary fanoutMeta.totalOutSats hop
      env.config.minExpandSats) (hop + 1) := ⟨rfl, rfl, rfl⟩
  have hRow : Relabels [(primary, hop + 1)] v.addresses (replay (upsertStmts [fanoutTargetRow
      (expandContext v.addresses) primary fanoutMeta.totalOutSats hop env.config.minExpandSats]) v).addresses :=
    relabels_downstream hHackers hKnown hData hFlag
  refine hRow.trans (relabels_unlabelled (fun i hi => ?_) hRow.hackers hRow.known)
  split at hi
  · exact unlabelled_inboundStmts hi
  · exact unlabelled_batchStmts hi

theorem hopEffect_fanout {tx : ChainTxDetail} {spender : Address} {hop : Nat}
    (hr : (applySpendFanoutSummary env tx spender hop db c).res = .ok ())
    (hHackers : HackersKeep db.addresses) (hKnown : HopsKnown db.addresses)
    (hFlags : ∀ p ∈ newHops ((HopStep.fanout tx spender hop).outputs env db),
      flaggedIn db.addresses p.1 = false) :
    HopEffect ((HopStep.fanout tx spender hop).outputs env db) [] db
      ((applySpendFanoutSummary env tx spender hop).final db c) := by
  have hCore := core_final (writesAt_applySpendFanoutSummary env tx spender hop db) hr
  have hEdges : ((applySpendFanoutSummary env tx spender hop).final db c).edges = _ :=
    congrArg CoreView.edges hCore
  have hAddresses : ((applySpendFanoutSummary env tx spender hop).final db c).addresses = _ :=
    congrArg CoreView.addresses hCore
  unfold fanoutCoreStmts at hEdges hAddresses
  unfold HopStep.outputs at hFlags ⊢
  dsimp only at hFlags ⊢
  cases hPrimary : (buildFanoutMeta env.config tx spender).topOutputs.head? with
  | none =>
    rw [hPrimary] at hEdges hAddresses
    constructor
    · rw [hAddresses]
      exact relabels_of_labels hHackers hKnown rfl
    · intro a b hEdge
      rw [hEdges] at hEdge
      exact Or.inl hEdge
    · intro a b _ hEdge
      rw [hEdges]
      exact hEdge.resolve_right fun hMem => nomatch hMem
  | some primary =>
    rw [hPrimary] at hEdges hAddresses hFlags
    have hFlag : flaggedIn db.addresses primary.1 = false := hFlags (primary.1, hop + 1) (by simp [newHops])
    have hFanout := relabels_fanoutStmts env ⟨tx.txid, blockTimeIso tx.status⟩ spender hop
      (buildFanoutMeta env.config tx spender) (v := db.core) hHackers hKnown hFlag
    rw [Option.toList_some, List.flatMap_singleton, replay_append] at hEdges hAddresses
    have hSame : ((applySpendFanoutSummary env tx spender hop).final db c).edges = _ :=
      hEdges.trans (edges_replay_fanoutStmts _ _ _ _ _ db.core)
    have hPairs : rowPairs (if (buildFanoutMeta env.config tx spender).totalOutSats < env.config.minExpandSats
        then [] else [fanoutEdge ⟨tx.txid, blockTimeIso tx.status⟩ spender primary.1 hop
          (buildFanoutMeta env.config tx spender)]) = addedPairs ((some primary).toList.map fun primary =>
        (⟨spender, primary.1, hop + 1, true, env.config.minExpandSats ≤
          (buildFanoutMeta env.config tx spender).totalOutSats⟩ : HopOutput)) := by
      unfold addedPairs rowPairs
      by_cases hBelow : (buildFanoutMeta env.config tx spender).totalOutSats < env.config.minExpandSats
      · simp [hBelow]
      · simp [hBelow, fanoutEdge, not_lt.mp hBelow]
    constructor
    · rw [hAddresses]
      refine hFanout.trans (relabels_unlabelled (fun i hi => ?_) hFanout.hackers hFanout.known)
      rw [List.mem_singleton.mp hi]
      trivial
    · intro a b hEdge
      rw [hSame] at hEdge
      rw [← hPairs]
      exact outEdge_of_upsertedEdges hEdge
    · intro a b _ hEdge
      rw [hSame]
      rw [← hPairs] at hEdge
      refine outEdge_upsertedEdges (fun row hRow _ => ?_) hEdge
      split at hRow
      · cases hRow
      · rw [List.mem_singleton.mp hRow]
        rfl

end Effects

/-! ## Runs -/

/-- The out-edges stored before a step or by it. -/
def pairsAfter (outputs : List HopOutput) (db : Db) : List (Address × Address) :=
  outPairs db.edges ++ addedPairs outputs

/-- The payments of a step go to hackers, and its outputs carry the hop of their spender plus one; the targets
that it relabels are not flagged, and get the least hop that the out-edges to them allow, which is also at
least one less than the hops behind them. -/
structure HopsFit (outputs : List HopOutput) (payments : List Address) (db : Db) : Prop where
  payments : ∀ a ∈ payments, flaggedIn db.addresses a = true
  spender : ∀ o ∈ outputs, o.downstream = true ∨ o.stored = true →
    (hopLabel db.addresses o.fromAddress).map (· + 1) = some o.hop
  unflagged : ∀ o ∈ outputs, o.downstream = true → flaggedIn db.addresses o.toAddress = false
  reached : ∀ o ∈ outputs, o.downstream = true → ∃ p ∈ pairsAfter outputs db, p.2 = o.toAddress ∧
    (hopLabel db.addresses p.1).map (· + 1) = some o.hop
  least : ∀ o ∈ outputs, o.downstream = true → ∀ p ∈ pairsAfter outputs db, p.2 = o.toAddress →
    (hopLabel db.addresses p.1).all (o.hop ≤ · + 1) = true
  returned : ∀ o ∈ outputs, o.stored = true → o.downstream = false →
    flaggedIn db.addresses o.toAddress = true ∨ (hopLabel db.addresses o.toAddress).all (· ≤ o.hop) = true
  lowered : ∀ o ∈ outputs, o.downstream = true → (hopLabel db.addresses o.toAddress).any (o.hop < ·) = true →
    ∀ p ∈ pairsAfter outputs db, p.1 = o.toAddress → flaggedIn db.addresses p.2 = true ∨
      (hopLabel db.addresses p.2 = none ∧ p.2 ∉ (newHops outputs).map Prod.fst) ∨
      (hopLabel db.addresses p.2).any (· ≤ o.hop + 1) = true

/-- The CPU guard keeps the step out. -/
def HopStep.skipped (c : Ctl Mem Err) : HopStep → Bool
  | .trace _ _ _ => c.mem.cpuGuard.exceeded
  | .fanout _ _ _ => false

def HopStep.Fits (env : Env) (step : HopStep) (db : Db) (c : Ctl Mem Err) : Prop :=
  step.skipped c = false → HopsFit (step.outputs env db) step.payments db

/-- The same addresses are flagged, and no hop has grown. -/
def HopsFall (t t' : Table.Rows Address AddressRow) : Prop :=
  flaggedIn t' = flaggedIn t ∧ ∀ a m, hopLabel t a = some m → ∃ n ≤ m, hopLabel t' a = some n

section Step

variable {outputs : List HopOutput} {payments : List Address} {db db' : Db}

/-- The labels of the targets that a step relabels. -/
def writtenHops (outputs : List HopOutput) (t : Table.Rows Address AddressRow) (a : Address) : Option Nat :=
  if a ∈ (newHops outputs).map Prod.fst then hopLabel t a else none

theorem mem_newHops {a : Address} {n : Nat} (h : (a, n) ∈ newHops outputs) :
    ∃ o ∈ outputs, o.downstream = true ∧ o.toAddress = a ∧ o.hop = n := by
  obtain ⟨o, ho, hPair⟩ := List.mem_map.mp h
  obtain ⟨hMem, hDown⟩ := List.mem_filter.mp ho
  cases hPair
  exact ⟨o, hMem, hDown, rfl, rfl⟩

theorem mem_addedPairs {a b : Address} (h : (a, b) ∈ addedPairs outputs) :
    ∃ o ∈ outputs, o.stored = true ∧ o.fromAddress = a ∧ o.toAddress = b := by
  obtain ⟨o, ho, hPair⟩ := List.mem_map.mp h
  obtain ⟨hMem, hStored⟩ := List.mem_filter.mp ho
  cases hPair
  exact ⟨o, hMem, hStored, rfl, rfl⟩

theorem written_of_newHops (h : Relabels (newHops outputs) db.addresses db'.addresses) {a : Address}
    (ha : a ∈ (newHops outputs).map Prod.fst) :
    ∃ n, (a, n) ∈ newHops outputs ∧ writtenHops outputs db'.addresses a = some n := by
  rcases h.label a with ⟨-, hNot⟩ | ⟨n, hn, hLabel⟩
  · exact absurd ha hNot
  · refine ⟨n, hn, ?_⟩
    unfold writtenHops
    rw [if_pos ha, hLabel]

theorem mem_of_written {a : Address} {n : Nat}
    (h : Relabels (newHops outputs) db.addresses db'.addresses)
    (hn : writtenHops outputs db'.addresses a = some n) : (a, n) ∈ newHops outputs := by
  unfold writtenHops at hn
  split at hn
  · next ha =>
    obtain ⟨k, hk, hWritten⟩ := written_of_newHops h ha
    unfold writtenHops at hWritten
    rw [if_pos ha, hn] at hWritten
    cases hWritten
    exact hk
  · cases hn

theorem relabelled_written (h : Relabels (newHops outputs) db.addresses db'.addresses) :
    Distance.relabelled (writtenHops outputs db'.addresses) (hopLabel db.addresses) =
      hopLabel db'.addresses := by
  funext a
  rcases h.label a with ⟨hSame, hNot⟩ | ⟨n, hn, hLabel⟩
  · rw [Distance.relabelled_of_none (by unfold writtenHops; rw [if_neg hNot]), hSame]
  · have ha : a ∈ (newHops outputs).map Prod.fst := List.mem_map.mpr ⟨_, hn, rfl⟩
    rw [Distance.relabelled_of_some (n := n) (by unfold writtenHops; rw [if_pos ha, hLabel]), hLabel]

theorem joined_iff {a b : Address} :
    Distance.joined (OutEdge db.edges) (fun a b => (a, b) ∈ addedPairs outputs) a b ↔
      (a, b) ∈ pairsAfter outputs db :=
  List.mem_append.symm

/-- A step that fits writes hops that the out-edges admit. -/
theorem admits_of_fit (hFit : HopsFit outputs payments db)
    (hRelabels : Relabels (newHops outputs) db.addresses db'.addresses) :
    Distance.Admits (fun a => flaggedIn db.addresses a = true) (OutEdge db.edges) (hopLabel db.addresses)
      (fun a b => (a, b) ∈ addedPairs outputs) (writtenHops outputs db'.addresses) := by
  constructor
  · intro a b hAdded
    obtain ⟨o, ho, hStored, rfl, rfl⟩ := mem_addedPairs hAdded
    obtain ⟨m, hm, -⟩ := Option.map_eq_some_iff.mp (hFit.spender o ho (Or.inr hStored))
    rw [hm]
    rfl
  · intro b n hn hFlag
    obtain ⟨o, ho, hDown, rfl, rfl⟩ := mem_newHops (mem_of_written hRelabels hn)
    rw [hFit.unflagged o ho hDown] at hFlag
    cases hFlag
  · intro b n hn
    obtain ⟨o, ho, hDown, rfl, rfl⟩ := mem_newHops (mem_of_written hRelabels hn)
    constructor
    · obtain ⟨p, hp, hTo, hHop⟩ := hFit.reached o ho hDown
      obtain ⟨m, hm, hSucc⟩ := Option.map_eq_some_iff.mp hHop
      exact ⟨p.1, m, joined_iff.mpr (hTo ▸ hp), hm, hSucc.symm⟩
    · rintro n ⟨a, m, hStep, hm, rfl⟩
      have hLeast := hFit.least o ho hDown _ (joined_iff.mp hStep) rfl
      rw [hm] at hLeast
      simpa using hLeast
  · intro a b m n hAdded hSource hNone hm hn
    obtain ⟨o, ho, hStored, rfl, rfl⟩ := mem_addedPairs hAdded
    have hReturn : o.downstream = false := by
      by_contra hDown
      have hMem : o.toAddress ∈ (newHops outputs).map Prod.fst :=
        List.mem_map.mpr ⟨_, List.mem_map.mpr ⟨o, List.mem_filter.mpr ⟨ho, Bool.not_eq_false _ ▸ hDown⟩, rfl⟩,
          rfl⟩
      obtain ⟨k, -, hk⟩ := written_of_newHops hRelabels hMem
      rw [hNone] at hk
      cases hk
    have hHop := hFit.spender o ho (Or.inr hStored)
    rw [hm, Option.map_some, Option.some.injEq] at hHop
    have hLe := (hFit.returned o ho hStored hReturn).resolve_left hSource
    rw [hn] at hLe
    rw [hHop]
    simpa using hLe
  · intro a b k m hk hm hLess hStep hSource
    obtain ⟨o, ho, hDown, rfl, rfl⟩ := mem_newHops (mem_of_written hRelabels hk)
    have hAny : (hopLabel db.addresses o.toAddress).any (o.hop < ·) = true := by
      rw [hm]
      simpa using hLess
    rcases (hFit.lowered o ho hDown hAny _ (joined_iff.mp hStep) rfl).resolve_left hSource with
      ⟨hNone, hNot⟩ | hBound
    · refine Or.inl ⟨hNone, ?_⟩
      unfold writtenHops
      rw [if_neg hNot]
    · obtain ⟨n, hn, hLe⟩ := (Option.any_eq_true _ _).mp hBound
      exact Or.inr ⟨n, hn, of_decide_eq_true hLe⟩

theorem hopsHold_of_effect (h : HopsHold db) (hFit : HopsFit outputs payments db)
    (hEffect : HopEffect outputs payments db db') : HopsHold db' ∧ HopsFall db.addresses db'.addresses := by
  have hAdmits := admits_of_fit hFit hEffect.relabels
  have hLabels := relabelled_written hEffect.relabels
  constructor
  · refine ⟨hEffect.relabels.hackers, hEffect.relabels.known, ?_⟩
    rw [hEffect.relabels.flagged, ← hLabels]
    apply h.distances.relabel hAdmits hEffect.edge_of
    intro a b hStep hSource
    exact hEffect.edge_to a b (fun hPayment => hSource (hFit.payments b hPayment)) hStep
  · refine ⟨hEffect.relabels.flagged, fun a m hm => ?_⟩
    rw [← hLabels]
    cases hWritten : writtenHops outputs db'.addresses a with
    | none => exact ⟨m, le_rfl, (Distance.relabelled_of_none hWritten).trans hm⟩
    | some n => exact ⟨n, h.distances.new_le hAdmits hm hWritten, Distance.relabelled_of_some hWritten⟩

end Step

theorem hopsFall_refl (t : Table.Rows Address AddressRow) : HopsFall t t :=
  ⟨rfl, fun _ m hm => ⟨m, le_rfl, hm⟩⟩

theorem HopsFall.trans {t t' t'' : Table.Rows Address AddressRow} (h : HopsFall t t') (h' : HopsFall t' t'') :
    HopsFall t t'' := by
  refine ⟨h'.1.trans h.1, fun a m hm => ?_⟩
  obtain ⟨n, hn, hLabel⟩ := h.2 a m hm
  obtain ⟨k, hk, hLabel'⟩ := h'.2 a n hLabel
  exact ⟨k, hk.trans hn, hLabel'⟩

theorem HopsFall.notRaised {db db' : Db} (h : HopsFall db.addresses db'.addresses) : HopsNotRaised db db' := by
  intro a row row' hRow hRow' hRole hRole' m n hm hn
  obtain ⟨k, hk, hLabel⟩ := h.2 a m ((hopLabel_downstream hRow hRole).trans hm)
  rw [hopLabel_downstream hRow' hRole', hn] at hLabel
  cases hLabel
  exact hk

theorem hopsHold_step {env : Env} (step : HopStep) (db : Db) (c : Ctl Mem Err) (hFits : step.Fits env db c)
    (hOk : (step.op env db c).res = .ok ()) (h : HopsHold db) :
    HopsHold ((step.op env).final db c) ∧ HopsFall db.addresses ((step.op env).final db c).addresses := by
  have hFlags : ∀ {outputs : List HopOutput} {payments : List Address}, HopsFit outputs payments db →
      ∀ p ∈ newHops outputs, flaggedIn db.addresses p.1 = false := by
    intro outputs payments hFit p hp
    obtain ⟨o, ho, hDown, hTo, -⟩ := mem_newHops hp
    rw [← hTo]
    exact hFit.unflagged o ho hDown
  cases step with
  | trace applyMeta input opts =>
    show HopsHold (Op.final (do let _ ← applyHackTraceEdgesChunk env applyMeta input opts) db c) ∧
      HopsFall db.addresses (Op.final (do let _ ← applyHackTraceEdgesChunk env applyMeta input opts) db c).addresses
    rw [final_discard]
    cases hGuard : c.mem.cpuGuard.exceeded with
    | true =>
      rw [final_chunk_of_exceeded hGuard]
      exact ⟨h, hopsFall_refl _⟩
    | false =>
      obtain ⟨r, hr⟩ : ∃ r, (applyHackTraceEdgesChunk env applyMeta input opts db c).res = .ok r := by
        cases hRes : (applyHackTraceEdgesChunk env applyMeta input opts db c).res with
        | ok r => exact ⟨r, rfl⟩
        | error e =>
          unfold HopStep.op at hOk
          dsimp only at hOk
          rw [bind_of_error hRes] at hOk
          cases hOk
      have hFit := hFits hGuard
      exact hopsHold_of_effect h hFit (hopEffect_trace hGuard hr h.hackers h.known (hFlags hFit))
  | fanout tx spender hop =>
    have hFit := hFits rfl
    exact hopsHold_of_effect h hFit (hopEffect_fanout hOk h.hackers h.known (hFlags hFit))

/-- Nothing has been traced. -/
def Untraced (db : Db) : Prop :=
  HackersKeep db.addresses ∧ outPairs db.edges = [] ∧
    ∀ a row, db.addresses.lookup a = some row → row.role ≠ .downstream

theorem hopsHold_of_untraced {db : Db} (h : Untraced db) : HopsHold db := by
  obtain ⟨hHackers, hNone, hRoles⟩ := h
  have hNoEdge : ∀ a b, ¬ OutEdge db.edges a b := by
    intro a b hEdge
    unfold OutEdge at hEdge
    rw [hNone] at hEdge
    cases hEdge
  refine ⟨hHackers, fun a row hRow hRole => absurd hRole (hRoles a row hRow), ?_⟩
  have hLabel : ∀ a n, hopLabel db.addresses a = some n → flaggedIn db.addresses a = true := by
    intro a n hn
    unfold hopLabel labels at hn
    unfold flaggedIn
    cases hRow : db.addresses.lookup a with
    | none => simp [hRow] at hn
    | some row =>
      simp [hRow, hRoles a row hRow] at hn
      simpa using hn.1
  constructor
  · intro a hFlag
    unfold flaggedIn at hFlag
    unfold hopLabel labels
    obtain ⟨row, hRow, hFlagged⟩ := (Option.any_eq_true _ _).mp hFlag
    simp [hRow, hFlagged, (hHackers a row hRow hFlagged).2]
  · exact fun a b hEdge => absurd hEdge (hNoEdge a b)
  · exact fun a b m n hEdge => absurd hEdge (hNoEdge a b)
  · exact fun b n hn hSource => absurd (hLabel b n hn) hSource

/-- In a run of traces and fan-outs that fit, from a store where nothing has been traced, the hop of every
downstream address is its distance from the flagged hackers in every state reached, and never grows. -/
theorem hopsShortest_of_opRun {env : Env} {db mid db' : Db}
    (hBefore : OpRun (HopStep.op env) (HopStep.Fits env) db mid)
    (hAfter : OpRun (HopStep.op env) (HopStep.Fits env) mid db') (h : Untraced db) :
    HopsShortest db' ∧ HopsNotRaised mid db' := by
  have hMid : HopsHold mid :=
    opRun_invariant (fun step s c hFits hOk hHold => (hopsHold_step step s c hFits hOk hHold).1) hBefore
      (hopsHold_of_untraced h)
  have hRun : HopsHold db' ∧ HopsFall mid.addresses db'.addresses := by
    apply opRun_invariant (I := fun s => HopsHold s ∧ HopsFall mid.addresses s.addresses) ?_ hAfter
      ⟨hMid, hopsFall_refl _⟩
    intro step s c hFits hOk hInv
    obtain ⟨hHold, hFall⟩ := hopsHold_step step s c hFits hOk hInv.1
    exact ⟨hHold, hInv.2.trans hFall⟩
  exact ⟨hRun.1.shortest, hRun.2.notRaised⟩

/-! ### Two ways to an address -/

/-- A payment traced from its sender, at a hop. -/
def tracedPayment (txid sender target : Name) (hop : Nat) : HopStep :=
  let tx : ChainTxDetail :=
    { txid
      vin := [{ prevout := some ⟨some sender, some 900000⟩ }]
      vout := [{ scriptpubkeyAddress := some target, value := some 800000 }] }
  let computed := computeHackTraceEdges tx [name "h", name "g"] (some ⟨sender, hop⟩) none
  .trace ⟨txid, none⟩ ⟨flattenHackTraceEdges computed, computed.victimAddresses⟩
    { flaggedHackers := [name "h", name "g"] }

def HopStep.after (step : HopStep) (db : Db) : Db := (step.op fenceEnv).final db ⟨{}, []⟩

def HopStep.returns (step : HopStep) (db : Db) : Bool :=
  match (step.op fenceEnv db ⟨{}, []⟩).res with
  | .ok _ => true
  | .error _ => false

theorem opRun_after {guard : HopStep → Db → Ctl Mem Err → Prop} {db mid : Db}
    (hRun : OpRun (HopStep.op fenceEnv) guard db mid) (step : HopStep) (hGuard : guard step mid ⟨{}, []⟩)
    (hOk : step.returns mid = true) : OpRun (HopStep.op fenceEnv) guard db (step.after mid) := by
  refine hRun.tail ⟨step, ⟨{}, []⟩, hGuard, ?_, rfl⟩
  unfold HopStep.returns at hOk
  cases hRes : (step.op fenceEnv mid ⟨{}, []⟩).res with
  | ok _ => rfl
  | error e =>
    rw [hRes] at hOk
    cases hOk

theorem untraced_twoHackers : Untraced twoHackers := by
  refine ⟨hackersKeep_of_entries (by decide +kernel), by decide +kernel, fun a row hRow => ?_⟩
  have hRoles : ∀ e ∈ twoHackers.addresses.entries, e.2.role ≠ .downstream := by decide +kernel
  exact hRoles _ (Table.lookup_eq_some_iff.mp hRow)

/-- The store after a payment of the hacker to `x`. -/
def onePayment : Db := (tracedPayment (name "t") (name "h") (name "x") 0).after twoHackers

set_option synthInstance.maxSize 256 in
/-- A payment of the hacker and one of its receiver. -/
theorem hopsShortest_twoPayments :
    HopsShortest ((tracedPayment (name "u") (name "x") (name "y") 1).after onePayment) ∧
      HopsNotRaised onePayment ((tracedPayment (name "u") (name "x") (name "y") 1).after onePayment) := by
  have hFirst : OpRun (HopStep.op fenceEnv) (HopStep.Fits fenceEnv) twoHackers onePayment :=
    opRun_after .refl _ (fun _ => by constructor <;> decide +kernel) (by decide +kernel)
  have hSecond : OpRun (HopStep.op fenceEnv) (HopStep.Fits fenceEnv) onePayment
      ((tracedPayment (name "u") (name "x") (name "y") 1).after onePayment) :=
    opRun_after .refl _ (fun _ => by constructor <;> decide +kernel) (by decide +kernel)
  exact hopsShortest_of_opRun hFirst hSecond untraced_twoHackers

/-- The hacker pays `x` and `y`, and `y` pays `x`: the last trace raises the hop of `x` to two, while the payment
of the hacker to it stays stored. -/
theorem hop_raised :
    ∃ mid db', Untraced twoHackers ∧ OpRun (HopStep.op fenceEnv) (fun _ _ _ => True) twoHackers mid ∧
      OpRun (HopStep.op fenceEnv) (fun _ _ _ => True) mid db' ∧ ¬ HopsNotRaised mid db' ∧
      ¬ HopsShortest db' := by
  let mid := (tracedPayment (name "u") (name "h") (name "y") 0).after onePayment
  let db' := (tracedPayment (name "w") (name "y") (name "x") 1).after mid
  have hFirst : OpRun (HopStep.op fenceEnv) (fun _ _ _ => True) twoHackers onePayment :=
    opRun_after .refl _ trivial (by decide +kernel)
  have hMid : OpRun (HopStep.op fenceEnv) (fun _ _ _ => True) twoHackers mid :=
    opRun_after hFirst _ trivial (by decide +kernel)
  have hRun : OpRun (HopStep.op fenceEnv) (fun _ _ _ => True) mid db' :=
    opRun_after .refl _ trivial (by decide +kernel)
  have hRow : (mid.addresses.lookup (name "x")).map (fun row => (row.role, row.hopFromHacker)) =
      some (.downstream, some 1) := by decide +kernel
  have hRow' : (db'.addresses.lookup (name "x")).map (fun row => (row.role, row.hopFromHacker)) =
      some (.downstream, some 2) := by decide +kernel
  obtain ⟨row, hLookup, hLabel⟩ := Option.map_eq_some_iff.mp hRow
  obtain ⟨row', hLookup', hLabel'⟩ := Option.map_eq_some_iff.mp hRow'
  simp only [Prod.mk.injEq] at hLabel hLabel'
  refine ⟨mid, db', untraced_twoHackers, hMid, hRun, fun hNotRaised => ?_, fun hShortest => ?_⟩
  · have hLe := hNotRaised _ row row' hLookup hLookup' hLabel.1 hLabel'.1 1 2 hLabel.2 hLabel'.2
    omega
  · obtain ⟨n, hn, hLeast⟩ := hShortest _ row' hLookup' hLabel'.1
    rw [hLabel'.2] at hn
    cases hn
    have hFlag : flaggedIn db'.addresses (name "h") = true := by decide +kernel
    have hEdge : OutEdge db'.edges (name "h") (name "x") := by
      show _ ∈ outPairs _
      decide +kernel
    have hLe : 2 ≤ 1 := hLeast.2 (Distance.Path.step (Distance.Path.source hFlag) hEdge)
    omega

end Bloodhound.Graph
