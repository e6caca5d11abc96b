import Bloodhound.Graph.Chunks
import Bloodhound.Indexer.SpendFanout

/-!
# Applying a trace again

A trace that has been applied in full, by calls that may have failed and been repeated and
with the work of other transactions in between, is applied again by a second sequence of
calls. The second application changes nothing exactly where every output of the trace is
below the display floor and goes to a known victim: any other output is added a second time
to the outgoing total of the scheduler row or to the inbound total of its target.
-/

namespace Bloodhound.Graph

open Bloodhound.Chain Bloodhound.Store Bloodhound.Indexer
open Journal Journal.Op

/-! ## Applied traces -/

/-- The statements of work on other transactions: they delete nothing, leave the edges of this
transaction, and label no address as unknown. -/
def Elsewhere (txid : Txid) : Stmt → Prop
  | .address (.upsert data) => data.role ≠ some .unknown
  | .address (.delete _) => False
  | .edge (.upsert data) => data.txid ≠ txid
  | .edge _ => False
  | _ => True

/-- What may have happened to a store since a trace was begun, and the index that the trace has
reached: successful calls, failed ones that are tried again, and other work. -/
inductive History (env : Env) (t : Trace) : Option Nat → Db → Prop
  | start (db : Db) : History env t none db
  | call {i : Option Nat} {db : Db} (h : History env t i db) (maxEdges : Option Nat)
      (c : Ctl Mem Err) (r : HackTraceApplyChunkResult) (hGuard : c.mem.cpuGuard.exceeded = false)
      (hOk : (t.call env (i.getD 0) maxEdges db c).res = .ok r) :
      History env t (some r.nextEdgeIndex) ((t.call env (i.getD 0) maxEdges).final db c)
  | failed {i : Option Nat} {db : Db} (h : History env t i db) (maxEdges : Option Nat)
      (c : Ctl Mem Err) (e : Err) (hErr : (t.call env (i.getD 0) maxEdges db c).res = .error e) :
      History env t i ((t.call env (i.getD 0) maxEdges).final db c)
  | other {i : Option Nat} {db : Db} (h : History env t i db) (log : List Stmt)
      (hLog : ∀ s ∈ log, Elsewhere t.tx.txid s) : History env t i (replay log db)

/-- The trace has been applied to its end. -/
def Applied (env : Env) (t : Trace) (db : Db) : Prop := History env t (some t.flat.length) db

/-- Rows of addresses and edges, and the totals of the scheduler row, are the same. -/
structure Unchanged (v v' : CoreView) : Prop where
  addresses : ∀ a, v'.addresses.lookup a = v.addresses.lookup a
  edges : ∀ k, v'.edges.lookup k = v.edges.lookup k
  totalIn : v'.totalInSats = v.totalInSats
  totalOut : v'.totalOutSats = v.totalOutSats

theorem Unchanged.refl (v : CoreView) : Unchanged v v := ⟨fun _ => rfl, fun _ => rfl, rfl, rfl⟩

theorem Unchanged.trans {v v' v'' : CoreView} (h : Unchanged v v') (h' : Unchanged v' v'') :
    Unchanged v v'' :=
  ⟨fun a => (h'.addresses a).trans (h.addresses a), fun k => (h'.edges k).trans (h.edges k),
    h'.totalIn.trans h.totalIn, h'.totalOut.trans h.totalOut⟩

theorem Unchanged.inboundAt {v v' : CoreView} (h : Unchanged v v') (x : Address) :
    v'.inboundAt x = v.inboundAt x := by
  unfold CoreView.inboundAt
  rw [h.addresses]

/-! ## What the calls have left up to an index -/

/-- The senders of payments have rows with a label, and the payments before the index are stored
as the trace would write them. -/
structure Covers (t : Trace) (i : Nat) (v : CoreView) : Prop where
  victims : ∀ a ∈ t.victims, ∃ row, v.addresses.lookup a = some row ∧ row.role ≠ .unknown
  payments : ∀ e ∈ t.flat.take i, e.direction = .inToHacker →
    t.minVictimIngestSats ≤ e.amountSats → (t.paymentRow e).Settled v.edges

/-- A statement that keeps what the calls have left. -/
def Keeps (t : Trace) : Core → Prop
  | .address (.upsert data) => data.role ≠ some .unknown
  | .address (.delete _) => False
  | .edge (.upsert data) => ∀ e ∈ t.flat, e.direction = .inToHacker →
      (t.paymentRow e).key = data.key → data = t.paymentRow e
  | .edge _ => False
  | _ => True

/-- The role after an upsert is the old one or the one provided. -/
theorem role_updated (data : AddressUpsertData) (row : AddressRow) (h : row.role ≠ .unknown)
    (hd : data.role ≠ some .unknown) : (data.updated row).role ≠ .unknown := by
  unfold AddressUpsertData.updated
  simp only
  split
  · exact h
  · cases hr : data.role with
    | none => exact h
    | some r =>
      intro hEq
      exact hd (hr.trans (congrArg some hEq))

theorem labelled_exec {t : Trace} {i : Core} (hi : Keeps t i) {v : CoreView} {a : Address}
    (h : ∃ row, v.addresses.lookup a = some row ∧ row.role ≠ .unknown) :
    ∃ row, (exec i v).addresses.lookup a = some row ∧ row.role ≠ .unknown := by
  obtain ⟨row, hr, hRole⟩ := h
  have hModify : ∀ (b : Address) (f : AddressRow → AddressRow), (∀ r, (f r).role = r.role) →
      ∃ row, (Table.modify b f v.addresses).lookup a = some row ∧ row.role ≠ .unknown := by
    intro b f hf
    rw [Table.lookup_modify, hr]
    split
    · exact ⟨f row, rfl, by rwa [hf]⟩
    · exact ⟨row, rfl, hRole⟩
  have hMap : ∀ f : Address → AddressRow → AddressRow, (∀ b r, (f b r).role = r.role) →
      ∃ row, (Table.mapRows f v.addresses).lookup a = some row ∧ row.role ≠ .unknown := by
    intro f hf
    rw [Table.lookup_mapRows, hr]
    exact ⟨f a row, rfl, by rwa [hf]⟩
  cases i with
  | edge => exact ⟨row, hr, hRole⟩
  | totals => exact ⟨row, hr, hRole⟩
  | address s =>
    cases s with
    | upsert data =>
      show ∃ row, ((AddressStmt.upsert data).exec v.addresses).lookup a = some row ∧ _
      rw [lookup_upsert]
      split
      · rw [hr]
        exact ⟨_, rfl, role_updated data row hRole hi⟩
      · exact ⟨row, hr, hRole⟩
    | delete => exact hi.elim
    | zeroInboundSats => exact hMap _ fun _ _ => rfl
    | zeroHackerTotalReceived => exact hMap _ fun _ r => by split <;> rfl
    | _ => exact hModify _ _ fun _ => rfl

/-- Another statement with the key of a payment writes that payment. -/
theorem settled_exec {t : Trace} {i : Core} (hi : Keeps t i) {v : CoreView}
    {e : HackTraceEdgeDraft} (he : e ∈ t.flat) (hd : e.direction = .inToHacker)
    (h : (t.paymentRow e).Settled v.edges) : (t.paymentRow e).Settled (exec i v).edges := by
  cases i with
  | address => exact h
  | totals => exact h
  | edge s =>
    cases s with
    | upsert data =>
      have hKey : ∀ row ∈ [data], row.key = (t.paymentRow e).key → row = t.paymentRow e := by
        intro row hr hk
        rw [List.mem_singleton] at hr
        subst hr
        exact hi e he hd hk.symm
      exact settled_upsertedEdges hKey v.edges (Or.inl h)
    | deleteTouching => exact hi.elim
    | deleteHackTrace => exact hi.elim

theorem covers_exec {t : Trace} {i : Core} (hi : Keeps t i) {n : Nat} {v : CoreView}
    (h : Covers t n v) : Covers t n (exec i v) where
  victims a ha := labelled_exec hi (h.victims a ha)
  payments e he hd hf := settled_exec hi (List.mem_of_mem_take he) hd (h.payments e he hd hf)

theorem covers_replay {t : Trace} {stmts : List Core} (hs : ∀ i ∈ stmts, Keeps t i) {n : Nat}
    {v : CoreView} (h : Covers t n v) : Covers t n (replay stmts v) :=
  replay_inv (P := Covers t n) (fun i hi _ hv => covers_exec (hs i hi) hv) h

/-! ## A call on a trace without stored outputs -/

section Call

variable {env : Env} {t : Trace} {start : Nat} {maxEdges : Option Nat}

/-- Every output is below the display floor. -/
def SmallOutputs (t : Trace) : Prop :=
  ∀ e ∈ t.flat, e.direction = .outFromHacker → e.amountSats < t.minExpandSats

theorem mem_edgeRows (hOut : SmallOutputs t) {victimTargets : Address → Bool}
    {row : EdgeUpsertData}
    (h : row ∈ edgeRows (t.opts start maxEdges) t.applyMeta victimTargets (t.slice start maxEdges)) :
    ∃ e ∈ t.slice start maxEdges, e.direction = .inToHacker ∧
      t.minVictimIngestSats ≤ e.amountSats ∧ row = t.paymentRow e := by
  obtain ⟨e, he, rfl⟩ := List.mem_map.mp h
  obtain ⟨heSlice, hFloor⟩ := List.mem_filter.mp he
  have hFloor' := of_decide_eq_true hFloor
  cases hd : e.direction with
  | inToHacker =>
    unfold displayFloor at hFloor'
    rw [hd] at hFloor'
    exact ⟨e, heSlice, hd, hFloor', Trace.paymentRow_eq _ hd⟩
  | outFromHacker =>
    unfold displayFloor at hFloor'
    rw [hd] at hFloor'
    exact absurd (hOut e (Trace.mem_slice heSlice) hd) (not_lt.mpr hFloor')

theorem paymentRow_mem_edgeRows {victimTargets : Address → Bool} {e : HackTraceEdgeDraft}
    (he : e ∈ t.slice start maxEdges) (hd : e.direction = .inToHacker)
    (hFloor : t.minVictimIngestSats ≤ e.amountSats) :
    t.paymentRow e ∈
      edgeRows (t.opts start maxEdges) t.applyMeta victimTargets (t.slice start maxEdges) := by
  refine List.mem_map.mpr ⟨e, List.mem_filter.mpr ⟨he, decide_eq_true ?_⟩, Trace.paymentRow_eq _ hd⟩
  unfold displayFloor
  rw [hd]
  exact hFloor

theorem keeps_edgeRow (hOut : SmallOutputs t) {victimTargets : Address → Bool}
    {row : EdgeUpsertData}
    (h : row ∈ edgeRows (t.opts start maxEdges) t.applyMeta victimTargets (t.slice start maxEdges)) :
    Keeps t (.edge (.upsert row)) := by
  obtain ⟨e, he, hd, _, rfl⟩ := mem_edgeRows hOut h
  intro e' he' hd' hKey
  rw [Trace.payment_unique he' (Trace.mem_slice he) hd' hd hKey]

theorem keeps_upsertStmts {rows : List AddressUpsertData}
    (h : ∀ data ∈ rows, data.role ≠ some .unknown) : ∀ i ∈ upsertStmts rows, Keeps t i := by
  intro i hi
  obtain ⟨data, hd, rfl⟩ := List.mem_map.mp hi
  exact h data hd

theorem keeps_inboundStmts {credits : List (Address × Int)} :
    ∀ i ∈ credits.flatMap inboundStmts, Keeps t i := by
  intro i hi
  obtain ⟨e, _, he⟩ := List.mem_flatMap.mp hi
  unfold inboundStmts at he
  split at he
  · cases he
  · rw [List.mem_singleton.mp he]
    trivial

theorem keeps_batchStmts {rows : List EdgeUpsertData} {edges : Table.Rows EdgeKey EdgeRow}
    (h : ∀ row ∈ rows, Keeps t (.edge (.upsert row))) : ∀ i ∈ batchStmts env rows edges, Keeps t i := by
  intro i hi
  rcases List.mem_append.mp hi with hi | hi
  · rcases mem_chunksStmts_edge hi with ⟨row, hr, rfl⟩ | ⟨a, d, rfl⟩ | ⟨a, d, rfl⟩
    · rw [flatten_chunkArray] at hr
      exact h row hr
    · trivial
    · trivial
  · unfold totalsStmts at hi
    split at hi
    · cases hi
    · rw [List.mem_singleton.mp hi]
      trivial

theorem keeps_victimStmts : ∀ i ∈ victimStmts (t.input start) (t.opts start maxEdges), Keeps t i := by
  intro i hi
  unfold victimStmts at hi
  split at hi
  · refine keeps_upsertStmts (fun data hd => ?_) i hi
    obtain ⟨a, _, rfl⟩ := List.mem_map.mp hd
    exact fun h => by cases h
  · cases hi

theorem keeps_sliceStmts (hOut : SmallOutputs t) (v : CoreView) :
    ∀ i ∈ sliceStmts env t.applyMeta (t.opts start maxEdges) (t.slice start maxEdges) v,
      Keeps t i := by
  intro i hi
  rcases List.mem_append.mp hi with hi | hi
  · refine keeps_upsertStmts (fun data hd => ?_) i hi
    obtain ⟨e, _, rfl⟩ := List.mem_map.mp hd
    exact fun h => by cases h
  · rcases List.mem_append.mp hi with hi | hi
    · exact keeps_inboundStmts i hi
    · exact keeps_batchStmts (fun row hr => keeps_edgeRow hOut hr) i hi

theorem keeps_chunkCoreStmts (hOut : SmallOutputs t) (v : CoreView) :
    ∀ i ∈ chunkCoreStmts env t.applyMeta (t.input start) (t.opts start maxEdges) v, Keeps t i := by
  intro i hi
  rcases List.mem_append.mp hi with hi | hi
  · exact keeps_victimStmts i hi
  · exact keeps_sliceStmts hOut _ i hi

/-- The first call labels the senders of payments. -/
theorem labelled_victimStmts {v : CoreView} :
    ∀ a ∈ t.victims, ∃ row, (replay (victimStmts (t.input 0) (t.opts 0 maxEdges)) v).addresses.lookup a
      = some row ∧ row.role ≠ .unknown := by
  have hList : ∀ (l : List Address) (v : CoreView), ∀ a ∈ l,
      ∃ row, (replay (upsertStmts (l.map victimRow)) v).addresses.lookup a = some row ∧
        row.role ≠ .unknown := by
    intro l
    induction l with
    | nil =>
      intro v a ha
      cases ha
    | cons b l ih =>
      intro v a ha
      by_cases hl : a ∈ l
      · exact ih _ a hl
      · have hab : a = b := by
          rcases List.mem_cons.mp ha with h | h
          · exact h
          · exact absurd h hl
        subst hab
        show ∃ row, (replay (upsertStmts (l.map victimRow))
          (exec (Core.address (.upsert (victimRow a))) v)).addresses.lookup a = some row ∧ _
        refine replay_inv (P := fun v : CoreView => ∃ row, v.addresses.lookup a = some row ∧
          row.role ≠ .unknown) (fun i hi _ hv => labelled_exec (keeps_upsertStmts (t := t)
            (fun data hd => ?_) i hi) hv) ?_
        · obtain ⟨c, _, rfl⟩ := List.mem_map.mp hd
          exact fun h => by cases h
        · show ∃ row, ((AddressStmt.upsert (victimRow a)).exec v.addresses).lookup a = some row ∧ _
          rw [lookup_upsert, if_pos (show a = (victimRow a).address from rfl)]
          refine ⟨_, rfl, ?_⟩
          cases v.addresses.lookup a with
          | none => exact fun h => by cases h
          | some row =>
            cases hr : row.role <;> simp [AddressUpsertData.updated, AddressUpsertData.fenced,
              victimRow, hr]
  exact hList _ v

/-- A call extends what the calls have left to its slice. -/
theorem covers_applyChunk (hOut : SmallOutputs t) {v : CoreView}
    (h : start = 0 ∨ Covers t start v) :
    Covers t (t.stop start maxEdges)
      (applyChunk env t.applyMeta (t.input start) (t.opts start maxEdges) v) where
  victims a ha := by
    unfold applyChunk
    refine replay_inv (P := fun v : CoreView => ∃ row, v.addresses.lookup a = some row ∧
      row.role ≠ .unknown) (fun i hi _ hv => labelled_exec (keeps_sliceStmts hOut _ i hi) hv) ?_
    rcases h with rfl | h
    · exact labelled_victimStmts a ha
    · exact (covers_replay keeps_victimStmts h).victims a ha
  payments e he hd hFloor := by
    rw [edges_applyChunk]
    refine settled_upsertedEdges (fun row hr hKey => ?_) v.edges ?_
    · obtain ⟨e', he', hd', _, rfl⟩ := mem_edgeRows hOut hr
      rw [Trace.payment_unique (Trace.mem_slice he') (List.mem_of_mem_take he) hd' hd hKey]
    · rcases Trace.mem_take_stop he with he | he
      · rcases h with rfl | h
        · rw [List.take_zero] at he
          cases he
        · exact Or.inl (h.payments e he hd hFloor)
      · exact Or.inr (paymentRow_mem_edgeRows he hd hFloor)

end Call

/-! ## What an applied trace has left -/

theorem keeps_of_elsewhere {t : Trace} {s : Stmt} (h : Elsewhere t.tx.txid s) {i : Core}
    (hi : s.core? = some i) : Keeps t i := by
  cases s with
  | address s =>
    cases hi
    cases s with
    | upsert data => exact h
    | delete => exact h.elim
    | _ => trivial
  | edge s =>
    cases hi
    cases s with
    | upsert data => exact fun e _ _ hKey => absurd (congrArg EdgeKey.txid hKey).symm h
    | deleteTouching => exact h.elim
    | deleteHackTrace => exact h.elim
  | scheduler s =>
    cases s <;> cases hi
    trivial
  | _ => cases hi

theorem covers_history {env : Env} {t : Trace} (hOut : SmallOutputs t) {o : Option Nat} {db : Db}
    (h : History env t o db) : ∀ i, o = some i → Covers t i db.core := by
  induction h with
  | start db =>
    intro i hi
    cases hi
  | @call o db h maxEdges c r hGuard hOk ih =>
    intro i hi
    cases hi
    rw [core_call hGuard hOk, nextEdgeIndex_call hGuard hOk]
    refine covers_applyChunk hOut ?_
    cases o with
    | none => exact Or.inl rfl
    | some i => exact Or.inr (ih i rfl)
  | @failed o db h maxEdges c e hErr ih =>
    intro i hi
    have hPrefix := writesAt_call env t (o.getD 0) maxEdges db c
    unfold Op.final
    rw [core_replay]
    exact covers_replay (fun s hs => keeps_chunkCoreStmts hOut _ s (hPrefix.subset hs)) (ih i hi)
  | other h log hLog ih =>
    intro i hi
    rw [core_replay]
    refine covers_replay (fun s hs => ?_) (ih i hi)
    obtain ⟨stmt, hStmt, hCore⟩ := List.mem_filterMap.mp hs
    exact keeps_of_elsewhere (hLog stmt hStmt) hCore

/-! ## A call on an applied trace -/

section Again

variable {env : Env} {t : Trace} {start : Nat} {maxEdges : Option Nat} {v : CoreView}

/-- A row that is labelled stays as it is when the first call upserts it as a victim. -/
theorem updated_victimRow {a : Address} {row : AddressRow} (h : row.role ≠ .unknown) :
    (victimRow a).updated row = row := by
  cases row with
  | mk role => cases role <;> first | exact absurd rfl h | rfl

theorem lookup_replay_victims {l : List Address}
    (h : ∀ a ∈ l, ∃ row, v.addresses.lookup a = some row ∧ row.role ≠ .unknown) (x : Address) :
    (replay (upsertStmts (l.map victimRow)) v).addresses.lookup x = v.addresses.lookup x := by
  induction l generalizing v with
  | nil => rfl
  | cons a l ih =>
    obtain ⟨row, hr, hRole⟩ := h a List.mem_cons_self
    have hSame : ∀ y, ((AddressStmt.upsert (victimRow a)).exec v.addresses).lookup y =
        v.addresses.lookup y := by
      intro y
      rw [lookup_upsert]
      split
      · next hy =>
        rw [show y = a from hy, hr, Option.elim_some, updated_victimRow hRole]
      · rfl
    show (replay (upsertStmts (l.map victimRow))
      (exec (Core.address (.upsert (victimRow a))) v)).addresses.lookup x = _
    rw [ih fun b hb => ?_]
    · exact hSame x
    · obtain ⟨rowb, hb', hRoleb⟩ := h b (List.mem_cons_of_mem _ hb)
      exact ⟨rowb, (hSame b).trans hb', hRoleb⟩

theorem lookup_replay_victimStmts {i : Nat} (h : Covers t i v) (x : Address) :
    (replay (victimStmts (t.input start) (t.opts start maxEdges)) v).addresses.lookup x =
      v.addresses.lookup x := by
  unfold victimStmts
  split
  · next h0 =>
    refine lookup_replay_victims (fun a ha => h.victims a ?_) x
    rwa [show start = 0 from h0] at ha
  · rfl

/-- The rows of a call on an applied trace are all settled. -/
theorem settled_edgeRows (hOut : SmallOutputs t) (h : Covers t t.flat.length v)
    {victimTargets : Address → Bool} :
    ∀ row ∈ edgeRows (t.opts start maxEdges) t.applyMeta victimTargets (t.slice start maxEdges),
      row.Settled v.edges := by
  intro row hr
  obtain ⟨e, he, hd, hFloor, rfl⟩ := mem_edgeRows hOut hr
  refine h.payments e ?_ hd hFloor
  rw [List.take_length]
  exact Trace.mem_slice he

theorem outRows_edgeRows (hOut : SmallOutputs t) {victimTargets : Address → Bool} :
    outRows (edgeRows (t.opts start maxEdges) t.applyMeta victimTargets (t.slice start maxEdges)) =
      [] := by
  refine List.filter_eq_nil_iff.mpr fun row hr => ?_
  obtain ⟨e, _, hd, _, rfl⟩ := mem_edgeRows hOut hr
  have hDir : (t.paymentRow e).direction = .inToHacker := hd
  simp [hDir]

/-- A batch of settled payments writes only their rows. -/
theorem batchStmts_of_settled {rows : List EdgeUpsertData} {edges : Table.Rows EdgeKey EdgeRow}
    (h : ∀ row ∈ rows, row.Settled edges) (hOut : outRows rows = []) :
    batchStmts env rows edges = edgeStmts rows := by
  have hRows : ∀ chunk ∈ chunkArray env.store.d1BatchSize rows, ∀ row ∈ chunk,
      row.Settled edges := by
    intro chunk hc row hr
    refine h row ?_
    rw [← flatten_chunkArray env.store.d1BatchSize rows]
    exact List.mem_flatten.mpr ⟨chunk, hc, hr⟩
  have hChunks := chunksStmts_of_settled hRows
  have hZero : chunkOut rows = 0 := by
    unfold chunkOut
    rw [hOut]
    rfl
  unfold batchStmts
  dsimp only
  rw [hChunks.1, hChunks.2, hZero]
  unfold totalsStmts edgeStmts
  rw [if_pos ⟨rfl, rfl⟩, List.append_nil, ← List.map_flatMap, List.flatMap_id', flatten_chunkArray]

/-- The statements of a call on an applied trace without stored outputs. -/
theorem sliceStmts_of_covers (hOut : SmallOutputs t) (h : Covers t t.flat.length v) :
    sliceStmts env t.applyMeta (t.opts start maxEdges) (t.slice start maxEdges) v =
      upsertStmts (downstreamRows (isVictimOf v.edges t.hackers) (expandContext v.addresses)
          t.minExpandSats (t.slice start maxEdges)) ++
        ((skippedInbound (t.opts start maxEdges) (isVictimOf v.edges t.hackers)
            (t.slice start maxEdges)).flatMap inboundStmts ++
          edgeStmts (edgeRows (t.opts start maxEdges) t.applyMeta (isVictimOf v.edges t.hackers)
            (t.slice start maxEdges))) := by
  unfold sliceStmts
  dsimp only
  rw [batchStmts_of_settled (settled_edgeRows hOut h) (outRows_edgeRows hOut)]
  rfl

/-- A call on an applied trace without stored outputs leaves the edges. -/
theorem lookup_edges_applyChunk (hOut : SmallOutputs t) (h : Covers t t.flat.length v)
    (k : EdgeKey) :
    (applyChunk env t.applyMeta (t.input start) (t.opts start maxEdges) v).edges.lookup k =
      v.edges.lookup k := by
  rw [edges_applyChunk]
  exact lookup_upsertedEdges_of_settled (settled_edgeRows hOut h) k

/-- Outputs that are credited, by the targets that the range makes sure of. -/
theorem mem_skippedInbound {opts : HackTraceApplyChunkOptions} {victimTargets : Address → Bool}
    {slice : List HackTraceEdgeDraft} {p : Address × Int}
    (h : p ∈ skippedInbound opts victimTargets slice) (context : Address → Option ExpandContext)
    (floor : Int) : p.1 ∈ (downstreamRows victimTargets context floor slice).map (·.address) := by
  obtain ⟨q, hq, hqp⟩ := List.mem_map.mp
    (Tally.mem_keys_tally.mp (List.mem_map.mpr ⟨p, h, rfl⟩))
  obtain ⟨e, he, rfl⟩ := List.mem_map.mp hq
  obtain ⟨heFilter, heDown⟩ := List.mem_filter.mp he
  refine List.mem_map.mpr ⟨_, List.mem_map.mpr
    ⟨e, List.mem_filter.mpr ⟨List.mem_of_mem_filter heFilter, heDown⟩, rfl⟩, hqp⟩

/-- A call on an applied trace without stored outputs credits its outputs again. -/
theorem inboundAt_applyChunk (hOut : SmallOutputs t) (h : Covers t t.flat.length v) (x : Address) :
    (applyChunk env t.applyMeta (t.input start) (t.opts start maxEdges) v).inboundAt x =
      v.inboundAt x + Tally.total x (downstreamAmounts (isVictimOf v.edges t.hackers)
        ((t.slice start maxEdges).filter fun e =>
          e.amountSats < displayFloor (t.opts start maxEdges) e)) := by
  have hVictims : (replay (victimStmts (t.input start) (t.opts start maxEdges)) v).inboundAt x =
      v.inboundAt x := by
    unfold CoreView.inboundAt
    rw [lookup_replay_victimStmts h]
  have hEdges := edges_replay_victimStmts (t.input start) (t.opts start maxEdges) v
  unfold applyChunk
  dsimp only
  rw [show chunkSlice (t.input start) (t.opts start maxEdges) = t.slice start maxEdges from rfl,
    sliceStmts_of_covers hOut (covers_replay keeps_victimStmts h), inboundAt_replay_upserts,
    inboundSum_append, inboundSum_inboundStmts, inboundSum_edgeStmts, hVictims, hEdges, add_zero]
  · unfold skippedInbound
    rw [Tally.total_tally]
  · intro i hi
    rcases List.mem_append.mp hi with hi | hi
    · exact tracing_inboundStmts i hi
    · obtain ⟨row, _, rfl⟩ := List.mem_map.mp hi
      exact .edge row
  · intro hx i hi
    rcases List.mem_append.mp hi with hi | hi
    · obtain ⟨p, hp, hpi⟩ := List.mem_flatMap.mp hi
      unfold inboundStmts at hpi
      split at hpi
      · cases hpi
      · rw [List.mem_singleton.mp hpi]
        refine if_neg fun hpx => hx ?_
        rw [← hpx]
        exact mem_skippedInbound hp _ _
    · obtain ⟨row, _, rfl⟩ := List.mem_map.mp hi
      rfl

theorem pos_of_mem_downstreamAmounts {victimTargets : Address → Bool} {p : Address × Int}
    {slice : List HackTraceEdgeDraft} (hSlice : ∀ e ∈ slice, e ∈ t.flat)
    (hp : p ∈ downstreamAmounts victimTargets slice) : 0 < p.2 := by
  obtain ⟨e, he, rfl⟩ := List.mem_map.mp hp
  exact Trace.pos_of_mem (hSlice e (List.mem_of_mem_filter he))

/-- No inbound total goes down, and that of an output outside the known victims goes up. -/
theorem inboundAt_le_applyChunk (hOut : SmallOutputs t) (h : Covers t t.flat.length v)
    (x : Address) :
    v.inboundAt x ≤
      (applyChunk env t.applyMeta (t.input start) (t.opts start maxEdges) v).inboundAt x := by
  rw [inboundAt_applyChunk hOut h]
  have hTotal := Tally.total_nonneg (k := x) fun p
    (hp : p ∈ downstreamAmounts (isVictimOf v.edges t.hackers) ((t.slice start maxEdges).filter
      fun e => e.amountSats < displayFloor (t.opts start maxEdges) e)) =>
    (pos_of_mem_downstreamAmounts (fun e he => Trace.mem_slice (List.mem_of_mem_filter he)) hp).le
  omega

theorem inboundAt_lt_applyChunk (hOut : SmallOutputs t) (h : Covers t t.flat.length v)
    {e : HackTraceEdgeDraft} (he : e ∈ t.slice start maxEdges) (hd : e.direction = .outFromHacker)
    (hVictim : isVictimOf v.edges t.hackers e.toAddress = false) :
    v.inboundAt e.toAddress <
      (applyChunk env t.applyMeta (t.input start) (t.opts start maxEdges) v).inboundAt e.toAddress := by
  rw [inboundAt_applyChunk hOut h]
  have hSmall : e.amountSats < displayFloor (t.opts start maxEdges) e := by
    unfold displayFloor
    rw [hd]
    exact hOut e (Trace.mem_slice he) hd
  have hMem : (e.toAddress, e.amountSats) ∈ downstreamAmounts (isVictimOf v.edges t.hackers)
      ((t.slice start maxEdges).filter fun e =>
        e.amountSats < displayFloor (t.opts start maxEdges) e) :=
    List.mem_map.mpr ⟨e, List.mem_filter.mpr
      ⟨List.mem_filter.mpr ⟨he, decide_eq_true hSmall⟩, by simp [isDownstreamEdge, hd, hVictim]⟩, rfl⟩
  have hPos := Tally.total_pos (fun p hp => pos_of_mem_downstreamAmounts
    (fun e he => Trace.mem_slice (List.mem_of_mem_filter he)) hp) hMem
  omega

/-- Where all outputs go to known victims, a call on an applied trace changes nothing. -/
theorem unchanged_applyChunk (hOut : SmallOutputs t) (h : Covers t t.flat.length v)
    (hVictims : ∀ e ∈ t.flat, e.direction = .outFromHacker →
      isVictimOf v.edges t.hackers e.toAddress = true) :
    Unchanged v (applyChunk env t.applyMeta (t.input start) (t.opts start maxEdges) v) := by
  have hEdges := edges_replay_victimStmts (t.input start) (t.opts start maxEdges) v
  have hTotals : (replay (victimStmts (t.input start) (t.opts start maxEdges)) v).totalInSats =
        v.totalInSats ∧
      (replay (victimStmts (t.input start) (t.opts start maxEdges)) v).totalOutSats =
        v.totalOutSats := by
    unfold victimStmts
    split
    · exact totals_replay_of_noTotals noTotals_upsertStmts v
    · exact ⟨rfl, rfl⟩
  have hNone : ∀ slice : List HackTraceEdgeDraft, (∀ e ∈ slice, e ∈ t.flat) →
      slice.filter (isDownstreamEdge (isVictimOf v.edges t.hackers)) = [] := by
    refine fun slice hSlice => List.filter_eq_nil_iff.mpr fun e he => ?_
    unfold isDownstreamEdge
    by_cases hd : e.direction = .outFromHacker
    · simp [hVictims e (hSlice e he) hd]
    · simp [hd]
  have hCovers : Covers t t.flat.length
      (replay (victimStmts (t.input start) (t.opts start maxEdges)) v) :=
    covers_replay keeps_victimStmts h
  have hStmts : sliceStmts env t.applyMeta (t.opts start maxEdges) (t.slice start maxEdges)
      (replay (victimStmts (t.input start) (t.opts start maxEdges)) v) = _ :=
    sliceStmts_of_covers hOut hCovers
  rw [hEdges] at hStmts
  unfold downstreamRows skippedInbound downstreamAmounts at hStmts
  rw [hNone _ fun e he => Trace.mem_slice he,
    hNone _ fun e he => Trace.mem_slice (List.mem_of_mem_filter he)] at hStmts
  have hOnly : ∀ w : CoreView, ∀ rows, (replay (edgeStmts rows) w).addresses = w.addresses ∧
      (replay (edgeStmts rows) w).totalInSats = w.totalInSats ∧
      (replay (edgeStmts rows) w).totalOutSats = w.totalOutSats := by
    intro w rows
    induction rows generalizing w with
    | nil => exact ⟨rfl, rfl, rfl⟩
    | cons row rows ih => exact ih _
  have hApply : applyChunk env t.applyMeta (t.input start) (t.opts start maxEdges) v =
      replay (edgeStmts (edgeRows (t.opts start maxEdges) t.applyMeta
        (isVictimOf v.edges t.hackers) (t.slice start maxEdges)))
        (replay (victimStmts (t.input start) (t.opts start maxEdges)) v) := by
    unfold applyChunk
    dsimp only
    rw [show chunkSlice (t.input start) (t.opts start maxEdges) = t.slice start maxEdges from rfl,
      hStmts]
    rfl
  refine ⟨fun a => ?_, lookup_edges_applyChunk hOut h, ?_, ?_⟩
  · rw [hApply, (hOnly _ _).1, lookup_replay_victimStmts h]
  · rw [hApply, (hOnly _ _).2.1, hTotals.1]
  · rw [hApply, (hOnly _ _).2.2, hTotals.2]

end Again

/-! ## The outgoing total -/

section TotalOut

variable {env : Env} {t : Trace} {start : Nat} {maxEdges : Option Nat} {v : CoreView}

theorem pos_of_mem_outRows {victimTargets : Address → Bool} {row : EdgeUpsertData}
    (h : row ∈ outRows (edgeRows (t.opts start maxEdges) t.applyMeta victimTargets
      (t.slice start maxEdges))) : 0 < row.amountSats := by
  obtain ⟨e, he, rfl⟩ := List.mem_map.mp (mem_outRows.mp h).1
  exact Trace.pos_of_mem (Trace.mem_slice (List.mem_of_mem_filter he))

theorem totalOut_le_applyChunk : v.totalOutSats ≤
    (applyChunk env t.applyMeta (t.input start) (t.opts start maxEdges) v).totalOutSats := by
  obtain ⟨din, h⟩ := totalOut_applyChunk env t.applyMeta (t.input start) (t.opts start maxEdges) v
  have hNonneg : 0 ≤ chunkOut (edgeRows (t.opts start maxEdges) t.applyMeta
      (isVictimOf v.edges t.hackers) (t.slice start maxEdges)) := by
    refine List.sum_nonneg fun d hd => ?_
    obtain ⟨row, hr, rfl⟩ := List.mem_map.mp hd
    exact (pos_of_mem_outRows hr).le
  rw [h]
  split
  · exact le_rfl
  · exact (le_add_of_nonneg_right hNonneg).trans (le_max_right _ _)

/-- A stored output is added to the outgoing total, whatever was stored before. -/
theorem totalOut_lt_applyChunk {e : HackTraceEdgeDraft} (he : e ∈ t.slice start maxEdges)
    (hd : e.direction = .outFromHacker) (hFloor : t.minExpandSats ≤ e.amountSats) :
    v.totalOutSats <
      (applyChunk env t.applyMeta (t.input start) (t.opts start maxEdges) v).totalOutSats := by
  obtain ⟨din, h⟩ := totalOut_applyChunk env t.applyMeta (t.input start) (t.opts start maxEdges) v
  have hPos : 0 < chunkOut (edgeRows (t.opts start maxEdges) t.applyMeta
      (isVictimOf v.edges t.hackers) (t.slice start maxEdges)) := by
    have hRow : edgeRow t.applyMeta (isVictimOf v.edges t.hackers) t.minExpandSats e ∈
        outRows (edgeRows (t.opts start maxEdges) t.applyMeta (isVictimOf v.edges t.hackers)
          (t.slice start maxEdges)) := by
      refine mem_outRows.mpr ⟨List.mem_map.mpr ⟨e, List.mem_filter.mpr ⟨he, decide_eq_true ?_⟩, rfl⟩,
        hd⟩
      unfold displayFloor
      rw [hd]
      exact hFloor
    refine List.sum_pos _ (fun d hd => ?_) fun hNil => ?_
    · obtain ⟨row, hr, rfl⟩ := List.mem_map.mp hd
      exact pos_of_mem_outRows hr
    · rw [List.map_eq_nil_iff.mp hNil] at hRow
      cases hRow
  rw [h, if_neg fun hz => hPos.ne' hz.2]
  exact (lt_add_of_pos_right _ hPos).trans_le (le_max_right _ _)

end TotalOut

/-! ## Second applications -/

section Second

variable {env : Env} {t : Trace} {db db' : Db} {i : Nat}

/-- A property of indices and cores that holds after the first call and that every later call
extends holds of every sequence of calls. -/
theorem Chunks.induct {P : Nat → CoreView → Prop} (h : Chunks env t db i db')
    (hFirst : ∀ maxEdges, P (t.stop 0 maxEdges)
      (applyChunk env t.applyMeta (t.input 0) (t.opts 0 maxEdges) db.core))
    (hNext : ∀ i v maxEdges, P i v → P (t.stop i maxEdges)
      (applyChunk env t.applyMeta (t.input i) (t.opts i maxEdges) v)) : P i db'.core := by
  induction h with
  | first maxEdges c r hGuard hOk =>
    rw [core_call hGuard hOk, nextEdgeIndex_call hGuard hOk]
    exact hFirst maxEdges
  | @next i db' h maxEdges c r hOk ih =>
    cases hGuard : c.mem.cpuGuard.exceeded with
    | false =>
      rw [core_call hGuard hOk, nextEdgeIndex_call hGuard hOk]
      exact hNext _ _ _ ih
    | true =>
      unfold Op.final
      rw [call_of_exceeded hGuard] at hOk ⊢
      cases hOk
      exact ih

/-- The outgoing total does not go down, and goes up once a stored output is applied. -/
theorem totalOut_chunks (h : Chunks env t db i db') : db.core.totalOutSats ≤ db'.core.totalOutSats ∧
    ∀ e ∈ t.flat.take i, e.direction = .outFromHacker → t.minExpandSats ≤ e.amountSats →
      db.core.totalOutSats < db'.core.totalOutSats := by
  refine h.induct (P := fun i v => db.core.totalOutSats ≤ v.totalOutSats ∧ ∀ e ∈ t.flat.take i,
    e.direction = .outFromHacker → t.minExpandSats ≤ e.amountSats →
      db.core.totalOutSats < v.totalOutSats) (fun maxEdges => ?_) fun i v maxEdges ih => ?_
  · refine ⟨totalOut_le_applyChunk, fun e he hd hf => ?_⟩
    rcases Trace.mem_take_stop he with he | he
    · rw [List.take_zero] at he
      cases he
    · exact totalOut_lt_applyChunk he hd hf
  · refine ⟨ih.1.trans totalOut_le_applyChunk, fun e he hd hf => ?_⟩
    rcases Trace.mem_take_stop he with he | he
    · exact (ih.2 e he hd hf).trans_le totalOut_le_applyChunk
    · exact ih.1.trans_lt (totalOut_lt_applyChunk he hd hf)

/-- After the calls up to an index on a store that has the whole trace: the edges are as before,
no inbound total is lower, and those of the outputs outside the known victims are higher. -/
structure Credited (t : Trace) (v : CoreView) (i : Nat) (v' : CoreView) : Prop where
  covers : Covers t t.flat.length v'
  edges : ∀ k, v'.edges.lookup k = v.edges.lookup k
  le : ∀ x, v.inboundAt x ≤ v'.inboundAt x
  lt : ∀ e ∈ t.flat.take i, e.direction = .outFromHacker →
    isVictimOf v.edges t.hackers e.toAddress = false →
      v.inboundAt e.toAddress < v'.inboundAt e.toAddress

theorem covers_applyChunk_all {v : CoreView} {start : Nat} {maxEdges : Option Nat}
    (hOut : SmallOutputs t) (h : Covers t t.flat.length v) : Covers t t.flat.length
      (applyChunk env t.applyMeta (t.input start) (t.opts start maxEdges) v) := by
  rw [← replay_chunkCoreStmts]
  exact covers_replay (keeps_chunkCoreStmts hOut v) h

theorem credited_chunks (hOut : SmallOutputs t) (hDb : Covers t t.flat.length db.core)
    (h : Chunks env t db i db') : Credited t db.core i db'.core := by
  have hStep : ∀ (start : Nat) (v : CoreView) (maxEdges : Option Nat), Credited t db.core start v →
      Credited t db.core (t.stop start maxEdges)
        (applyChunk env t.applyMeta (t.input start) (t.opts start maxEdges) v) := by
    intro start v maxEdges hv
    refine ⟨covers_applyChunk_all hOut hv.covers,
      fun k => (lookup_edges_applyChunk hOut hv.covers k).trans (hv.edges k),
      fun x => (hv.le x).trans (inboundAt_le_applyChunk hOut hv.covers x), fun e he hd hVictim => ?_⟩
    rcases Trace.mem_take_stop he with he | he
    · exact (hv.lt e he hd hVictim).trans_le (inboundAt_le_applyChunk hOut hv.covers _)
    · refine (hv.le _).trans_lt (inboundAt_lt_applyChunk hOut hv.covers he hd ?_)
      rwa [isVictimOf_congr hv.edges]
  have hStart : Credited t db.core 0 db.core :=
    ⟨hDb, fun _ => rfl, fun _ => le_rfl, fun e he => by
      rw [List.take_zero] at he
      cases he⟩
  exact h.induct (fun maxEdges => hStep 0 _ maxEdges hStart) fun i v maxEdges => hStep i v maxEdges

theorem unchanged_chunks (hOut : SmallOutputs t) (hDb : Covers t t.flat.length db.core)
    (hVictims : ∀ e ∈ t.flat, e.direction = .outFromHacker →
      isVictimOf db.edges t.hackers e.toAddress = true)
    (h : Chunks env t db i db') : Unchanged db.core db'.core := by
  have hStep : ∀ (start : Nat) (v : CoreView) (maxEdges : Option Nat),
      Covers t t.flat.length v ∧ Unchanged db.core v →
      Covers t t.flat.length (applyChunk env t.applyMeta (t.input start) (t.opts start maxEdges) v) ∧
        Unchanged db.core (applyChunk env t.applyMeta (t.input start) (t.opts start maxEdges) v) := by
    intro start v maxEdges hv
    refine ⟨covers_applyChunk_all hOut hv.1, hv.2.trans (unchanged_applyChunk hOut hv.1 ?_)⟩
    intro e he hd
    rw [isVictimOf_congr hv.2.edges]
    exact hVictims e he hd
  exact (h.induct (P := fun _ v => Covers t t.flat.length v ∧ Unchanged db.core v)
    (fun maxEdges => hStep 0 _ maxEdges ⟨hDb, Unchanged.refl _⟩)
    fun i v maxEdges => hStep i v maxEdges).2

/-- A fan-out that lists an output adds its total again. -/
theorem changed_fanoutCoreStmts (env : Env) (tx : ChainTxDetail) (spender : Address) (hop : Nat)
    (v : CoreView) (h : (buildFanoutMeta env.config tx spender).topOutputs ≠ []) :
    ¬ Unchanged v (replay (fanoutCoreStmts env tx spender hop v) v) := by
  have hPos := totalOutSats_pos h
  obtain ⟨primary, rest, hTop⟩ := List.exists_cons_of_ne_nil h
  unfold fanoutCoreStmts
  generalize buildFanoutMeta env.config tx spender = fanoutMeta at *
  rw [hTop, List.head?_cons, Option.toList_some, List.flatMap_singleton, replay_append]
  unfold fanoutStmts
  intro hSame
  split at hSame
  · have hAt := hSame.inboundAt primary.1
    have hProfile : ∀ w : CoreView, (replay [Core.address (.setExpandProfile spender .spendFanout)]
        w).inboundAt primary.1 = w.inboundAt primary.1 := by
      intro w
      unfold CoreView.inboundAt
      show ((((Table.modify _ _ w.addresses).lookup primary.1).map _).getD 0) = _
      rw [Table.lookup_modify]
      split
      · rw [Option.map_map]
        rfl
      · rfl
    have hTracing : ∀ i ∈ inboundStmts (primary.1, fanoutMeta.totalOutSats), i.Tracing := by
      have hList : ∀ i ∈ [(primary.1, fanoutMeta.totalOutSats)].flatMap inboundStmts, i.Tracing :=
        tracing_inboundStmts
      rwa [List.flatMap_singleton] at hList
    have hSum : inboundSum primary.1 (inboundStmts (primary.1, fanoutMeta.totalOutSats)) =
        fanoutMeta.totalOutSats := by
      have := inboundSum_inboundStmts primary.1 [(primary.1, fanoutMeta.totalOutSats)]
      rw [List.flatMap_singleton] at this
      rw [this, Tally.total_cons, if_pos rfl, Tally.total_nil, add_zero]
    rw [hProfile, inboundAt_replay_upserts hTracing (fun hx => absurd (List.mem_singleton.mpr rfl) hx),
      hSum] at hAt
    omega
  · have hOut := hSame.totalOut
    have hProfile : ∀ w : CoreView, (replay [Core.address (.setExpandProfile spender .spendFanout)]
        w).totalOutSats = w.totalOutSats := fun _ => rfl
    have hChunk : chunkOut [fanoutEdge ⟨tx.txid, blockTimeIso tx.status⟩ spender primary.1 hop
        fanoutMeta] = fanoutMeta.totalOutSats := add_zero _
    rw [hProfile, replay_append, (totals_replay_batchStmts env _ _ _).2,
      (totals_replay_of_noTotals noTotals_upsertStmts _).2, hChunk,
      if_neg fun hz => hPos.ne' hz.2] at hOut
    have := le_max_right 0 (v.totalOutSats + fanoutMeta.totalOutSats)
    omega

end Second

/-! ## When a second application changes nothing -/

/-- A second application of an applied trace leaves the rows of addresses and edges and the
totals exactly where every output is below the display floor and goes to an address that the
store knows as a victim; a second fan-out leaves them exactly where it lists no output. -/
theorem reapply_unchanged_iff (env : Env) :
    (∀ (t : Trace) (db db' : Db), Applied env t db →
      Chunks env t db t.flat.length db' →
      (Unchanged db.core db'.core ↔ ∀ e ∈ t.flat, e.direction = .outFromHacker →
        e.amountSats < t.minExpandSats ∧ isVictimOf db.edges t.hackers e.toAddress = true)) ∧
    ∀ (tx : ChainTxDetail) (spender : Address) (hop : Nat) (db : Db) (c : Ctl Mem Err),
      (applySpendFanoutSummary env tx spender hop db c).res = .ok () →
      (Unchanged db.core ((applySpendFanoutSummary env tx spender hop).final db c).core ↔
        (buildFanoutMeta env.config tx spender).topOutputs = []) := by
  constructor
  · intro t db db' hApplied hAgain
    constructor
    · intro hSame
      have hSmall : SmallOutputs t := by
        intro e he hd
        by_contra hLarge
        have hGrows := (totalOut_chunks hAgain).2 e (by rwa [List.take_length]) hd (not_lt.mp hLarge)
        exact absurd hSame.totalOut hGrows.ne'
      have hCredited := credited_chunks hSmall (covers_history hSmall hApplied _ rfl) hAgain
      refine fun e he hd => ⟨hSmall e he hd, ?_⟩
      by_contra hVictim
      have hGrows := hCredited.lt e (by rwa [List.take_length]) hd (Bool.not_eq_true _ ▸ hVictim)
      exact absurd (hSame.inboundAt e.toAddress) hGrows.ne'
    · intro hCond
      have hSmall : SmallOutputs t := fun e he hd => (hCond e he hd).1
      exact unchanged_chunks hSmall (covers_history hSmall hApplied _ rfl)
        (fun e he hd => (hCond e he hd).2) hAgain
  · intro tx spender hop db c hOk
    rw [core_final (writesAt_applySpendFanoutSummary env tx spender hop db) hOk]
    constructor
    · intro hSame
      by_contra hTop
      exact changed_fanoutCoreStmts env tx spender hop db.core hTop hSame
    · intro hTop
      unfold fanoutCoreStmts
      rw [hTop]
      exact Unchanged.refl _

theorem applied_whole {env : Env} {t : Trace} {db : Db}
    (h : t.reached env db = some t.flat.length) : Applied env t (t.whole env db) := by
  obtain ⟨r, hr, hNext⟩ := exists_ok h
  have hCall := History.call (History.start db) none ⟨{}, []⟩ r rfl hr
  rw [hNext] at hCall
  exact hCall

/-- A hacker pays one output above the floor. -/
def payout : Trace where
  tx :=
    { txid := name "t"
      vin := [{ prevout := some ⟨some (name "h"), some 900000⟩ }]
      vout := [{ scriptpubkeyAddress := some (name "x"), value := some 800000 }] }
  hackers := [name "h"]

def payoutEnv : Env := { provider := .ofTxs [payout.tx] }

def paidOnce : Db := payout.whole payoutEnv .initial

def paidTwice : Db := payout.whole payoutEnv paidOnce

/-- The second application of a payout adds it to the outgoing total again. -/
theorem reapply_payout_changed : Applied payoutEnv payout paidOnce ∧
    Chunks payoutEnv payout paidOnce payout.flat.length paidTwice ∧
    ¬ Unchanged paidOnce.core paidTwice.core := by
  have hFirst : payout.reached payoutEnv .initial = some payout.flat.length := by decide +kernel
  have hSecond : payout.reached payoutEnv paidOnce = some payout.flat.length := by decide +kernel
  have hOnce : paidOnce.scheduler.totalOutSats = 800000 := by decide +kernel
  have hTwice : paidTwice.scheduler.totalOutSats = 1600000 := by decide +kernel
  refine ⟨applied_whole hFirst, chunks_whole hSecond, fun h => ?_⟩
  have hOut := h.totalOut
  rw [core_totalOutSats, core_totalOutSats, hOnce, hTwice] at hOut
  cases hOut

/-- A hacker returns a small amount to an address whose payment is stored. -/
def smallReturn : Trace where
  tx :=
    { txid := name "t"
      vin := [{ prevout := some ⟨some (name "h"), some 60000⟩ }]
      vout := [{ scriptpubkeyAddress := some (name "v"), value := some 50000 }] }
  hackers := [name "h"]

def smallReturnEnv : Env := { provider := .ofTxs [smallReturn.tx] }

def victimKnown : Db :=
  replay [Stmt.edge (.upsert
    { fromAddress := name "v"
      toAddress := name "h"
      txid := name "s"
      amountSats := 200000
      direction := .inToHacker })] .initial

def returnedOnce : Db := smallReturn.whole smallReturnEnv victimKnown

def returnedTwice : Db := smallReturn.whole smallReturnEnv returnedOnce

/-- A small return is applied again without a change; a fan-out without outputs too. -/
theorem reapply_smallReturn_unchanged : Unchanged returnedOnce.core returnedTwice.core ∧
    Unchanged Db.initial.core ((applySpendFanoutSummary payoutEnv payout.tx (name "x") 0).final
      .initial ⟨{}, []⟩).core := by
  have hFirst : smallReturn.reached smallReturnEnv victimKnown = some smallReturn.flat.length := by
    decide +kernel
  have hSecond : smallReturn.reached smallReturnEnv returnedOnce = some smallReturn.flat.length := by
    decide +kernel
  have hKnown : ∀ e ∈ smallReturn.flat, e.direction = .outFromHacker →
      e.amountSats < smallReturn.minExpandSats ∧
        isVictimOf returnedOnce.edges smallReturn.hackers e.toAddress = true := by decide +kernel
  exact ⟨((reapply_unchanged_iff _).1 _ _ _ (applied_whole hFirst) (chunks_whole hSecond)).mpr hKnown,
    ((reapply_unchanged_iff _).2 _ _ _ _ _ rfl).mpr (by decide)⟩

end Bloodhound.Graph
