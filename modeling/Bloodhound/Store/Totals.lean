import Bloodhound.Store.Core

/-!
# Totals of the core

How the lists of statements of `Core.lean` move the inbound total of one address, the
received total of one hacker and the totals of the scheduler row.

* `inboundAt_replay`: from a state where the address has a row, the inbound total moves by
  the sum of what the statements add to it.
* `inboundSum_batchStmts`: what a batch adds to an address is the sum of the differences of
  its rows into that address, sub-batch by sub-batch.
* `totalOut_replay_batchStmts`: the batch adds the amounts of all its outgoing rows to the
  total of the scheduler row.
-/

namespace Bloodhound.Store

open Journal

/-! ## Rows of `addresses` after a statement -/

theorem lookup_upsert (data : AddressUpsertData) (t : Table.Rows Address AddressRow)
    (a : Address) : ((AddressStmt.upsert data).exec t).lookup a =
      if a = data.address then some ((t.lookup a).elim data.inserted data.updated)
      else t.lookup a := by
  unfold AddressStmt.exec
  rw [Table.lookup_insert_if]
  split
  · next h => rw [h]
  · rfl

/-- A statement of the kinds that tracing executes: upserts of addresses and edges, and
additions to totals. -/
inductive Core.Tracing : Core → Prop
  | upsert (data : AddressUpsertData) : Core.Tracing (.address (.upsert data))
  | addInbound (a : Address) (d : Int) : Core.Tracing (.address (.addInboundSats a d))
  | addReceived (a : Address) (d : Int) : Core.Tracing (.address (.addTotalReceivedSats a d))
  | edge (data : EdgeUpsertData) : Core.Tracing (.edge (.upsert data))
  | totals (a b : Int) : Core.Tracing (.totals a b)

/-! ## Inbound totals -/

/-- The inbound total of an address, zero without a row. -/
def CoreView.inboundAt (v : CoreView) (x : Address) : Int :=
  ((v.addresses.lookup x).map (·.inboundSats)).getD 0

/-- The address has a row. -/
def CoreView.Has (v : CoreView) (x : Address) : Prop := (v.addresses.lookup x).isSome

/-- What a statement adds to the inbound total of an address. -/
def Core.inboundDelta (x : Address) : Core → Int
  | .address (.addInboundSats a d) => if a = x then d else 0
  | _ => 0

def inboundSum (x : Address) (stmts : List Core) : Int :=
  (stmts.map (Core.inboundDelta x)).sum

@[simp] theorem inboundSum_nil (x : Address) : inboundSum x [] = 0 := rfl

@[simp] theorem inboundSum_append (x : Address) (l l' : List Core) :
    inboundSum x (l ++ l') = inboundSum x l + inboundSum x l' := by
  simp [inboundSum]

@[simp] theorem inboundSum_cons (x : Address) (i : Core) (l : List Core) :
    inboundSum x (i :: l) = i.inboundDelta x + inboundSum x l := by
  simp [inboundSum]

theorem has_exec {i : Core} (hi : i.Tracing) {v : CoreView} {x : Address} (h : v.Has x) :
    (exec i v).Has x := by
  unfold CoreView.Has at *
  cases hi with
  | upsert data =>
    show (((AddressStmt.upsert data).exec v.addresses).lookup x).isSome
    rw [lookup_upsert]
    split
    · rfl
    · exact h
  | addInbound a d =>
    show ((Table.modify _ _ v.addresses).lookup x).isSome
    rw [Table.lookup_modify]
    split
    · rw [Option.isSome_map]
      exact h
    · exact h
  | addReceived a d =>
    show ((Table.modify _ _ v.addresses).lookup x).isSome
    rw [Table.lookup_modify]
    split
    · rw [Option.isSome_map]
      exact h
    · exact h
  | edge => exact h
  | totals => exact h

theorem has_replay {stmts : List Core} (hs : ∀ i ∈ stmts, i.Tracing) {v : CoreView} {x : Address}
    (h : v.Has x) : (replay stmts v).Has x :=
  replay_inv (P := fun v => v.Has x) (fun i hi _ hv => has_exec (hs i hi) hv) h

theorem has_upsertStmts {rows : List AddressUpsertData} {data : AddressUpsertData}
    (hd : data ∈ rows) (v : CoreView) : (replay (upsertStmts rows) v).Has data.address := by
  induction rows generalizing v with
  | nil => cases hd
  | cons row rows ih =>
    rcases List.mem_cons.mp hd with rfl | hd
    · refine has_replay (v := exec (Core.address (.upsert data)) v) ?_ ?_
      · intro i hi
        obtain ⟨d, _, rfl⟩ := List.mem_map.mp hi
        exact .upsert d
      · show (((AddressStmt.upsert data).exec v.addresses).lookup data.address).isSome
        rw [lookup_upsert, if_pos rfl]
        rfl
    · exact ih hd _

/-- One statement moves the inbound total by what it adds, where the address has a row. -/
theorem inboundAt_exec {i : Core} (hi : i.Tracing) (v : CoreView) (x : Address) :
    (exec i v).inboundAt x = v.inboundAt x + if (v.addresses.lookup x).isSome then i.inboundDelta x else 0 := by
  unfold CoreView.inboundAt
  cases hi with
  | upsert data =>
    show (((((AddressStmt.upsert data).exec v.addresses).lookup x).map _).getD 0) = _
    rw [lookup_upsert]
    by_cases hx : x = data.address
    · rw [if_pos hx]
      cases v.addresses.lookup x <;> simp [AddressUpsertData.inserted, AddressUpsertData.updated,
        Core.inboundDelta]
    · simp [hx, Core.inboundDelta]
  | addInbound a d =>
    show ((((Table.modify _ _ v.addresses).lookup x).map _).getD 0) = _
    rw [Table.lookup_modify]
    by_cases hx : x = a
    · subst hx
      cases v.addresses.lookup x <;> simp [Core.inboundDelta]
    · have hx' : ¬ a = x := fun h => hx h.symm
      simp [hx, hx', Core.inboundDelta]
  | addReceived a d =>
    show ((((Table.modify _ _ v.addresses).lookup x).map _).getD 0) = _
    rw [Table.lookup_modify]
    by_cases hx : x = a
    · subst hx
      cases v.addresses.lookup x <;> simp [Core.inboundDelta]
    · simp [hx, Core.inboundDelta]
  | edge => simp [Core.inboundDelta, exec, Core.exec]
  | totals => simp [Core.inboundDelta, exec, Core.exec]

theorem inboundAt_replay {stmts : List Core} (hs : ∀ i ∈ stmts, i.Tracing) {v : CoreView}
    {x : Address} (h : v.Has x) :
    (replay stmts v).inboundAt x = v.inboundAt x + inboundSum x stmts := by
  induction stmts generalizing v with
  | nil => simp
  | cons i stmts ih =>
    have hi := hs i List.mem_cons_self
    rw [replay_cons, ih (fun j hj => hs j (List.mem_cons_of_mem _ hj)) (has_exec hi h),
      inboundAt_exec hi, inboundSum_cons]
    unfold CoreView.Has at h
    rw [if_pos h, add_assoc]

/-- Statements that add nothing to an address leave its inbound total. -/
theorem inboundAt_replay_of_zero {stmts : List Core} (hs : ∀ i ∈ stmts, i.Tracing)
    {x : Address} (h : ∀ i ∈ stmts, i.inboundDelta x = 0) (v : CoreView) :
    (replay stmts v).inboundAt x = v.inboundAt x := by
  induction stmts generalizing v with
  | nil => rfl
  | cons i stmts ih =>
    rw [replay_cons, ih (fun j hj => hs j (List.mem_cons_of_mem _ hj))
      (fun j hj => h j (List.mem_cons_of_mem _ hj)), inboundAt_exec (hs i List.mem_cons_self),
      h i List.mem_cons_self]
    simp

/-! ## What the lists add -/

theorem tracing_upsertStmts {rows : List AddressUpsertData} : ∀ i ∈ upsertStmts rows, i.Tracing := by
  intro i hi
  obtain ⟨data, _, rfl⟩ := List.mem_map.mp hi
  exact .upsert data

theorem tracing_inboundStmts {credits : List (Address × Int)} :
    ∀ i ∈ credits.flatMap inboundStmts, i.Tracing := by
  intro i hi
  obtain ⟨e, _, he⟩ := List.mem_flatMap.mp hi
  rw [eq_of_mem_inboundStmts he]
  exact .addInbound _ _

theorem tracing_chunkStmts {chunk : List EdgeUpsertData} {t : Table.Rows EdgeKey EdgeRow} :
    ∀ i ∈ chunkStmts chunk t, i.Tracing := by
  intro i hi
  rcases List.mem_append.mp hi with hi | hi
  · obtain ⟨data, _, rfl⟩ := List.mem_map.mp hi
    exact .edge data
  · rcases mem_deltaStmts hi with ⟨a, d, rfl⟩ | ⟨a, d, rfl⟩
    · exact .addReceived a d
    · exact .addInbound a d

theorem tracing_chunksStmts {chunks : List (List EdgeUpsertData)}
    {t : Table.Rows EdgeKey EdgeRow} : ∀ i ∈ chunksStmts chunks t, i.Tracing := by
  induction chunks generalizing t with
  | nil =>
    intro i hi
    cases hi
  | cons chunk rest ih =>
    intro i hi
    rcases List.mem_append.mp hi with hi | hi
    · exact tracing_chunkStmts i hi
    · exact ih i hi

theorem mem_chunksStmts_edge {chunks : List (List EdgeUpsertData)}
    {edges : Table.Rows EdgeKey EdgeRow} {i : Core} (h : i ∈ chunksStmts chunks edges) :
    (∃ row ∈ chunks.flatten, i = .edge (.upsert row)) ∨
      (∃ a d, i = .address (.addTotalReceivedSats a d)) ∨ ∃ a d, i = .address (.addInboundSats a d) := by
  induction chunks generalizing edges with
  | nil => cases h
  | cons chunk rest ih =>
    rcases List.mem_append.mp h with h | h
    · rcases List.mem_append.mp h with h | h
      · obtain ⟨row, hr, rfl⟩ := List.mem_map.mp h
        exact Or.inl ⟨row, List.mem_append_left _ hr, rfl⟩
      · exact Or.inr (mem_deltaStmts h)
    · rcases ih h with ⟨row, hr, rfl⟩ | h
      · exact Or.inl ⟨row, List.mem_append_right _ hr, rfl⟩
      · exact Or.inr h

@[simp] theorem inboundSum_upsertStmts (x : Address) (rows : List AddressUpsertData) :
    inboundSum x (upsertStmts rows) = 0 := by
  induction rows with
  | nil => rfl
  | cons data rows ih => simpa [upsertStmts, Core.inboundDelta] using ih

@[simp] theorem inboundSum_edgeStmts (x : Address) (rows : List EdgeUpsertData) :
    inboundSum x (edgeStmts rows) = 0 := by
  induction rows with
  | nil => rfl
  | cons data rows ih => simpa [edgeStmts, Core.inboundDelta] using ih

@[simp] theorem inboundSum_inboundStmts (x : Address) (credits : List (Address × Int)) :
    inboundSum x (credits.flatMap inboundStmts) = Tally.total x credits := by
  induction credits with
  | nil => rfl
  | cons e credits ih =>
    rw [List.flatMap_cons, inboundSum_append, ih, Tally.total_cons]
    unfold inboundStmts
    by_cases h : e.2 = 0 <;> simp [h, Core.inboundDelta]

@[simp] theorem inboundSum_receivedStmts (x : Address) (credits : List (Address × Int)) :
    inboundSum x (credits.flatMap receivedStmts) = 0 := by
  induction credits with
  | nil => rfl
  | cons e credits ih =>
    rw [List.flatMap_cons, inboundSum_append, ih]
    unfold receivedStmts
    by_cases h : e.2 = 0 <;> simp [h, Core.inboundDelta]

@[simp] theorem inboundSum_totalsStmts (x : Address) (a b : Int) :
    inboundSum x (totalsStmts a b) = 0 := by
  unfold totalsStmts
  split <;> simp [Core.inboundDelta]

theorem inboundSum_eq_zero {stmts : List Core} {x : Address}
    (h : ∀ i ∈ stmts, i.inboundDelta x = 0) : inboundSum x stmts = 0 :=
  List.sum_eq_zero fun d hd => by
    obtain ⟨i, hi, rfl⟩ := List.mem_map.mp hd
    exact h i hi

/-- Upserts followed by additions to addresses that they have made sure of: every address moves
by what is added to it. -/
theorem inboundAt_replay_upserts {rows : List AddressUpsertData} {stmts : List Core}
    (hs : ∀ i ∈ stmts, i.Tracing) {x : Address}
    (h : x ∉ rows.map (·.address) → ∀ i ∈ stmts, i.inboundDelta x = 0) (v : CoreView) :
    (replay (upsertStmts rows ++ stmts) v).inboundAt x = v.inboundAt x + inboundSum x stmts := by
  have hUp : (replay (upsertStmts rows) v).inboundAt x = v.inboundAt x := by
    refine inboundAt_replay_of_zero tracing_upsertStmts (fun i hi => ?_) v
    obtain ⟨data, _, rfl⟩ := List.mem_map.mp hi
    rfl
  rw [replay_append]
  by_cases hx : x ∈ rows.map (·.address)
  · obtain ⟨data, hd, rfl⟩ := List.mem_map.mp hx
    rw [inboundAt_replay hs (has_upsertStmts hd v), hUp]
  · rw [inboundAt_replay_of_zero hs (h hx), hUp, inboundSum_eq_zero (h hx), add_zero]

/-- The differences of the rows into an address. -/
def deltaInto (old : EdgeKey → Option Int) (rows : List EdgeUpsertData) (x : Address) : Int :=
  Tally.total x (rows.map fun row => (row.toAddress, row.delta old))

theorem total_deltaByTarget (old : EdgeKey → Option Int) (rows : List EdgeUpsertData)
    (x : Address) : Tally.total x (deltaByTarget old rows) = deltaInto old rows x := by
  unfold deltaByTarget deltaInto
  rw [Tally.total_tally]
  induction rows with
  | nil => rfl
  | cons row rows ih =>
    rw [List.map_cons, List.filter_cons, Tally.total_cons, ← ih]
    by_cases h : row.delta old = 0
    · simp [h]
    · simp [h, Tally.total_cons]

theorem inboundSum_deltaStmts (x : Address) (old : EdgeKey → Option Int)
    (chunk : List EdgeUpsertData) :
    inboundSum x (deltaStmts old chunk) = deltaInto old (outRows chunk) x := by
  unfold deltaStmts
  rw [inboundSum_append, inboundSum_receivedStmts, inboundSum_inboundStmts, zero_add,
    total_deltaByTarget]

/-- What consecutive sub-batches add to the inbound total of an address. -/
def chunksInbound : List (List EdgeUpsertData) → Table.Rows EdgeKey EdgeRow → Address → Int
  | [], _, _ => 0
  | chunk :: rest, t, x =>
    deltaInto (storedAmounts chunk t) (outRows chunk) x + chunksInbound rest (upsertedEdges chunk t) x

theorem inboundSum_chunksStmts (x : Address) (chunks : List (List EdgeUpsertData))
    (t : Table.Rows EdgeKey EdgeRow) :
    inboundSum x (chunksStmts chunks t) = chunksInbound chunks t x := by
  induction chunks generalizing t with
  | nil => rfl
  | cons chunk rest ih =>
    rw [chunksStmts, inboundSum_append, ih, chunksInbound]
    unfold chunkStmts
    rw [inboundSum_append, inboundSum_edgeStmts, inboundSum_deltaStmts, zero_add]

theorem inboundSum_batchStmts (env : Env) (x : Address) (rows : List EdgeUpsertData)
    (t : Table.Rows EdgeKey EdgeRow) :
    inboundSum x (batchStmts env rows t) = chunksInbound (chunkArray env.store.d1BatchSize rows) t x := by
  unfold batchStmts
  rw [inboundSum_append, inboundSum_totalsStmts, inboundSum_chunksStmts, add_zero]

/-! ## Totals of the scheduler row -/

/-- Statements on addresses and edges leave the totals. -/
theorem totals_replay_of_noTotals {stmts : List Core} (h : ∀ i ∈ stmts, ∀ a b, i ≠ .totals a b)
    (v : CoreView) : (replay stmts v).totalInSats = v.totalInSats ∧
      (replay stmts v).totalOutSats = v.totalOutSats := by
  have hStep : ∀ i ∈ stmts, ∀ s : CoreView,
      ((exec i s).totalInSats, (exec i s).totalOutSats) = (s.totalInSats, s.totalOutSats) := by
    intro i hi s
    cases i with
    | totals a b => exact absurd rfl (h _ hi a b)
    | _ => rfl
  exact Prod.mk.inj (replay_frame (f := fun v : CoreView => (v.totalInSats, v.totalOutSats)) hStep v)

theorem noTotals_upsertStmts {rows : List AddressUpsertData} :
    ∀ i ∈ upsertStmts rows, ∀ a b, i ≠ .totals a b := by
  intro i hi a b h
  obtain ⟨data, _, rfl⟩ := List.mem_map.mp hi
  cases h

theorem noTotals_inboundStmts {credits : List (Address × Int)} :
    ∀ i ∈ credits.flatMap inboundStmts, ∀ a b, i ≠ .totals a b := by
  intro i hi a b h
  obtain ⟨e, _, he⟩ := List.mem_flatMap.mp hi
  rw [eq_of_mem_inboundStmts he] at h
  cases h

theorem noTotals_chunksStmts {chunks : List (List EdgeUpsertData)}
    {t : Table.Rows EdgeKey EdgeRow} : ∀ i ∈ chunksStmts chunks t, ∀ a b, i ≠ .totals a b := by
  induction chunks generalizing t with
  | nil =>
    intro i hi
    cases hi
  | cons chunk rest ih =>
    intro i hi a b h
    rcases List.mem_append.mp hi with hi | hi
    · rcases List.mem_append.mp hi with hi | hi
      · obtain ⟨data, _, rfl⟩ := List.mem_map.mp hi
        cases h
      · rcases mem_deltaStmts hi with ⟨_, _, rfl⟩ | ⟨_, _, rfl⟩ <;> cases h
    · exact ih i hi a b h

theorem totals_replay_totalsStmts (a b : Int) (v : CoreView) :
    (replay (totalsStmts a b) v).totalInSats =
        (if a = 0 ∧ b = 0 then v.totalInSats else max 0 (v.totalInSats + a)) ∧
      (replay (totalsStmts a b) v).totalOutSats =
        if a = 0 ∧ b = 0 then v.totalOutSats else max 0 (v.totalOutSats + b) := by
  unfold totalsStmts
  split
  · exact ⟨rfl, rfl⟩
  · exact ⟨rfl, rfl⟩

theorem totals_replay_batchStmts (env : Env) (rows : List EdgeUpsertData)
    (t : Table.Rows EdgeKey EdgeRow) (v : CoreView) :
    let din := chunksIn (chunkArray env.store.d1BatchSize rows) t
    let dout := chunkOut rows
    (replay (batchStmts env rows t) v).totalInSats =
        (if din = 0 ∧ dout = 0 then v.totalInSats else max 0 (v.totalInSats + din)) ∧
      (replay (batchStmts env rows t) v).totalOutSats =
        if din = 0 ∧ dout = 0 then v.totalOutSats else max 0 (v.totalOutSats + dout) := by
  dsimp only
  unfold batchStmts
  rw [replay_append]
  have hTotals := totals_replay_totalsStmts (chunksIn (chunkArray env.store.d1BatchSize rows) t)
    (chunkOut rows) (replay (chunksStmts (chunkArray env.store.d1BatchSize rows) t) v)
  have hNone : ∀ i ∈ chunksStmts (chunkArray env.store.d1BatchSize rows) t, ∀ a b,
      i ≠ .totals a b := noTotals_chunksStmts
  have hSame := totals_replay_of_noTotals hNone v
  rw [hSame.1, hSame.2] at hTotals
  exact hTotals

end Bloodhound.Store
