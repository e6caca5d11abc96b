import Bloodhound.Store.Totals
import Bloodhound.Graph.Trace

/-!
# What a trace writes

The statements on the core that applying a range of a trace executes, as a function of the
core before it. The reads that classify the outputs all come before the first statement of
the range, so they see the core as it is when the range starts.
-/

namespace Bloodhound.Graph

open Bloodhound.Chain Bloodhound.Store Bloodhound.Indexer
open Journal Journal.Op

/-- `getDownstreamExpandContext` for an address. -/
def expandContext (addresses : Table.Rows Address AddressRow) (a : Address) : Option ExpandContext :=
  (addresses.lookup a).map fun row => ⟨row.expandStatus, row.inboundSats⟩

/-- The statements of a range. -/
def sliceStmts (env : Env) (applyMeta : HackTraceApplyMeta) (opts : HackTraceApplyChunkOptions)
    (slice : List HackTraceEdgeDraft) (v : CoreView) : List Core :=
  let victimTargets := isVictimOf v.edges opts.flaggedHackers
  upsertStmts (downstreamRows victimTargets (expandContext v.addresses) opts.minExpandSats slice) ++
    ((skippedInbound opts victimTargets slice).flatMap inboundStmts ++
      batchStmts env (edgeRows opts applyMeta victimTargets slice) v.edges)

/-- The statements for the victims of a trace, in its first range. -/
def victimStmts (input : HackTraceApplyInput) (opts : HackTraceApplyChunkOptions) : List Core :=
  if opts.startEdgeIndex = 0 then
    upsertStmts ((qualifyingVictims input opts.minVictimIngestSats).map victimRow)
  else []

/-- The slice of the list that a chunk applies. -/
def chunkSlice (input : HackTraceApplyInput) (opts : HackTraceApplyChunkOptions) :
    List HackTraceEdgeDraft :=
  (input.flat.take (chunkEnd opts input.flat.length)).drop opts.startEdgeIndex

/-- The core after applying a chunk. -/
def applyChunk (env : Env) (applyMeta : HackTraceApplyMeta) (input : HackTraceApplyInput)
    (opts : HackTraceApplyChunkOptions) (v : CoreView) : CoreView :=
  let v' := replay (victimStmts input opts) v
  replay (sliceStmts env applyMeta opts (chunkSlice input opts) v') v'

/-! ## Classification only looks at the targets of the range -/

section Congr

variable {victim victim' : Address → Bool} {slice : List HackTraceEdgeDraft}

/-- The two classifications agree on the outputs of the range. -/
def AgreeOn (slice : List HackTraceEdgeDraft) (victim victim' : Address → Bool) : Prop :=
  ∀ e ∈ slice, e.direction = .outFromHacker → victim e.toAddress = victim' e.toAddress

theorem AgreeOn.isDownstreamEdge (h : AgreeOn slice victim victim') {e : HackTraceEdgeDraft}
    (he : e ∈ slice) : Graph.isDownstreamEdge victim e = Graph.isDownstreamEdge victim' e := by
  unfold Graph.isDownstreamEdge
  by_cases hd : e.direction = .outFromHacker
  · rw [h e he hd]
  · simp [hd]

theorem AgreeOn.isVictimReturn (h : AgreeOn slice victim victim') {e : HackTraceEdgeDraft}
    (he : e ∈ slice) : Graph.isVictimReturn victim e = Graph.isVictimReturn victim' e := by
  unfold Graph.isVictimReturn
  by_cases hd : e.direction = .outFromHacker
  · rw [h e he hd]
  · simp [hd]

theorem AgreeOn.downstreamAmounts (h : AgreeOn slice victim victim') :
    Graph.downstreamAmounts victim slice = Graph.downstreamAmounts victim' slice := by
  unfold Graph.downstreamAmounts
  rw [List.filter_congr fun e he => h.isDownstreamEdge he]

theorem AgreeOn.downstreamRows (h : AgreeOn slice victim victim')
    (context context' : Address → Option ExpandContext) (floor : Int)
    (hc : ∀ a ∈ (Graph.downstreamAmounts victim slice).map Prod.fst, context a = context' a) :
    Graph.downstreamRows victim context floor slice =
      Graph.downstreamRows victim' context' floor slice := by
  unfold Graph.downstreamRows
  rw [h.downstreamAmounts, List.filter_congr fun e he => h.isDownstreamEdge he]
  refine List.map_congr_left fun e he => ?_
  have hMem : e.toAddress ∈ (Graph.downstreamAmounts victim slice).map Prod.fst := by
    rw [h.downstreamAmounts]
    exact List.mem_map.mpr ⟨_, List.mem_map.mpr ⟨e, he, rfl⟩, rfl⟩
  unfold downstreamRow
  rw [hc _ hMem]

theorem AgreeOn.mono (h : AgreeOn slice victim victim') {slice' : List HackTraceEdgeDraft}
    (hs : ∀ e ∈ slice', e ∈ slice) : AgreeOn slice' victim victim' :=
  fun e he hd => h e (hs e he) hd

theorem AgreeOn.skippedInbound (h : AgreeOn slice victim victim')
    (opts : HackTraceApplyChunkOptions) :
    Graph.skippedInbound opts victim slice = Graph.skippedInbound opts victim' slice := by
  unfold Graph.skippedInbound
  rw [(h.mono fun e he => List.mem_of_mem_filter he).downstreamAmounts]

theorem AgreeOn.edgeRows (h : AgreeOn slice victim victim') (opts : HackTraceApplyChunkOptions)
    (applyMeta : HackTraceApplyMeta) :
    Graph.edgeRows opts applyMeta victim slice = Graph.edgeRows opts applyMeta victim' slice := by
  unfold Graph.edgeRows
  refine List.map_congr_left fun e he => ?_
  unfold edgeRow
  rw [h.isVictimReturn (List.mem_of_mem_filter he)]

end Congr

/-! ## The runs -/

theorem writes_upsertVictims (env : Env) (input : HackTraceApplyInput)
    (opts : HackTraceApplyChunkOptions) :
    (upsertVictims env input opts).Writes Stmt.core? (victimStmts input opts) := by
  unfold upsertVictims when victimStmts
  by_cases h : opts.startEdgeIndex = 0
  · rw [if_pos h]
    split
    · exact (writes_of_quiet (emits_query _)).bind_right fun _ => writes_upsertAddressesBatch env _
    · next hv =>
      have hNil : input.victimAddresses = [] := by
        by_contra hne
        exact hv ⟨h, hne⟩
      unfold qualifyingVictims
      rw [hNil]
      exact writes_of_quiet (emits_pure ())
  · rw [if_neg h, if_neg (fun hc => h hc.1)]
    exact writes_of_quiet (emits_pure ())

theorem batchStmts_nil (env : Env) (t : Table.Rows EdgeKey EdgeRow) : batchStmts env [] t = [] := rfl

theorem edges_replay_upsertStmts (rows : List AddressUpsertData) (v : CoreView) :
    (replay (upsertStmts rows) v).edges = v.edges := by
  refine edges_replay_of_noEdge (fun i hi s his => ?_) v
  obtain ⟨data, _, rfl⟩ := List.mem_map.mp hi
  cases his

theorem edges_replay_inboundStmts (credits : List (Address × Int)) (v : CoreView) :
    (replay (credits.flatMap inboundStmts) v).edges = v.edges := by
  refine edges_replay_of_noEdge (fun i hi s his => ?_) v
  obtain ⟨e, _, he⟩ := List.mem_flatMap.mp hi
  unfold inboundStmts at he
  split at he
  · cases he
  · rw [List.mem_singleton.mp he] at his
    cases his

theorem writesAt_writeSlice (env : Env) (applyMeta : HackTraceApplyMeta)
    (opts : HackTraceApplyChunkOptions) (victimTargets : Address → Bool)
    (context : Address → Option ExpandContext) (slice : List HackTraceEdgeDraft) (db : Db) :
    (writeSlice env applyMeta opts victimTargets context slice).WritesAt Stmt.core? db
      (upsertStmts (downstreamRows victimTargets context opts.minExpandSats slice) ++
        ((skippedInbound opts victimTargets slice).flatMap inboundStmts ++
          batchStmts env (edgeRows opts applyMeta victimTargets slice) db.edges)) := by
  have hTail : ∀ l, (findRootHackersForSpenders l).Writes Stmt.core? [] := fun l =>
    writes_of_quiet (emits_when fun _ => emits_query _)
  refine WritesAt.query_bind ?_
  refine (writes_upsertAddressesBatch env _ db).bind fun c₁ _ h₁ => ?_
  have hEdges₁ := congrArg CoreView.edges (core_final (writes_upsertAddressesBatch env _ db) h₁)
  rw [edges_replay_upsertStmts] at hEdges₁
  have hSkipped := writes_forEach (π := Stmt.core?) fun e (_ : e ∈ skippedInbound opts victimTargets slice) =>
    writes_applyInboundSatsDelta e.1 e.2
  refine (hSkipped _).bind fun c₂ _ h₂ => ?_
  have hEdges₂ := congrArg CoreView.edges (core_final (hSkipped _) h₂)
  rw [show (fun a : Address × Int => inboundStmts (a.1, a.2)) = inboundStmts from rfl,
    edges_replay_inboundStmts] at hEdges₂
  have hBatch : ∀ db' : Db, db'.edges = db.edges →
      (when (edgeRows opts applyMeta victimTargets slice ≠ []) (do
        getExistingInToHackerEdgeKeys (inRows (edgeRows opts applyMeta victimTargets slice))
        upsertEdgesBatch env (edgeRows opts applyMeta victimTargets slice))).WritesAt Stmt.core? db'
        (batchStmts env (edgeRows opts applyMeta victimTargets slice) db.edges) := by
    intro db' hdb'
    unfold when
    split
    · have hKeys : (getExistingInToHackerEdgeKeys
          (inRows (edgeRows opts applyMeta victimTargets slice))).Emits fun _ => False :=
        emits_when fun _ => emits_query _
      refine ((writes_of_quiet (hKeys.mono fun _ h => h.elim)) db').bind fun c₃ _ _ => ?_
      have hSame := hKeys.frame (f := Db.edges) (fun _ h => h.elim) db' c₃
      rw [← hdb', ← hSame]
      exact writesAt_upsertEdgesBatch env _ _
    · next h =>
      rw [not_not.mp h, batchStmts_nil]
      exact writes_of_quiet (emits_pure ()) db'
  rw [← List.append_nil (batchStmts env (edgeRows opts applyMeta victimTargets slice) db.edges)]
  exact (hBatch _ (hEdges₂.trans hEdges₁)).bind fun _ _ _ => hTail _ _

theorem writesAt_applySlice (env : Env) (applyMeta : HackTraceApplyMeta)
    (opts : HackTraceApplyChunkOptions) (slice : List HackTraceEdgeDraft) (db : Db) :
    (applySlice env applyMeta opts slice).WritesAt Stmt.core? db
      (sliceStmts env applyMeta opts slice db.core) := by
  refine WritesAt.query_bind (WritesAt.query_bind ?_)
  have hAgree : AgreeOn slice (isVictimOf db.edges opts.flaggedHackers) (fun a =>
      a ∈ (slice.filter (·.direction = .outFromHacker)).map (·.toAddress) &&
        isVictimOf db.edges opts.flaggedHackers a) := by
    intro e he hd
    have hMem : e.toAddress ∈ (slice.filter (·.direction = .outFromHacker)).map (·.toAddress) :=
      List.mem_map.mpr ⟨e, List.mem_filter.mpr ⟨he, by simp [hd]⟩, rfl⟩
    simp only [hMem, decide_true, Bool.true_and]
  have hDown := hAgree.downstreamRows (expandContext db.addresses)
    (fun a => if a ∈ (downstreamAmounts _ slice).map Prod.fst then
      (db.addresses.lookup a).map fun row => ⟨row.expandStatus, row.inboundSats⟩ else none)
    opts.minExpandSats (fun a ha => by
      rw [hAgree.downstreamAmounts] at ha
      rw [if_pos ha]
      rfl)
  unfold sliceStmts
  simp only [Db.core]
  rw [hAgree.skippedInbound, hAgree.edgeRows, hDown]
  exact writesAt_writeSlice _ _ _ _ _ _ _

/-- The statements of a chunk. -/
def chunkCoreStmts (env : Env) (applyMeta : HackTraceApplyMeta) (input : HackTraceApplyInput)
    (opts : HackTraceApplyChunkOptions) (v : CoreView) : List Core :=
  victimStmts input opts ++
    sliceStmts env applyMeta opts (chunkSlice input opts) (replay (victimStmts input opts) v)

theorem replay_chunkCoreStmts (env : Env) (applyMeta : HackTraceApplyMeta)
    (input : HackTraceApplyInput) (opts : HackTraceApplyChunkOptions) (v : CoreView) :
    replay (chunkCoreStmts env applyMeta input opts v) v = applyChunk env applyMeta input opts v := by
  unfold chunkCoreStmts
  rw [replay_append]
  rfl

theorem writesAt_applyRange (env : Env) (applyMeta : HackTraceApplyMeta)
    (input : HackTraceApplyInput) (opts : HackTraceApplyChunkOptions) (guard : CpuGuard) (db : Db) :
    (applyRange env applyMeta input opts guard).WritesAt Stmt.core? db
      (chunkCoreStmts env applyMeta input opts db.core) := by
  refine (writes_upsertVictims env input opts db).bind fun c _ h => ?_
  rw [← core_final (writes_upsertVictims env input opts db) h,
    ← List.append_nil (sliceStmts env applyMeta opts (chunkSlice input opts) _)]
  exact (writesAt_applySlice env applyMeta opts _ _).bind fun _ _ _ =>
    writes_of_quiet (emits_pure _) _

/-- Where the CPU guard has time left, a chunk is its body. -/
theorem applyHackTraceEdgesChunk_eq (env : Env) (applyMeta : HackTraceApplyMeta)
    (input : HackTraceApplyInput) (opts : HackTraceApplyChunkOptions) (db : Db)
    {c : Ctl Mem Err} (hGuard : c.mem.cpuGuard.exceeded = false) :
    applyHackTraceEdgesChunk env applyMeta input opts db c =
      applyRange env applyMeta input opts c.mem.cpuGuard db c := by
  unfold applyHackTraceEdgesChunk readCpuGuard
  rw [mem_bind]
  simp only [hGuard, Bool.false_eq_true, if_false]

/-- The core after a successful chunk that the CPU guard lets in. -/
theorem core_final_applyHackTraceEdgesChunk (env : Env) (applyMeta : HackTraceApplyMeta)
    (input : HackTraceApplyInput) (opts : HackTraceApplyChunkOptions) (db : Db)
    {c : Ctl Mem Err} (hGuard : c.mem.cpuGuard.exceeded = false)
    {a : HackTraceApplyChunkResult}
    (ha : (applyHackTraceEdgesChunk env applyMeta input opts db c).res = .ok a) :
    ((applyHackTraceEdgesChunk env applyMeta input opts).final db c).core =
      applyChunk env applyMeta input opts db.core := by
  unfold Op.final
  rw [applyHackTraceEdgesChunk_eq env applyMeta input opts db hGuard] at ha ⊢
  rw [← replay_chunkCoreStmts]
  exact core_final (writesAt_applyRange env applyMeta input opts _ db) ha

/-! ## Edges after a chunk -/

theorem edges_replay_victimStmts (input : HackTraceApplyInput) (opts : HackTraceApplyChunkOptions)
    (v : CoreView) : (replay (victimStmts input opts) v).edges = v.edges := by
  unfold victimStmts
  split
  · exact edges_replay_upsertStmts _ _
  · rfl

theorem edges_replay_batchStmts_of (env : Env) (rows : List EdgeUpsertData)
    {edges : Table.Rows EdgeKey EdgeRow} {v : CoreView} (h : v.edges = edges) :
    (replay (batchStmts env rows edges) v).edges = upsertedEdges rows edges := by
  subst h
  exact edges_replay_batchStmts env rows v

theorem edges_replay_sliceStmts (env : Env) (applyMeta : HackTraceApplyMeta)
    (opts : HackTraceApplyChunkOptions) (slice : List HackTraceEdgeDraft) (v : CoreView) :
    (replay (sliceStmts env applyMeta opts slice v) v).edges =
      upsertedEdges (edgeRows opts applyMeta (isVictimOf v.edges opts.flaggedHackers) slice)
        v.edges := by
  unfold sliceStmts
  rw [replay_append, replay_append]
  refine edges_replay_batchStmts_of env _ ?_
  rw [edges_replay_inboundStmts, edges_replay_upsertStmts]

/-- The edges after a chunk: its rows, classified by the edges before it. -/
theorem edges_applyChunk (env : Env) (applyMeta : HackTraceApplyMeta) (input : HackTraceApplyInput)
    (opts : HackTraceApplyChunkOptions) (v : CoreView) :
    (applyChunk env applyMeta input opts v).edges =
      upsertedEdges (edgeRows opts applyMeta (isVictimOf v.edges opts.flaggedHackers)
        (chunkSlice input opts)) v.edges := by
  unfold applyChunk
  rw [edges_replay_sliceStmts, edges_replay_victimStmts]

/-! ## Totals of the scheduler row after a chunk -/

/-- The total of payments out of hackers grows by the amounts of the stored outputs. -/
theorem totalOut_applyChunk (env : Env) (applyMeta : HackTraceApplyMeta)
    (input : HackTraceApplyInput) (opts : HackTraceApplyChunkOptions) (v : CoreView) :
    ∃ din : Int, (applyChunk env applyMeta input opts v).totalOutSats =
      if din = 0 ∧ chunkOut (edgeRows opts applyMeta (isVictimOf v.edges opts.flaggedHackers)
          (chunkSlice input opts)) = 0 then v.totalOutSats
      else max 0 (v.totalOutSats + chunkOut (edgeRows opts applyMeta
        (isVictimOf v.edges opts.flaggedHackers) (chunkSlice input opts))) := by
  have hVictims : (replay (victimStmts input opts) v).totalOutSats = v.totalOutSats := by
    unfold victimStmts
    split
    · exact (totals_replay_of_noTotals noTotals_upsertStmts v).2
    · rfl
  have hEdges := edges_replay_victimStmts input opts v
  unfold applyChunk sliceStmts
  dsimp only
  rw [replay_append, replay_append, (totals_replay_batchStmts env _ _ _).2,
    (totals_replay_of_noTotals noTotals_inboundStmts _).2,
    (totals_replay_of_noTotals noTotals_upsertStmts _).2, hVictims, hEdges]
  exact ⟨chunksIn (chunkArray env.store.d1BatchSize (edgeRows opts applyMeta
    (isVictimOf v.edges opts.flaggedHackers) (chunkSlice input opts))) v.edges, rfl⟩

end Bloodhound.Graph
