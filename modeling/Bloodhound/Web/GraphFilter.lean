import Bloodhound.Graph.GraphEdges
import Bloodhound.Lib.Ranking

/-!
# Trimming a loaded graph

`graphFilter.ts` of the web client: a loaded graph is cut down to stricter limits by three filters, one
after the other. The first drops the edges below the floor and the nodes without an edge, the second all
but the first victims and the targets of refunds, the third all but the first targets of the hacker and
what belongs to them.

* `filterGraphByLimits_eq`: which nodes the limits keep, in terms of the graph alone.
* `trimsConsistently_iff`: when trimming twice is the same as trimming once to the stricter limits.
-/

namespace Bloodhound.Web

open Bloodhound.Graph

/-! ## The graph of the client -/

inductive ApiNodeType where
  | hacker
  | victim
  | victimCluster
  | downstream
  | fanoutCluster
  deriving DecidableEq

/-- `ApiGraphNode`, as far as the filters read it. -/
structure ApiGraphNode where
  id : NodeId
  type : ApiNodeType
  incomingSats : Option Int := none
  deriving DecidableEq

def ids (nodes : List ApiGraphNode) : List NodeId := nodes.map (·.id)

/-- `ApiGraphResponse`; `mergeGraphPages` makes the ids of the nodes distinct. -/
structure ApiGraph where
  nodes : List ApiGraphNode
  edges : List GraphEdge
  nodup : (ids nodes).Nodup

structure GraphLoadParams where
  hacker : Address
  minEdgeSats : Int
  maxVictims : Nat
  maxDownstream : Nat
  expandVictims : Bool

/-! ## The filters -/

def filterEdgesToNodes (nodes : List ApiGraphNode) (edges : List GraphEdge) : List GraphEdge :=
  edges.filter fun e => e.source ∈ ids nodes ∧ e.target ∈ ids nodes

/-- The graph with the nodes of a predicate and the given edges between them. -/
def ApiGraph.restrict (graph : ApiGraph) (keep : ApiGraphNode → Bool) (edges : List GraphEdge) :
    ApiGraph where
  nodes := graph.nodes.filter keep
  edges := filterEdgesToNodes (graph.nodes.filter keep) edges
  nodup := graph.nodup.sublist (List.filter_sublist.map _)

def findHackerId (nodes : List ApiGraphNode) : Option NodeId :=
  (nodes.find? (·.type = .hacker)).map (·.id)

/-- An edge that reaches the floor, or has no transaction of its own. -/
def passes (minEdgeSats : Int) (e : GraphEdge) : Bool := minEdgeSats ≤ e.amount || e.txid.isNone

def touches (id : NodeId) (e : GraphEdge) : Bool := e.source = id || e.target = id

def applyMinEdgeSats (graph : ApiGraph) (minEdgeSats : Int) : ApiGraph :=
  let edges := graph.edges.filter (passes minEdgeSats)
  graph.restrict (fun n => edges.any (touches n.id)) edges

/-- The victims that sent most. -/
def topVictims (nodes : List ApiGraphNode) (maxVictims : Nat) : List ApiGraphNode :=
  Ranking.top (fun n => n.incomingSats.getD 0) maxVictims (nodes.filter (·.type = .victim))

def isRefundTo (id : NodeId) (e : GraphEdge) : Bool :=
  e.edgeKind = some (.stored .victimRefund) && e.target = id

def applyMaxVictims (graph : ApiGraph) (maxVictims : Nat) (expandVictims : Bool) : ApiGraph :=
  if expandVictims then
    graph.restrict (fun n => n.type ≠ .victim || n.id ∈ ids (topVictims graph.nodes maxVictims) ||
      graph.edges.any (isRefundTo n.id)) graph.edges
  else graph

def typeOf (nodes : List ApiGraphNode) (id : NodeId) : Option ApiNodeType :=
  (nodes.find? (·.id = id)).map (·.type)

/-- The largest edges of the hacker to downstream nodes. -/
def l1Edges (graph : ApiGraph) (hackerId : NodeId) (maxDownstream : Nat) : List GraphEdge :=
  Ranking.top GraphEdge.amount maxDownstream (graph.edges.filter fun e =>
    e.source = hackerId && e.target ≠ hackerId && typeOf graph.nodes e.target = some .downstream)

def keptL1 (graph : ApiGraph) (hackerId : NodeId) (maxDownstream : Nat) : List NodeId :=
  (l1Edges graph hackerId maxDownstream).map (·.target)

/-- The parent that the id of a cluster of outputs names. -/
def fanoutParent? : NodeId → Option NodeId
  | .fanout parent => some (.address parent)
  | _ => none

/-- `keepNodeIds` before the clusters of kept parents are added to it. -/
def keepParentIds (graph : ApiGraph) (hackerId : NodeId) (maxDownstream : Nat) : List NodeId :=
  let kept := keptL1 graph hackerId maxDownstream
  hackerId :: ids (graph.nodes.filter fun n => n.type = .victim || n.type = .victimCluster) ++ kept ++
    (graph.edges.filter fun e => e.source ∈ kept && (typeOf graph.nodes e.target = some .downstream ||
      typeOf graph.nodes e.target = some .fanoutCluster)).map (·.target)

/-- A parent is an address, so the clusters that are added make no other parent kept. -/
def keepNodeIds (graph : ApiGraph) (hackerId : NodeId) (maxDownstream : Nat) : List NodeId :=
  let kept := keepParentIds graph hackerId maxDownstream
  kept ++ ids (graph.nodes.filter fun n =>
    n.type = .fanoutCluster && (fanoutParent? n.id).any (· ∈ kept))

def applyMaxDownstream (graph : ApiGraph) (maxDownstream : Nat) : ApiGraph :=
  match findHackerId graph.nodes with
  | none => graph
  | some hackerId =>
    let keepIds := keepNodeIds graph hackerId maxDownstream
    graph.restrict (·.id ∈ keepIds) (graph.edges.filter fun e => e.source ∈ keepIds && e.target ∈ keepIds)

def filterGraphByLimits (graph : ApiGraph) (params : GraphLoadParams) : ApiGraph :=
  applyMaxDownstream
    (applyMaxVictims (applyMinEdgeSats graph params.minEdgeSats) params.maxVictims params.expandVictims)
    params.maxDownstream

/-- The limits of `canTrimLocally`, equality included. -/
structure AtLeastAsStrict (old new : GraphLoadParams) : Prop where
  hacker : old.hacker = new.hacker
  expandVictims : old.expandVictims = new.expandVictims
  minEdgeSats : old.minEdgeSats ≤ new.minEdgeSats
  maxVictims : new.maxVictims ≤ old.maxVictims
  maxDownstream : new.maxDownstream ≤ old.maxDownstream

/-! ## Restrictions -/

section Restrict

variable {graph : ApiGraph} {keep keep' : ApiGraphNode → Bool} {edges : List GraphEdge}
  {n : ApiGraphNode} {e : GraphEdge}

theorem mem_ids {nodes : List ApiGraphNode} {id : NodeId} : id ∈ ids nodes ↔ ∃ n ∈ nodes, n.id = id :=
  List.mem_map

theorem ApiGraph.ext {g g' : ApiGraph} (hNodes : g.nodes = g'.nodes) (hEdges : g.edges = g'.edges) :
    g = g' := by
  cases g
  cases g'
  cases hNodes
  cases hEdges
  rfl

/-- The id determines the node. -/
theorem ApiGraph.eq_of_id (graph : ApiGraph) {n n' : ApiGraphNode} (hn : n ∈ graph.nodes)
    (hn' : n' ∈ graph.nodes) (h : n.id = n'.id) : n = n' :=
  List.inj_on_of_nodup_map graph.nodup hn hn' h

theorem mem_ids_filter (hn : n ∈ graph.nodes) :
    n.id ∈ ids (graph.nodes.filter keep) ↔ keep n = true := by
  rw [mem_ids]
  constructor
  · rintro ⟨n', hn', hId⟩
    obtain ⟨hMem, hKeep⟩ := List.mem_filter.mp hn'
    rwa [graph.eq_of_id hn hMem hId.symm]
  · exact fun hKeep => ⟨n, List.mem_filter.mpr ⟨hn, hKeep⟩, rfl⟩

theorem ids_filter_subset {nodes : List ApiGraphNode} {id : NodeId}
    (h : id ∈ ids (nodes.filter keep)) : id ∈ ids nodes :=
  (List.filter_sublist.map _).subset h

theorem mem_filterEdgesToNodes {nodes : List ApiGraphNode} :
    e ∈ filterEdgesToNodes nodes edges ↔
      e ∈ edges ∧ e.source ∈ ids nodes ∧ e.target ∈ ids nodes := by
  unfold filterEdgesToNodes
  rw [List.mem_filter, decide_eq_true_iff]

/-- The edges between nodes of a sublist are found among those between the nodes. -/
theorem filterEdgesToNodes_filter {nodes : List ApiGraphNode} :
    filterEdgesToNodes (nodes.filter keep) (filterEdgesToNodes nodes edges) =
      filterEdgesToNodes (nodes.filter keep) edges := by
  unfold filterEdgesToNodes
  rw [List.filter_filter]
  refine List.filter_congr fun e _ => ?_
  rw [← Bool.decide_and, decide_eq_decide]
  exact ⟨fun h => h.1, fun h => ⟨h, ids_filter_subset h.1, ids_filter_subset h.2⟩⟩

theorem restrict_restrict :
    (graph.restrict keep edges).restrict keep' (graph.restrict keep edges).edges =
      graph.restrict (fun n => keep n && keep' n) edges := by
  have hNodes : (graph.nodes.filter keep).filter keep' =
      graph.nodes.filter fun n => keep n && keep' n := by
    rw [List.filter_filter]
    exact List.filter_congr fun n _ => Bool.and_comm _ _
  refine ApiGraph.ext hNodes ?_
  exact filterEdgesToNodes_filter.trans (congrArg (filterEdgesToNodes · edges) hNodes)

theorem restrict_congr (h : ∀ n ∈ graph.nodes, keep n = keep' n) :
    graph.restrict keep edges = graph.restrict keep' edges := by
  have hNodes : graph.nodes.filter keep = graph.nodes.filter keep' := List.filter_congr h
  exact ApiGraph.ext hNodes (congrArg (filterEdgesToNodes · edges) hNodes)

theorem restrict_eq_iff : graph.restrict keep edges = graph.restrict keep' edges ↔
    ∀ n ∈ graph.nodes, keep n = keep' n := by
  refine ⟨fun h n hn => ?_, restrict_congr⟩
  have hMem : n ∈ graph.nodes.filter keep ↔ n ∈ graph.nodes.filter keep' := by
    rw [show graph.nodes.filter keep = graph.nodes.filter keep' from congrArg ApiGraph.nodes h]
  rw [List.mem_filter, List.mem_filter] at hMem
  exact Bool.eq_iff_iff.mpr ((and_iff_right hn).symm.trans (hMem.trans (and_iff_right hn)))

/-- The type that an id has in a graph. -/
theorem typeOf_eq (hn : n ∈ graph.nodes) : typeOf graph.nodes n.id = some n.type := by
  unfold typeOf
  cases hFind : graph.nodes.find? (·.id = n.id) with
  | none => exact absurd (decide_eq_true rfl) (List.find?_eq_none.mp hFind n hn)
  | some n' =>
    have hId : n'.id = n.id := by simpa using List.find?_some hFind
    rw [graph.eq_of_id (List.mem_of_find?_eq_some hFind) hn hId]
    rfl

theorem typeOf_restrict (hn : n ∈ graph.nodes) (hKeep : keep n = true) :
    typeOf (graph.nodes.filter keep) n.id = some n.type :=
  @typeOf_eq (graph.restrict keep []) n (List.mem_filter.mpr ⟨hn, hKeep⟩)

theorem typeOf_filter {id : NodeId} (h : id ∈ ids (graph.nodes.filter keep)) :
    typeOf (graph.nodes.filter keep) id = typeOf graph.nodes id := by
  obtain ⟨n, hn, rfl⟩ := mem_ids.mp h
  obtain ⟨hMem, hKeep⟩ := List.mem_filter.mp hn
  rw [typeOf_restrict hMem hKeep, typeOf_eq hMem]

theorem mem_ids_of_typeOf {nodes : List ApiGraphNode} {id : NodeId} {type : ApiNodeType}
    (h : typeOf nodes id = some type) : ∃ n ∈ nodes, n.id = id ∧ n.type = type := by
  unfold typeOf at h
  obtain ⟨n, hn, hType⟩ := Option.map_eq_some_iff.mp h
  exact ⟨n, List.mem_of_find?_eq_some hn, by simpa using List.find?_some hn, hType⟩

/-- A filter that keeps the first entry of a kind leaves it the first one. -/
theorem find?_filter_of_keep {α : Type} {l : List α} {q keep : α → Bool}
    (h : ∀ a, l.find? q = some a → keep a = true) : (l.filter keep).find? q = l.find? q := by
  induction l with
  | nil => rfl
  | cons a l ih =>
    rw [List.filter_cons]
    cases hq : q a with
    | true =>
      rw [List.find?_cons_of_pos hq] at h ⊢
      rw [if_pos (h a rfl), List.find?_cons_of_pos hq]
    | false =>
      have hNeg : ¬ q a = true := by simp [hq]
      rw [List.find?_cons_of_neg hNeg] at h ⊢
      split
      · rw [List.find?_cons_of_neg hNeg, ih h]
      · exact ih h

theorem findHackerId_filter {nodes : List ApiGraphNode}
    (h : ∀ n ∈ nodes, findHackerId nodes = some n.id → n.type = .hacker → keep n = true) :
    findHackerId (nodes.filter keep) = findHackerId nodes := by
  unfold findHackerId at h ⊢
  refine congrArg _ (find?_filter_of_keep fun n hn => h n (List.mem_of_find?_eq_some hn) ?_ ?_)
  · rw [hn]
    rfl
  · simpa using List.find?_some hn

theorem exists_of_findHackerId {nodes : List ApiGraphNode} {hackerId : NodeId}
    (h : findHackerId nodes = some hackerId) :
    ∃ n ∈ nodes, n.id = hackerId ∧ n.type = .hacker := by
  unfold findHackerId at h
  obtain ⟨n, hn, hId⟩ := Option.map_eq_some_iff.mp h
  exact ⟨n, List.mem_of_find?_eq_some hn, hId, by simpa using List.find?_some hn⟩

end Restrict

/-! ## What the limits keep -/

/-- The edges that pass the floor, between nodes of the graph. -/
def floorEdges (graph : ApiGraph) (minEdgeSats : Int) : List GraphEdge :=
  filterEdgesToNodes graph.nodes (graph.edges.filter (passes minEdgeSats))

/-- The node has an edge that passes the floor. -/
def isAlive (graph : ApiGraph) (minEdgeSats : Int) (n : ApiGraphNode) : Bool :=
  (graph.edges.filter (passes minEdgeSats)).any (touches n.id)

def floorNodes (graph : ApiGraph) (minEdgeSats : Int) : List ApiGraphNode :=
  graph.nodes.filter (isAlive graph minEdgeSats)

/-- A victim is shown where it is among the first ones or gets a refund. -/
def isShown (graph : ApiGraph) (p : GraphLoadParams) (n : ApiGraphNode) : Bool :=
  !p.expandVictims || n.type ≠ .victim ||
    n.id ∈ ids (topVictims (floorNodes graph p.minEdgeSats) p.maxVictims) ||
    (floorEdges graph p.minEdgeSats).any (isRefundTo n.id)

/-- The targets of the largest edges from the hacker to downstream nodes. -/
def l1Targets (graph : ApiGraph) (p : GraphLoadParams) (hackerId : NodeId) : List NodeId :=
  (Ranking.top GraphEdge.amount p.maxDownstream ((floorEdges graph p.minEdgeSats).filter fun e =>
    e.source = hackerId && e.target ≠ hackerId &&
      typeOf graph.nodes e.target = some .downstream)).map (·.target)

/-- The hacker, the victims, the first targets and what they pay. -/
def isNear (graph : ApiGraph) (p : GraphLoadParams) (hackerId : NodeId) (n : ApiGraphNode) : Bool :=
  n.id = hackerId || n.type = .victim || n.type = .victimCluster ||
    n.id ∈ l1Targets graph p hackerId ||
    ((n.type = .downstream || n.type = .fanoutCluster) && (floorEdges graph p.minEdgeSats).any fun e =>
      e.source ∈ l1Targets graph p hackerId && e.target = n.id)

/-- The node belongs to the hacker, or is the cluster of a node that does. -/
def isReached (graph : ApiGraph) (p : GraphLoadParams) (hackerId : NodeId) (n : ApiGraphNode) : Bool :=
  isNear graph p hackerId n || n.type = .fanoutCluster &&
    graph.nodes.any fun parent => fanoutParent? n.id = some parent.id &&
      isAlive graph p.minEdgeSats parent && isShown graph p parent && isNear graph p hackerId parent

/-- The limits keep the node. -/
def isKept (graph : ApiGraph) (p : GraphLoadParams) (n : ApiGraphNode) : Bool :=
  isAlive graph p.minEdgeSats n && isShown graph p n &&
    (findHackerId (floorNodes graph p.minEdgeSats)).all fun hackerId => isReached graph p hackerId n

section Kept

variable {graph : ApiGraph} {p : GraphLoadParams} {n : ApiGraphNode} {e : GraphEdge} {hackerId : NodeId}

theorem applyMinEdgeSats_eq (graph : ApiGraph) (m : Int) :
    applyMinEdgeSats graph m =
      graph.restrict (isAlive graph m) (graph.edges.filter (passes m)) := rfl

/-- The ends of an edge that passes the floor are alive. -/
theorem isAlive_of_mem (hn : e ∈ floorEdges graph p.minEdgeSats) (h : touches n.id e = true) :
    isAlive graph p.minEdgeSats n = true :=
  List.any_eq_true.mpr ⟨e, (mem_filterEdgesToNodes.mp hn).1, h⟩

theorem mem_ids_restrict_of_mem {nodes : List ApiGraphNode} {keep : ApiGraphNode → Bool} {id : NodeId}
    (h : id ∈ ids nodes) (hKeep : ∀ n ∈ nodes, n.id = id → keep n = true) :
    id ∈ ids (nodes.filter keep) := by
  obtain ⟨n, hn, rfl⟩ := mem_ids.mp h
  exact mem_ids.mpr ⟨n, List.mem_filter.mpr ⟨hn, hKeep n hn rfl⟩, rfl⟩

theorem edges_applyMinEdgeSats (graph : ApiGraph) (m : Int) :
    (applyMinEdgeSats graph m).edges = floorEdges graph m := by
  rw [applyMinEdgeSats_eq]
  refine List.filter_congr fun e he => ?_
  rw [decide_eq_decide]
  refine ⟨fun h => ⟨ids_filter_subset h.1, ids_filter_subset h.2⟩, fun h => ?_⟩
  have hAlive : ∀ id : NodeId, (e.source = id ∨ e.target = id) → ∀ n ∈ graph.nodes, n.id = id →
      isAlive graph m n = true := by
    rintro id hEnd n _ rfl
    exact List.any_eq_true.mpr ⟨e, he, by simpa [touches] using hEnd⟩
  exact ⟨mem_ids_restrict_of_mem h.1 (hAlive _ (Or.inl rfl)),
    mem_ids_restrict_of_mem h.2 (hAlive _ (Or.inr rfl))⟩

/-- The graph after the second filter. -/
theorem applyMaxVictims_eq (graph : ApiGraph) (p : GraphLoadParams) :
    applyMaxVictims (applyMinEdgeSats graph p.minEdgeSats) p.maxVictims p.expandVictims =
      graph.restrict (fun n => isAlive graph p.minEdgeSats n && isShown graph p n)
        (graph.edges.filter (passes p.minEdgeSats)) := by
  unfold applyMaxVictims
  cases hExpand : p.expandVictims with
  | false =>
    rw [if_neg Bool.false_ne_true, applyMinEdgeSats_eq]
    refine restrict_congr fun n _ => ?_
    simp [isShown, hExpand]
  | true =>
    rw [if_pos rfl]
    refine restrict_restrict.trans (restrict_congr fun n _ => ?_)
    have hEdges := edges_applyMinEdgeSats graph p.minEdgeSats
    rw [applyMinEdgeSats_eq] at hEdges
    simp only [applyMinEdgeSats_eq, hEdges, isShown, hExpand, Bool.not_true, Bool.false_or]
    rfl

theorem isShown_of_ne_victim (h : n.type ≠ .victim) : isShown graph p n = true := by
  simp [isShown, h]

/-- The second filter drops no hacker. -/
theorem findHackerId_shown (graph : ApiGraph) (p : GraphLoadParams) :
    findHackerId (graph.nodes.filter fun n => isAlive graph p.minEdgeSats n && isShown graph p n) =
      findHackerId (floorNodes graph p.minEdgeSats) := by
  rw [show (graph.nodes.filter fun n => isAlive graph p.minEdgeSats n && isShown graph p n) =
    (floorNodes graph p.minEdgeSats).filter (isShown graph p) by
      unfold floorNodes
      rw [List.filter_filter]
      exact List.filter_congr fun n _ => Bool.and_comm _ _]
  exact findHackerId_filter fun n _ _ hType => isShown_of_ne_victim (by rw [hType]; decide)

/-- Where only victims are dropped, the edges between other nodes stay. -/
theorem mem_ids_shown (hn : n ∈ graph.nodes) (hType : n.type ≠ .victim)
    (hAlive : isAlive graph p.minEdgeSats n = true) :
    n.id ∈ ids (graph.nodes.filter fun n => isAlive graph p.minEdgeSats n && isShown graph p n) := by
  rw [mem_ids_filter hn, hAlive, isShown_of_ne_victim hType]
  rfl

/-- The edges from the hacker to downstream nodes all survive the second filter. -/
theorem keptL1_shown (hHacker : findHackerId (floorNodes graph p.minEdgeSats) = some hackerId) :
    keptL1 (graph.restrict (fun n => isAlive graph p.minEdgeSats n && isShown graph p n)
      (graph.edges.filter (passes p.minEdgeSats))) hackerId p.maxDownstream =
        l1Targets graph p hackerId := by
  unfold keptL1 l1Edges l1Targets floorEdges ApiGraph.restrict filterEdgesToNodes
  dsimp only
  congr 2
  refine List.filter_filter.trans (Eq.trans (List.filter_congr fun e he => ?_) List.filter_filter.symm)
  rw [Bool.eq_iff_iff]
  simp only [Bool.and_eq_true, decide_eq_true_eq]
  obtain ⟨hacker, hHackerMem, rfl, hHackerType⟩ := exists_of_findHackerId hHacker
  obtain ⟨hHackerMem, hHackerAlive⟩ := List.mem_filter.mp hHackerMem
  constructor
  · rintro ⟨⟨⟨hSource, hNe⟩, hType⟩, hEnds⟩
    obtain ⟨n, hn, hId, hDown⟩ := mem_ids_of_typeOf hType
    have hMem := (List.mem_filter.mp hn).1
    refine ⟨⟨⟨hSource, hNe⟩, ?_⟩, ids_filter_subset hEnds.1, ids_filter_subset hEnds.2⟩
    rw [← hId, typeOf_eq hMem, hDown]
  · rintro ⟨⟨⟨hSource, hNe⟩, hType⟩, hEnds⟩
    obtain ⟨n, hn, hId, hDown⟩ := mem_ids_of_typeOf hType
    have hAlive : isAlive graph p.minEdgeSats n = true :=
      List.any_eq_true.mpr ⟨e, he, by simp [touches, hId]⟩
    have hShown := mem_ids_shown hn (by rw [hDown]; decide) hAlive
    refine ⟨⟨⟨hSource, hNe⟩, ?_⟩, ?_, hId ▸ hShown⟩
    · rw [← hId, typeOf_restrict hn ((mem_ids_filter hn).mp hShown), hDown]
    · rw [hSource]
      exact mem_ids_shown hHackerMem (by rw [hHackerType]; decide) hHackerAlive

/-- The graph that the third filter sees. -/
def shownGraph (graph : ApiGraph) (p : GraphLoadParams) : ApiGraph :=
  graph.restrict (fun n => isAlive graph p.minEdgeSats n && isShown graph p n)
    (graph.edges.filter (passes p.minEdgeSats))

theorem mem_shownGraph : n ∈ (shownGraph graph p).nodes ↔
    n ∈ graph.nodes ∧ isAlive graph p.minEdgeSats n = true ∧ isShown graph p n = true := by
  unfold shownGraph ApiGraph.restrict
  rw [List.mem_filter, Bool.and_eq_true]

theorem exists_of_mem_l1Targets {id : NodeId} (h : id ∈ l1Targets graph p hackerId) :
    ∃ n ∈ (shownGraph graph p).nodes, n.id = id ∧ n.type = .downstream := by
  obtain ⟨e, he, rfl⟩ := List.mem_map.mp h
  obtain ⟨heFloor, hCond⟩ := List.mem_filter.mp (Ranking.mem_of_mem_top he)
  simp only [Bool.and_eq_true, decide_eq_true_eq] at hCond
  obtain ⟨n, hn, hId, hDown⟩ := mem_ids_of_typeOf hCond.2
  refine ⟨n, mem_shownGraph.mpr ⟨hn, ?_, isShown_of_ne_victim (by rw [hDown]; decide)⟩, hId, hDown⟩
  exact isAlive_of_mem heFloor (by simp [touches, hId])

theorem mem_keepParentIds (hHacker : findHackerId (floorNodes graph p.minEdgeSats) = some hackerId)
    (hn : n ∈ (shownGraph graph p).nodes) :
    n.id ∈ keepParentIds (shownGraph graph p) hackerId p.maxDownstream ↔
      isNear graph p hackerId n = true := by
  have hVictims : n.id ∈ ids ((shownGraph graph p).nodes.filter fun n =>
      n.type = .victim || n.type = .victimCluster) ↔ n.type = .victim ∨ n.type = .victimCluster := by
    rw [mem_ids_filter hn, Bool.or_eq_true, decide_eq_true_iff, decide_eq_true_iff]
  have hPaid : (∃ e ∈ (shownGraph graph p).edges, (e.source ∈ l1Targets graph p hackerId ∧
      (typeOf (shownGraph graph p).nodes e.target = some .downstream ∨
        typeOf (shownGraph graph p).nodes e.target = some .fanoutCluster)) ∧ e.target = n.id) ↔
      (n.type = .downstream ∨ n.type = .fanoutCluster) ∧
        ∃ e ∈ floorEdges graph p.minEdgeSats,
          e.source ∈ l1Targets graph p hackerId ∧ e.target = n.id := by
    constructor
    · rintro ⟨e, he, ⟨hSource, hType⟩, hTarget⟩
      rw [hTarget, typeOf_eq hn, Option.some_inj, Option.some_inj] at hType
      obtain ⟨hPass, hEnds⟩ := mem_filterEdgesToNodes.mp he
      exact ⟨hType, e, mem_filterEdgesToNodes.mpr ⟨hPass, ids_filter_subset hEnds.1,
        ids_filter_subset hEnds.2⟩, hSource, hTarget⟩
    · rintro ⟨hType, e, he, hSource, hTarget⟩
      obtain ⟨source, hMem, hId, -⟩ := exists_of_mem_l1Targets hSource
      refine ⟨e, mem_filterEdgesToNodes.mpr ⟨(mem_filterEdgesToNodes.mp he).1, ?_, ?_⟩,
        ⟨hSource, ?_⟩, hTarget⟩
      · exact mem_ids.mpr ⟨source, hMem, hId⟩
      · exact mem_ids.mpr ⟨n, hn, hTarget.symm⟩
      · rwa [hTarget, typeOf_eq hn, Option.some_inj, Option.some_inj]
  unfold keepParentIds isNear
  rw [show keptL1 (shownGraph graph p) hackerId p.maxDownstream = l1Targets graph p hackerId from
    keptL1_shown hHacker]
  simp only [List.cons_append, List.mem_cons, List.mem_append, hVictims, List.mem_map,
    List.mem_filter, Bool.or_eq_true, Bool.and_eq_true, decide_eq_true_eq, List.any_eq_true, and_assoc,
    or_assoc] at hPaid ⊢
  rw [hPaid]

/-- Every id of the set belongs to a node. -/
theorem exists_of_mem_keepParentIds
    (hHacker : findHackerId (floorNodes graph p.minEdgeSats) = some hackerId) {id : NodeId}
    (h : id ∈ keepParentIds (shownGraph graph p) hackerId p.maxDownstream) :
    ∃ n ∈ (shownGraph graph p).nodes, n.id = id := by
  unfold keepParentIds at h
  rw [show keptL1 (shownGraph graph p) hackerId p.maxDownstream = l1Targets graph p hackerId from
    keptL1_shown hHacker] at h
  simp only [List.cons_append, List.mem_cons, List.mem_append] at h
  rcases h with rfl | (hVictim | hFirst) | hPaid
  · obtain ⟨n, hn, hId, -⟩ := exists_of_findHackerId ((findHackerId_shown graph p).trans hHacker)
    exact ⟨n, hn, hId⟩
  · exact mem_ids.mp (ids_filter_subset hVictim)
  · obtain ⟨n, hn, hId, -⟩ := exists_of_mem_l1Targets hFirst
    exact ⟨n, hn, hId⟩
  · obtain ⟨e, he, rfl⟩ := List.mem_map.mp hPaid
    exact mem_ids.mp (mem_filterEdgesToNodes.mp (List.mem_of_mem_filter he)).2.2

theorem mem_keepParentIds_iff
    (hHacker : findHackerId (floorNodes graph p.minEdgeSats) = some hackerId) {id : NodeId} :
    id ∈ keepParentIds (shownGraph graph p) hackerId p.maxDownstream ↔
      ∃ n ∈ (shownGraph graph p).nodes, n.id = id ∧ isNear graph p hackerId n = true := by
  constructor
  · intro h
    obtain ⟨n, hn, rfl⟩ := exists_of_mem_keepParentIds hHacker h
    exact ⟨n, hn, rfl, (mem_keepParentIds hHacker hn).mp h⟩
  · rintro ⟨n, hn, rfl, hNear⟩
    exact (mem_keepParentIds hHacker hn).mpr hNear

theorem mem_keepNodeIds (hHacker : findHackerId (floorNodes graph p.minEdgeSats) = some hackerId)
    (hn : n ∈ (shownGraph graph p).nodes) :
    n.id ∈ keepNodeIds (shownGraph graph p) hackerId p.maxDownstream ↔
      isReached graph p hackerId n = true := by
  have hParent : (fanoutParent? n.id).any
      (· ∈ keepParentIds (shownGraph graph p) hackerId p.maxDownstream) = true ↔
        ∃ parent ∈ graph.nodes, ((fanoutParent? n.id = some parent.id ∧
          isAlive graph p.minEdgeSats parent = true) ∧ isShown graph p parent = true) ∧
            isNear graph p hackerId parent = true := by
    constructor
    · intro h
      obtain ⟨id, hId, hMem⟩ := (Option.any_eq_true _ _).mp h
      obtain ⟨parent, hParent, rfl, hNear⟩ :=
        (mem_keepParentIds_iff hHacker).mp (decide_eq_true_iff.mp hMem)
      obtain ⟨hMem, hAlive, hShown⟩ := mem_shownGraph.mp hParent
      exact ⟨parent, hMem, ⟨⟨hId, hAlive⟩, hShown⟩, hNear⟩
    · rintro ⟨parent, hMem, ⟨⟨hId, hAlive⟩, hShown⟩, hNear⟩
      refine (Option.any_eq_true _ _).mpr ⟨parent.id, hId, decide_eq_true ?_⟩
      exact (mem_keepParentIds hHacker (mem_shownGraph.mpr ⟨hMem, hAlive, hShown⟩)).mpr hNear
  unfold keepNodeIds isReached
  simp only [List.mem_append, mem_keepParentIds hHacker hn, mem_ids_filter hn, Bool.or_eq_true,
    Bool.and_eq_true, decide_eq_true_eq, hParent, List.any_eq_true]

/-- The ends of an edge between nodes with given ids have these ids. -/
theorem restrict_filter_ends (graph : ApiGraph) (keepIds : List NodeId) (edges : List GraphEdge) :
    graph.restrict (·.id ∈ keepIds)
        (edges.filter fun e => e.source ∈ keepIds && e.target ∈ keepIds) =
      graph.restrict (·.id ∈ keepIds) edges := by
  refine ApiGraph.ext rfl ?_
  unfold ApiGraph.restrict filterEdgesToNodes
  rw [List.filter_filter]
  refine List.filter_congr fun e _ => Bool.eq_iff_iff.mpr ?_
  have hEnd : ∀ id ∈ ids (graph.nodes.filter (·.id ∈ keepIds)), id ∈ keepIds := by
    intro id hId
    obtain ⟨n, hn, rfl⟩ := mem_ids.mp hId
    exact decide_eq_true_iff.mp (List.mem_filter.mp hn).2
  simp only [Bool.and_eq_true, decide_eq_true_eq]
  exact ⟨fun h => h.1, fun h => ⟨h, hEnd _ h.1, hEnd _ h.2⟩⟩

/-- What the limits keep of a graph. -/
theorem filterGraphByLimits_eq (graph : ApiGraph) (p : GraphLoadParams) :
    filterGraphByLimits graph p =
      graph.restrict (isKept graph p) (graph.edges.filter (passes p.minEdgeSats)) := by
  unfold filterGraphByLimits
  rw [applyMaxVictims_eq]
  change applyMaxDownstream (shownGraph graph p) p.maxDownstream = _
  unfold applyMaxDownstream
  rw [show findHackerId (shownGraph graph p).nodes = findHackerId (floorNodes graph p.minEdgeSats) from
    findHackerId_shown graph p]
  cases hHacker : findHackerId (floorNodes graph p.minEdgeSats) with
  | none =>
    refine restrict_congr fun n _ => ?_
    simp [isKept, hHacker]
  | some hackerId =>
    refine (restrict_filter_ends _ _ _).trans (restrict_restrict.trans (restrict_congr fun n hn =>
      Bool.eq_iff_iff.mpr ?_))
    unfold isKept
    rw [Bool.and_eq_true, Bool.and_eq_true, Bool.and_eq_true, Bool.and_eq_true, decide_eq_true_iff,
      hHacker, Option.all_some]
    refine and_congr_right fun hSeen => ?_
    exact mem_keepNodeIds hHacker (mem_shownGraph.mpr ⟨hn, hSeen⟩)

theorem nodes_filterGraphByLimits (graph : ApiGraph) (p : GraphLoadParams) :
    (filterGraphByLimits graph p).nodes = graph.nodes.filter (isKept graph p) :=
  congrArg ApiGraph.nodes (filterGraphByLimits_eq graph p)

theorem mem_filterGraphByLimits : n ∈ (filterGraphByLimits graph p).nodes ↔
    n ∈ graph.nodes ∧ isKept graph p n = true := by
  rw [nodes_filterGraphByLimits, List.mem_filter]

theorem isKept_of_near (hAlive : isAlive graph p.minEdgeSats n = true)
    (hShown : isShown graph p n = true)
    (hNear : ∀ hackerId, findHackerId (floorNodes graph p.minEdgeSats) = some hackerId →
      isNear graph p hackerId n = true) : isKept graph p n = true := by
  unfold isKept isReached
  rw [hAlive, hShown]
  cases hHacker : findHackerId (floorNodes graph p.minEdgeSats) with
  | none => rfl
  | some hackerId =>
    rw [Option.all_some, hNear hackerId hHacker]
    rfl

theorem isKept_of_topVictims (h : n ∈ topVictims (floorNodes graph p.minEdgeSats) p.maxVictims) :
    n ∈ graph.nodes ∧ isKept graph p n = true := by
  obtain ⟨hFloor, hVictim⟩ := List.mem_filter.mp (Ranking.mem_of_mem_top h)
  obtain ⟨hn, hAlive⟩ := List.mem_filter.mp hFloor
  refine ⟨hn, isKept_of_near hAlive ?_ fun hackerId _ => ?_⟩
  · have hTop : n.id ∈ ids (topVictims (floorNodes graph p.minEdgeSats) p.maxVictims) :=
      mem_ids.mpr ⟨n, h, rfl⟩
    simp [isShown, hTop]
  · simp [isNear, decide_eq_true_iff.mp hVictim]

theorem isKept_of_hacker (hHacker : findHackerId (floorNodes graph p.minEdgeSats) = some n.id)
    (hn : n ∈ floorNodes graph p.minEdgeSats) (hType : n.type = .hacker) :
    isKept graph p n = true := by
  refine isKept_of_near (List.mem_filter.mp hn).2
    (isShown_of_ne_victim (by rw [hType]; decide)) fun hackerId hFind => ?_
  rw [hHacker, Option.some_inj] at hFind
  simp [isNear, hFind]

theorem isKept_of_l1Targets (hHacker : findHackerId (floorNodes graph p.minEdgeSats) = some hackerId)
    (hn : n ∈ graph.nodes) (h : n.id ∈ l1Targets graph p hackerId) : isKept graph p n = true := by
  obtain ⟨n', hMem, hId, -⟩ := exists_of_mem_l1Targets h
  obtain ⟨hn', hAlive, hShown⟩ := mem_shownGraph.mp hMem
  obtain rfl := graph.eq_of_id hn' hn hId
  refine isKept_of_near hAlive hShown fun hackerId' hFind => ?_
  obtain rfl := Option.some_inj.mp (hHacker.symm.trans hFind)
  simp [isNear, h]

end Kept

/-! ## Trimming in two steps -/

/-- The edges that pass a floor, between nodes that the limits keep. -/
def keptEdges (graph : ApiGraph) (p : GraphLoadParams) (minEdgeSats : Int) : List GraphEdge :=
  filterEdgesToNodes (graph.nodes.filter (isKept graph p)) (floorEdges graph minEdgeSats)

/-- The nodes that the new limits keep are kept by the old ones, with an edge between kept nodes. A
victim that is not among the first ones has its refund there. -/
structure Retains (graph : ApiGraph) (old new : GraphLoadParams) : Prop where
  kept : ∀ n ∈ graph.nodes, isKept graph new n = true → isKept graph old n = true
  edge : ∀ n ∈ graph.nodes, isKept graph new n = true →
    (keptEdges graph old new.minEdgeSats).any (touches n.id) = true
  refund : ∀ n ∈ graph.nodes, isKept graph new n = true → n.type = .victim →
    new.expandVictims = true →
    n.id ∈ ids (topVictims (floorNodes graph new.minEdgeSats) new.maxVictims) ∨
      (keptEdges graph old new.minEdgeSats).any (isRefundTo n.id) = true

section Twice

variable {graph : ApiGraph} {old new : GraphLoadParams} {n : ApiGraphNode} {e : GraphEdge}
  {hackerId : NodeId}

theorem mem_keptEdges {m : Int} : e ∈ keptEdges graph old m ↔ e ∈ floorEdges graph m ∧
    e.source ∈ ids (graph.nodes.filter (isKept graph old)) ∧
    e.target ∈ ids (graph.nodes.filter (isKept graph old)) := mem_filterEdgesToNodes

theorem passes_of_le (hFloor : old.minEdgeSats ≤ new.minEdgeSats)
    (h : passes new.minEdgeSats e = true) : passes old.minEdgeSats e = true := by
  unfold passes at h ⊢
  rw [Bool.or_eq_true, decide_eq_true_iff] at h ⊢
  exact h.imp_left hFloor.trans

/-- The edges of the trimmed graph that pass the new floor. -/
theorem filter_passes_trimmed (hFloor : old.minEdgeSats ≤ new.minEdgeSats) :
    (filterGraphByLimits graph old).edges.filter (passes new.minEdgeSats) =
      keptEdges graph old new.minEdgeSats := by
  rw [filterGraphByLimits_eq]
  unfold keptEdges floorEdges filterEdgesToNodes ApiGraph.restrict filterEdgesToNodes
  simp only [List.filter_filter]
  refine List.filter_congr fun e _ => Bool.eq_iff_iff.mpr ?_
  simp only [Bool.and_eq_true, decide_eq_true_eq]
  constructor
  · rintro ⟨hNew, hEnds, -⟩
    exact ⟨hEnds, ⟨ids_filter_subset hEnds.1, ids_filter_subset hEnds.2⟩, hNew⟩
  · rintro ⟨hEnds, -, hNew⟩
    exact ⟨hNew, hEnds, passes_of_le hFloor hNew⟩

theorem floorEdges_trimmed (hFloor : old.minEdgeSats ≤ new.minEdgeSats) :
    floorEdges (filterGraphByLimits graph old) new.minEdgeSats =
      keptEdges graph old new.minEdgeSats := by
  unfold floorEdges
  rw [filter_passes_trimmed hFloor, filterGraphByLimits_eq]
  refine List.filter_eq_self.mpr fun e he => decide_eq_true ?_
  exact (mem_keptEdges.mp he).2

theorem isAlive_trimmed (hFloor : old.minEdgeSats ≤ new.minEdgeSats) :
    isAlive (filterGraphByLimits graph old) new.minEdgeSats n =
      (keptEdges graph old new.minEdgeSats).any (touches n.id) := by
  unfold isAlive
  rw [filter_passes_trimmed hFloor]

theorem isAlive_of_trimmed (hFloor : old.minEdgeSats ≤ new.minEdgeSats)
    (h : isAlive (filterGraphByLimits graph old) new.minEdgeSats n = true) :
    isAlive graph new.minEdgeSats n = true := by
  rw [isAlive_trimmed hFloor] at h
  obtain ⟨e, he, hTouches⟩ := List.any_eq_true.mp h
  exact isAlive_of_mem (mem_keptEdges.mp he).1 hTouches

theorem floorNodes_trimmed (hFloor : old.minEdgeSats ≤ new.minEdgeSats) :
    floorNodes (filterGraphByLimits graph old) new.minEdgeSats =
      (floorNodes graph new.minEdgeSats).filter fun n => isKept graph old n &&
        isAlive (filterGraphByLimits graph old) new.minEdgeSats n := by
  unfold floorNodes
  rw [nodes_filterGraphByLimits, List.filter_filter, List.filter_filter]
  refine List.filter_congr fun n _ => Bool.eq_iff_iff.mpr ?_
  simp only [Bool.and_eq_true]
  exact ⟨fun h => ⟨⟨h.2, h.1⟩, isAlive_of_trimmed hFloor h.1⟩, fun h => h.1.symm⟩

/-- Trimming twice in terms of the first graph. -/
theorem filterGraphByLimits_twice (hFloor : old.minEdgeSats ≤ new.minEdgeSats) :
    filterGraphByLimits (filterGraphByLimits graph old) new =
      graph.restrict (fun n => isKept graph old n && isKept (filterGraphByLimits graph old) new n)
        (graph.edges.filter (passes new.minEdgeSats)) := by
  have hNodes : (filterGraphByLimits graph old).nodes.filter
      (isKept (filterGraphByLimits graph old) new) = graph.nodes.filter fun n =>
        isKept graph old n && isKept (filterGraphByLimits graph old) new n := by
    rw [nodes_filterGraphByLimits, List.filter_filter]
    exact List.filter_congr fun n _ => Bool.and_comm _ _
  rw [filterGraphByLimits_eq (filterGraphByLimits graph old) new, filter_passes_trimmed hFloor]
  refine ApiGraph.ext hNodes ?_
  unfold ApiGraph.restrict keptEdges
  dsimp only
  rw [← hNodes, nodes_filterGraphByLimits, filterEdgesToNodes_filter, ← nodes_filterGraphByLimits,
    hNodes]
  exact filterEdgesToNodes_filter

/-- Trimming twice is trimming once where the same nodes are kept. -/
theorem twice_eq_iff (hFloor : old.minEdgeSats ≤ new.minEdgeSats) :
    filterGraphByLimits (filterGraphByLimits graph old) new = filterGraphByLimits graph new ↔
      ∀ n ∈ graph.nodes, (isKept graph old n && isKept (filterGraphByLimits graph old) new n) =
        isKept graph new n := by
  rw [filterGraphByLimits_twice hFloor, filterGraphByLimits_eq graph new, restrict_eq_iff]

/-- The victims of the first places, where the first filtering leaves each its place and an edge. -/
theorem topVictims_trimmed (hFloor : old.minEdgeSats ≤ new.minEdgeSats)
    (h : ∀ n ∈ graph.nodes, isKept graph new n = true → isKept graph old n = true ∧
      isAlive (filterGraphByLimits graph old) new.minEdgeSats n = true) :
    topVictims (floorNodes (filterGraphByLimits graph old) new.minEdgeSats) new.maxVictims =
      topVictims (floorNodes graph new.minEdgeSats) new.maxVictims := by
  unfold topVictims
  rw [floorNodes_trimmed hFloor, List.filter_comm]
  refine Ranking.top_filter fun n hn => ?_
  obtain ⟨hMem, hKept⟩ := isKept_of_topVictims hn
  rw [(h n hMem hKept).1, (h n hMem hKept).2]
  rfl

theorem findHackerId_trimmed (hFloor : old.minEdgeSats ≤ new.minEdgeSats)
    (h : ∀ n ∈ graph.nodes, isKept graph new n = true → isKept graph old n = true ∧
      isAlive (filterGraphByLimits graph old) new.minEdgeSats n = true) :
    findHackerId (floorNodes (filterGraphByLimits graph old) new.minEdgeSats) =
      findHackerId (floorNodes graph new.minEdgeSats) := by
  rw [floorNodes_trimmed hFloor]
  refine findHackerId_filter fun n hn hHacker hType => ?_
  obtain ⟨hOld, hAlive⟩ := h n (List.mem_filter.mp hn).1 (isKept_of_hacker hHacker hn hType)
  rw [hOld, hAlive]
  rfl

/-- The first targets, where the first filtering leaves them and the hacker. -/
theorem l1Targets_trimmed (hFloor : old.minEdgeSats ≤ new.minEdgeSats)
    (hHacker : findHackerId (floorNodes graph new.minEdgeSats) = some hackerId)
    (h : ∀ n ∈ graph.nodes, isKept graph new n = true → isKept graph old n = true) :
    l1Targets (filterGraphByLimits graph old) new hackerId = l1Targets graph new hackerId := by
  have hEdges : ((floorEdges (filterGraphByLimits graph old) new.minEdgeSats).filter fun e =>
      e.source = hackerId && e.target ≠ hackerId &&
        typeOf (filterGraphByLimits graph old).nodes e.target = some .downstream) =
      ((floorEdges graph new.minEdgeSats).filter fun e =>
        e.source = hackerId && e.target ≠ hackerId &&
          typeOf graph.nodes e.target = some .downstream).filter fun e =>
            e.source ∈ ids (graph.nodes.filter (isKept graph old)) ∧
              e.target ∈ ids (graph.nodes.filter (isKept graph old)) := by
    rw [floorEdges_trimmed hFloor, List.filter_comm, nodes_filterGraphByLimits]
    refine List.filter_congr fun e he => ?_
    rw [typeOf_filter (mem_keptEdges.mp he).2.2]
  have hEnd : ∀ n ∈ graph.nodes, isKept graph new n = true →
      n.id ∈ ids (graph.nodes.filter (isKept graph old)) := fun n hn hKept =>
    (mem_ids_filter hn).mpr (h n hn hKept)
  unfold l1Targets
  rw [hEdges]
  refine congrArg _ (Ranking.top_filter fun e he => decide_eq_true ?_)
  obtain ⟨-, hCond⟩ := List.mem_filter.mp (Ranking.mem_of_mem_top he)
  simp only [Bool.and_eq_true, decide_eq_true_eq] at hCond
  obtain ⟨hacker, hMem, hId, hType⟩ := exists_of_findHackerId hHacker
  obtain ⟨target, hTarget, hTargetId, -⟩ := mem_ids_of_typeOf hCond.2
  constructor
  · rw [hCond.1.1, ← hId]
    exact hEnd _ (List.mem_filter.mp hMem).1 (isKept_of_hacker (hId ▸ hHacker) hMem hType)
  · have hFirst : target.id ∈ l1Targets graph new hackerId :=
      List.mem_map.mpr ⟨e, he, hTargetId.symm⟩
    rw [← hTargetId]
    exact hEnd _ hTarget (isKept_of_l1Targets hHacker hTarget hFirst)

theorem any_of_any_keptEdges {m : Int} {q : GraphEdge → Bool}
    (h : (keptEdges graph old m).any q = true) : (floorEdges graph m).any q = true := by
  obtain ⟨e, he, hq⟩ := List.any_eq_true.mp h
  exact List.any_eq_true.mpr ⟨e, (mem_keptEdges.mp he).1, hq⟩

theorem isShown_of_trimmed (hFloor : old.minEdgeSats ≤ new.minEdgeSats)
    (hTop : topVictims (floorNodes (filterGraphByLimits graph old) new.minEdgeSats) new.maxVictims =
      topVictims (floorNodes graph new.minEdgeSats) new.maxVictims)
    (h : isShown (filterGraphByLimits graph old) new n = true) : isShown graph new n = true := by
  unfold isShown at h ⊢
  rw [hTop, floorEdges_trimmed hFloor] at h
  rw [Bool.or_eq_true] at h ⊢
  exact h.imp_right any_of_any_keptEdges

/-- A victim that the new limits keep is still shown in the trimmed graph. -/
theorem isShown_trimmed (hFloor : old.minEdgeSats ≤ new.minEdgeSats)
    (hTop : topVictims (floorNodes (filterGraphByLimits graph old) new.minEdgeSats) new.maxVictims =
      topVictims (floorNodes graph new.minEdgeSats) new.maxVictims)
    (hRetains : Retains graph old new) (hn : n ∈ graph.nodes) (hKept : isKept graph new n = true) :
    isShown (filterGraphByLimits graph old) new n = true := by
  unfold isShown
  rw [hTop, floorEdges_trimmed hFloor]
  by_cases hType : n.type = .victim
  · cases hExpand : new.expandVictims with
    | false => rfl
    | true =>
      rcases hRetains.refund n hn hKept hType hExpand with hPlace | hRefund
      · simp [hPlace]
      · simp [hRefund]
  · simp [hType]

theorem isNear_trimmed (hFloor : old.minEdgeSats ≤ new.minEdgeSats)
    (hHacker : findHackerId (floorNodes graph new.minEdgeSats) = some hackerId)
    (hRetains : ∀ n ∈ graph.nodes, isKept graph new n = true → isKept graph old n = true)
    (hn : n ∈ graph.nodes) (hOld : isKept graph old n = true) :
    isNear (filterGraphByLimits graph old) new hackerId n = isNear graph new hackerId n := by
  unfold isNear
  rw [l1Targets_trimmed hFloor hHacker hRetains, floorEdges_trimmed hFloor]
  refine congrArg (fun b => _ || _ && b) (Bool.eq_iff_iff.mpr ⟨any_of_any_keptEdges, fun h => ?_⟩)
  obtain ⟨e, he, hEnds⟩ := List.any_eq_true.mp h
  refine List.any_eq_true.mpr ⟨e, mem_keptEdges.mpr ⟨he, ?_, ?_⟩, hEnds⟩
  all_goals rw [Bool.and_eq_true, decide_eq_true_iff, decide_eq_true_iff] at hEnds
  · obtain ⟨source, hSource, hId, -⟩ := exists_of_mem_l1Targets hEnds.1
    have hMem := (mem_shownGraph.mp hSource).1
    rw [← hId, mem_ids_filter hMem]
    exact hRetains source hMem (isKept_of_l1Targets hHacker hMem (hId ▸ hEnds.1))
  · rw [hEnds.2]
    exact (mem_ids_filter hn).mpr hOld

/-- What belongs to the hacker in the trimmed graph belongs to it in the first one. -/
theorem isReached_of_trimmed (hFloor : old.minEdgeSats ≤ new.minEdgeSats)
    (hHacker : findHackerId (floorNodes graph new.minEdgeSats) = some hackerId)
    (hTop : topVictims (floorNodes (filterGraphByLimits graph old) new.minEdgeSats) new.maxVictims =
      topVictims (floorNodes graph new.minEdgeSats) new.maxVictims)
    (hRetains : ∀ n ∈ graph.nodes, isKept graph new n = true → isKept graph old n = true)
    (hn : n ∈ graph.nodes) (hOld : isKept graph old n = true)
    (h : isReached (filterGraphByLimits graph old) new hackerId n = true) :
    isReached graph new hackerId n = true := by
  unfold isReached at h ⊢
  rw [isNear_trimmed hFloor hHacker hRetains hn hOld] at h
  rw [Bool.or_eq_true] at h ⊢
  refine h.imp_right fun hCluster => ?_
  rw [Bool.and_eq_true] at hCluster ⊢
  refine hCluster.imp_right fun hParent => ?_
  obtain ⟨parent, hParent, hCond⟩ := List.any_eq_true.mp hParent
  obtain ⟨hMem, hParentOld⟩ := mem_filterGraphByLimits.mp hParent
  rw [isNear_trimmed hFloor hHacker hRetains hMem hParentOld] at hCond
  refine List.any_eq_true.mpr ⟨parent, hMem, ?_⟩
  simp only [Bool.and_eq_true] at hCond ⊢
  exact ⟨⟨⟨hCond.1.1.1, isAlive_of_trimmed hFloor hCond.1.1.2⟩,
    isShown_of_trimmed hFloor hTop hCond.1.2⟩, hCond.2⟩

theorem isReached_trimmed (hFloor : old.minEdgeSats ≤ new.minEdgeSats)
    (hHacker : findHackerId (floorNodes graph new.minEdgeSats) = some hackerId)
    (hTop : topVictims (floorNodes (filterGraphByLimits graph old) new.minEdgeSats) new.maxVictims =
      topVictims (floorNodes graph new.minEdgeSats) new.maxVictims)
    (hRetains : Retains graph old new) (hn : n ∈ graph.nodes) (hOld : isKept graph old n = true)
    (h : isReached graph new hackerId n = true) :
    isReached (filterGraphByLimits graph old) new hackerId n = true := by
  unfold isReached at h ⊢
  rw [isNear_trimmed hFloor hHacker hRetains.kept hn hOld]
  rw [Bool.or_eq_true] at h ⊢
  refine h.imp_right fun hCluster => ?_
  rw [Bool.and_eq_true] at hCluster ⊢
  refine hCluster.imp_right fun hParent => ?_
  obtain ⟨parent, hMem, hCond⟩ := List.any_eq_true.mp hParent
  simp only [Bool.and_eq_true] at hCond
  -- The parent is kept itself, so the first filtering leaves it with its edges.
  have hParentNew : isKept graph new parent = true :=
    isKept_of_near hCond.1.1.2 hCond.1.2 fun hackerId' hFind => by
      obtain rfl := Option.some_inj.mp (hHacker.symm.trans hFind)
      exact hCond.2
  have hParentOld := hRetains.kept parent hMem hParentNew
  refine List.any_eq_true.mpr ⟨parent, mem_filterGraphByLimits.mpr ⟨hMem, hParentOld⟩, ?_⟩
  simp only [Bool.and_eq_true]
  refine ⟨⟨⟨hCond.1.1.1, ?_⟩, isShown_trimmed hFloor hTop hRetains hMem hParentNew⟩, ?_⟩
  · exact (isAlive_trimmed hFloor).trans (hRetains.edge parent hMem hParentNew)
  · rw [isNear_trimmed hFloor hHacker hRetains.kept hMem hParentOld]
    exact hCond.2

theorem isKept_trimmed (hFloor : old.minEdgeSats ≤ new.minEdgeSats) (hRetains : Retains graph old new)
    (hn : n ∈ graph.nodes) (hOld : isKept graph old n = true) :
    isKept (filterGraphByLimits graph old) new n = isKept graph new n := by
  have hStays : ∀ n ∈ graph.nodes, isKept graph new n = true → isKept graph old n = true ∧
      isAlive (filterGraphByLimits graph old) new.minEdgeSats n = true := fun n hn hKept =>
    ⟨hRetains.kept n hn hKept, (isAlive_trimmed hFloor).trans (hRetains.edge n hn hKept)⟩
  have hTop := topVictims_trimmed hFloor hStays
  have hHacker := findHackerId_trimmed hFloor hStays
  refine Bool.eq_iff_iff.mpr ⟨fun h => ?_, fun h => ?_⟩
  · unfold isKept at h ⊢
    rw [hHacker] at h
    simp only [Bool.and_eq_true, Option.all_eq_true] at h ⊢
    refine ⟨⟨isAlive_of_trimmed hFloor h.1.1, isShown_of_trimmed hFloor hTop h.1.2⟩, ?_⟩
    exact fun hackerId hFind =>
      isReached_of_trimmed hFloor hFind hTop hRetains.kept hn hOld (h.2 hackerId hFind)
  · have hShown := isShown_trimmed hFloor hTop hRetains hn h
    have hAlive := (hStays n hn h).2
    unfold isKept at h ⊢
    rw [hHacker, hAlive, hShown]
    simp only [Bool.and_eq_true, Option.all_eq_true, Bool.true_and] at h ⊢
    exact fun hackerId hFind =>
      isReached_trimmed hFloor hFind hTop hRetains hn hOld (h.2 hackerId hFind)

theorem twice_eq_iff_retains (hFloor : old.minEdgeSats ≤ new.minEdgeSats) :
    filterGraphByLimits (filterGraphByLimits graph old) new = filterGraphByLimits graph new ↔
      Retains graph old new := by
  rw [twice_eq_iff hFloor]
  constructor
  · intro h
    have hBoth : ∀ n ∈ graph.nodes, isKept graph new n = true → isKept graph old n = true ∧
        isKept (filterGraphByLimits graph old) new n = true := fun n hn hKept =>
      Bool.and_eq_true_iff.mp ((h n hn).trans hKept)
    have hAlive : ∀ n ∈ graph.nodes, isKept graph new n = true →
        isAlive (filterGraphByLimits graph old) new.minEdgeSats n = true ∧
          isShown (filterGraphByLimits graph old) new n = true := fun n hn hKept =>
      Bool.and_eq_true_iff.mp (Bool.and_eq_true_iff.mp (hBoth n hn hKept).2).1
    refine ⟨fun n hn hKept => (hBoth n hn hKept).1, fun n hn hKept => ?_,
      fun n hn hKept hType hExpand => ?_⟩
    · exact (isAlive_trimmed hFloor).symm.trans (hAlive n hn hKept).1
    · have hShown := (hAlive n hn hKept).2
      unfold isShown at hShown
      rw [floorEdges_trimmed hFloor, topVictims_trimmed hFloor fun n hn hKept =>
        ⟨(hBoth n hn hKept).1, (hAlive n hn hKept).1⟩] at hShown
      simpa [hType, hExpand] using hShown
  · intro hRetains n hn
    cases hOld : isKept graph old n with
    | true => exact isKept_trimmed hFloor hRetains hn hOld
    | false =>
      cases hNew : isKept graph new n with
      | true => exact absurd (hRetains.kept n hn hNew) (by simp [hOld])
      | false => rfl

end Twice

/-! ## Path independence -/

/-- The limits of the client give the same graph in one step and in two. -/
structure TrimsConsistently (graph : ApiGraph) (old new : GraphLoadParams) : Prop where
  path : filterGraphByLimits (filterGraphByLimits graph old) new = filterGraphByLimits graph new
  twice : filterGraphByLimits (filterGraphByLimits graph new) new = filterGraphByLimits graph new
  ends : ∀ e ∈ (filterGraphByLimits graph new).edges,
    e.source ∈ ids (filterGraphByLimits graph new).nodes ∧
      e.target ∈ ids (filterGraphByLimits graph new).nodes
  hacker : ∀ hackerId, findHackerId graph.nodes = some hackerId →
    hackerId ∈ ids (filterGraphByLimits graph new).nodes

/-- The hacker has an edge that passes the floor. -/
def HackerPasses (graph : ApiGraph) (minEdgeSats : Int) : Prop :=
  ∀ hackerId, findHackerId graph.nodes = some hackerId →
    (graph.edges.filter (passes minEdgeSats)).any (touches hackerId) = true

theorem ends_filterGraphByLimits (graph : ApiGraph) (p : GraphLoadParams) :
    ∀ e ∈ (filterGraphByLimits graph p).edges,
      e.source ∈ ids (filterGraphByLimits graph p).nodes ∧
        e.target ∈ ids (filterGraphByLimits graph p).nodes := by
  intro e he
  rw [nodes_filterGraphByLimits]
  rw [filterGraphByLimits_eq] at he
  exact (mem_filterEdgesToNodes.mp he).2

/-- The first hacker is kept where it has an edge left. -/
theorem hacker_kept_iff (graph : ApiGraph) (p : GraphLoadParams) :
    (∀ hackerId, findHackerId graph.nodes = some hackerId →
      hackerId ∈ ids (filterGraphByLimits graph p).nodes) ↔ HackerPasses graph p.minEdgeSats := by
  refine forall₂_congr fun hackerId hFirst => ?_
  obtain ⟨hacker, hMem, rfl, hType⟩ := exists_of_findHackerId hFirst
  rw [nodes_filterGraphByLimits, mem_ids_filter hMem]
  constructor
  · intro hKept
    exact (Bool.and_eq_true_iff.mp (Bool.and_eq_true_iff.mp hKept).1).1
  · intro hAlive
    refine isKept_of_hacker ?_ (List.mem_filter.mpr ⟨hMem, hAlive⟩) hType
    refine Eq.trans (findHackerId_filter fun n hn hFind _ => ?_) hFirst
    rwa [graph.eq_of_id hn hMem (Option.some_inj.mp (hFind.symm.trans hFirst))]

theorem trimsConsistently_iff (graph : ApiGraph) {old new : GraphLoadParams}
    (h : AtLeastAsStrict old new) : TrimsConsistently graph old new ↔
      Retains graph old new ∧ Retains graph new new ∧ HackerPasses graph new.minEdgeSats := by
  rw [← twice_eq_iff_retains h.minEdgeSats, ← twice_eq_iff_retains le_rfl, ← hacker_kept_iff]
  constructor
  · intro hTrims
    exact ⟨hTrims.path, hTrims.twice, hTrims.hacker⟩
  · rintro ⟨hPath, hTwice, hHacker⟩
    exact ⟨hPath, hTwice, ends_filterGraphByLimits graph new, hHacker⟩

/-- Two victims and two targets of a hacker; the second target paid the second victim back. -/
def refundGraph : ApiGraph where
  nodes :=
    [⟨.address (name "h"), .hacker, none⟩, ⟨.address (name "v"), .victim, some 100⟩,
      ⟨.address (name "w"), .victim, some 50⟩, ⟨.address (name "x"), .downstream, none⟩,
      ⟨.address (name "y"), .downstream, none⟩]
  edges :=
    [edge (name "v") (name "h") 100 none, edge (name "w") (name "h") 50 none,
      edge (name "h") (name "x") 300 none, edge (name "h") (name "y") 200 none,
      edge (name "y") (name "w") 20 (some .victimRefund)]
  nodup := by decide
where
  edge (source target : Address) (amount : Int) (kind : Option Store.EdgeKind) : GraphEdge :=
    { id := .tx (.address source) (.address target) (name "t")
      source := .address source
      target := .address target
      txid := some (name "t")
      amount := amount
      time := none
      edgeKind := some (kind.elim .default DisplayKind.stored) }

def refundLimits (minEdgeSats : Int) (maxDownstream : Nat) : GraphLoadParams :=
  ⟨name "h", minEdgeSats, 1, maxDownstream, true⟩

theorem refundGraph_trims : TrimsConsistently refundGraph (refundLimits 1 2) (refundLimits 2 2) := by
  have hStrict : AtLeastAsStrict (refundLimits 1 2) (refundLimits 2 2) :=
    ⟨rfl, rfl, by decide, le_rfl, le_rfl⟩
  refine (trimsConsistently_iff refundGraph hStrict).mpr ⟨?_, ?_, fun hackerId h => ?_⟩
  · exact ⟨by decide +kernel, by decide +kernel, by decide +kernel⟩
  · exact ⟨by decide +kernel, by decide +kernel, by decide +kernel⟩
  · cases h
    decide +kernel

/-- With one target only the payer of the refund goes, and the next trim drops the victim. -/
theorem refundGraph_differs :
    AtLeastAsStrict (refundLimits 1 1) (refundLimits 2 1) ∧
      (refundGraph.nodes.filterMap (·.incomingSats)).Nodup ∧
      ¬ TrimsConsistently refundGraph (refundLimits 1 1) (refundLimits 2 1) := by
  refine ⟨⟨rfl, rfl, by decide, le_rfl, le_rfl⟩, by decide, fun h => ?_⟩
  exact absurd (congrArg (ids ·.nodes) h.path) (by decide +kernel)

end Bloodhound.Web
