import Bloodhound.Lib.Buckets
import Bloodhound.Lib.Levels
import Bloodhound.Web.NodeGrid

/-!
# The layout of a graph

`layoutGraph` of the web client: the hacker stands in the middle, its victims in columns on the left, and the
downstream nodes on the right, in a grid for each hop from the hacker. The hop of a node is in its data, or else its
depth in a search through the downstream nodes.

* `hopOf_isSome`: which downstream nodes have a hop.
* `layoutGraph_places`: the layout has each node but the downstream nodes without a hop once, without an overlap.
-/

namespace Bloodhound.Web.Layout

/-! ## The hops of the downstream nodes -/

structure Edge where
  source : String
  target : String
  deriving DecidableEq

/-- The edges to downstream nodes. -/
def arrowsTo (downstreamIds : List String) (edges : List Edge) : List (String × String) :=
  (edges.filter (·.target ∈ downstreamIds)).map fun e => (e.source, e.target)

def buildHopDepthMap (hackerId : Option String) (downstreamIds : List String) (edges : List Edge) :
    List (String × Nat) :=
  match hackerId with
  | none => []
  | some hackerId =>
    let arrows := arrowsTo downstreamIds edges
    Search.levels arrows ((Search.targetsOf arrows hackerId).map fun id => (id, 1)) []

def resolveDownstreamHop (node : Node) (hopDepthMap : List (String × Nat)) (hackerId : Option String)
    (edges : List Edge) : Option Int :=
  if node.hopFromHacker.any (0 ≤ ·) then node.hopFromHacker
  else match hopDepthMap.lookup node.id with
    | some hop => some hop
    | none => if hackerId.any fun id => edges.any fun e => e.source = id ∧ e.target = node.id then some 1 else none

/-- The hop of a node among downstream nodes, when it has one that is not negative. -/
def hopOf (downstreamNodes : List Node) (hackerId : Option String) (edges : List Edge) (node : Node) : Option Int :=
  (resolveDownstreamHop node (buildHopDepthMap hackerId (downstreamNodes.map (·.id)) edges) hackerId edges).filter
    (0 ≤ ·)

/-- The nodes with a hop, in a bucket for each hop. -/
def groupDownstreamByHop (downstreamNodes : List Node) (hackerId : Option String) (edges : List Edge) :
    List (Int × List Node) :=
  let hop := hopOf downstreamNodes hackerId edges
  Buckets.buckets (fun node => (hop node).getD 0) (downstreamNodes.filter fun node => (hop node).isSome)

def hopColumnWidth : ℚ := HOP_GRID_COLS * NODE_WIDTH + (HOP_GRID_COLS - 1) * COL_GAP

def downstreamColumnStartX (anchor : Node) : ℚ := anchor.position.x + NODE_WIDTH + RANK_SEP

def hopGridOptions (sortBy : VictimSortOption) : NodeGridOptions where
  side := .right
  maxRows := MAX_ROWS_PER_COLUMN
  maxCols := some MAX_COLS_PER_BLOCK
  maxNodesPerBlock := some MAX_NODES_PER_HOP_BLOCK
  blockGap := BLOCK_GAP
  sortBy := sortBy

section Layout

variable (localeCompare : String → String → Int)

/-- The grid of a hop begins where the column starts. -/
def layoutHop (byHop : List (Int × List Node)) (anchor : Node) (sortBy : VictimSortOption) (state : ℚ × List Node)
    (hop : Int) : ℚ × List Node :=
  let virtualAnchor := { anchor with
    id := anchor.id ++ ":hop" ++ toString hop
    position := ⟨state.1 - RANK_SEP, anchor.position.y⟩ }
  (state.1 + (hopColumnWidth + RANK_SEP),
    state.2 ++ layoutNodeGrid localeCompare ((Buckets.get byHop hop).getD []) virtualAnchor (hopGridOptions sortBy))

def layoutDownstreamByHopGrids (downstreamNodes : List Node) (anchor : Node) (hackerId : Option String)
    (edges : List Edge) (sortBy : VictimSortOption) : List Node :=
  let byHop := groupDownstreamByHop downstreamNodes hackerId edges
  let sortedHops := (byHop.map (·.1)).mergeSort fun a b => a - b ≤ 0
  (sortedHops.foldl (layoutHop localeCompare byHop anchor sortBy) (downstreamColumnStartX anchor, [])).2

def victimGridOptions (sortBy : VictimSortOption) : NodeGridOptions where
  side := .left
  maxCols := none
  maxNodesPerBlock := none
  sortBy := sortBy

def layoutVictimGrid (victims : List Node) (anchor : Node) (sortBy : VictimSortOption) : List Node :=
  layoutNodeGrid localeCompare victims anchor (victimGridOptions sortBy)

def layoutVictimCentricGraph (victim : Node) (hackers : List Node) : List Node :=
  let blockHeightVal := hackers.length * NODE_HEIGHT + ((hackers.length - 1 : Nat) : ℚ) * ROW_GAP
  let victimCenterY := blockHeightVal / 2
  let hackerX := NODE_WIDTH + RANK_SEP + 80
  victim.setPosition ⟨0, victimCenterY - NODE_HEIGHT / 2⟩ ::
    hackers.mapIdx fun i node => node.setPosition ⟨hackerX, i * (NODE_HEIGHT + ROW_GAP)⟩

def findAnchorNode (nodes : List Node) : Option Node :=
  ((nodes.find? (·.type = .hacker)).or (nodes.find? (·.type = .victimCluster))).or nodes.head?

inductive Mode where
  | hacker
  | victimFiltered
  | victimCentric
  deriving DecidableEq

def isDownstream (node : Node) : Bool := node.type = .downstream ∨ node.type = .fanoutCluster

def anchorOf (nodes : List Node) : Node :=
  match findAnchorNode (nodes.filter (·.type ≠ .victim)) with
  | some anchorRaw => anchorRaw.setPosition ⟨0, 0⟩
  | none => { id := "__anchor__", type := .hacker }

def miscNodes (nodes : List Node) (anchor : Node) : List Node :=
  nodes.filter fun n =>
    n.type ≠ .victim ∧ n.type ≠ .victimCluster ∧ n.type ≠ .downstream ∧ n.type ≠ .fanoutCluster ∧ n.id ≠ anchor.id

def laidCluster (nodes : List Node) (anchor : Node) (victimSort : VictimSortOption) : List Node :=
  match nodes.find? (·.type = .victimCluster) with
  | some victimCluster => layoutVictimGrid localeCompare [victimCluster] anchor victimSort
  | none => []

def laidVictims (nodes : List Node) (anchor : Node) (victimSort : VictimSortOption) : List Node :=
  let victims := nodes.filter (·.type = .victim)
  if 0 < victims.length then layoutVictimGrid localeCompare victims anchor victimSort else []

/-- The layout around an anchor. -/
def layoutAround (nodes : List Node) (edges : List Edge) (victimSort : VictimSortOption) : List Node :=
  let hackerId := (nodes.find? (·.type = .hacker)).map (·.id)
  let anchor := anchorOf nodes
  let laidAnchor := if (findAnchorNode (nodes.filter (·.type ≠ .victim))).isSome then [anchor] else []
  let laidDownstream :=
    layoutDownstreamByHopGrids localeCompare (nodes.filter isDownstream) anchor hackerId edges victimSort
  let laidMisc := (miscNodes nodes anchor).map fun n => n.setPosition anchor.position
  laidAnchor ++ laidCluster localeCompare nodes anchor victimSort ++ laidDownstream ++
    laidVictims localeCompare nodes anchor victimSort ++ laidMisc

def layoutGraph (nodes : List Node) (edges : List Edge) (mode : Mode) (victimSort : VictimSortOption) : List Node :=
  match mode, nodes.find? (·.type = .victim), nodes.filter (·.type = .hacker) with
  | .victimCentric, some victim, hacker :: hackers => layoutVictimCentricGraph victim (hacker :: hackers)
  | _, _, _ => layoutAround localeCompare nodes edges victimSort

end Layout

/-! ## Which nodes have a hop -/

/-- A node is reached from the hacker through downstream nodes. -/
inductive Reached (hackerId : String) (downstreamIds : List String) (edges : List Edge) : String → Prop
  | direct {id : String} (hEdge : ⟨hackerId, id⟩ ∈ edges) (hDown : id ∈ downstreamIds) :
      Reached hackerId downstreamIds edges id
  | further {a b : String} (hFirst : Reached hackerId downstreamIds edges a) (hEdge : ⟨a, b⟩ ∈ edges)
      (hDown : b ∈ downstreamIds) : Reached hackerId downstreamIds edges b

section Hops

variable {hackerId : String} {downstreamIds : List String} {downstreamNodes : List Node} {edges : List Edge}

theorem mem_arrowsTo {a b : String} :
    (a, b) ∈ arrowsTo downstreamIds edges ↔ (⟨a, b⟩ : Edge) ∈ edges ∧ b ∈ downstreamIds := by
  unfold arrowsTo
  rw [List.mem_map]
  constructor
  · rintro ⟨e, he, hSame⟩
    obtain ⟨hEdge, hDown⟩ := List.mem_filter.mp he
    cases hSame
    exact ⟨hEdge, of_decide_eq_true hDown⟩
  · rintro ⟨hEdge, hDown⟩
    exact ⟨⟨a, b⟩, List.mem_filter.mpr ⟨hEdge, decide_eq_true hDown⟩, rfl⟩

theorem reachedFrom_iff {id : String} :
    Search.ReachedFrom (arrowsTo downstreamIds edges)
      (Search.targetsOf (arrowsTo downstreamIds edges) hackerId) id ↔ Reached hackerId downstreamIds edges id := by
  constructor
  · rintro ⟨start, hStart, hPath⟩
    induction hPath with
    | refl =>
      obtain ⟨hEdge, hDown⟩ := mem_arrowsTo.mp (Search.mem_targetsOf.mp hStart)
      exact .direct hEdge hDown
    | tail _ hStep ih =>
      obtain ⟨hEdge, hDown⟩ := mem_arrowsTo.mp hStep
      exact .further ih hEdge hDown
  · intro hReached
    induction hReached with
    | direct hEdge hDown => exact ⟨_, Search.mem_targetsOf.mpr (mem_arrowsTo.mpr ⟨hEdge, hDown⟩), .refl⟩
    | further _ hEdge hDown ih =>
      obtain ⟨start, hStart, hPath⟩ := ih
      exact ⟨start, hStart, hPath.tail (mem_arrowsTo.mpr ⟨hEdge, hDown⟩)⟩

/-- The search gives a depth to what is reached. -/
theorem lookup_isSome_iff (id : String) :
    ((buildHopDepthMap (some hackerId) downstreamIds edges).lookup id).isSome ↔
      Reached hackerId downstreamIds edges id := by
  have hStarts : ((Search.targetsOf (arrowsTo downstreamIds edges) hackerId).map fun id => (id, 1)).map Prod.fst =
      Search.targetsOf (arrowsTo downstreamIds edges) hackerId := List.map_map.trans (List.map_id _)
  have hSearch := Search.mem_levels (arrowsTo downstreamIds edges)
    ((Search.targetsOf (arrowsTo downstreamIds edges) hackerId).map fun id => (id, 1)) id
  rw [hStarts, reachedFrom_iff] at hSearch
  rw [← hSearch, List.lookup_isSome_iff, Search.seenOf, List.mem_map]
  simp only [buildHopDepthMap, beq_iff_eq, @eq_comm String id]

/-- Without a hop in its data, a downstream node has one when it is reached. -/
theorem searched_isSome {node : Node} (hNode : node ∈ downstreamNodes)
    (hData : ¬ node.hopFromHacker.any (0 ≤ ·) = true) :
    (hopOf downstreamNodes (some hackerId) edges node).isSome ↔
      Reached hackerId (downstreamNodes.map (·.id)) edges node.id := by
  have hLookup := @lookup_isSome_iff hackerId (downstreamNodes.map (·.id)) edges node.id
  unfold hopOf resolveDownstreamHop
  rw [if_neg hData]
  cases hFound : (buildHopDepthMap (some hackerId) (downstreamNodes.map (·.id)) edges).lookup node.id with
  | some hop =>
    rw [hFound] at hLookup
    simpa using hLookup
  | none =>
    rw [hFound] at hLookup
    -- an edge from the hacker would have been searched
    have hEdge : ¬ (some hackerId).any
        (fun id => edges.any fun e => e.source = id ∧ e.target = node.id) = true := by
      intro hAny
      obtain ⟨e, he, hEnds⟩ := List.any_eq_true.mp (by simpa only [Option.any_some] using hAny)
      obtain ⟨hSource, hTarget⟩ := of_decide_eq_true hEnds
      have hReached : Reached hackerId (downstreamNodes.map (·.id)) edges node.id :=
        .direct (by rw [← hSource, ← hTarget]; exact he) (List.mem_map_of_mem hNode)
      exact absurd (hLookup.mpr hReached) (by decide)
    rw [if_neg hEdge, ← hLookup]
    rfl

/-- A downstream node has a hop when it has one in its data or is reached. -/
theorem hopOf_isSome {node : Node} (hNode : node ∈ downstreamNodes) :
    (hopOf downstreamNodes (some hackerId) edges node).isSome ↔
      (∃ hop, node.hopFromHacker = some hop ∧ 0 ≤ hop) ∨
        Reached hackerId (downstreamNodes.map (·.id)) edges node.id := by
  have hAny : node.hopFromHacker.any (0 ≤ ·) = true ↔ ∃ hop, node.hopFromHacker = some hop ∧ 0 ≤ hop := by
    rw [Option.any_eq_true]
    simp only [decide_eq_true_eq]
  by_cases hData : node.hopFromHacker.any (0 ≤ ·) = true
  · obtain ⟨hop, hSome, hPos⟩ := hAny.mp hData
    have hHop : hopOf downstreamNodes (some hackerId) edges node = some hop := by
      unfold hopOf resolveDownstreamHop
      rw [if_pos hData, hSome, Option.filter_some, if_pos (decide_eq_true hPos)]
    rw [hHop]
    exact iff_of_true rfl (Or.inl ⟨hop, hSome, hPos⟩)
  · rw [searched_isSome hNode hData, or_iff_right (mt hAny.mpr hData)]

end Hops

/-! ## The grids -/

def Apart (a b : Node) : Prop := Rectangles.Apart NODE_WIDTH NODE_HEIGHT a.position b.position

section Grids

variable {localeCompare : String → String → Int} {sortBy : VictimSortOption} {anchor : Node}
  {byHop : List (Int × List Node)}

theorem spaced_hopGridOptions (sortBy : VictimSortOption) : (hopGridOptions sortBy).Spaced :=
  spaced_default _ _ _ _

theorem spaced_victimGridOptions (sortBy : VictimSortOption) : (victimGridOptions sortBy).Spaced :=
  spaced_default _ _ _ _

theorem hopColumnWidth_eq : hopColumnWidth = 2360 := by
  norm_num [hopColumnWidth, HOP_GRID_COLS, NODE_WIDTH, COL_GAP]

/-- What holds of the grids before the next column. -/
structure Columns (start : ℚ) (state : ℚ × List Node) : Prop where
  apart : state.2.Pairwise Apart
  started : start ≤ state.1
  bounds : ∀ n ∈ state.2, start ≤ n.position.x ∧ n.position.x + NODE_WIDTH < state.1

/-- The nodes of a hop are in its column. -/
theorem bounds_of_hopGrid {nodes : List Node} {n : Node}
    (hn : n ∈ layoutNodeGrid localeCompare nodes anchor (hopGridOptions sortBy)) :
    anchor.position.x + RANK_SEP ≤ n.position.x ∧
      n.position.x + NODE_WIDTH ≤ anchor.position.x + RANK_SEP + hopColumnWidth := by
  have hSize : 0 < MAX_NODES_PER_HOP_BLOCK := by decide
  have hBounds := bounds_of_right (spaced_hopGridOptions sortBy) rfl hSize rfl hn
  have hWidth : (((MAX_NODES_PER_HOP_BLOCK - 1) / (hopGridOptions sortBy).maxRows : Nat) : ℚ) *
      ((hopGridOptions sortBy).nodeWidth + (hopGridOptions sortBy).colGap) + NODE_WIDTH = hopColumnWidth := by
    rw [hopColumnWidth_eq]
    norm_num [hopGridOptions, MAX_NODES_PER_HOP_BLOCK, MAX_ROWS_PER_COLUMN, NODE_WIDTH, COL_GAP]
  exact ⟨hBounds.1, by linarith [hBounds.2]⟩

theorem Columns.hop {start : ℚ} {state : ℚ × List Node} (h : Columns start state) (hop : Int) :
    Columns start (layoutHop localeCompare byHop anchor sortBy state hop) := by
  have hWidth : 0 ≤ hopColumnWidth := by
    rw [hopColumnWidth_eq]
    decide
  have hSep : 0 < RANK_SEP := by decide
  have hNew : ∀ n ∈ layoutNodeGrid localeCompare ((Buckets.get byHop hop).getD [])
      { anchor with
        id := anchor.id ++ ":hop" ++ toString hop
        position := ⟨state.1 - RANK_SEP, anchor.position.y⟩ } (hopGridOptions sortBy),
      state.1 ≤ n.position.x ∧ n.position.x + NODE_WIDTH ≤ state.1 + hopColumnWidth := fun n hn => by
    have hBounds := bounds_of_hopGrid hn
    rwa [sub_add_cancel] at hBounds
  have hStarted := h.started
  constructor
  · refine List.pairwise_append.mpr ⟨h.apart, ?_, fun a ha b hb => ?_⟩
    · exact pairwise_layoutNodeGrid (spaced_hopGridOptions sortBy) fun size hSize => by cases hSize; decide
    · exact Or.inl ((h.bounds a ha).2.trans_le (hNew b hb).1)
  · simp only [layoutHop]
    linarith
  · intro n hn
    simp only [layoutHop] at hn ⊢
    rcases List.mem_append.mp hn with hn | hn
    · obtain ⟨hLeft, hRight⟩ := h.bounds n hn
      exact ⟨hLeft, by linarith⟩
    · obtain ⟨hLeft, hRight⟩ := hNew n hn
      exact ⟨by linarith, by linarith⟩

theorem Columns.hops {start : ℚ} (hops : List Int) {state : ℚ × List Node} (h : Columns start state) :
    Columns start (hops.foldl (layoutHop localeCompare byHop anchor sortBy) state) := by
  induction hops generalizing state with
  | nil => exact h
  | cons hop hops ih => exact ih (h.hop hop)

/-- The grids have the nodes of their hops. -/
theorem layoutHops_perm (hops : List Int) (state : ℚ × List Node) :
    ((hops.foldl (layoutHop localeCompare byHop anchor sortBy) state).2.map Node.unplaced).Perm
      (state.2.map Node.unplaced ++
        (hops.flatMap fun hop => (Buckets.get byHop hop).getD []).map Node.unplaced) := by
  induction hops generalizing state with
  | nil => simp
  | cons hop hops ih =>
    rw [List.foldl_cons, List.flatMap_cons, List.map_append, ← List.append_assoc]
    refine (ih _).trans (List.Perm.append_right _ ?_)
    simp only [layoutHop, List.map_append]
    refine (layoutNodeGrid_perm (spaced_hopGridOptions sortBy) fun size hSize => ?_).append_left _
    cases hSize
    decide

/-- The downstream nodes with a hop are laid out. -/
theorem layoutDownstreamByHopGrids_perm (downstreamNodes : List Node) (hackerId : Option String)
    (edges : List Edge) :
    ((layoutDownstreamByHopGrids localeCompare downstreamNodes anchor hackerId edges sortBy).map Node.unplaced).Perm
      ((downstreamNodes.filter fun node => (hopOf downstreamNodes hackerId edges node).isSome).map
        Node.unplaced) := by
  refine (layoutHops_perm _ _).trans (List.Perm.map _ ?_)
  exact Buckets.flatMap_get_perm (List.mergeSort_perm _ _)

theorem columns_layoutDownstreamByHopGrids (downstreamNodes : List Node) (hackerId : Option String)
    (edges : List Edge) :
    ∃ right, Columns (downstreamColumnStartX anchor)
      (right, layoutDownstreamByHopGrids localeCompare downstreamNodes anchor hackerId edges sortBy) := by
  have hStart : Columns (downstreamColumnStartX anchor) (downstreamColumnStartX anchor, []) :=
    ⟨List.Pairwise.nil, le_refl _, fun n hn => absurd hn List.not_mem_nil⟩
  exact ⟨_, hStart.hops _⟩

theorem layoutVictimGrid_perm (victims : List Node) :
    ((layoutVictimGrid localeCompare victims anchor sortBy).map Node.unplaced).Perm (victims.map Node.unplaced) :=
  layoutNodeGrid_perm (spaced_victimGridOptions sortBy) fun _ hSize => nomatch hSize

theorem pairwise_layoutVictimGrid (victims : List Node) :
    (layoutVictimGrid localeCompare victims anchor sortBy).Pairwise Apart :=
  pairwise_layoutNodeGrid (spaced_victimGridOptions sortBy) fun _ hSize => nomatch hSize

end Grids

/-! ## The whole layout -/

section Whole

variable {localeCompare : String → String → Int} {nodes : List Node} {edges : List Edge}
  {victimSort : VictimSortOption} {hacker : Node}

/-- A node that the layout places: each node but the downstream nodes without a hop. -/
def placed (nodes : List Node) (hackerId : String) (edges : List Edge) (node : Node) : Bool :=
  !isDownstream node || (hopOf (nodes.filter isDownstream) (some hackerId) edges node).isSome

theorem find?_hacker (hHacker : nodes.filter (·.type = .hacker) = [hacker]) :
    nodes.find? (·.type = .hacker) = some hacker := by
  rw [← List.head?_filter, hHacker, List.head?_cons]

theorem findAnchorNode_hacker (hHacker : nodes.filter (·.type = .hacker) = [hacker]) :
    findAnchorNode (nodes.filter (·.type ≠ .victim)) = some hacker := by
  have hFind : (nodes.filter (·.type ≠ .victim)).find? (·.type = .hacker) = some hacker := by
    rw [← List.head?_filter, List.filter_filter]
    have hSame : (fun n : Node => decide (n.type = .hacker) && decide (n.type ≠ .victim)) =
        fun n => decide (n.type = .hacker) := by
      funext n
      cases n.type <;> rfl
    rw [hSame, hHacker, List.head?_cons]
  rw [findAnchorNode, hFind]
  rfl

/-- The other nodes are those of the types that the layout does not name. -/
theorem miscNodes_eq (hIds : (nodes.map (·.id)).Nodup) (hHacker : nodes.filter (·.type = .hacker) = [hacker]) :
    miscNodes nodes hacker.unplaced = nodes.filter (·.type = .other) := by
  have hMem : hacker ∈ nodes ∧ hacker.type = .hacker := by
    have hIn : hacker ∈ nodes.filter (·.type = .hacker) := hHacker ▸ List.mem_cons_self
    exact ⟨(List.mem_filter.mp hIn).1, of_decide_eq_true (List.mem_filter.mp hIn).2⟩
  refine List.filter_congr fun n hn => decide_eq_decide.mpr ?_
  have hId : n.id = hacker.unplaced.id ↔ n = hacker :=
    ⟨fun h => List.inj_on_of_nodup_map hIds hn hMem.1 h, fun h => h ▸ rfl⟩
  have hOnly : n.type = .hacker → n = hacker := fun hType =>
    List.mem_singleton.mp (hHacker ▸ List.mem_filter.mpr ⟨hn, decide_eq_true hType⟩)
  rw [ne_eq n.id, hId]
  cases hType : n.type with
  | hacker => simp [hOnly hType]
  | other =>
    have hNot : n ≠ hacker := fun h => by
      rw [h, hMem.2] at hType
      cases hType
    simp [hNot]
  | victim => simp
  | victimCluster => simp
  | downstream => simp
  | fanoutCluster => simp

/-- The layout of a graph with one hacker. -/
theorem layoutAround_of_hacker (hIds : (nodes.map (·.id)).Nodup)
    (hHacker : nodes.filter (·.type = .hacker) = [hacker]) :
    layoutAround localeCompare nodes edges victimSort =
      [hacker.unplaced] ++ laidCluster localeCompare nodes hacker.unplaced victimSort ++
        layoutDownstreamByHopGrids localeCompare (nodes.filter isDownstream) hacker.unplaced (some hacker.id) edges
          victimSort ++
        laidVictims localeCompare nodes hacker.unplaced victimSort ++
        (nodes.filter (·.type = .other)).map Node.unplaced := by
  have hAnchor : anchorOf nodes = hacker.unplaced := by
    rw [anchorOf, findAnchorNode_hacker hHacker]
    rfl
  unfold layoutAround
  rw [hAnchor, find?_hacker hHacker, findAnchorNode_hacker hHacker]
  dsimp only
  rw [miscNodes_eq hIds hHacker]
  rfl

theorem laidVictims_perm (anchor : Node) :
    ((laidVictims localeCompare nodes anchor victimSort).map Node.unplaced).Perm
      ((nodes.filter (·.type = .victim)).map Node.unplaced) := by
  unfold laidVictims
  dsimp only
  split
  · exact layoutVictimGrid_perm _
  · next hNone =>
    rw [List.eq_nil_of_length_eq_zero (Nat.eq_zero_of_not_pos hNone)]

theorem laidCluster_perm (hCluster : (nodes.filter (·.type = .victimCluster)).length ≤ 1) (anchor : Node) :
    ((laidCluster localeCompare nodes anchor victimSort).map Node.unplaced).Perm
      ((nodes.filter (·.type = .victimCluster)).map Node.unplaced) := by
  unfold laidCluster
  rw [← List.head?_filter]
  cases hNodes : nodes.filter (·.type = .victimCluster) with
  | nil => exact List.Perm.refl _
  | cons victimCluster others =>
    rw [hNodes, List.length_cons] at hCluster
    obtain rfl : others = [] := List.eq_nil_of_length_eq_zero (by omega)
    exact layoutVictimGrid_perm _

/-- The nodes of each type make up the placed nodes. -/
theorem placed_perm (hackerId : String) :
    (nodes.filter (·.type = .hacker) ++ nodes.filter (·.type = .victimCluster) ++
      (nodes.filter isDownstream).filter
        (fun node => (hopOf (nodes.filter isDownstream) (some hackerId) edges node).isSome) ++
      nodes.filter (·.type = .victim) ++ nodes.filter (·.type = .other)).Perm
      (nodes.filter (placed nodes hackerId edges)) := by
  refine List.perm_iff_count.mpr fun n => ?_
  simp only [List.count_append, Buckets.count_filter_ite, placed]
  cases hType : n.type <;> simp [isDownstream, hType]

/-- The nodes of a part of the layout have the types of the nodes of the part. -/
theorem type_of_perm {laid nodes : List Node} (h : (laid.map Node.unplaced).Perm (nodes.map Node.unplaced))
    {n : Node} (hn : n ∈ laid) : ∃ m ∈ nodes, m.type = n.type := by
  obtain ⟨m, hm, hSame⟩ := List.mem_map.mp (h.mem_iff.mp (List.mem_map_of_mem hn))
  exact ⟨m, hm, (congrArg Node.type hSame : m.unplaced.type = n.unplaced.type)⟩

/-- The layout has each placed node once. -/
theorem unplaced_layoutAround (hIds : (nodes.map (·.id)).Nodup)
    (hHacker : nodes.filter (·.type = .hacker) = [hacker])
    (hCluster : (nodes.filter (·.type = .victimCluster)).length ≤ 1) :
    ((layoutAround localeCompare nodes edges victimSort).map Node.unplaced).Perm
      ((nodes.filter (placed nodes hacker.id edges)).map Node.unplaced) := by
  refine List.Perm.trans ?_ ((placed_perm hacker.id).map Node.unplaced)
  have hOther : ((nodes.filter (·.type = .other)).map Node.unplaced).map Node.unplaced =
      (nodes.filter (·.type = .other)).map Node.unplaced := List.map_map
  rw [layoutAround_of_hacker hIds hHacker, hHacker]
  simp only [List.map_append, hOther]
  exact ((((List.Perm.refl _).append (laidCluster_perm hCluster _)).append
    (layoutDownstreamByHopGrids_perm _ _ _)).append (laidVictims_perm _)).append_right _

/-- The types of the nodes whose rectangles are compared. -/
def boxed (node : Node) : Bool := node.type = .hacker ∨ node.type = .victim ∨ isDownstream node

theorem type_laidCluster (hCluster : (nodes.filter (·.type = .victimCluster)).length ≤ 1) {anchor n : Node}
    (hn : n ∈ laidCluster localeCompare nodes anchor victimSort) : n.type = .victimCluster := by
  obtain ⟨m, hm, hType⟩ := type_of_perm (laidCluster_perm hCluster anchor) hn
  rw [← hType]
  exact of_decide_eq_true (List.mem_filter.mp hm).2

/-- The victims are left of the hacker. -/
theorem right_laidVictims {n : Node} (hn : n ∈ laidVictims localeCompare nodes hacker.unplaced victimSort) :
    n.position.x + NODE_WIDTH < 0 := by
  unfold laidVictims at hn
  dsimp only at hn
  split at hn
  · have hRight := right_le_of_left (spaced_victimGridOptions victimSort) rfl rfl hn
    have hAnchor : hacker.unplaced.position.x - RANK_SEP < 0 := sub_neg.mpr (show 0 < RANK_SEP by decide)
    exact lt_of_le_of_lt hRight hAnchor
  · exact absurd hn List.not_mem_nil

theorem pairwise_laidVictims (anchor : Node) :
    (laidVictims localeCompare nodes anchor victimSort).Pairwise Apart := by
  unfold laidVictims
  dsimp only
  split
  · exact pairwise_layoutVictimGrid _
  · exact List.Pairwise.nil

/-- The rectangles of the hacker, the victims and the downstream nodes do not overlap. -/
theorem pairwise_layoutAround (hIds : (nodes.map (·.id)).Nodup)
    (hHacker : nodes.filter (·.type = .hacker) = [hacker])
    (hCluster : (nodes.filter (·.type = .victimCluster)).length ≤ 1) :
    ((layoutAround localeCompare nodes edges victimSort).filter boxed).Pairwise Apart := by
  obtain ⟨right, hColumns⟩ := @columns_layoutDownstreamByHopGrids localeCompare victimSort hacker.unplaced
    (nodes.filter isDownstream) (some hacker.id) edges
  have hStart : hacker.unplaced.position.x + NODE_WIDTH < downstreamColumnStartX hacker.unplaced :=
    lt_add_of_pos_right _ (show 0 < RANK_SEP by decide)
  have hPos : 0 < downstreamColumnStartX hacker.unplaced :=
    lt_trans (lt_add_of_pos_right (0 : ℚ) (show 0 < NODE_WIDTH by decide)) hStart
  have hNoCluster : (laidCluster localeCompare nodes hacker.unplaced victimSort).filter boxed = [] :=
    List.filter_eq_nil_iff.mpr fun n hn => by simp [boxed, isDownstream, type_laidCluster hCluster hn]
  have hNoOther : ((nodes.filter (·.type = .other)).map Node.unplaced).filter boxed = [] := by
    refine List.filter_eq_nil_iff.mpr fun n hn => ?_
    obtain ⟨m, hm, rfl⟩ := List.mem_map.mp hn
    have hType : m.unplaced.type = .other := of_decide_eq_true (List.mem_filter.mp hm).2
    simp [boxed, isDownstream, hType]
  rw [layoutAround_of_hacker hIds hHacker]
  simp only [List.filter_append, hNoCluster, hNoOther, List.append_nil]
  refine List.pairwise_append.mpr ⟨List.pairwise_append.mpr ⟨?_, hColumns.apart.filter _, ?_⟩,
    (pairwise_laidVictims _).filter _, ?_⟩
  · exact (List.pairwise_singleton _ _).filter _
  · intro a ha b hb
    rw [List.mem_singleton.mp (List.mem_filter.mp ha).1]
    exact Or.inl (hStart.trans_le (hColumns.bounds b (List.mem_filter.mp hb).1).1)
  · intro a ha b hb
    have hVictim := right_laidVictims (List.mem_filter.mp hb).1
    rcases List.mem_append.mp ha with ha | ha
    · rw [List.mem_singleton.mp (List.mem_filter.mp ha).1]
      exact Or.inr (Or.inl hVictim)
    · exact Or.inr (Or.inl (hVictim.trans (hPos.trans_le (hColumns.bounds a (List.mem_filter.mp ha).1).1)))

/-- The placed nodes in terms of the graph. -/
theorem placed_iff {n : Node} (hn : n ∈ nodes) (hackerId : String) :
    placed nodes hackerId edges n = true ↔ (isDownstream n → (∃ hop, n.hopFromHacker = some hop ∧ 0 ≤ hop) ∨
      Reached hackerId ((nodes.filter isDownstream).map (·.id)) edges n.id) := by
  unfold placed
  cases hDown : isDownstream n with
  | false => simp
  | true =>
    have hMem : n ∈ nodes.filter isDownstream := List.mem_filter.mpr ⟨hn, hDown⟩
    rw [Bool.not_true, Bool.false_or, hopOf_isSome hMem]
    simp

end Whole

/-- Around the one hacker of a graph with distinct ids, the layout has each node once, but for the downstream nodes
that have no hop in their data and that the loaded edges do not reach; the rectangles do not overlap. -/
theorem layoutGraph_places (localeCompare : String → String → Int) (nodes : List Node) (edges : List Edge)
    (victimSort : VictimSortOption) (hacker : Node) (hIds : (nodes.map (·.id)).Nodup)
    (hHacker : nodes.filter (·.type = .hacker) = [hacker])
    (hCluster : (nodes.filter (·.type = .victimCluster)).length ≤ 1) :
    (∃ kept : List Node, kept.Sublist nodes ∧
      (∀ n ∈ nodes, n ∈ kept ↔ (isDownstream n → (∃ hop, n.hopFromHacker = some hop ∧ 0 ≤ hop) ∨
        Reached hacker.id ((nodes.filter isDownstream).map (·.id)) edges n.id)) ∧
      ((layoutGraph localeCompare nodes edges .hacker victimSort).map Node.unplaced).Perm
        (kept.map Node.unplaced)) ∧
    ((layoutGraph localeCompare nodes edges .hacker victimSort).filter boxed).Pairwise Apart := by
  have hMode : layoutGraph localeCompare nodes edges .hacker victimSort =
      layoutAround localeCompare nodes edges victimSort := rfl
  rw [hMode]
  refine ⟨⟨nodes.filter (placed nodes hacker.id edges), List.filter_sublist, fun n hn => ?_,
    unplaced_layoutAround hIds hHacker hCluster⟩, pairwise_layoutAround hIds hHacker hCluster⟩
  rw [List.mem_filter, and_iff_right hn, placed_iff hn]

theorem layoutGraph_places_cycle :
    ((layoutGraph (fun a b => if a < b then -1 else if b < a then 1 else 0)
      [{ id := "hack", type := .hacker }, { id := "v", type := .victim }, { id := "c", type := .victimCluster },
        { id := "d1", type := .downstream }, { id := "d2", type := .downstream },
        { id := "f", type := .fanoutCluster, hopFromHacker := some 3 }]
      [⟨"hack", "d1"⟩, ⟨"d1", "d2"⟩, ⟨"d2", "d1"⟩] .hacker .btcDesc).filter boxed).Pairwise Apart :=
  (layoutGraph_places _ _ _ _ { id := "hack", type := .hacker } (by decide) (by decide) (by decide)).2

/-- A downstream node without an edge and without a hop is not laid out. -/
theorem unreached_not_placed :
    ((layoutGraph (fun a b => if a < b then -1 else if b < a then 1 else 0)
      [{ id := "hack", type := .hacker }, { id := "d1", type := .downstream }] [] .hacker .btcDesc).map
        (·.id)).count "d1" = 0 := by
  have hPerm := (@unplaced_layoutAround (fun a b => if a < b then -1 else if b < a then 1 else 0)
    [{ id := "hack", type := .hacker }, { id := "d1", type := .downstream }] [] .btcDesc
    { id := "hack", type := .hacker } (by decide) (by decide) (by decide)).map (·.id)
  rw [List.map_map, List.map_map] at hPerm
  refine (hPerm.count_eq "d1").trans (List.count_eq_zero_of_not_mem fun hMem => ?_)
  obtain ⟨n, hn, hId⟩ := List.mem_map.mp hMem
  obtain ⟨hNode, hPlaced⟩ := List.mem_filter.mp hn
  have hShown := (placed_iff hNode "hack").mp hPlaced
  rcases List.mem_pair.mp hNode with rfl | rfl
  · exact absurd hId (by decide)
  · rcases hShown rfl with ⟨hop, hHop, _⟩ | hReached
    · exact absurd hHop (by simp)
    · cases hReached with
      | direct hEdge _ => exact List.not_mem_nil hEdge
      | further _ hEdge _ => exact List.not_mem_nil hEdge

end Bloodhound.Web.Layout
