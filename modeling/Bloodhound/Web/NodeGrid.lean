import Mathlib.Data.Rat.Cast.Order
import Mathlib.Data.List.Sort
import Bloodhound.Lib.Rectangles

/-!
# Grids of nodes

`layoutNodeGrid` of the web client's `layoutGraph.ts`: the nodes are sorted and put into columns, beside an
anchor. With a limit for a block, the columns are cut into blocks, which are stacked; the height of a block is
computed apart from the positions in it.

* `layoutNodeGrid_perm`: a grid has the given nodes.
* `pairwise_layoutNodeGrid`: the nodes of a grid do not overlap.
-/

namespace Bloodhound.Web.Layout

open Rectangles

/-! ## Nodes -/

/-- The last type stands for all types that the layout does not name. -/
inductive NodeType where
  | hacker
  | victim
  | victimCluster
  | downstream
  | fanoutCluster
  | other
  deriving DecidableEq

abbrev Position := Point ℚ

/-- `Node`, with the data that the layout reads. -/
structure Node where
  id : String
  type : NodeType
  incomingSats : Option Int := none
  latestTxTime : Option String := none
  earliestTxTime : Option String := none
  hopFromHacker : Option Int := none
  position : Position := ⟨0, 0⟩
  deriving DecidableEq

def Node.setPosition (node : Node) (position : Position) : Node := { node with position := position }

/-- A node without its position. -/
def Node.unplaced (node : Node) : Node := node.setPosition ⟨0, 0⟩

def NODE_WIDTH : ℚ := 200
def NODE_HEIGHT : ℚ := 200
def MAX_ROWS_PER_COLUMN : Nat := 10
def MAX_COLS_PER_BLOCK : Nat := 10
def MAX_NODES_PER_HOP_BLOCK : Nat := 100
def HOP_GRID_COLS : Nat := 10
def ROW_GAP : ℚ := 24
def COL_GAP : ℚ := 40
def RANK_SEP : ℚ := 100
def BLOCK_GAP : ℚ := 80

inductive VictimSortOption where
  | btcDesc
  | btcAsc
  | dateDesc
  | dateAsc

inductive Side where
  | left
  | right
  deriving DecidableEq

structure NodeGridOptions where
  side : Side
  maxRows : Nat := MAX_ROWS_PER_COLUMN
  maxCols : Option Nat := none
  maxNodesPerBlock : Option Nat := none
  nodeWidth : ℚ := NODE_WIDTH
  nodeHeight : ℚ := NODE_HEIGHT
  rowGap : ℚ := ROW_GAP
  colGap : ℚ := COL_GAP
  blockGap : ℚ := BLOCK_GAP
  sortBy : VictimSortOption := .btcDesc

/-! ## The order of the nodes -/

section Order

variable (localeCompare : String → String → Int)

/-- A missing time and an empty one come last. -/
def compareIsoTime (a b : Option String) (asc : Bool) : Int :=
  if a.getD "" = "" ∧ b.getD "" = "" then 0
  else if a.getD "" = "" then 1
  else if b.getD "" = "" then -1
  else if asc then localeCompare (a.getD "") (b.getD "") else localeCompare (b.getD "") (a.getD "")

def nodeIncomingSats (node : Node) : Int := node.incomingSats.getD 0

def compareGridNodes (a b : Node) (sortBy : VictimSortOption) : Int :=
  let compared := match sortBy with
    | .btcAsc => nodeIncomingSats a - nodeIncomingSats b
    | .dateDesc => compareIsoTime localeCompare a.latestTxTime b.latestTxTime false
    | .dateAsc => compareIsoTime localeCompare a.earliestTxTime b.earliestTxTime true
    | .btcDesc => nodeIncomingSats b - nodeIncomingSats a
  if compared ≠ 0 then compared else localeCompare a.id b.id

def sortNodes (sortBy : VictimSortOption) (nodes : List Node) : List Node :=
  nodes.mergeSort fun a b => compareGridNodes localeCompare a b sortBy ≤ 0

end Order

/-! ## Blocks -/

/-- The quotient, rounded up. -/
def ceilDiv (count size : Nat) : Nat := (count + size - 1) / size

def columnsInBlock (count maxRows : Nat) (maxCols : Option Nat) : Nat :=
  if count = 0 then 0
  else match maxCols with
    | none => ceilDiv count maxRows
    | some maxCols => min maxCols (ceilDiv count maxRows)

def tallestColumnInBlock (count maxRows : Nat) (maxCols : Option Nat) : Nat :=
  if count = 0 then 0 else if columnsInBlock count maxRows maxCols ≤ 1 then min maxRows count else maxRows

def blockHeight (count maxRows : Nat) (maxCols : Option Nat) (nodeHeight rowGap : ℚ) : ℚ :=
  let tallest := tallestColumnInBlock count maxRows maxCols
  if tallest = 0 then 0 else tallest * nodeHeight + (tallest - 1) * rowGap

def NodeGridOptions.height (o : NodeGridOptions) (count : Nat) : ℚ :=
  blockHeight count o.maxRows o.maxCols o.nodeHeight o.rowGap

def positionInBlock (o : NodeGridOptions) (anchor : Node) (blockOriginX blockOriginY : ℚ) (indexInBlock : Nat) :
    Position :=
  let colOffset : ℚ := (indexInBlock / o.maxRows : Nat) * (o.nodeWidth + o.colGap)
  { x := match o.side with
      | .left => anchor.position.x - RANK_SEP - o.nodeWidth - colOffset
      | .right => blockOriginX + colOffset
    y := blockOriginY + (indexInBlock % o.maxRows : Nat) * (o.nodeHeight + o.rowGap) }

def layoutBlock (o : NodeGridOptions) (anchor : Node) (blockOriginX blockOriginY : ℚ) (nodes : List Node) :
    List Node :=
  nodes.mapIdx fun i node => node.setPosition (positionInBlock o anchor blockOriginX blockOriginY i)

/-- The heights of the blocks of some nodes. -/
def blockHeights (o : NodeGridOptions) (maxNodesPerBlock count : Nat) : List ℚ :=
  (List.range (ceilDiv count maxNodesPerBlock)).map fun blockIndex =>
    o.height (min maxNodesPerBlock (count - blockIndex * maxNodesPerBlock))

/-- A block is put under the blocks before it. -/
def stackBlock (o : NodeGridOptions) (anchor : Node) (blockOriginX : ℚ) (maxNodesPerBlock : Nat)
    (sorted : List Node) (state : ℚ × List Node) (blockIndex : Nat) : ℚ × List Node :=
  let blockNodes := (sorted.drop (blockIndex * maxNodesPerBlock)).take maxNodesPerBlock
  (state.1 + ((blockHeights o maxNodesPerBlock sorted.length).getD blockIndex 0 + o.blockGap),
    state.2 ++ layoutBlock o anchor blockOriginX state.1 blockNodes)

def layoutNodeGrid (localeCompare : String → String → Int) (nodes : List Node) (anchor : Node)
    (o : NodeGridOptions) : List Node :=
  let sorted := sortNodes localeCompare o.sortBy nodes
  let anchorCenterY := anchor.position.y + o.nodeHeight / 2
  match o.maxNodesPerBlock with
  | none =>
    let gridTopY := anchorCenterY - o.height sorted.length / 2
    let blockOriginX := match o.side with
      | .right => anchor.position.x + RANK_SEP
      | .left => anchor.position.x - RANK_SEP - o.nodeWidth
    layoutBlock o anchor blockOriginX gridTopY sorted
  | some maxNodesPerBlock =>
    let blockCount := ceilDiv sorted.length maxNodesPerBlock
    let totalStackHeight := (blockHeights o maxNodesPerBlock sorted.length).foldl (· + ·) 0 +
      ((blockCount - 1 : Nat) : ℚ) * o.blockGap
    let stackTopY := anchorCenterY - totalStackHeight / 2
    let blockOriginX := anchor.position.x + RANK_SEP
    ((List.range blockCount).foldl (stackBlock o anchor blockOriginX maxNodesPerBlock sorted) (stackTopY, [])).2

/-! ## One block -/

/-- Nodes have a size and gaps between them. -/
structure NodeGridOptions.Spaced (o : NodeGridOptions) : Prop where
  maxRows : 0 < o.maxRows
  nodeWidth : 0 ≤ o.nodeWidth
  nodeHeight : 0 ≤ o.nodeHeight
  rowGap : 0 < o.rowGap
  colGap : 0 < o.colGap
  blockGap : 0 < o.blockGap

/-- The default sizes and gaps. -/
theorem spaced_default (side : Side) (maxCols maxNodesPerBlock : Option Nat) (sortBy : VictimSortOption) :
    NodeGridOptions.Spaced { side, maxCols, maxNodesPerBlock, sortBy } where
  maxRows := show 0 < MAX_ROWS_PER_COLUMN by decide
  nodeWidth := show 0 ≤ NODE_WIDTH by decide
  nodeHeight := show 0 ≤ NODE_HEIGHT by decide
  rowGap := show 0 < ROW_GAP by decide
  colGap := show 0 < COL_GAP by decide
  blockGap := show 0 < BLOCK_GAP by decide

def NodeGridOptions.Apart (o : NodeGridOptions) (a b : Node) : Prop :=
  Rectangles.Apart o.nodeWidth o.nodeHeight a.position b.position

section Block

variable {o : NodeGridOptions} {anchor : Node} {left top : ℚ} {nodes : List Node}

theorem unplaced_layoutBlock :
    (layoutBlock o anchor left top nodes).map Node.unplaced = nodes.map Node.unplaced := by
  refine List.ext_getElem (by simp [layoutBlock]) fun i _ _ => ?_
  simp only [layoutBlock, List.getElem_map, List.getElem_mapIdx]
  rfl

theorem mem_layoutBlock {n : Node} (hn : n ∈ layoutBlock o anchor left top nodes) :
    ∃ i < nodes.length, n.position = positionInBlock o anchor left top i := by
  obtain ⟨i, hi, rfl⟩ := List.mem_mapIdx.mp hn
  exact ⟨i, hi, rfl⟩

/-- The positions of a block are the cells of a grid. -/
theorem positionInBlock_cell (o : NodeGridOptions) (anchor : Node) (left top : ℚ) :
    ∃ s start : ℚ, (s = 1 ∨ s = -1) ∧ ∀ i, positionInBlock o anchor left top i =
      cell s start top (o.nodeWidth + o.colGap) (o.nodeHeight + o.rowGap) o.maxRows i := by
  cases hSide : o.side with
  | left =>
    refine ⟨-1, anchor.position.x - RANK_SEP - o.nodeWidth, Or.inr rfl, fun i => ?_⟩
    simp only [positionInBlock, cell, hSide, neg_one_mul, sub_eq_add_neg]
  | right =>
    refine ⟨1, left, Or.inl rfl, fun i => ?_⟩
    simp only [positionInBlock, cell, hSide, one_mul]

theorem pairwise_layoutBlock (h : o.Spaced) : (layoutBlock o anchor left top nodes).Pairwise o.Apart := by
  obtain ⟨s, start, hs, hCell⟩ := positionInBlock_cell o anchor left top
  rw [List.pairwise_iff_getElem]
  intro i j _ _ hLt
  simp only [layoutBlock, List.getElem_mapIdx, NodeGridOptions.Apart, Node.setPosition, hCell]
  exact apart_cells hs (lt_add_of_pos_right _ h.colGap) (add_nonneg h.nodeWidth h.colGap.le)
    (lt_add_of_pos_right _ h.rowGap) (add_nonneg h.nodeHeight h.rowGap.le) (Nat.ne_of_lt hLt)

/-- The row of a node is in the tallest column. -/
theorem row_lt_tallest {count i : Nat} (h : 0 < o.maxRows) (hi : i < count) :
    i % o.maxRows < tallestColumnInBlock count o.maxRows o.maxCols := by
  have hRow := Nat.mod_lt i h
  have hLow := Nat.mod_le i o.maxRows
  unfold tallestColumnInBlock
  rw [if_neg (by omega)]
  split <;> omega

theorem height_nonneg (h : o.Spaced) (count : Nat) : 0 ≤ o.height count := by
  unfold NodeGridOptions.height blockHeight
  dsimp only
  split
  · exact le_refl 0
  · next hSome =>
    have hOne : (1 : ℚ) ≤ tallestColumnInBlock count o.maxRows o.maxCols := by
      exact_mod_cast Nat.one_le_iff_ne_zero.mpr hSome
    have hRows := mul_nonneg (zero_le_one.trans hOne) h.nodeHeight
    have hGaps := mul_nonneg (sub_nonneg.mpr hOne) h.rowGap.le
    exact add_nonneg hRows hGaps

/-- No node of a block reaches below the height of the block. -/
theorem bottom_le {count i : Nat} (h : o.Spaced) (hi : i < count) :
    (positionInBlock o anchor left top i).y + o.nodeHeight ≤ top + o.height count := by
  have hRow := row_lt_tallest h.maxRows hi
  unfold NodeGridOptions.height blockHeight
  rw [if_neg (by omega)]
  generalize tallestColumnInBlock count o.maxRows o.maxCols = tallest at hRow ⊢
  have hCast : ((i % o.maxRows : Nat) : ℚ) ≤ tallest - 1 := by
    have hSucc : ((i % o.maxRows + 1 : Nat) : ℚ) ≤ tallest := by exact_mod_cast hRow
    push_cast at hSucc
    linarith
  have hRows := mul_le_mul_of_nonneg_right hCast (add_nonneg h.nodeHeight h.rowGap.le)
  simp only [positionInBlock]
  linarith

end Block

/-! ## Stacked blocks -/

section Stack

variable {o : NodeGridOptions} {anchor : Node} {left : ℚ} {maxNodesPerBlock : Nat} {sorted : List Node}

/-- What holds of the nodes above a height, after some blocks of at most `size` nodes. -/
structure Stacked (o : NodeGridOptions) (anchor : Node) (left : ℚ) (size : Nat) (state : ℚ × List Node) : Prop where
  apart : state.2.Pairwise o.Apart
  above : ∀ n ∈ state.2, n.position.y + o.nodeHeight < state.1
  column : ∀ n ∈ state.2, ∃ i < size, ∃ top, n.position = positionInBlock o anchor left top i

theorem Stacked.block {state : ℚ × List Node} (hState : Stacked o anchor left maxNodesPerBlock state) (h : o.Spaced)
    {nodes : List Node} (hSize : nodes.length ≤ maxNodesPerBlock) :
    Stacked o anchor left maxNodesPerBlock (state.1 + (o.height nodes.length + o.blockGap),
      state.2 ++ layoutBlock o anchor left state.1 nodes) where
  apart := by
    refine List.pairwise_append.mpr ⟨hState.apart, pairwise_layoutBlock h, fun a ha b hb => ?_⟩
    obtain ⟨i, _, hPosition⟩ := mem_layoutBlock hb
    have hBelow : state.1 ≤ b.position.y := by
      rw [hPosition]
      exact le_add_of_nonneg_right (mul_nonneg (Nat.cast_nonneg _) (add_nonneg h.nodeHeight h.rowGap.le))
    exact Or.inr (Or.inr (Or.inl ((hState.above a ha).trans_le hBelow)))
  above n hn := by
    have hGap := h.blockGap
    rcases List.mem_append.mp hn with hn | hn
    · have hAbove := hState.above n hn
      have hHeight := height_nonneg h nodes.length
      dsimp only
      linarith
    · obtain ⟨i, hi, hPosition⟩ := mem_layoutBlock hn
      have hBottom := @bottom_le o anchor left state.1 _ _ h hi
      rw [hPosition]
      dsimp only
      linarith
  column n hn := by
    rcases List.mem_append.mp hn with hn | hn
    · exact hState.column n hn
    · obtain ⟨i, hi, hPosition⟩ := mem_layoutBlock hn
      exact ⟨i, hi.trans_le hSize, state.1, hPosition⟩

theorem getD_blockHeights {count blockIndex : Nat} (hIndex : blockIndex < ceilDiv count maxNodesPerBlock) :
    (blockHeights o maxNodesPerBlock count).getD blockIndex 0 =
      o.height (min maxNodesPerBlock (count - blockIndex * maxNodesPerBlock)) := by
  rw [List.getD_eq_getElem?_getD, blockHeights, List.getElem?_map, List.getElem?_range hIndex]
  rfl

/-- After `k` blocks the first nodes are stacked. -/
theorem stackBlocks_spec (h : o.Spaced) (top : ℚ) {k : Nat} (hk : k ≤ ceilDiv sorted.length maxNodesPerBlock) :
    let state := (List.range k).foldl (stackBlock o anchor left maxNodesPerBlock sorted) (top, [])
    Stacked o anchor left maxNodesPerBlock state ∧
      state.2.map Node.unplaced = (sorted.take (k * maxNodesPerBlock)).map Node.unplaced := by
  induction k with
  | zero =>
    refine ⟨⟨List.Pairwise.nil, fun n hn => absurd hn List.not_mem_nil, fun n hn => absurd hn List.not_mem_nil⟩, ?_⟩
    rw [Nat.zero_mul, List.take_zero]
    rfl
  | succ k ih =>
    obtain ⟨hStacked, hNodes⟩ := ih (by omega)
    rw [List.range_succ, List.foldl_append, List.foldl_cons, List.foldl_nil]
    generalize (List.range k).foldl (stackBlock o anchor left maxNodesPerBlock sorted) (top, []) = state at *
    have hLength : ((sorted.drop (k * maxNodesPerBlock)).take maxNodesPerBlock).length =
        min maxNodesPerBlock (sorted.length - k * maxNodesPerBlock) := by
      rw [List.length_take, List.length_drop]
    have hBlock := hStacked.block h (hLength.trans_le (Nat.min_le_left _ _))
    rw [hLength, ← getD_blockHeights hk] at hBlock
    refine ⟨hBlock, ?_⟩
    unfold stackBlock
    dsimp only
    rw [List.map_append, hNodes, unplaced_layoutBlock, ← List.map_append, ← List.take_add, Nat.succ_mul]

theorem length_le_ceilDiv {count size : Nat} (hSize : 0 < size) : count ≤ ceilDiv count size * size := by
  have hMod := Nat.div_add_mod (count + size - 1) size
  have hLt := Nat.mod_lt (count + size - 1) hSize
  unfold ceilDiv
  rw [Nat.mul_comm]
  omega

end Stack

/-! ## Grids -/

section Grid

variable {localeCompare : String → String → Int} {nodes : List Node} {anchor : Node} {o : NodeGridOptions}

theorem layoutNodeGrid_one (hNone : o.maxNodesPerBlock = none) :
    ∃ left top, layoutNodeGrid localeCompare nodes anchor o =
      layoutBlock o anchor left top (sortNodes localeCompare o.sortBy nodes) := by
  unfold layoutNodeGrid
  rw [hNone]
  exact ⟨_, _, rfl⟩

theorem layoutNodeGrid_stacked (h : o.Spaced) {size : Nat} (hSome : o.maxNodesPerBlock = some size)
    (hSize : 0 < size) :
    ∃ top, Stacked o anchor (anchor.position.x + RANK_SEP) size (top, layoutNodeGrid localeCompare nodes anchor o) ∧
      (layoutNodeGrid localeCompare nodes anchor o).map Node.unplaced =
        (sortNodes localeCompare o.sortBy nodes).map Node.unplaced := by
  have hAll := @length_le_ceilDiv (sortNodes localeCompare o.sortBy nodes).length size hSize
  unfold layoutNodeGrid
  rw [hSome]
  dsimp only
  obtain ⟨hStacked, hNodes⟩ := stackBlocks_spec h _ (Nat.le_refl _)
  rw [List.take_of_length_le hAll] at hNodes
  exact ⟨_, hStacked, hNodes⟩

/-- A grid has the given nodes. -/
theorem layoutNodeGrid_perm (h : o.Spaced) (hSize : ∀ size ∈ o.maxNodesPerBlock, 0 < size) :
    ((layoutNodeGrid localeCompare nodes anchor o).map Node.unplaced).Perm (nodes.map Node.unplaced) := by
  have hSorted : (sortNodes localeCompare o.sortBy nodes).Perm nodes := List.mergeSort_perm nodes _
  refine List.Perm.trans (List.Perm.of_eq ?_) (hSorted.map Node.unplaced)
  cases hBlocks : o.maxNodesPerBlock with
  | none =>
    obtain ⟨left, top, hGrid⟩ := @layoutNodeGrid_one localeCompare nodes anchor o hBlocks
    rw [hGrid, unplaced_layoutBlock]
  | some size =>
    obtain ⟨_, _, hNodes⟩ :=
      @layoutNodeGrid_stacked localeCompare nodes anchor o h size hBlocks (hSize size hBlocks)
    exact hNodes

/-- The nodes of a grid do not overlap. -/
theorem pairwise_layoutNodeGrid (h : o.Spaced) (hSize : ∀ size ∈ o.maxNodesPerBlock, 0 < size) :
    (layoutNodeGrid localeCompare nodes anchor o).Pairwise o.Apart := by
  cases hBlocks : o.maxNodesPerBlock with
  | none =>
    obtain ⟨left, top, hGrid⟩ := @layoutNodeGrid_one localeCompare nodes anchor o hBlocks
    rw [hGrid]
    exact pairwise_layoutBlock h
  | some size =>
    obtain ⟨_, hStacked, _⟩ :=
      @layoutNodeGrid_stacked localeCompare nodes anchor o h size hBlocks (hSize size hBlocks)
    exact hStacked.apart

/-- A grid on the left ends before its anchor. -/
theorem right_le_of_left (h : o.Spaced) (hNone : o.maxNodesPerBlock = none) (hSide : o.side = .left) {n : Node}
    (hn : n ∈ layoutNodeGrid localeCompare nodes anchor o) :
    n.position.x + o.nodeWidth ≤ anchor.position.x - RANK_SEP := by
  obtain ⟨left, top, hGrid⟩ := @layoutNodeGrid_one localeCompare nodes anchor o hNone
  rw [hGrid] at hn
  obtain ⟨i, _, hPosition⟩ := mem_layoutBlock hn
  have hOffset : (0 : ℚ) ≤ (i / o.maxRows : Nat) * (o.nodeWidth + o.colGap) :=
    mul_nonneg (Nat.cast_nonneg _) (add_nonneg h.nodeWidth h.colGap.le)
  rw [hPosition]
  simp only [positionInBlock, hSide]
  linarith

/-- A grid of blocks on the right begins after its anchor, and has the columns of a block. -/
theorem bounds_of_right (h : o.Spaced) {size : Nat} (hSome : o.maxNodesPerBlock = some size) (hSize : 0 < size)
    (hSide : o.side = .right) {n : Node} (hn : n ∈ layoutNodeGrid localeCompare nodes anchor o) :
    anchor.position.x + RANK_SEP ≤ n.position.x ∧
      n.position.x ≤ anchor.position.x + RANK_SEP +
        ((size - 1) / o.maxRows : Nat) * (o.nodeWidth + o.colGap) := by
  obtain ⟨_, hStacked, _⟩ := @layoutNodeGrid_stacked localeCompare nodes anchor o h size hSome hSize
  obtain ⟨i, hi, top, hPosition⟩ := hStacked.column n hn
  have hStep := add_nonneg h.nodeWidth h.colGap.le
  have hColumn : ((i / o.maxRows : Nat) : ℚ) ≤ ((size - 1) / o.maxRows : Nat) :=
    Nat.cast_le.mpr (Nat.div_le_div_right (by omega))
  rw [hPosition]
  simp only [positionInBlock, hSide]
  exact ⟨le_add_of_nonneg_right (mul_nonneg (Nat.cast_nonneg _) hStep),
    add_le_add_right (mul_le_mul_of_nonneg_right hColumn hStep) _⟩

end Grid

end Bloodhound.Web.Layout
