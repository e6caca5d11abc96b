import Bloodhound.Lib.Buckets
import Bloodhound.Lib.Tally
import Bloodhound.Store.Edges

/-!
# Edges of a displayed graph

`graphEdges.ts`: a stored edge becomes an edge of the displayed graph, and parallel edges of one page are
drawn as one. The identifiers are strings of the form `source->target:txid` and `source->target:bundle` in the
source and values here.

* `total_bundleParallelEdges`, `count_bundleParallelEdges`: bundling keeps, for each ordered pair of nodes, the
  total amount and the number of transactions.
-/

namespace Bloodhound.Graph

open Bloodhound.Store

/-! ## Nodes and edges -/

/-- An address, or a cluster of victims or of outputs. -/
inductive NodeId where
  | address (a : Address)
  | victims (hacker : Address)
  | fanout (parent : Address)
  deriving DecidableEq

/-- `source->target:txid`, `source->target:bundle` and `source->target`. -/
inductive EdgeId where
  | tx (source target : NodeId) (txid : Txid)
  | bundle (source target : NodeId)
  | cluster (source target : NodeId)
  deriving DecidableEq

/-- The kinds of displayed edges. -/
inductive DisplayKind where
  | default
  | peelRelay
  | stored (kind : EdgeKind)
  deriving DecidableEq

/-- `MappedGraphEdge`; the number of transactions and their ids are there for a bundle only. -/
structure GraphEdge where
  id : EdgeId
  source : NodeId
  target : NodeId
  txid : Option Txid
  amount : Int
  time : Option Nat
  edgeKind : Option DisplayKind := none
  bundled : Bool := false
  edgeCount : Option Nat := none
  txids : Option (List Txid) := none
  totalAmount : Option Int := none
  outputCount : Option Nat := none
  topOutputs : Option (List (Address × Int)) := none
  deriving DecidableEq

/-- A row of `edges` with its key. -/
structure Edge where
  key : EdgeKey
  row : EdgeRow
  deriving DecidableEq

def Edge.toAddress (e : Edge) : Address := e.key.toAddress

def mapDbEdgeToGraph (source target : Address) (e : Edge) : GraphEdge :=
  let edgeKind := e.row.edgeKind.elim .default DisplayKind.stored
  let base : GraphEdge :=
    { id := .tx (.address source) (.address target) e.key.txid
      source := .address source
      target := .address target
      txid := some e.key.txid
      amount := e.row.amountSats
      time := e.row.blockTime
      edgeKind := some edgeKind }
  if e.row.edgeKind = some .spendFanout then
    e.row.fanoutMeta.elim base fun fanoutMeta =>
      { base with outputCount := some fanoutMeta.outputCount, topOutputs := some fanoutMeta.topOutputs }
  else base

/-! ## Bundles -/

def skipParallelBundle : Option DisplayKind → Bool
  | some (.stored _) => true
  | _ => false

/-- The edges of one ordered pair, with the pair of the first one. -/
def groupOf (edges : List GraphEdge) (pair : NodeId × NodeId) : List GraphEdge :=
  edges.filter fun e => (e.source, e.target) = pair

/-- The groups in the order in which their pairs first occur. -/
def groups (edges : List GraphEdge) : List (List GraphEdge) :=
  ((edges.map fun e => (e.source, e.target)).reverse.dedup.reverse).map (groupOf edges)

/-- The edge that stands for a group. -/
def bundleOf (sample : GraphEdge) (group : List GraphEdge) : GraphEdge :=
  let totalAmount := (group.map (·.amount)).sum
  { id := .bundle sample.source sample.target
    source := sample.source
    target := sample.target
    txid := sample.txid
    amount := totalAmount
    time := sample.time
    edgeKind := some .peelRelay
    bundled := true
    edgeCount := some group.length
    txids := some ((group.filterMap (·.txid)).take 5)
    totalAmount := some totalAmount }

def bundleGroup (minBundle : Nat) (group : List GraphEdge) : List GraphEdge :=
  match group with
  | [] => []
  | sample :: _ => if minBundle ≤ group.length then [bundleOf sample group] else group

def bundleParallelEdges (edges : List GraphEdge) (minBundle : Nat) : List GraphEdge :=
  let passthrough := edges.filter fun e => skipParallelBundle e.edgeKind
  let others := edges.filter fun e => !skipParallelBundle e.edgeKind
  passthrough ++ (groups others).flatMap (bundleGroup minBundle)

/-- A measure of the edges of one ordered pair. -/
def between (measure : GraphEdge → Int) (edges : List GraphEdge) (pair : NodeId × NodeId) : Int :=
  ((groupOf edges pair).map measure).sum

section Between

variable {measure : GraphEdge → Int} {edges : List GraphEdge} {minBundle : Nat}

theorem between_append (front rear : List GraphEdge) (pair : NodeId × NodeId) :
    between measure (front ++ rear) pair = between measure front pair + between measure rear pair := by
  unfold between groupOf
  rw [List.filter_append, List.map_append, List.sum_append]

theorem between_perm {edges edges' : List GraphEdge} (h : edges.Perm edges') (pair : NodeId × NodeId) :
    between measure edges pair = between measure edges' pair :=
  ((h.filter _).map _).sum_eq

/-- Every edge is in one group. -/
theorem flatten_groups_perm (edges : List GraphEdge) : (groups edges).flatten.Perm edges := by
  unfold groups groupOf
  rw [← List.flatMap_def]
  refine List.perm_iff_count.mpr fun e => ?_
  rw [Buckets.count_flatMap_filter (List.nodup_reverse.mpr (List.nodup_dedup _))]
  split
  · rfl
  · next hNot =>
    refine (List.count_eq_zero_of_not_mem fun he => hNot ?_).symm
    exact List.mem_reverse.mpr (List.mem_dedup.mpr (List.mem_reverse.mpr (List.mem_map.mpr ⟨e, he, rfl⟩)))

theorem pair_of_mem_groups {group : List GraphEdge} (hGroup : group ∈ groups edges) :
    (∃ pair, ∀ e ∈ group, (e.source, e.target) = pair) ∧ ∀ e ∈ group, e ∈ edges := by
  obtain ⟨pair, _, rfl⟩ := List.mem_map.mp hGroup
  exact ⟨⟨pair, fun e he => of_decide_eq_true (List.mem_filter.mp he).2⟩, fun e he => (List.mem_filter.mp he).1⟩

/-- One edge in the place of a group keeps a measure that it has as a whole. -/
theorem between_bundleGroup {group : List GraphEdge} (hPair : ∃ pair, ∀ e ∈ group, (e.source, e.target) = pair)
    (hBundle : ∀ sample, measure (bundleOf sample group) = (group.map measure).sum) (pair : NodeId × NodeId) :
    between measure (bundleGroup minBundle group) pair = between measure group pair := by
  obtain ⟨own, hOwn⟩ := hPair
  unfold bundleGroup
  split
  · rfl
  · next sample rest =>
    split
    · have hSample : ((bundleOf sample (sample :: rest)).source, (bundleOf sample (sample :: rest)).target) = own :=
        hOwn sample List.mem_cons_self
      unfold between groupOf
      by_cases hSame : own = pair
      · have hAll : (sample :: rest).filter (fun e => (e.source, e.target) = pair) = sample :: rest :=
          List.filter_eq_self.mpr fun e he => decide_eq_true ((hOwn e he).trans hSame)
        rw [hAll, ← hBundle sample, List.filter_singleton, decide_eq_true (hSample.trans hSame)]
        exact List.sum_singleton
      · have hNone : (sample :: rest).filter (fun e => (e.source, e.target) = pair) = [] :=
          List.filter_eq_nil_iff.mpr fun e he h => hSame ((hOwn e he).symm.trans (of_decide_eq_true h))
        have hNot := fun h => hSame (hSample.symm.trans h)
        rw [hNone, List.filter_singleton, decide_eq_false hNot]
        rfl
    · rfl

theorem between_flatMap_bundleGroup {gs : List (List GraphEdge)}
    (hPair : ∀ group ∈ gs, ∃ pair, ∀ e ∈ group, (e.source, e.target) = pair)
    (hBundle : ∀ group ∈ gs, ∀ sample, measure (bundleOf sample group) = (group.map measure).sum)
    (pair : NodeId × NodeId) :
    between measure (gs.flatMap (bundleGroup minBundle)) pair = between measure gs.flatten pair := by
  induction gs with
  | nil => rfl
  | cons group gs ih =>
    obtain ⟨hHere, hRest⟩ := List.forall_mem_cons.mp hPair
    obtain ⟨hThis, hOthers⟩ := List.forall_mem_cons.mp hBundle
    rw [List.flatMap_cons, List.flatten_cons, between_append, between_append,
      between_bundleGroup hHere hThis, ih hRest hOthers]

theorem between_bundleParallelEdges
    (hBundle : ∀ sample group, (∀ e ∈ group, e ∈ edges) →
      measure (bundleOf sample group) = (group.map measure).sum) (pair : NodeId × NodeId) :
    between measure (bundleParallelEdges edges minBundle) pair = between measure edges pair := by
  unfold bundleParallelEdges
  dsimp only
  rw [between_append, between_flatMap_bundleGroup (fun group h => (pair_of_mem_groups h).1) fun group h sample =>
      hBundle sample group fun e he => List.mem_of_mem_filter ((pair_of_mem_groups h).2 e he),
    between_perm (flatten_groups_perm _), ← between_append]
  exact between_perm (List.filter_append_perm _ edges) pair

end Between

/-- The total amount between two nodes. -/
theorem total_bundleParallelEdges (edges : List GraphEdge) (minBundle : Nat) (pair : NodeId × NodeId) :
    between (·.amount) (bundleParallelEdges edges minBundle) pair = between (·.amount) edges pair :=
  between_bundleParallelEdges (fun _ _ _ => rfl) pair

/-- The number of transactions that an edge stands for. -/
def GraphEdge.transactions (e : GraphEdge) : Int := e.edgeCount.getD 1

/-- The number of transactions between two nodes, when no edge is a bundle yet. -/
theorem count_bundleParallelEdges {edges : List GraphEdge} (hSingle : ∀ e ∈ edges, e.edgeCount = none)
    (minBundle : Nat) (pair : NodeId × NodeId) :
    between GraphEdge.transactions (bundleParallelEdges edges minBundle) pair =
      between GraphEdge.transactions edges pair := by
  refine between_bundleParallelEdges (fun sample group hGroup => ?_) pair
  have hOnes : group.map GraphEdge.transactions = List.replicate group.length 1 :=
    List.eq_replicate_iff.mpr ⟨List.length_map _, fun d hd => by
      obtain ⟨e, he, rfl⟩ := List.mem_map.mp hd
      rw [GraphEdge.transactions, hSingle e (hGroup e he)]
      rfl⟩
  rw [hOnes, List.sum_replicate, nsmul_one]
  rfl

end Bloodhound.Graph
