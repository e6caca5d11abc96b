import Mathlib.Order.Lattice
import Mathlib.Data.Prod.Lex
import Mathlib.Data.String.Basic
import Mathlib.Algebra.Order.Ring.Nat
import Bloodhound.Lib.Ranking
import Bloodhound.Store.TopVictims
import Bloodhound.Graph.GraphEdges

/-!
# Victims and refunds on a page

What the first page of a hacker shows beside the targets: the victims, one by one or as a cluster
(`appendVictimsSection` of `graphPaged.ts`), and the payments back to them (`appendVictimRefunds` of
`graphRefunds.ts`), with the queries of the store that these read.

The order of rows with the same amount is the one of the table.

* `sound_appendVictimsSection`, `sound_appendVictimRefunds`: the edges that these add end at nodes of the page, and
  those of the victims also start there. Who pays a refund need not be a node.
-/

namespace Bloodhound.Graph

open Bloodhound.Store

/-! ## Nodes -/

inductive NodeType where
  | hacker
  | victim
  | victimCluster
  | downstream
  | fanoutCluster
  deriving DecidableEq

/-- `GraphNode`, without its labels. -/
structure GraphNode where
  id : NodeId
  type : NodeType
  role : Role
  totalReceivedSats : Option Int := none
  hopFromHacker : Option Nat := none
  incomingSats : Option Int := none
  expandProfile : Option ExpandProfile := none
  childCount : Option Nat := none
  totalSats : Option Int := none
  latestTxTime : Option Nat := none
  earliestTxTime : Option Nat := none
  deriving DecidableEq

def downstreamNodeFromAddress (id : Address) (downstream : Option AddressRow) (incomingSats : Int) :
    GraphNode where
  id := .address id
  type := .downstream
  role := .downstream
  hopFromHacker := some ((downstream.bind (·.hopFromHacker)).getD 1)
  totalReceivedSats := some ((downstream.map (·.totalReceivedSats)).getD incomingSats)
  incomingSats := some incomingSats
  expandProfile := downstream.bind (·.expandProfile)

/-- The address of a displayed target. -/
def NodeId.address? : NodeId → Option Address
  | .address a => some a
  | _ => none

/-- The nodes of the targets that are not shown yet, in the order of the edges. -/
def targetNodes (addresses : Table.Rows Address AddressRow) :
    List NodeId → List GraphEdge → List GraphNode
  | _, [] => []
  | seen, ge :: rest =>
    if ge.target ∈ seen then targetNodes addresses seen rest
    else
      (ge.target.address?.map fun id =>
        downstreamNodeFromAddress id (addresses.lookup id) ge.amount).toList ++
        targetNodes addresses (ge.target :: seen) rest

/-- `nodes`, `edges` and `seen` of a page that is being built. -/
structure PageParts where
  nodes : List GraphNode := []
  edges : List GraphEdge := []
  seen : List NodeId := []

/-! ## Reads -/

def VICTIM_REFUND_GRAPH_LIMIT : Nat := 32

def VICTIM_REFUND_PROBE_LIMIT : Nat := VICTIM_REFUND_GRAPH_LIMIT

structure VictimStats where
  childCount : Nat
  totalSats : Int

def getVictimStats (edges : Table.Rows EdgeKey EdgeRow) (hacker : Address) (minEdgeSats : Int) : VictimStats :=
  let payments := TopVictims.paymentsTo edges hacker (some minEdgeSats)
  ⟨(payments.map Prod.fst).dedup.length, (payments.map Prod.snd).sum⟩

/-- The rows of the conditions of `listVictimsForHacker`. -/
def inEdgeRows (edges : Table.Rows EdgeKey EdgeRow) (hacker : Address) (minEdgeSats : Int) : List Edge :=
  (edges.entries.filter fun e =>
    e.1.toAddress = hacker && e.2.direction = .inToHacker && minEdgeSats ≤ e.2.amountSats).map fun e => ⟨e.1, e.2⟩

def listVictimsForHacker (edges : Table.Rows EdgeKey EdgeRow) (hacker : Address) (limit : Nat) (minEdgeSats : Int) :
    List Edge :=
  Ranking.top (fun e => e.row.amountSats) limit (inEdgeRows edges hacker minEdgeSats)

/-- What the reads of one request do: whether the queries whose errors are swallowed return, and how the server
compares names. -/
structure Reads where
  peaks : Bool := true
  refunds : Bool := true
  localeCompare : Address → Address → Int := fun a b => if a < b then -1 else if b < a then 1 else 0

/-- There is no answer where the table is behind the payments or cannot be read. -/
def collectTopVictimAddressesFromPeaks (db : Db) (reads : Reads) (hacker : Address) (limit : Nat)
    (minEdgeSats : Int) : Option (List Address) :=
  if reads.peaks then
    let rows := Ranking.top Prod.snd limit ((db.peaks.entries.filter fun e =>
      e.1.1 = hacker && minEdgeSats ≤ e.2).map fun e => (e.1.2, e.2))
    if rows ≠ [] then some (rows.map Prod.fst)
    else if TopVictims.paymentsTo db.edges hacker (some minEdgeSats) = [] then some []
    else none
  else none

/-- The rows by descending amount, ties in the order of the table. -/
def tableOrder (rows : List (Address × Int)) : TopVictims.DescendingQuery rows where
  order _ := Ranking.ranked Prod.snd rows
  perm _ := List.perm_insertionSort _ rows
  sorted _ := Ranking.pairwise_ranked rows

def collectTopVictimAddressesByGroupBy (rows : List (Address × Int)) (limit : Nat) : List Address :=
  (Ranking.top Prod.snd limit (Groups.groupMax rows)).map Prod.fst

/-- The pages of a scan double six times before they pass its limit. -/
def SCAN_FUEL : Nat := 7

def getVictimAddressSetForHacker (db : Db) (reads : Reads) (hacker : Address) (limit : Nat) (minEdgeSats : Int) :
    List Address :=
  let payments := TopVictims.paymentsTo db.edges hacker (some minEdgeSats)
  let scanned := TopVictims.collectTopVictimAddressesByScan {} (tableOrder payments) SCAN_FUEL limit
  if limit = 0 then []
  else (collectTopVictimAddressesFromPeaks db reads hacker limit minEdgeSats).getD
    (scanned.join.getD (collectTopVictimAddressesByGroupBy payments limit))

/-- A scan that doubles its pages past the limit ends. -/
theorem scanPages_ends {rows : List (Address × Int)} (query : TopVictims.DescendingQuery rows)
    {limit maxFetch fuel fetchLimit : Nat} (h : maxFetch < fetchLimit * 2 ^ fuel) :
    (TopVictims.scanPages query limit maxFetch (fuel + 1) fetchLimit).isSome = true := by
  induction fuel generalizing fetchLimit with
  | zero =>
    rw [Nat.pow_zero, Nat.mul_one] at h
    rw [TopVictims.scanPages, if_neg (by omega)]
    rfl
  | succ fuel ih =>
    rw [TopVictims.scanPages]
    split
    · dsimp only
      split
      · rfl
      · split
        · rfl
        · apply ih
          rwa [Nat.mul_assoc, ← Nat.pow_succ']
    · rfl

theorem scan_ends {rows : List (Address × Int)} (query : TopVictims.DescendingQuery rows) {limit : Nat}
    (hLimit : 0 < limit) :
    (TopVictims.collectTopVictimAddressesByScan {} query SCAN_FUEL limit).isSome = true := by
  apply @scanPages_ends rows query limit (limit * 128) 6 (limit * 4)
  omega

/-- The rows of one destination of `listVictimRefundsForHacker`, by descending amount and payer; it reads no
totals. -/
def refundRows (edges : Table.Rows EdgeKey EdgeRow) (floor : Int) (limit : Nat) (victim : Address) : List Edge :=
  let rows := (edges.entries.filter fun e =>
    e.1.toAddress = victim && e.2.direction = .outFromHacker && (floor ≤ 0 || floor ≤ e.2.amountSats)).map fun e =>
      (⟨e.1, { e.2 with fanoutMeta := none }⟩ : Edge)
  (rows.insertionSort fun a b =>
    (toLex (-a.row.amountSats, a.key.fromAddress) : Lex (Int × Address)) ≤
      toLex (-b.row.amountSats, b.key.fromAddress)).take limit

def compareRefunds (localeCompare : Address → Address → Int) (a b : Edge) : Int :=
  if b.row.amountSats ≠ a.row.amountSats then b.row.amountSats - a.row.amountSats
  else if localeCompare a.key.toAddress b.key.toAddress ≠ 0 then localeCompare a.key.toAddress b.key.toAddress
  else localeCompare a.key.fromAddress b.key.fromAddress

/-- The first row of each key. -/
def firstOfKeys : List EdgeKey → List Edge → List Edge
  | _, [] => []
  | seen, row :: rest =>
    if row.key ∈ seen then firstOfKeys seen rest else row :: firstOfKeys (row.key :: seen) rest

/-- The largest payments to the first of the victims. -/
def listVictimRefundsForHacker (edges : Table.Rows EdgeKey EdgeRow) (localeCompare : Address → Address → Int)
    (minEdgeSats : Int) (limit : Nat) (victimAddresses : List Address) : List Edge :=
  let cap := min VICTIM_REFUND_GRAPH_LIMIT limit
  let unique := victimAddresses.eraseDups.take VICTIM_REFUND_PROBE_LIMIT
  let collected := unique.flatMap (refundRows edges (max 0 minEdgeSats) cap)
  (firstOfKeys [] (collected.mergeSort fun a b => compareRefunds localeCompare a b ≤ 0)).take cap

/-! ## The victims -/

/-- The options of the victims. -/
structure VictimOptions where
  expandVictims : Bool := false
  maxVictims : Nat := 100
  minEdgeSats : Int := 100000

def victimClusterNode (hacker : Address) (stats : VictimStats) : GraphNode where
  id := .victims hacker
  type := .victimCluster
  role := .victim
  childCount := some stats.childCount
  totalSats := some stats.totalSats

def victimClusterEdge (hacker : Address) (stats : VictimStats) : GraphEdge where
  id := .cluster (.victims hacker) (.address hacker)
  source := .victims hacker
  target := .address hacker
  txid := none
  amount := stats.totalSats
  time := none

/-- The node of a victim sums up its payments. -/
def victimNode (rows : List Edge) (victim : Address) : GraphNode :=
  let own := rows.filter fun e => e.key.fromAddress = victim
  { id := .address victim
    type := .victim
    role := .victim
    incomingSats := some (own.map fun e => e.row.amountSats).sum
    latestTxTime := (own.filterMap fun e => e.row.blockTime).max?
    earliestTxTime := (own.filterMap fun e => e.row.blockTime).min? }

def victimEdge (hacker : Address) (e : Edge) : GraphEdge where
  id := .tx (.address e.key.fromAddress) (.address hacker) e.key.txid
  source := .address e.key.fromAddress
  target := .address hacker
  txid := some e.key.txid
  amount := e.row.amountSats
  time := e.row.blockTime

/-- The victims in the order of their largest payments. -/
def victimsOf (rows : List Edge) : List Address := (rows.map fun e => e.key.fromAddress).eraseDups

def appendVictimsSection (edges : Table.Rows EdgeKey EdgeRow) (hacker : Address) (opts : VictimOptions)
    (page : PageParts) : PageParts :=
  if opts.expandVictims then
    let rows := listVictimsForHacker edges hacker opts.maxVictims opts.minEdgeSats
    { nodes := page.nodes ++ (victimsOf rows).map (victimNode rows)
      edges := page.edges ++ rows.map (victimEdge hacker)
      seen := page.seen ++ (victimsOf rows).map .address }
  else
    let stats := getVictimStats edges hacker opts.minEdgeSats
    { page with
      nodes := page.nodes ++ [victimClusterNode hacker stats]
      edges := page.edges ++ [victimClusterEdge hacker stats] }

/-! ## The refunds -/

def REFUND_ATTACH_LIMIT : Nat := 32

def GraphEdge.isRefund (e : GraphEdge) : Bool := e.edgeKind = some (.stored .victimRefund)

/-- The node of the victims, if they are shown as a cluster. -/
def victimCluster (nodes : List GraphNode) : Option NodeId :=
  (nodes.find? fun n => n.type = .victimCluster).map (·.id)

/-- A payment back, which leads to the cluster where there is one. -/
def refundEdge (cluster : Option NodeId) (row : Edge) : GraphEdge :=
  let mapped := { mapDbEdgeToGraph row.key.fromAddress row.toAddress row with
    edgeKind := some (.stored .victimRefund) }
  cluster.elim mapped fun id => { mapped with target := id, id := .tx mapped.source id row.key.txid }

/-- A victim that is shown for a refund. -/
def promotedNode (victim : Address) : GraphNode where
  id := .address victim
  type := .victim
  role := .victim

/-- The victims that are not shown yet, where they are not shown as a cluster. -/
def promote (cluster : Option NodeId) (seen : List NodeId) (rows : List Edge) : List Address :=
  if cluster.isSome then []
  else ((rows.map (·.toAddress)).filter fun id => .address id ∉ seen).eraseDups

/-- The edges with new ids and with targets among the nodes. -/
def attachable (nodeIds : List NodeId) : List EdgeId → List GraphEdge → List GraphEdge
  | _, [] => []
  | existing, e :: rest =>
    if e.id ∈ existing ∨ e.target ∉ nodeIds then attachable nodeIds existing rest
    else e :: attachable nodeIds (e.id :: existing) rest

def attachRefunds (rows : List Edge) (page : PageParts) : PageParts :=
  let cluster := victimCluster page.nodes
  let promoted := promote cluster page.seen rows
  let nodes := page.nodes ++ promoted.map promotedNode
  { nodes
    edges := page.edges ++
      attachable (nodes.map (·.id)) (page.edges.map (·.id)) (rows.map (refundEdge cluster))
    seen := page.seen ++ promoted.map .address }

def appendVictimRefunds (edges : Table.Rows EdgeKey EdgeRow) (reads : Reads) (minEdgeSats : Int)
    (victimAddresses : List Address) (page : PageParts) : PageParts :=
  if reads.refunds then
    attachRefunds (listVictimRefundsForHacker edges reads.localeCompare minEdgeSats REFUND_ATTACH_LIMIT
      victimAddresses) page
  else page

/-! ## The ends of the edges -/

/-- Every edge leads to a node, and every edge that is no refund starts at one or at a known address. -/
structure PageEnds (known : Address → Prop) (nodes : List GraphNode) (edges : List GraphEdge) : Prop where
  targets : ∀ e ∈ edges, ∃ n ∈ nodes, n.id = e.target
  sources : ∀ e ∈ edges, e.isRefund = false →
    (∃ n ∈ nodes, n.id = e.source) ∨ ∃ p, known p ∧ e.source = .address p

/-- The ends of the edges of a page, and the nodes that it has for what it has seen. -/
structure PageParts.Sound (known : Address → Prop) (page : PageParts) : Prop where
  ends : PageEnds known page.nodes page.edges
  seen : ∀ id ∈ page.seen, ∃ n ∈ page.nodes, n.id = id

section Ends

variable {known : Address → Prop} {nodes nodes' : List GraphNode} {edges edges' : List GraphEdge}
  {page : PageParts} {hacker : Address}

theorem PageEnds.nil (known : Address → Prop) (nodes : List GraphNode) : PageEnds known nodes [] where
  targets _ h := absurd h List.not_mem_nil
  sources _ h := absurd h List.not_mem_nil

theorem node_append {id : NodeId} (h : ∃ n ∈ nodes, n.id = id) (nodes' : List GraphNode) :
    ∃ n ∈ nodes ++ nodes', n.id = id := by
  obtain ⟨n, hn, hId⟩ := h
  exact ⟨n, List.mem_append_left nodes' hn, hId⟩

theorem PageEnds.addNodes (h : PageEnds known nodes edges) (nodes' : List GraphNode) :
    PageEnds known (nodes ++ nodes') edges where
  targets e he := node_append (h.targets e he) nodes'
  sources e he hKind := (h.sources e he hKind).imp_left fun hNode => node_append hNode nodes'

theorem PageEnds.append (h : PageEnds known nodes edges) (h' : PageEnds known nodes edges') :
    PageEnds known nodes (edges ++ edges') where
  targets e he := (List.mem_append.mp he).elim (h.targets e) (h'.targets e)
  sources e he := (List.mem_append.mp he).elim (h.sources e) (h'.sources e)

/-- What is added to a page ends at its nodes, old or new, and so does what it has seen. -/
theorem PageParts.Sound.extend {seen : List NodeId} (h : page.Sound known)
    (hEnds : PageEnds known (page.nodes ++ nodes') edges')
    (hSeen : ∀ id ∈ seen, id ∈ page.seen ∨ ∃ n ∈ page.nodes ++ nodes', n.id = id) :
    PageParts.Sound known { nodes := page.nodes ++ nodes', edges := page.edges ++ edges', seen } where
  ends := (h.ends.addNodes nodes').append hEnds
  seen id hIn := (hSeen id hIn).elim (fun hBefore => node_append (h.seen id hBefore) nodes') fun hNew => hNew

theorem mem_victimsOf {rows : List Edge} {e : Edge} (he : e ∈ rows) : e.key.fromAddress ∈ victimsOf rows := by
  unfold victimsOf
  rw [List.mem_eraseDups]
  exact List.mem_map_of_mem he

/-- The edges of the victims lead from their nodes to the hacker. -/
theorem sound_appendVictimsSection (edges : Table.Rows EdgeKey EdgeRow) (opts : VictimOptions)
    (h : page.Sound known) (hHacker : .address hacker ∈ page.seen) :
    (appendVictimsSection edges hacker opts page).Sound known := by
  have hTarget : ∀ nodes', ∃ n ∈ page.nodes ++ nodes', n.id = .address hacker := node_append (h.seen _ hHacker)
  unfold appendVictimsSection
  split
  · refine h.extend ⟨fun e he => ?_, fun e he _ => ?_⟩ fun id hIn => ?_
    · obtain ⟨row, -, rfl⟩ := List.mem_map.mp he
      exact hTarget _
    · obtain ⟨row, hRow, rfl⟩ := List.mem_map.mp he
      exact .inl ⟨_, List.mem_append_right _ (List.mem_map_of_mem (mem_victimsOf hRow)), rfl⟩
    · refine (List.mem_append.mp hIn).imp_right fun hNew => ?_
      obtain ⟨victim, hVictim, rfl⟩ := List.mem_map.mp hNew
      exact ⟨_, List.mem_append_right _ (List.mem_map_of_mem hVictim), rfl⟩
  · refine h.extend ⟨fun e he => ?_, fun e he _ => ?_⟩ fun id hIn => .inl hIn
    · rw [List.mem_singleton.mp he]
      exact hTarget _
    · rw [List.mem_singleton.mp he]
      exact .inl ⟨_, List.mem_append_right _ (List.mem_singleton_self _), rfl⟩

theorem isRefund_refundEdge (cluster : Option NodeId) (row : Edge) : (refundEdge cluster row).isRefund = true := by
  cases cluster <;> rfl

theorem mem_attachable {nodeIds : List NodeId} {existing : List EdgeId} {e : GraphEdge}
    (h : e ∈ attachable nodeIds existing edges) : e ∈ edges ∧ e.target ∈ nodeIds := by
  induction edges generalizing existing with
  | nil => cases h
  | cons first rest ih =>
    unfold attachable at h
    split at h
    · obtain ⟨hMem, hTarget⟩ := ih h
      exact ⟨List.mem_cons_of_mem first hMem, hTarget⟩
    · next hNew =>
      rcases List.mem_cons.mp h with rfl | hLater
      · exact ⟨List.mem_cons_self, by simpa using (not_or.mp hNew).2⟩
      · obtain ⟨hMem, hTarget⟩ := ih hLater
        exact ⟨List.mem_cons_of_mem first hMem, hTarget⟩

theorem edges_appendVictimsSection (table : Table.Rows EdgeKey EdgeRow) (hacker : Address) (opts : VictimOptions)
    (page : PageParts) : ∃ victims, (appendVictimsSection table hacker opts page).edges = page.edges ++ victims ∧
      ∀ e ∈ victims, e.target = .address hacker := by
  unfold appendVictimsSection
  split
  · refine ⟨_, rfl, fun e he => ?_⟩
    obtain ⟨row, -, rfl⟩ := List.mem_map.mp he
    rfl
  · refine ⟨_, rfl, fun e he => ?_⟩
    rw [List.mem_singleton.mp he]
    rfl

theorem edges_appendVictimRefunds (table : Table.Rows EdgeKey EdgeRow) (reads : Reads) (minEdgeSats : Int)
    (victimAddresses : List Address) (page : PageParts) :
    ∃ refunds, (appendVictimRefunds table reads minEdgeSats victimAddresses page).edges = page.edges ++ refunds ∧
      ∀ e ∈ refunds, e.isRefund = true := by
  unfold appendVictimRefunds
  split
  · refine ⟨_, rfl, fun e he => ?_⟩
    obtain ⟨row, -, rfl⟩ := List.mem_map.mp (mem_attachable he).1
    exact isRefund_refundEdge _ row
  · exact ⟨[], (List.append_nil _).symm, fun _ h => absurd h List.not_mem_nil⟩

/-- The refunds lead to nodes of the page. -/
theorem sound_appendVictimRefunds (table : Table.Rows EdgeKey EdgeRow) (reads : Reads) (minEdgeSats : Int)
    (victimAddresses : List Address) (h : page.Sound known) :
    (appendVictimRefunds table reads minEdgeSats victimAddresses page).Sound known := by
  unfold appendVictimRefunds
  split
  · refine h.extend ⟨fun e he => ?_, fun e he hKind => ?_⟩ fun id hIn => ?_
    · exact List.mem_map.mp (mem_attachable he).2
    · obtain ⟨row, -, rfl⟩ := List.mem_map.mp (mem_attachable he).1
      rw [isRefund_refundEdge] at hKind
      cases hKind
    · refine (List.mem_append.mp hIn).imp_right fun hNew => ?_
      obtain ⟨victim, hVictim, rfl⟩ := List.mem_map.mp hNew
      exact ⟨_, List.mem_append_right _ (List.mem_map_of_mem hVictim), rfl⟩
  · exact h

theorem seen_appendVictimsSection (table : Table.Rows EdgeKey EdgeRow) (opts : VictimOptions) {id : NodeId}
    (h : id ∈ page.seen) : id ∈ (appendVictimsSection table hacker opts page).seen := by
  unfold appendVictimsSection
  split
  · exact List.mem_append_left _ h
  · exact h

theorem seen_appendVictimRefunds (table : Table.Rows EdgeKey EdgeRow) (reads : Reads) (minEdgeSats : Int)
    (victimAddresses : List Address) {id : NodeId} (h : id ∈ page.seen) :
    id ∈ (appendVictimRefunds table reads minEdgeSats victimAddresses page).seen := by
  unfold appendVictimRefunds
  split
  · exact List.mem_append_left _ h
  · exact h

end Ends

end Bloodhound.Graph
