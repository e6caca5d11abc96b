import Bloodhound.Graph.Paged

/-!
# Pages of the deeper levels

`buildGraphL2Page`: the children of the parents that a token of the first level names, parent by parent, with
a limit for each page and one for each parent. The children of a parent come by decreasing amount, the filter
of victims works on what was fetched, and a parent with a fan-out profile shows its largest outputs and a
cluster. A cursor is a value here, and the OP_RETURN labels are left out, as in `Graph.Paged`.

* `halted_l2Loop`: the loop over the parents ends before its fuel does.
* `L2Loop.Sound`: what the loop keeps of a page, whatever it shows: the page has no more edges than its limit,
  and every edge leads to a node of the page or to the first node of its target.
* `l2_pages_end`: following the cursors ends after a number of pages that the parents and the cap bound.
-/

namespace Bloodhound.Graph

open Bloodhound.Store

/-! ## Cursors and pages -/

/-- `L2CursorPayload`: a place behind an edge of a parent, or where a parent begins. -/
structure L2Cursor where
  parentIndex : Nat
  after : Option OutEdgeKeysetCursor := none
  loadedFromParent : Nat := 0
  deriving DecidableEq

/-- `decodeL2Token` on a token of the first level. -/
def L2TokenPayload.decoded (token : L2TokenPayload) : L2TokenPayload where
  hacker := token.hacker
  parents := token.parents
  minEdgeSats := max 0 token.minEdgeSats
  maxPerParent := max 1 token.maxPerParent
  graphBundleMinEdges := max 1 token.graphBundleMinEdges
  maxGraphDepth := max 1 token.maxGraphDepth

/-- The parameters of the pages of one token; `fanoutTotals` gives the totals of the column
`fanout_meta_json` of `addresses`. -/
structure L2Options where
  limit : Nat
  limit_pos : 0 < limit
  maxDownstreamOverride : Option Nat := none
  spendFanoutTopK : Nat := 5
  expandParent : Option Address := none
  fanoutTotals : Address → Option Int := fun _ => none

structure L2Request where
  cursor : Option L2Cursor := none
  loadedL2 : Nat := 0

structure L2Page where
  nodes : List GraphNode
  edges : List GraphEdge
  done : Bool
  nextCursor : Option L2Cursor
  loadedL2 : Nat
  l2ParentsDone : Nat
  l2ParentCount : Nat

/-- The variables of the loop over the parents. -/
structure L2Loop where
  parentIndex : Nat
  loadedFromParent : Nat
  edgeAfter : Option OutEdgeKeysetCursor
  addedThisPage : Nat := 0
  nodes : List GraphNode := []
  edges : List GraphEdge := []
  seen : List NodeId := []
  nextCursor : Option L2Cursor := none

namespace L2Loop

def ofRequest (req : L2Request) : L2Loop where
  parentIndex := req.cursor.elim 0 (·.parentIndex)
  loadedFromParent := req.cursor.elim 0 (·.loadedFromParent)
  edgeAfter := req.cursor.bind (·.after)

def nextParent (st : L2Loop) : L2Loop :=
  { st with parentIndex := st.parentIndex + 1, loadedFromParent := 0, edgeAfter := none }

def emitChildren (addresses : Table.Rows Address AddressRow) (slice : List GraphEdge) (st : L2Loop) : L2Loop :=
  { st with
    nodes := st.nodes ++ targetNodes addresses st.seen slice
    edges := st.edges ++ slice
    seen := (slice.map (·.target)).reverse ++ st.seen
    addedThisPage := st.addedThisPage + slice.length
    loadedFromParent := st.loadedFromParent + slice.length }

def appendFanoutCluster (parentId : Address) (parentHop childCount : Nat) (totalSats : Int) (st : L2Loop) :
    L2Loop :=
  { st with
    nodes := st.nodes ++ [{
      id := .fanout parentId
      type := .fanoutCluster
      role := .downstream
      childCount := some childCount
      totalSats := some totalSats
      hopFromHacker := some (parentHop + 1) }]
    edges := st.edges ++ [{
      id := .cluster (.address parentId) (.fanout parentId)
      source := .address parentId
      target := .fanout parentId
      txid := none
      amount := totalSats
      time := none }]
    addedThisPage := st.addedThisPage + 1 }

end L2Loop

/-! ## The loop -/

section Page

variable (db : Db) (token : L2TokenPayload) (opts : L2Options)

def maxPerParent : Nat := opts.maxDownstreamOverride.elim token.maxPerParent (max 1)

def parentHop (parentId : Address) : Nat := ((db.addresses.lookup parentId).bind (·.hopFromHacker)).getD 1

def isFanout (parentId : Address) : Bool :=
  (db.addresses.lookup parentId).any fun row => row.expandProfile = some .spendFanout

def expandableParents : List Address :=
  (token.parents.filter fun id => parentHop db id < token.maxGraphDepth).filter fun id =>
    opts.expandParent.all (id = ·)

def collapsesFanout (parentId : Address) (st : L2Loop) : Bool :=
  isFanout db parentId && opts.expandParent.isNone && decide (st.loadedFromParent = 0) && st.edgeAfter.isNone

/-- What the page and the parent have left. -/
def l2Remaining (st : L2Loop) : Nat :=
  min (opts.limit - st.addedThisPage) (maxPerParent token opts - st.loadedFromParent)

def l2FetchLimit (parentId : Address) (st : L2Loop) : Nat :=
  if collapsesFanout db opts parentId st then
    min (max 1 opts.spendFanoutTopK + 1) (l2Remaining token opts st)
  else l2Remaining token opts st

def l2ChildEdges (parentId : Address) (st : L2Loop) : List Edge :=
  excludeEdgesToHackerVictims db.edges token.hacker token.minEdgeSats
    (getOutEdgesFromAddress db.edges parentId token.minEdgeSats (l2FetchLimit db token opts parentId st)
      st.edgeAfter)

def bundledChildren (parentId : Address) (childEdges : List Edge) : List GraphEdge :=
  bundleParallelEdges (childEdges.map fun ce => mapDbEdgeToGraph parentId ce.toAddress ce)
    token.graphBundleMinEdges

/-- The cluster of the children that are not shown, where there are any and the page has room. -/
def withCluster (parentId : Address) (shown : Nat) (totalSats : Int) (st : L2Loop) : L2Loop :=
  if 0 < (outEdgeRows db.edges parentId token.minEdgeSats).length - shown ∧ st.addedThisPage < opts.limit then
    st.appendFanoutCluster parentId (parentHop db parentId)
      ((outEdgeRows db.edges parentId token.minEdgeSats).length - shown) totalSats
  else st

/-- The largest outputs of a fan-out. -/
def collapseFanout (parentId : Address) (bundled : List GraphEdge) (st : L2Loop) : L2Loop :=
  (withCluster db token opts parentId (bundled.take (max 1 opts.spendFanoutTopK)).length
    ((opts.fanoutTotals parentId).elim 0 fun total =>
      max 0 (total - ((bundled.take (max 1 opts.spendFanoutTopK)).map (·.amount)).sum))
    (st.emitChildren db.addresses (bundled.take (max 1 opts.spendFanoutTopK)))).nextParent

/-- How many of the children are shown. -/
def addCap (bundled : List GraphEdge) (st : L2Loop) : Nat := min bundled.length (l2Remaining token opts st)

/-- The fetched edge behind which the next page begins. -/
def lastRaw (childEdges : List Edge) (cap : Nat) : Option OutEdgeKeysetCursor :=
  (childEdges[min childEdges.length cap - 1]? <|> childEdges.getLast?).map Edge.cursor

/-- What follows the children of a fetch: the end of the page, the next parent or the next fetch. -/
def afterChildren (parentId : Address) (after : Option OutEdgeKeysetCursor) (fetchedFull : Bool)
    (shown : L2Loop) : L2Loop :=
  if opts.limit ≤ shown.addedThisPage ∧ shown.loadedFromParent < maxPerParent token opts ∧ fetchedFull then
    { shown with nextCursor := some ⟨shown.parentIndex, after, shown.loadedFromParent⟩ }
  else if maxPerParent token opts ≤ shown.loadedFromParent ∨ fetchedFull = false then
    (if opts.expandParent.isSome ∧ maxPerParent token opts ≤ shown.loadedFromParent then
      withCluster db token opts parentId shown.loadedFromParent 0 shown
    else shown).nextParent
  else { shown with edgeAfter := after }

def listChildren (parentId : Address) (childEdges : List Edge) (bundled : List GraphEdge) (st : L2Loop) :
    L2Loop :=
  afterChildren db token opts parentId (lastRaw childEdges (addCap token opts bundled st))
    (l2FetchLimit db token opts parentId st ≤ childEdges.length)
    (st.emitChildren db.addresses (bundled.take (addCap token opts bundled st)))

/-- One round of the loop, for the parent of the state. -/
def l2Step (parentId : Address) (st : L2Loop) : L2Loop :=
  if maxPerParent token opts ≤ st.loadedFromParent then st.nextParent
  else if l2ChildEdges db token opts parentId st = [] then st.nextParent
  else if collapsesFanout db opts parentId st then
    collapseFanout db token opts parentId
      (bundledChildren token parentId (l2ChildEdges db token opts parentId st)) st
  else listChildren db token opts parentId (l2ChildEdges db token opts parentId st)
    (bundledChildren token parentId (l2ChildEdges db token opts parentId st)) st

/-- The parent of the next round, if there is one. -/
def currentParent (st : L2Loop) : Option Address :=
  if st.nextCursor.isNone ∧ st.addedThisPage < opts.limit then (expandableParents db token opts)[st.parentIndex]?
  else none

def l2Loop : Nat → L2Loop → L2Loop
  | 0, st => st
  | fuel + 1, st =>
    match currentParent db token opts st with
    | none => st
    | some parentId => l2Loop fuel (l2Step db token opts parentId st)

/-- The rounds that a page can take: each one leaves a parent or shows an edge. -/
def l2Fuel : Nat := (expandableParents db token opts).length + opts.limit

/-- The cursor that a round has set, or the place where the loop ended. -/
def l2NextCursor (st : L2Loop) : Option L2Cursor :=
  st.nextCursor <|>
    if st.parentIndex < (expandableParents db token opts).length then
      some ⟨st.parentIndex, st.edgeAfter, st.loadedFromParent⟩
    else none

def l2Done (st : L2Loop) : Bool :=
  (l2NextCursor db token opts st).isNone && decide ((expandableParents db token opts).length ≤ st.parentIndex)

/-- The page of a loop that has ended. -/
def l2PageOf (req : L2Request) (st : L2Loop) : L2Page where
  nodes := st.nodes
  edges := st.edges
  done := l2Done db token opts st
  nextCursor := if l2Done db token opts st then none else l2NextCursor db token opts st
  loadedL2 := req.loadedL2 + st.addedThisPage
  l2ParentsDone :=
    if l2Done db token opts st then (expandableParents db token opts).length else st.parentIndex
  l2ParentCount := (expandableParents db token opts).length

end Page

/-- The page of a token that was read. -/
def l2Page (db : Db) (token : L2TokenPayload) (opts : L2Options) (req : L2Request) : L2Page :=
  l2PageOf db token opts req (l2Loop db token opts (l2Fuel db token opts) (.ofRequest req))

def buildGraphL2Page (db : Db) (token : L2TokenPayload) (opts : L2Options) (req : L2Request) : L2Page :=
  l2Page db token.decoded opts req

/-! ## Bundles of a fetch -/

theorem length_bundleGroup_le (minBundle : Nat) (group : List GraphEdge) :
    (bundleGroup minBundle group).length ≤ group.length := by
  unfold bundleGroup
  split
  · exact Nat.le_refl _
  · split
    · simp
    · exact Nat.le_refl _

theorem length_bundleParallelEdges_le (edges : List GraphEdge) (minBundle : Nat) :
    (bundleParallelEdges edges minBundle).length ≤ edges.length := by
  have hGroups : ∀ gs : List (List GraphEdge),
      (gs.flatMap (bundleGroup minBundle)).length ≤ gs.flatten.length := by
    intro gs
    induction gs with
    | nil => exact Nat.le_refl _
    | cons group gs ih =>
      rw [List.flatMap_cons, List.flatten_cons, List.length_append, List.length_append]
      have hGroup := length_bundleGroup_le minBundle group
      omega
  have hAll := (List.filter_append_perm (fun e => skipParallelBundle e.edgeKind) edges).length_eq
  rw [List.length_append] at hAll
  have hOthers := hGroups (groups (edges.filter fun e => !skipParallelBundle e.edgeKind))
  rw [(flatten_groups_perm _).length_eq] at hOthers
  unfold bundleParallelEdges
  dsimp only
  rw [List.length_append]
  omega

/-- Every edge of a page joins the nodes of an edge that was fetched, and has its id or that of a bundle. -/
theorem ends_of_mem_bundleParallelEdges {edges : List GraphEdge} {minBundle : Nat} {e : GraphEdge}
    (h : e ∈ bundleParallelEdges edges minBundle) :
    ∃ e' ∈ edges, e.source = e'.source ∧ e.target = e'.target ∧
      (e.id = e'.id ∨ e.id = .bundle e'.source e'.target) := by
  unfold bundleParallelEdges at h
  rcases List.mem_append.mp h with hPass | hGroup
  · exact ⟨e, List.mem_of_mem_filter hPass, rfl, rfl, .inl rfl⟩
  · obtain ⟨group, hMem, hIn⟩ := List.mem_flatMap.mp hGroup
    have hEdges := (pair_of_mem_groups hMem).2
    have hOf : ∀ e' ∈ group, e' ∈ edges := fun e' he' => List.mem_of_mem_filter (hEdges e' he')
    unfold bundleGroup at hIn
    split at hIn
    · cases hIn
    · next sample rest =>
      split at hIn
      · rw [List.mem_singleton.mp hIn]
        exact ⟨sample, hOf sample List.mem_cons_self, rfl, rfl, .inr rfl⟩
      · exact ⟨e, hOf e hIn, rfl, rfl, .inl rfl⟩

theorem bundleGroup_ne_nil (minBundle : Nat) {group : List GraphEdge} (h : group ≠ []) :
    bundleGroup minBundle group ≠ [] := by
  unfold bundleGroup
  split
  · exact absurd rfl h
  · split
    · exact List.cons_ne_nil _ _
    · exact h

theorem bundleParallelEdges_ne_nil {edges : List GraphEdge} (minBundle : Nat) (h : edges ≠ []) :
    bundleParallelEdges edges minBundle ≠ [] := by
  obtain ⟨e, hMem⟩ := List.exists_mem_of_ne_nil edges h
  unfold bundleParallelEdges
  dsimp only
  intro hNil
  obtain ⟨hPass, hGroups⟩ := List.append_eq_nil_iff.mp hNil
  by_cases hKind : skipParallelBundle e.edgeKind = true
  · exact List.filter_eq_nil_iff.mp hPass e hMem hKind
  · have hOther : e ∈ edges.filter fun e => !skipParallelBundle e.edgeKind :=
      List.mem_filter.mpr ⟨hMem, by simpa using hKind⟩
    obtain ⟨group, hGroup, hIn⟩ := List.mem_flatten.mp ((flatten_groups_perm _).mem_iff.mpr hOther)
    exact bundleGroup_ne_nil minBundle (List.ne_nil_of_mem hIn) (List.flatMap_eq_nil_iff.mp hGroups group hGroup)

/-! ## Rounds -/

section Rounds

variable {db : Db} {token : L2TokenPayload} {opts : L2Options} {parentId : Address} {st : L2Loop}

theorem length_getOutEdges_le (edges : Table.Rows EdgeKey EdgeRow) (address : Address) (minEdgeSats : Int)
    (limit : Nat) (after : Option OutEdgeKeysetCursor) :
    (getOutEdgesFromAddress edges address minEdgeSats limit after).length ≤ limit :=
  List.length_take_le _ _

theorem length_l2ChildEdges_le : (l2ChildEdges db token opts parentId st).length ≤
    l2FetchLimit db token opts parentId st :=
  (List.length_filter_le _ _).trans (length_getOutEdges_le _ _ _ _ _)

theorem l2FetchLimit_le : l2FetchLimit db token opts parentId st ≤ l2Remaining token opts st := by
  unfold l2FetchLimit
  split
  · exact Nat.min_le_right _ _
  · exact Nat.le_refl _

/-- What is shown of a fetch fits into the page and the parent. -/
theorem length_bundledChildren_le :
    (bundledChildren token parentId (l2ChildEdges db token opts parentId st)).length ≤
      l2Remaining token opts st := by
  refine (length_bundleParallelEdges_le _ _).trans ?_
  rw [List.length_map]
  exact length_l2ChildEdges_le.trans l2FetchLimit_le

theorem bundledChildren_ne_nil {childEdges : List Edge} (h : childEdges ≠ []) :
    bundledChildren token parentId childEdges ≠ [] :=
  bundleParallelEdges_ne_nil _ fun hNil => h (List.map_eq_nil_iff.mp hNil)

/-- An edge from a parent to an address; the ids of clusters are not used for these. -/
structure ChildOf (parentId : Address) (e : GraphEdge) : Prop where
  source : e.source = .address parentId
  target : ∃ a, e.target = .address a
  id : ∀ source target, e.id ≠ .cluster source target

/-- A round shows some edges, and a cluster at most, and then leaves the parent, ends the page or goes on
behind the last edge. -/
inductive Round (db : Db) (token : L2TokenPayload) (opts : L2Options) (parentId : Address) (st : L2Loop) :
    L2Loop → Prop where
  | leaves (slice : List GraphEdge) (hSlice : ∀ e ∈ slice, ChildOf parentId e)
    (hRoom : slice.length ≤ l2Remaining token opts st) (shown : Nat) (totalSats : Int) :
    Round db token opts parentId st
      (withCluster db token opts parentId shown totalSats (st.emitChildren db.addresses slice)).nextParent
  | plain (slice : List GraphEdge) (hSlice : ∀ e ∈ slice, ChildOf parentId e)
    (hRoom : slice.length ≤ l2Remaining token opts st) :
    Round db token opts parentId st (st.emitChildren db.addresses slice).nextParent
  | stays (slice : List GraphEdge) (hSlice : ∀ e ∈ slice, ChildOf parentId e)
    (hRoom : slice.length ≤ l2Remaining token opts st) (hSome : slice ≠ [])
    (after : Option OutEdgeKeysetCursor) :
    Round db token opts parentId st { st.emitChildren db.addresses slice with edgeAfter := after }
  | ends (slice : List GraphEdge) (hSlice : ∀ e ∈ slice, ChildOf parentId e)
    (hRoom : slice.length ≤ l2Remaining token opts st) (hSome : slice ≠ [])
    (after : Option OutEdgeKeysetCursor) :
    Round db token opts parentId st { st.emitChildren db.addresses slice with
      nextCursor := some ⟨st.parentIndex, after, (st.emitChildren db.addresses slice).loadedFromParent⟩ }

theorem emitChildren_nil (addresses : Table.Rows Address AddressRow) : st.emitChildren addresses [] = st := by
  unfold L2Loop.emitChildren targetNodes
  simp

theorem childOf_of_mem_bundledEdges {rows : List Edge} {minBundle : Nat} {e : GraphEdge}
    (h : e ∈ bundleParallelEdges (rows.map fun ce => mapDbEdgeToGraph parentId ce.toAddress ce) minBundle) :
    ChildOf parentId e := by
  obtain ⟨e', hMem, hSource, hTarget, hId⟩ := ends_of_mem_bundleParallelEdges h
  obtain ⟨ce, -, rfl⟩ := List.mem_map.mp hMem
  have hPlain : (mapDbEdgeToGraph parentId ce.toAddress ce).source = .address parentId ∧
      (mapDbEdgeToGraph parentId ce.toAddress ce).target = .address ce.toAddress ∧
      (mapDbEdgeToGraph parentId ce.toAddress ce).id =
        .tx (.address parentId) (.address ce.toAddress) ce.key.txid := by
    unfold mapDbEdgeToGraph
    dsimp only
    split
    · cases ce.row.fanoutMeta <;> exact ⟨rfl, rfl, rfl⟩
    · exact ⟨rfl, rfl, rfl⟩
  obtain ⟨hFrom, hTo, hTx⟩ := hPlain
  refine ⟨hSource.trans hFrom, ⟨ce.toAddress, hTarget.trans hTo⟩, fun source target hCluster => ?_⟩
  rcases hId with hSame | hBundle
  · rw [hSame, hTx] at hCluster
    cases hCluster
  · rw [hBundle] at hCluster
    cases hCluster

theorem round_l2Step (hPage : st.addedThisPage < opts.limit) :
    Round db token opts parentId st (l2Step db token opts parentId st) := by
  have hNone : Round db token opts parentId st st.nextParent := by
    have hPlain := @Round.plain db token opts parentId st [] (fun e he => absurd he List.not_mem_nil)
      (Nat.zero_le _)
    rwa [emitChildren_nil] at hPlain
  unfold l2Step
  split
  · exact hNone
  · split
    · exact hNone
    · next hParent hSome =>
      let bundled := bundledChildren token parentId (l2ChildEdges db token opts parentId st)
      have hChild : ∀ n, ∀ e ∈ bundled.take n, ChildOf parentId e := fun n e he =>
        childOf_of_mem_bundledEdges (List.mem_of_mem_take he)
      have hLength : ∀ n, (bundled.take n).length ≤ l2Remaining token opts st := fun n =>
        ((List.take_sublist n bundled).length_le).trans length_bundledChildren_le
      split
      · exact .leaves _ (hChild _) (hLength _) _ _
      · have hCap : addCap token opts bundled st ≠ 0 := by
          have hBundled : 0 < bundled.length := List.length_pos_iff.mpr (bundledChildren_ne_nil hSome)
          unfold addCap l2Remaining
          omega
        have hShown : bundled.take (addCap token opts bundled st) ≠ [] := fun hNil =>
          (List.take_eq_nil_iff.mp hNil).elim hCap (bundledChildren_ne_nil hSome)
        show Round db token opts parentId st (listChildren db token opts parentId _ bundled st)
        unfold listChildren afterChildren
        split
        · exact .ends _ (hChild _) (hLength _) hShown _
        · split
          · split
            · exact .leaves _ (hChild _) (hLength _) _ _
            · exact .plain _ (hChild _) (hLength _)
          · exact .stays _ (hChild _) (hLength _) hShown _

end Rounds

/-! ## What a round keeps -/

/-- What is said of a page while it is built. -/
structure L2Loop.Sound (opts : L2Options) (st : L2Loop) : Prop where
  count : st.edges.length = st.addedThisPage
  room : st.addedThisPage ≤ opts.limit
  seen : ∀ id ∈ st.seen, ∃ n ∈ st.nodes, n.id = id
  targets : ∀ e ∈ st.edges, ∃ n ∈ st.nodes, n.id = e.target
  cursor : ∀ c, st.nextCursor = some c →
    c.parentIndex = st.parentIndex ∧ c.loadedFromParent = st.loadedFromParent

/-- How many children and parents are left at most. -/
def l2Left (db : Db) (token : L2TokenPayload) (opts : L2Options) (parentIndex loadedFromParent : Nat) : Nat :=
  ((expandableParents db token opts).length - parentIndex) * (maxPerParent token opts + 1) +
    (maxPerParent token opts - loadedFromParent)

/-- The rounds that the page can take. -/
def l2Rounds (db : Db) (token : L2TokenPayload) (opts : L2Options) (st : L2Loop) : Nat :=
  (expandableParents db token opts).length - st.parentIndex + (opts.limit - st.addedThisPage)

section Keeps

variable {db : Db} {token : L2TokenPayload} {opts : L2Options} {parentId : Address} {st st' : L2Loop}

/-- Every new target gets a node. -/
theorem node_of_target {addresses : Table.Rows Address AddressRow} {seen : List NodeId} {slice : List GraphEdge}
    (hSlice : ∀ e ∈ slice, ∃ a, e.target = .address a) {e : GraphEdge} (h : e ∈ slice) :
    e.target ∈ seen ∨ ∃ n ∈ targetNodes addresses seen slice, n.id = e.target := by
  induction slice generalizing seen with
  | nil => cases h
  | cons first slice ih =>
    obtain ⟨⟨a, hFirst⟩, hRest⟩ := List.forall_mem_cons.mp hSlice
    unfold targetNodes
    by_cases hSeen : first.target ∈ seen
    · rw [if_pos hSeen]
      rcases List.mem_cons.mp h with rfl | hLater
      · exact .inl hSeen
      · exact ih hRest hLater
    · rw [if_neg hSeen]
      have hNew : ∃ n ∈ (first.target.address?.map fun id =>
          downstreamNodeFromAddress id (addresses.lookup id) first.amount).toList, n.id = first.target := by
        rw [hFirst]
        exact ⟨_, List.mem_singleton.mpr rfl, rfl⟩
      obtain ⟨n, hn, hId⟩ := hNew
      rcases List.mem_cons.mp h with rfl | hLater
      · exact .inr ⟨n, List.mem_append_left _ hn, hId⟩
      · rcases ih hRest hLater with hOld | ⟨n', hn', hId'⟩
        · rcases List.mem_cons.mp hOld with hSame | hOld
          · exact .inr ⟨n, List.mem_append_left _ hn, hId.trans hSame.symm⟩
          · exact .inl hOld
        · exact .inr ⟨n', List.mem_append_right _ hn', hId'⟩

theorem sound_emitChildren (h : st.Sound opts) {slice : List GraphEdge}
    (hSlice : ∀ e ∈ slice, ChildOf parentId e) (hRoom : slice.length ≤ l2Remaining token opts st)
    (hOpen : st.nextCursor = none) : (st.emitChildren db.addresses slice).Sound opts := by
  have hOld : ∀ {id : NodeId}, (∃ n ∈ st.nodes, n.id = id) →
      ∃ n ∈ st.nodes ++ targetNodes db.addresses st.seen slice, n.id = id := fun ⟨n, hn, hId⟩ =>
    ⟨n, List.mem_append_left _ hn, hId⟩
  have hNew : ∀ e ∈ slice, ∃ n ∈ st.nodes ++ targetNodes db.addresses st.seen slice, n.id = e.target := by
    intro e he
    rcases @node_of_target db.addresses st.seen slice (fun e he => (hSlice e he).target) e he with
      hSeen | ⟨n, hn, hId⟩
    · exact hOld (h.seen _ hSeen)
    · exact ⟨n, List.mem_append_right _ hn, hId⟩
  constructor
  · show (st.edges ++ slice).length = st.addedThisPage + slice.length
    rw [List.length_append, h.count]
  · show st.addedThisPage + slice.length ≤ opts.limit
    have hPage := h.room
    unfold l2Remaining at hRoom
    omega
  · intro id hId
    rcases List.mem_append.mp hId with hIn | hIn
    · obtain ⟨e, he, rfl⟩ := List.mem_map.mp (List.mem_reverse.mp hIn)
      exact hNew e he
    · exact hOld (h.seen id hIn)
  · intro e he
    rcases List.mem_append.mp he with hIn | hIn
    · exact hOld (h.targets e hIn)
    · exact hNew e hIn
  · intro c hc
    exact absurd (hOpen.symm.trans hc) (Option.some_ne_none c).symm

theorem sound_withCluster (h : st.Sound opts) (hOpen : st.nextCursor = none) (shown : Nat) (totalSats : Int) :
    (withCluster db token opts parentId shown totalSats st).Sound opts := by
  unfold withCluster
  split
  · next hRoom =>
    constructor
    · show (st.edges ++ [_]).length = st.addedThisPage + 1
      rw [List.length_append, h.count, List.length_singleton]
    · exact hRoom.2
    · intro id hId
      obtain ⟨n, hn, hSame⟩ := h.seen id hId
      exact ⟨n, List.mem_append_left _ hn, hSame⟩
    · intro e he
      rcases List.mem_append.mp he with hIn | hIn
      · obtain ⟨n, hn, hSame⟩ := h.targets e hIn
        exact ⟨n, List.mem_append_left _ hn, hSame⟩
      · rw [List.mem_singleton.mp hIn]
        exact ⟨_, List.mem_append_right _ (List.mem_singleton.mpr rfl), rfl⟩
    · intro c hc
      exact absurd (hOpen.symm.trans hc) (Option.some_ne_none c).symm
  · exact h

theorem sound_nextParent (h : st.Sound opts) (hOpen : st.nextCursor = none) : st.nextParent.Sound opts where
  count := h.count
  room := h.room
  seen := h.seen
  targets := h.targets
  cursor c hc := absurd (hOpen.symm.trans hc) (Option.some_ne_none c).symm

theorem nextCursor_withCluster (shown : Nat) (totalSats : Int) :
    (withCluster db token opts parentId shown totalSats st).nextCursor = st.nextCursor := by
  unfold withCluster
  split <;> rfl

theorem Round.sound (hRound : Round db token opts parentId st st') (h : st.Sound opts)
    (hOpen : st.nextCursor = none) : st'.Sound opts := by
  cases hRound with
  | leaves slice hSlice hRoom shown totalSats =>
    have hShown := @sound_emitChildren db token opts parentId st h slice hSlice hRoom hOpen
    exact sound_nextParent (sound_withCluster hShown hOpen shown totalSats)
      ((nextCursor_withCluster shown totalSats).trans hOpen)
  | plain slice hSlice hRoom => exact sound_nextParent (sound_emitChildren h hSlice hRoom hOpen) hOpen
  | stays slice hSlice hRoom hSome after =>
    have hShown := @sound_emitChildren db token opts parentId st h slice hSlice hRoom hOpen
    exact ⟨hShown.count, hShown.room, hShown.seen, hShown.targets, hShown.cursor⟩
  | ends slice hSlice hRoom hSome after =>
    have hShown := @sound_emitChildren db token opts parentId st h slice hSlice hRoom hOpen
    refine ⟨hShown.count, hShown.room, hShown.seen, hShown.targets, fun c hc => ?_⟩
    cases hc
    exact ⟨rfl, rfl⟩

theorem place_withCluster (shown : Nat) (totalSats : Int) :
    (withCluster db token opts parentId shown totalSats st).parentIndex = st.parentIndex ∧
      st.addedThisPage ≤ (withCluster db token opts parentId shown totalSats st).addedThisPage := by
  unfold withCluster
  split
  · exact ⟨rfl, Nat.le_succ _⟩
  · exact ⟨rfl, Nat.le_refl _⟩

theorem open_of_currentParent (h : currentParent db token opts st = some parentId) :
    st.nextCursor = none ∧ st.addedThisPage < opts.limit ∧
      (expandableParents db token opts)[st.parentIndex]? = some parentId := by
  unfold currentParent at h
  split at h
  · next hGoes => exact ⟨Option.isNone_iff_eq_none.mp hGoes.1, hGoes.2, h⟩
  · cases h

/-- A round leaves less for the page and for the pages after it. -/
theorem Round.progress (hRound : Round db token opts parentId st st') (hPage : st.addedThisPage < opts.limit)
    (hParent : (expandableParents db token opts)[st.parentIndex]? = some parentId) :
    l2Left db token opts st'.parentIndex st'.loadedFromParent <
        l2Left db token opts st.parentIndex st.loadedFromParent ∧
      l2Rounds db token opts st' < l2Rounds db token opts st := by
  have hIndex : st.parentIndex < (expandableParents db token opts).length :=
    (List.getElem?_eq_some_iff.mp hParent).1
  obtain ⟨n, hn⟩ : ∃ n, (expandableParents db token opts).length - st.parentIndex = n + 1 :=
    ⟨(expandableParents db token opts).length - st.parentIndex - 1, by omega⟩
  have hLeft : l2Left db token opts (st.parentIndex + 1) 0 <
      l2Left db token opts st.parentIndex st.loadedFromParent := by
    unfold l2Left
    rw [show (expandableParents db token opts).length - (st.parentIndex + 1) = n by omega, hn, Nat.succ_mul]
    omega
  -- a round that leaves the parent
  have hLeaves : ∀ shown : L2Loop, shown.parentIndex = st.parentIndex →
      st.addedThisPage ≤ shown.addedThisPage →
      l2Left db token opts shown.nextParent.parentIndex 0 <
          l2Left db token opts st.parentIndex st.loadedFromParent ∧
        l2Rounds db token opts shown.nextParent < l2Rounds db token opts st := by
    intro shown hSame hAdded
    unfold l2Rounds L2Loop.nextParent
    dsimp only
    rw [hSame]
    exact ⟨hLeft, by omega⟩
  -- a round that stays
  have hStays : ∀ slice : List GraphEdge, slice ≠ [] → slice.length ≤ l2Remaining token opts st →
      l2Left db token opts st.parentIndex (st.loadedFromParent + slice.length) <
          l2Left db token opts st.parentIndex st.loadedFromParent ∧
        l2Rounds db token opts (st.emitChildren db.addresses slice) < l2Rounds db token opts st := by
    intro slice hSome hRoom
    have hLength := List.length_pos_iff.mpr hSome
    unfold l2Remaining at hRoom
    unfold l2Left l2Rounds L2Loop.emitChildren
    dsimp only
    omega
  cases hRound with
  | leaves slice hSlice hRoom shown totalSats =>
    obtain ⟨hSame, hAdded⟩ := @place_withCluster db token opts parentId
      (st.emitChildren db.addresses slice) shown totalSats
    exact hLeaves _ hSame ((Nat.le_add_right _ _).trans hAdded)
  | plain slice hSlice hRoom => exact hLeaves _ rfl (Nat.le_add_right _ _)
  | stays slice hSlice hRoom hSome after | ends slice hSlice hRoom hSome after => exact hStays slice hSome hRoom

end Keeps

/-! ## The loop ends -/

section Loop

variable {db : Db} {token : L2TokenPayload} {opts : L2Options}

/-- What every round keeps, the loop keeps. -/
theorem l2Loop_induct {P : L2Loop → Prop}
    (hStep : ∀ st parentId, currentParent db token opts st = some parentId →
      P st → P (l2Step db token opts parentId st)) (fuel : Nat) {st : L2Loop} (h : P st) :
    P (l2Loop db token opts fuel st) := by
  induction fuel generalizing st with
  | zero => exact h
  | succ fuel ih =>
    unfold l2Loop
    split
    · exact h
    · next parentId hParent => exact ih (hStep st parentId hParent h)

theorem sound_l2Loop (fuel : Nat) {st : L2Loop} (h : st.Sound opts) :
    (l2Loop db token opts fuel st).Sound opts := by
  refine l2Loop_induct (fun st parentId hParent hSound => ?_) fuel h
  obtain ⟨hOpen, hPage, -⟩ := open_of_currentParent hParent
  exact (round_l2Step hPage).sound hSound hOpen

theorem sound_ofRequest (req : L2Request) : (L2Loop.ofRequest req).Sound opts where
  count := rfl
  room := Nat.zero_le _
  seen _ h := absurd h List.not_mem_nil
  targets _ h := absurd h List.not_mem_nil
  cursor _ h := by cases h

/-- The loop ends before its fuel does. -/
theorem halted_l2Loop {fuel : Nat} {st : L2Loop} (hFuel : l2Rounds db token opts st ≤ fuel) :
    currentParent db token opts (l2Loop db token opts fuel st) = none := by
  induction fuel generalizing st with
  | zero =>
    show currentParent db token opts st = none
    unfold l2Rounds at hFuel
    unfold currentParent
    rw [if_neg (by omega)]
  | succ fuel ih =>
    unfold l2Loop
    split
    · assumption
    · next parentId hParent =>
      obtain ⟨-, hPage, hIndex⟩ := open_of_currentParent hParent
      have hFewer := ((@round_l2Step db token opts parentId st hPage).progress hPage hIndex).2
      exact ih (by omega)

theorem l2Rounds_ofRequest (req : L2Request) :
    l2Rounds db token opts (.ofRequest req) ≤ l2Fuel db token opts := by
  unfold l2Rounds l2Fuel
  omega

/-- The loop of a page either shows nothing at once or comes nearer to the end. -/
theorem l2Left_l2Loop (fuel : Nat) (st : L2Loop) : l2Loop db token opts fuel st = st ∨
    l2Left db token opts (l2Loop db token opts fuel st).parentIndex
        (l2Loop db token opts fuel st).loadedFromParent <
      l2Left db token opts st.parentIndex st.loadedFromParent := by
  induction fuel generalizing st with
  | zero => exact .inl rfl
  | succ fuel ih =>
    unfold l2Loop
    split
    · exact .inl rfl
    · next parentId hParent =>
      obtain ⟨-, hPage, hIndex⟩ := open_of_currentParent hParent
      have hLess := ((@round_l2Step db token opts parentId st hPage).progress hPage hIndex).1
      rcases ih (l2Step db token opts parentId st) with hSame | hMore
      · rw [hSame]
        exact .inr hLess
      · exact .inr (hMore.trans hLess)

end Loop

/-! ## Following the cursors -/

/-- The requests from one on, each with the cursor of the page before it, until a page has none. -/
inductive L2Follows (db : Db) (token : L2TokenPayload) (opts : L2Options) : L2Request → List L2Request → Prop
  | last {req : L2Request} (h : (buildGraphL2Page db token opts req).nextCursor = none) :
      L2Follows db token opts req [req]
  | next {req : L2Request} {cursor : L2Cursor} {later : List L2Request}
      (h : (buildGraphL2Page db token opts req).nextCursor = some cursor)
      (hLater : L2Follows db token opts
        ⟨some cursor, (buildGraphL2Page db token opts req).loadedL2⟩ later) :
      L2Follows db token opts req (req :: later)

section Follow

variable {db : Db} {token : L2TokenPayload} {opts : L2Options} {req : L2Request}

/-- A page is as long as it may be, and all its edges end in nodes. -/
structure L2Page.WellFormed (opts : L2Options) (page : L2Page) : Prop where
  length : page.edges.length ≤ opts.limit
  targets : ∀ e ∈ page.edges, ∃ n ∈ page.nodes, n.id = e.target

theorem wellFormed_buildGraphL2Page (db : Db) (token : L2TokenPayload) (opts : L2Options) (req : L2Request) :
    (buildGraphL2Page db token opts req).WellFormed opts := by
  have hSound := @sound_l2Loop db token.decoded opts (l2Fuel db token.decoded opts) _ (sound_ofRequest req)
  exact ⟨hSound.count.trans_le hSound.room, hSound.targets⟩

theorem nextCursor_l2PageOf (st : L2Loop) :
    (l2PageOf db token opts req st).nextCursor = l2NextCursor db token opts st := by
  show (if l2Done db token opts st then none else l2NextCursor db token opts st) = _
  split
  · next hDone =>
    unfold l2Done at hDone
    rw [Bool.and_eq_true, Option.isNone_iff_eq_none] at hDone
    exact hDone.1.symm
  · rfl

/-- The cursor of a page is where its loop ended, before the last parent. -/
theorem place_of_nextCursor {cursor : L2Cursor}
    (h : (buildGraphL2Page db token opts req).nextCursor = some cursor) :
    let last := l2Loop db token.decoded opts (l2Fuel db token.decoded opts) (.ofRequest req)
    cursor.parentIndex = last.parentIndex ∧ cursor.loadedFromParent = last.loadedFromParent ∧
      (last.nextCursor = some cursor ∨
        last.nextCursor = none ∧ cursor.after = last.edgeAfter ∧
          last.parentIndex < (expandableParents db token.decoded opts).length) := by
  intro last
  have hSound : last.Sound opts := sound_l2Loop _ (sound_ofRequest req)
  have hCursor : l2NextCursor db token.decoded opts last = some cursor := (nextCursor_l2PageOf last).symm.trans h
  unfold l2NextCursor at hCursor
  cases hOpen : last.nextCursor with
  | some c =>
    rw [hOpen] at hCursor
    cases hCursor
    exact ⟨(hSound.cursor _ hOpen).1, (hSound.cursor _ hOpen).2, .inl rfl⟩
  | none =>
    rw [hOpen] at hCursor
    change (if last.parentIndex < _ then some _ else none) = some cursor at hCursor
    split at hCursor
    · next hInside =>
      cases hCursor
      exact ⟨rfl, rfl, .inr ⟨rfl, rfl, hInside⟩⟩
    · cases hCursor

/-- The cursor of a page is nearer to the end than that of its request. -/
theorem l2Left_of_nextCursor {cursor : L2Cursor}
    (h : (buildGraphL2Page db token opts req).nextCursor = some cursor) :
    l2Left db token.decoded opts cursor.parentIndex cursor.loadedFromParent <
      l2Left db token.decoded opts (req.cursor.elim 0 (·.parentIndex))
        (req.cursor.elim 0 (·.loadedFromParent)) := by
  obtain ⟨hIndex, hLoaded, hOpen⟩ := place_of_nextCursor h
  rw [hIndex, hLoaded]
  rcases @l2Left_l2Loop db token.decoded opts (l2Fuel db token.decoded opts) (.ofRequest req) with hSame | hLess
  · -- a page without a round has no parent left
    have hHalted := @halted_l2Loop db token.decoded opts _ (.ofRequest req) (l2Rounds_ofRequest req)
    rw [hSame] at hHalted hOpen
    unfold currentParent at hHalted
    rw [if_pos ⟨rfl, opts.limit_pos⟩] at hHalted
    have hPast := List.getElem?_eq_none_iff.mp hHalted
    rcases hOpen with hSome | ⟨-, -, hInside⟩
    · cases hSome
    · omega
  · exact hLess

theorem l2_follows_exists (db : Db) (token : L2TokenPayload) (opts : L2Options) (req : L2Request) :
    ∃ requests, L2Follows db token opts req requests ∧
      requests.length ≤ l2Left db token.decoded opts (req.cursor.elim 0 (·.parentIndex))
        (req.cursor.elim 0 (·.loadedFromParent)) + 1 := by
  generalize hLeft : l2Left db token.decoded opts (req.cursor.elim 0 (·.parentIndex))
    (req.cursor.elim 0 (·.loadedFromParent)) = left
  induction left using Nat.strongRecOn generalizing req with
  | ind left ih =>
    cases h : (buildGraphL2Page db token opts req).nextCursor with
    | none => exact ⟨[req], .last h, by simp⟩
    | some cursor =>
      have hLess := l2Left_of_nextCursor h
      rw [hLeft] at hLess
      obtain ⟨later, hLater, hLength⟩ := ih _ hLess
        ⟨some cursor, (buildGraphL2Page db token opts req).loadedL2⟩ rfl
      exact ⟨req :: later, .next h hLater, by rw [List.length_cons]; omega⟩

theorem L2Follows.unique {requests requests' : List L2Request} (h : L2Follows db token opts req requests)
    (h' : L2Follows db token opts req requests') : requests' = requests := by
  induction h generalizing requests' with
  | last hNone =>
    cases h' with
    | last _ => rfl
    | next hSome _ =>
      rw [hNone] at hSome
      cases hSome
  | next hSome _ ih =>
    cases h' with
    | last hNone =>
      rw [hSome] at hNone
      cases hNone
    | next hSome' hLater' =>
      rw [hSome] at hSome'
      cases hSome'
      rw [ih hLater']

end Follow

/-- Following the cursors of a token ends, whatever the graph holds: after as many pages as there are parents
and children below the caps, each within the page size and with a node for each target. -/
theorem l2_pages_end (db : Db) (token : L2TokenPayload) (opts : L2Options) :
    ∃ requests, L2Follows db token opts {} requests ∧
      (∀ requests', L2Follows db token opts {} requests' → requests' = requests) ∧
      requests.length ≤ ((expandableParents db token.decoded opts).length + 1) *
        (maxPerParent token.decoded opts + 1) ∧
      ∀ req ∈ requests, (buildGraphL2Page db token opts req).edges.length ≤ opts.limit ∧
        ∀ e ∈ (buildGraphL2Page db token opts req).edges,
          ∃ n ∈ (buildGraphL2Page db token opts req).nodes, n.id = e.target := by
  obtain ⟨requests, hFollows, hLength⟩ := l2_follows_exists db token opts {}
  refine ⟨requests, hFollows, fun _ h => hFollows.unique h, ?_, fun req _ => ?_⟩
  · unfold l2Left at hLength
    rw [Nat.succ_mul]
    simp only [Option.elim_none, Nat.sub_zero] at hLength
    omega
  · have hPage := wellFormed_buildGraphL2Page db token opts req
    exact ⟨hPage.length, hPage.targets⟩

end Bloodhound.Graph
