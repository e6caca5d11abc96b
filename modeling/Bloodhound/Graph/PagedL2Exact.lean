import Bloodhound.Lib.Windows
import Bloodhound.Graph.PagedL2

/-!
# What the pages of the deeper levels list

Following the cursors of a token, for parents that are not shown as clusters and whose children are all
different.

* `round_lists`: a round shows a window of the children of its parent.
* `l2_exact_iff`: the pages list the displayable children of each parent once, whatever the page size, exactly
  where no victim stands before one of them.
-/

namespace Bloodhound.Graph

open Bloodhound.Store

/-! ## Relations -/

/-- What an edge shows of a child: the parent, the child and the amount. -/
def GraphEdge.relation (e : GraphEdge) : Option (NodeId × Address × Int) :=
  e.target.address?.map fun child => (e.source, child, e.amount)

def childRelation (parentId : Address) (ce : Edge) : NodeId × Address × Int :=
  (.address parentId, ce.toAddress, ce.row.amountSats)

def keepsChild (db : Db) (token : L2TokenPayload) (ce : Edge) : Bool :=
  !isVictimTargetOf db.edges token.hacker token.minEdgeSats ce.toAddress

/-- The children that a parent is to show: those that are no victims, up to the cap. -/
def displayableChildren (db : Db) (token : L2TokenPayload) (opts : L2Options) (parentId : Address) : List Edge :=
  ((orderedOutEdges db parentId token.minEdgeSats).filter (keepsChild db token)).take (maxPerParent token opts)

/-- The relations that the pages of a token are to list. -/
def displayableRelations (db : Db) (token : L2TokenPayload) (opts : L2Options) : List (NodeId × Address × Int) :=
  (expandableParents db token opts).flatMap fun parentId =>
    (displayableChildren db token opts parentId).map (childRelation parentId)

/-- The relations that a page shows. -/
def l2Listed (db : Db) (token : L2TokenPayload) (opts : L2Options) (req : L2Request) :
    List (NodeId × Address × Int) :=
  (buildGraphL2Page db token opts req).edges.filterMap GraphEdge.relation

/-- The page size of the client. -/
def L2Options.withLimit (opts : L2Options) (limit : Nat) (limit_pos : 0 < limit) : L2Options :=
  { opts with limit, limit_pos }

/-! ## Bundles of different children -/

def GraphEdge.shape (e : GraphEdge) : NodeId × NodeId × Int := (e.source, e.target, e.amount)

theorem shape_mapDbEdgeToGraph (source target : Address) (e : Edge) :
    (mapDbEdgeToGraph source target e).shape = (.address source, .address target, e.row.amountSats) := by
  unfold mapDbEdgeToGraph GraphEdge.shape
  dsimp only
  split
  · cases e.row.fanoutMeta with
    | none => rfl
    | some fanoutMeta => rfl
  · rfl

theorem map_bundleGroup {group : List GraphEdge} (minBundle : Nat) (h : group.length ≤ 1) :
    (bundleGroup minBundle group).map GraphEdge.shape = group.map GraphEdge.shape := by
  cases group with
  | nil => rfl
  | cons e rest =>
    have hRest : rest = [] := List.length_eq_zero_iff.mp (by simpa using h)
    subst hRest
    unfold bundleGroup
    dsimp only
    split
    · simp [bundleOf, GraphEdge.shape]
    · rfl

theorem length_groupOf_le {edges : List GraphEdge} (h : (edges.map fun e => (e.source, e.target)).Nodup)
    (pair : NodeId × NodeId) : (groupOf edges pair).length ≤ 1 := by
  have hCount := List.nodup_iff_count_le_one.mp h pair
  rw [List.count_eq_countP, List.countP_map, List.countP_eq_length_filter] at hCount
  refine Eq.trans_le (congrArg List.length (List.filter_congr fun e _ => ?_)) hCount
  exact (beq_eq_decide _ _).symm

/-- Edges to different nodes are shown one by one. -/
theorem shape_bundleParallelEdges {edges : List GraphEdge} (minBundle : Nat)
    (h : (edges.map fun e => (e.source, e.target)).Nodup) :
    ((bundleParallelEdges edges minBundle).map GraphEdge.shape).Perm (edges.map GraphEdge.shape) := by
  have hOthers : ((edges.filter fun e => !skipParallelBundle e.edgeKind).map fun e => (e.source, e.target)).Nodup :=
    h.sublist (List.filter_sublist.map _)
  have hGroups : ∀ group ∈ groups (edges.filter fun e => !skipParallelBundle e.edgeKind),
      group.length ≤ 1 := by
    intro group hGroup
    obtain ⟨pair, -, rfl⟩ := List.mem_map.mp hGroup
    exact length_groupOf_le hOthers pair
  have hFlat : ∀ gs : List (List GraphEdge), (∀ group ∈ gs, group.length ≤ 1) →
      (gs.flatMap (bundleGroup minBundle)).map GraphEdge.shape = gs.flatten.map GraphEdge.shape := by
    intro gs hSingle
    induction gs with
    | nil => rfl
    | cons group gs ih =>
      obtain ⟨hFirst, hRest⟩ := List.forall_mem_cons.mp hSingle
      rw [List.flatMap_cons, List.flatten_cons, List.map_append, List.map_append,
        map_bundleGroup minBundle hFirst, ih hRest]
  unfold bundleParallelEdges
  dsimp only
  rw [List.map_append, hFlat _ hGroups, ← List.map_append]
  refine List.Perm.map _ ?_
  exact ((flatten_groups_perm _).append_left _).trans (List.filter_append_perm _ edges)

section Fetch

variable {db : Db} {token : L2TokenPayload} {opts : L2Options} {parentId : Address}

/-- The relations of a fetch of different children. -/
theorem relations_bundledChildren {childEdges : List Edge} (h : (childEdges.map Edge.toAddress).Nodup) :
    ((bundledChildren token parentId childEdges).filterMap GraphEdge.relation).Perm
      (childEdges.map (childRelation parentId)) := by
  let ofShape : NodeId × NodeId × Int → Option (NodeId × Address × Int) := fun s =>
    s.2.1.address?.map fun child => (s.1, child, s.2.2)
  have hShape : ∀ edges : List GraphEdge,
      edges.filterMap GraphEdge.relation = (edges.map GraphEdge.shape).filterMap ofShape := fun edges => by
    rw [List.filterMap_map]
    rfl
  have hMapped : (childEdges.map fun ce => mapDbEdgeToGraph parentId ce.toAddress ce).map GraphEdge.shape =
      childEdges.map fun ce => (.address parentId, .address ce.toAddress, ce.row.amountSats) := by
    rw [List.map_map]
    exact List.map_congr_left fun ce _ => shape_mapDbEdgeToGraph parentId ce.toAddress ce
  have hPairs : ((childEdges.map fun ce => mapDbEdgeToGraph parentId ce.toAddress ce).map
      fun e => (e.source, e.target)).Nodup := by
    have hEnds : ((childEdges.map fun ce => mapDbEdgeToGraph parentId ce.toAddress ce).map
        fun e => (e.source, e.target)) =
          (childEdges.map Edge.toAddress).map fun a => (NodeId.address parentId, NodeId.address a) := by
      rw [List.map_map, List.map_map]
      refine List.map_congr_left fun ce _ => ?_
      have hEdge := shape_mapDbEdgeToGraph parentId ce.toAddress ce
      simp only [GraphEdge.shape, Prod.mk.injEq] at hEdge
      exact Prod.ext hEdge.1 hEdge.2.1
    rw [hEnds]
    exact h.map fun a b hSame => by simpa using hSame
  rw [hShape]
  refine ((shape_bundleParallelEdges token.graphBundleMinEdges hPairs).filterMap ofShape).trans ?_
  rw [hMapped, List.filterMap_map]
  exact List.Perm.of_eq (List.filterMap_eq_map_iff_forall_eq_some.mpr fun ce _ => rfl)

theorem length_bundledChildren {childEdges : List Edge} (h : (childEdges.map Edge.toAddress).Nodup) :
    (bundledChildren token parentId childEdges).length = childEdges.length := by
  have hAll : (bundledChildren token parentId childEdges).filterMap GraphEdge.relation =
      (bundledChildren token parentId childEdges).map fun e =>
        (e.source, (e.target.address?).getD parentId, e.amount) := by
    refine List.filterMap_eq_map_iff_forall_eq_some.mpr fun e he => ?_
    obtain ⟨a, ha⟩ := (childOf_of_mem_bundledEdges he).target
    unfold GraphEdge.relation
    rw [ha]
    rfl
  have hLength := (@relations_bundledChildren token parentId childEdges h).length_eq
  rwa [hAll, List.length_map, List.length_map] at hLength

end Fetch

/-! ## Places -/

/-- The children of a parent in front of its first victim, up to the cap. -/
def leadingChildren (db : Db) (token : L2TokenPayload) (opts : L2Options) (parentId : Address) : List Edge :=
  Windows.leading (keepsChild db token) (maxPerParent token opts) (orderedOutEdges db parentId token.minEdgeSats)

/-- What is left of the leading children from a place on. -/
def l2Rest (db : Db) (token : L2TokenPayload) (opts : L2Options) (parentIndex loadedFromParent : Nat) :
    List (NodeId × Address × Int) :=
  ((expandableParents db token opts)[parentIndex]?.elim [] fun parentId =>
    ((leadingChildren db token opts parentId).drop loadedFromParent).map (childRelation parentId)) ++
  ((expandableParents db token opts).drop (parentIndex + 1)).flatMap fun parentId =>
    (leadingChildren db token opts parentId).map (childRelation parentId)

/-- A cursor stands behind the rows that were loaded, which were all shown. -/
structure Stands (db : Db) (token : L2TokenPayload) (parentId : Address) (loadedFromParent : Nat)
    (after : Option OutEdgeKeysetCursor) : Prop where
  fetch : ∀ n, getOutEdgesFromAddress db.edges parentId token.minEdgeSats n after =
    ((orderedOutEdges db parentId token.minEdgeSats).drop loadedFromParent).take n
  leading : loadedFromParent ≤
    ((orderedOutEdges db parentId token.minEdgeSats).takeWhile (keepsChild db token)).length

/-- The children of a parent are different, and it is not shown as a cluster; and the pages have one edge, or
no victim stands before a child. -/
structure PlainParent (db : Db) (token : L2TokenPayload) (opts : L2Options) (parentId : Address) : Prop where
  different : ((outEdgeRows db.edges parentId token.minEdgeSats).map Edge.toAddress).Nodup
  listed : opts.expandParent.isSome = true ∨ isFanout db parentId = false
  windows : opts.limit = 1 ∨ Windows.Unbroken (keepsChild db token) (maxPerParent token opts)
    (orderedOutEdges db parentId token.minEdgeSats)

section Place

variable {db : Db} {token : L2TokenPayload} {opts : L2Options} {parentId : Address} {st : L2Loop}

theorem l2Rest_next (parentIndex : Nat) : l2Rest db token opts (parentIndex + 1) 0 =
    ((expandableParents db token opts).drop (parentIndex + 1)).flatMap fun parentId =>
      (leadingChildren db token opts parentId).map (childRelation parentId) := by
  unfold l2Rest
  cases hParent : (expandableParents db token opts)[parentIndex + 1]? with
  | none =>
    have hPast := List.getElem?_eq_none_iff.mp hParent
    rw [List.drop_eq_nil_of_le hPast, List.drop_eq_nil_of_le (by omega)]
    rfl
  | some p =>
    obtain ⟨hInside, rfl⟩ := List.getElem?_eq_some_iff.mp hParent
    rw [List.drop_eq_getElem_cons hInside]
    rfl

theorem l2Rest_of_parent {parentIndex loadedFromParent : Nat}
    (h : (expandableParents db token opts)[parentIndex]? = some parentId) :
    l2Rest db token opts parentIndex loadedFromParent =
      ((leadingChildren db token opts parentId).drop loadedFromParent).map (childRelation parentId) ++
        l2Rest db token opts (parentIndex + 1) 0 := by
  rw [l2Rest_next]
  unfold l2Rest
  rw [h]
  rfl

theorem stands_first (db : Db) (token : L2TokenPayload) (parentId : Address) :
    Stands db token parentId 0 none :=
  ⟨fun n => Keyset.fetch_first _ n _, Nat.zero_le _⟩

theorem different_ordered (h : PlainParent db token opts parentId) :
    ((orderedOutEdges db parentId token.minEdgeSats).map Edge.toAddress).Nodup :=
  ((List.perm_insertionSort _ _).map _).nodup_iff.mpr h.different

/-- Behind a child comes the next one. -/
theorem rest_of_different {front later : List Edge} {e : Edge}
    (h : ((front ++ e :: later).map Edge.toAddress).Nodup) : Keyset.rest Edge.order e later = later := by
  unfold Keyset.rest
  cases later with
  | nil => rfl
  | cons b later =>
    refine List.dropWhile_cons_of_neg fun hSame => ?_
    have hTarget : b.toAddress = e.toAddress :=
      congrArg (fun k : OutEdgeOrder => (ofLex k).2) (of_decide_eq_true hSame)
    rw [List.map_append, List.map_cons, List.map_cons, ← hTarget] at h
    have hTwice := (List.nodup_append.mp h).2.1
    simp at hTwice

/-- A window that was all shown ends at the place of its last edge. -/
theorem stands_behind (hPlain : PlainParent db token opts parentId) {loaded size : Nat}
    {after : Option OutEdgeKeysetCursor} (h : Stands db token parentId loaded after) (hSize : 0 < size)
    {window : List Edge}
    (hWindow : window = (((orderedOutEdges db parentId token.minEdgeSats).drop loaded).take size).filter
      (keepsChild db token))
    (hLeading : window = ((leadingChildren db token opts parentId).drop loaded).take size)
    (hFull : window.length = size) :
    Stands db token parentId (loaded + size) (window.getLast?.map Edge.cursor) := by
  have hAll : window = ((orderedOutEdges db parentId token.minEdgeSats).drop loaded).take size := by
    rw [hWindow]
    refine List.filter_sublist.eq_of_length_le ?_
    rw [← hWindow, hFull]
    exact List.length_take_le _ _
  obtain ⟨e, front, hLast⟩ : ∃ e front, window = front ++ [e] := by
    have hSome : window ≠ [] := List.length_pos_iff.mp (by omega)
    exact ⟨_, _, (List.dropLast_append_getLast hSome).symm⟩
  have hRows : orderedOutEdges db parentId token.minEdgeSats =
      ((orderedOutEdges db parentId token.minEdgeSats).take loaded ++ front) ++
        e :: (orderedOutEdges db parentId token.minEdgeSats).drop (loaded + size) := by
    conv_lhs => rw [← List.take_append_drop loaded (orderedOutEdges db parentId token.minEdgeSats),
      ← List.take_append_drop size ((orderedOutEdges db parentId token.minEdgeSats).drop loaded), ← hAll, hLast,
      List.drop_drop]
    simp
  constructor
  · intro n
    have hDifferent := different_ordered hPlain
    rw [hRows] at hDifferent
    rw [hLast, List.getLast?_append]
    refine (Keyset.fetch_behind Edge.order n hRows).trans ?_
    rw [rest_of_different hDifferent]
  · have hLength := congrArg List.length hLeading
    unfold leadingChildren Windows.leading at hLength
    rw [hFull, List.length_take, List.length_drop, List.length_take] at hLength
    have hBefore := h.leading
    omega

end Place

/-! ## Rounds -/

/-- What is shown and what is left are the total together. -/
structure L2Loop.Lists (db : Db) (token : L2TokenPayload) (opts : L2Options)
    (total : List (NodeId × Address × Int)) (st : L2Loop) : Prop where
  perm : (st.edges.filterMap GraphEdge.relation ++
    l2Rest db token opts st.parentIndex st.loadedFromParent).Perm total
  stands : ∀ parentId, (expandableParents db token opts)[st.parentIndex]? = some parentId →
    Stands db token parentId st.loadedFromParent (st.nextCursor.elim st.edgeAfter (·.after))

section Rounds

variable {db : Db} {token : L2TokenPayload} {opts : L2Options} {parentId : Address} {st : L2Loop}
  {total : List (NodeId × Address × Int)}

theorem not_collapses (h : PlainParent db token opts parentId) :
    collapsesFanout db opts parentId st = false := by
  unfold collapsesFanout
  rcases h.listed with hSome | hPlain
  · rw [Option.isNone_eq_false_iff.mpr hSome, Bool.and_false, Bool.false_and, Bool.false_and]
  · rw [hPlain]
    rfl

/-- A fetch is a window of the leading children. -/
theorem l2ChildEdges_eq (hPlain : PlainParent db token opts parentId)
    (h : Stands db token parentId st.loadedFromParent st.edgeAfter)
    (hCap : st.loadedFromParent ≤ maxPerParent token opts) :
    l2ChildEdges db token opts parentId st =
        (((orderedOutEdges db parentId token.minEdgeSats).drop st.loadedFromParent).take
          (l2Remaining token opts st)).filter (keepsChild db token) ∧
      l2ChildEdges db token opts parentId st =
        ((leadingChildren db token opts parentId).drop st.loadedFromParent).take (l2Remaining token opts st) := by
  have hFetch : l2ChildEdges db token opts parentId st =
      (((orderedOutEdges db parentId token.minEdgeSats).drop st.loadedFromParent).take
        (l2Remaining token opts st)).filter (keepsChild db token) := by
    unfold l2ChildEdges l2FetchLimit
    rw [if_neg (by rw [not_collapses hPlain]; exact Bool.false_ne_true), h.fetch]
    rfl
  refine ⟨hFetch, hFetch.trans (Windows.filter_window h.leading ?_ (hPlain.windows.imp_left fun hOne => ?_))⟩
  · unfold l2Remaining
    omega
  · unfold l2Remaining
    omega

theorem lists_nextParent (hOpen : st.nextCursor = none)
    (h : (st.edges.filterMap GraphEdge.relation ++ l2Rest db token opts (st.parentIndex + 1) 0).Perm total) :
    st.nextParent.Lists db token opts total := by
  refine ⟨h, fun p _ => ?_⟩
  show Stands db token p 0 (st.nextCursor.elim none (·.after))
  rw [hOpen]
  exact stands_first db token p

theorem relations_withCluster (shown : Nat) (totalSats : Int) :
    (withCluster db token opts parentId shown totalSats st).edges.filterMap GraphEdge.relation =
      st.edges.filterMap GraphEdge.relation := by
  unfold withCluster
  split
  · show (st.edges ++ [_]).filterMap GraphEdge.relation = _
    rw [List.filterMap_append]
    exact List.append_nil _
  · rfl

/-- The end of a round that has shown a window. -/
theorem lists_afterChildren {shown : L2Loop} (hOpen : shown.nextCursor = none) {fetchedFull : Bool}
    {after : Option OutEdgeKeysetCursor}
    (hPerm : (shown.edges.filterMap GraphEdge.relation ++
      l2Rest db token opts shown.parentIndex shown.loadedFromParent).Perm total)
    (hStands : fetchedFull = true → ∀ p, (expandableParents db token opts)[shown.parentIndex]? = some p →
      Stands db token p shown.loadedFromParent after)
    (hLeft : maxPerParent token opts ≤ shown.loadedFromParent ∨ fetchedFull = false →
      l2Rest db token opts shown.parentIndex shown.loadedFromParent =
        l2Rest db token opts (shown.parentIndex + 1) 0) :
    (afterChildren db token opts parentId after fetchedFull shown).Lists db token opts total := by
  unfold afterChildren
  split
  · next hEnds => exact ⟨hPerm, fun p hp => hStands hEnds.2.2 p hp⟩
  · split
    · next hLeaves =>
      rw [hLeft hLeaves] at hPerm
      split
      · refine lists_nextParent ((nextCursor_withCluster _ _).trans hOpen) ?_
        rw [relations_withCluster, (place_withCluster _ _).1]
        exact hPerm
      · exact lists_nextParent hOpen hPerm
    · next hStays =>
      have hFull : fetchedFull = true := by
        cases fetchedFull with
        | true => rfl
        | false => exact absurd (.inr rfl) hStays
      refine ⟨hPerm, fun p hp => ?_⟩
      show Stands db token p shown.loadedFromParent (shown.nextCursor.elim after (·.after))
      rw [hOpen]
      exact hStands hFull p hp

theorem l2FetchLimit_eq (hPlain : PlainParent db token opts parentId) :
    l2FetchLimit db token opts parentId st = l2Remaining token opts st := by
  unfold l2FetchLimit
  rw [if_neg (by rw [not_collapses hPlain]; exact Bool.false_ne_true)]

/-- A round that shows the children of its fetch. -/
theorem lists_listChildren (hPlain : PlainParent db token opts parentId)
    (hIndex : (expandableParents db token opts)[st.parentIndex]? = some parentId) (hOpen : st.nextCursor = none)
    (hPerm : (st.edges.filterMap GraphEdge.relation ++
      l2Rest db token opts st.parentIndex st.loadedFromParent).Perm total)
    (hStands : Stands db token parentId st.loadedFromParent st.edgeAfter)
    (hRemaining : 0 < l2Remaining token opts st) {window : List Edge}
    (hFetch : window = (((orderedOutEdges db parentId token.minEdgeSats).drop st.loadedFromParent).take
      (l2Remaining token opts st)).filter (keepsChild db token))
    (hWindow : window =
      ((leadingChildren db token opts parentId).drop st.loadedFromParent).take (l2Remaining token opts st)) :
    (listChildren db token opts parentId window (bundledChildren token parentId window) st).Lists
      db token opts total := by
  have hDifferent : (window.map Edge.toAddress).Nodup := by
    refine (different_ordered hPlain).sublist (List.Sublist.map _ ?_)
    rw [hFetch]
    exact List.filter_sublist.trans ((List.take_sublist _ _).trans (List.drop_sublist _ _))
  have hFits : window.length ≤ l2Remaining token opts st := by
    rw [hWindow]
    exact List.length_take_le _ _
  have hLength : (bundledChildren token parentId window).length = window.length := length_bundledChildren hDifferent
  have hCap : addCap token opts (bundledChildren token parentId window) st = window.length := by
    unfold addCap
    omega
  have hAll : (bundledChildren token parentId window).take window.length = bundledChildren token parentId window :=
    List.take_of_length_le hLength.le
  have hLast : lastRaw window window.length = window.getLast?.map Edge.cursor := by
    unfold lastRaw
    rw [Nat.min_self, ← List.getLast?_eq_getElem?]
    cases window.getLast? <;> rfl
  obtain ⟨later, hLater⟩ : ∃ later,
      (leadingChildren db token opts parentId).drop st.loadedFromParent = window ++ later := by
    obtain ⟨later, hPrefix⟩ := List.take_prefix (l2Remaining token opts st)
      ((leadingChildren db token opts parentId).drop st.loadedFromParent)
    exact ⟨later, by rw [hWindow, hPrefix]⟩
  have hDrop : (leadingChildren db token opts parentId).drop (st.loadedFromParent + window.length) = later := by
    rw [← List.drop_drop, hLater, List.drop_left]
  have hRest : l2Rest db token opts st.parentIndex (st.loadedFromParent + window.length) =
      later.map (childRelation parentId) ++ l2Rest db token opts (st.parentIndex + 1) 0 := by
    rw [l2Rest_of_parent hIndex, hDrop]
  unfold listChildren
  rw [hCap, hAll, hLast, l2FetchLimit_eq hPlain]
  have hShown : (st.emitChildren db.addresses (bundledChildren token parentId window)).nextCursor = none := hOpen
  refine lists_afterChildren hShown ?_ (fun hFull p hp => ?_) fun hLeaves => ?_
  · show ((st.edges ++ bundledChildren token parentId window).filterMap GraphEdge.relation ++
      l2Rest db token opts st.parentIndex
        (st.loadedFromParent + (bundledChildren token parentId window).length)).Perm total
    rw [hLength, hRest, List.filterMap_append, List.append_assoc]
    rw [l2Rest_of_parent hIndex, hLater, List.map_append, List.append_assoc] at hPerm
    exact (((relations_bundledChildren hDifferent).append_right _).append_left _).trans hPerm
  · cases hIndex.symm.trans hp
    show Stands db token parentId (st.loadedFromParent + (bundledChildren token parentId window).length) _
    have hWhole : window.length = l2Remaining token opts st := Nat.le_antisymm hFits (of_decide_eq_true hFull)
    rw [hLength, hWhole]
    exact stands_behind hPlain hStands hRemaining hFetch hWindow hWhole
  · show l2Rest db token opts st.parentIndex
      (st.loadedFromParent + (bundledChildren token parentId window).length) = _
    have hNone : later = [] := by
      refine List.length_eq_zero_iff.mp ?_
      have hLeading := @Windows.length_leading_le _ (keepsChild db token) (maxPerParent token opts)
        (orderedOutEdges db parentId token.minEdgeSats)
      have hShort := congrArg List.length hLater
      have hTake := congrArg List.length hWindow
      rw [List.length_take] at hTake
      rw [List.length_drop, List.length_append] at hShort
      change (leadingChildren db token opts parentId).length ≤ _ at hLeading
      rcases hLeaves with hFull | hNot
      · change maxPerParent token opts ≤
          st.loadedFromParent + (bundledChildren token parentId window).length at hFull
        omega
      · have hLess := of_decide_eq_false hNot
        rw [List.length_drop] at hTake
        omega
    rw [hLength, hRest, hNone]
    rfl

/-- A round shows a window of the children of its parent. -/
theorem round_lists (hPlain : PlainParent db token opts parentId)
    (hParent : currentParent db token opts st = some parentId) (h : st.Lists db token opts total) :
    (l2Step db token opts parentId st).Lists db token opts total := by
  obtain ⟨hOpen, hPage, hIndex⟩ := open_of_currentParent hParent
  have hStands : Stands db token parentId st.loadedFromParent st.edgeAfter := by
    have hHere := h.stands parentId hIndex
    rwa [hOpen] at hHere
  have hPerm := h.perm
  rw [l2Rest_of_parent hIndex] at hPerm
  have hEmpty : (leadingChildren db token opts parentId).drop st.loadedFromParent = [] →
      st.nextParent.Lists db token opts total := by
    intro hNone
    rw [hNone] at hPerm
    exact lists_nextParent hOpen hPerm
  unfold l2Step
  split
  · next hCap => exact hEmpty (List.drop_eq_nil_of_le (Windows.length_leading_le.trans hCap))
  · next hCap =>
    have hRemaining : 0 < l2Remaining token opts st := by
      unfold l2Remaining
      omega
    obtain ⟨hFetch, hWindow⟩ := l2ChildEdges_eq hPlain hStands (Nat.le_of_not_le hCap)
    split
    · next hNone =>
      rw [hWindow, List.take_eq_nil_iff] at hNone
      exact hEmpty (hNone.resolve_left (by omega))
    · next hSome =>
      rw [if_neg (by rw [not_collapses hPlain]; exact Bool.false_ne_true)]
      exact lists_listChildren hPlain hIndex hOpen h.perm hStands hRemaining hFetch hWindow

end Rounds

/-! ## Following the cursors -/

section Follow

variable {db : Db} {token : L2TokenPayload} {opts : L2Options} {req : L2Request}

theorem lists_l2Loop (hPlain : ∀ p ∈ expandableParents db token opts, PlainParent db token opts p)
    {total : List (NodeId × Address × Int)} (fuel : Nat) {st : L2Loop} (h : st.Lists db token opts total) :
    (l2Loop db token opts fuel st).Lists db token opts total := by
  refine l2Loop_induct (fun st p hParent hLists => ?_) fuel h
  have hMem := List.mem_of_getElem? (open_of_currentParent hParent).2.2
  exact round_lists (hPlain p hMem) hParent hLists

/-- The place of a request. -/
def L2Request.Stands (db : Db) (token : L2TokenPayload) (opts : L2Options) (req : L2Request) : Prop :=
  ∀ p, (expandableParents db token opts)[req.cursor.elim 0 (·.parentIndex)]? = some p →
    Graph.Stands db token p (req.cursor.elim 0 (·.loadedFromParent)) (req.cursor.bind (·.after))

def L2Request.rest (db : Db) (token : L2TokenPayload) (opts : L2Options) (req : L2Request) :
    List (NodeId × Address × Int) :=
  l2Rest db token opts (req.cursor.elim 0 (·.parentIndex)) (req.cursor.elim 0 (·.loadedFromParent))

theorem lists_ofRequest (h : req.Stands db token opts) :
    (L2Loop.ofRequest req).Lists db token opts (req.rest db token opts) :=
  ⟨List.Perm.refl _, h⟩

/-- The last page shows what is left. -/
theorem listed_last
    (hPlain : ∀ p ∈ expandableParents db token.decoded opts, PlainParent db token.decoded opts p)
    (hStands : req.Stands db token.decoded opts)
    (h : (buildGraphL2Page db token opts req).nextCursor = none) :
    (l2Listed db token opts req).Perm (req.rest db token.decoded opts) := by
  have hLists := lists_l2Loop hPlain (l2Fuel db token.decoded opts) (lists_ofRequest hStands)
  have hCursor := (@nextCursor_l2PageOf db token.decoded opts req _).symm.trans h
  unfold l2NextCursor at hCursor
  generalize hLoop : l2Loop db token.decoded opts (l2Fuel db token.decoded opts) (.ofRequest req) = last
    at hLists hCursor
  have hPast : (expandableParents db token.decoded opts).length ≤ last.parentIndex := by
    by_contra hInside
    rw [if_pos (Nat.lt_of_not_le hInside)] at hCursor
    cases hOpen : last.nextCursor with
    | none =>
      rw [hOpen] at hCursor
      cases hCursor
    | some c =>
      rw [hOpen] at hCursor
      cases hCursor
  have hNone : l2Rest db token.decoded opts last.parentIndex last.loadedFromParent = [] := by
    unfold l2Rest
    rw [List.getElem?_eq_none hPast, List.drop_eq_nil_of_le (by omega)]
    rfl
  have hPerm := hLists.perm
  rw [hNone, List.append_nil, ← hLoop] at hPerm
  exact hPerm

/-- A page with a cursor leaves what is left at its cursor. -/
theorem listed_next
    (hPlain : ∀ p ∈ expandableParents db token.decoded opts, PlainParent db token.decoded opts p)
    (hStands : req.Stands db token.decoded opts) {cursor : L2Cursor}
    (h : (buildGraphL2Page db token opts req).nextCursor = some cursor) (loaded : Nat) :
    (l2Listed db token opts req ++ L2Request.rest db token.decoded opts ⟨some cursor, loaded⟩).Perm
        (req.rest db token.decoded opts) ∧
      L2Request.Stands db token.decoded opts ⟨some cursor, loaded⟩ := by
  have hLists := lists_l2Loop hPlain (l2Fuel db token.decoded opts) (lists_ofRequest hStands)
  obtain ⟨hIndex, hLoaded, hPlace⟩ := place_of_nextCursor h
  constructor
  · have hPerm := hLists.perm
    rw [← hIndex, ← hLoaded] at hPerm
    exact hPerm
  · intro p hp
    change (expandableParents db token.decoded opts)[cursor.parentIndex]? = some p at hp
    rw [hIndex] at hp
    have hHere := hLists.stands p hp
    show Graph.Stands db token.decoded p cursor.loadedFromParent cursor.after
    rw [hLoaded]
    rcases hPlace with hSome | ⟨hOpen, hAfter, -⟩
    · rwa [hSome] at hHere
    · rw [hOpen] at hHere
      rwa [hAfter]

/-- Following the cursors lists the leading children of what is left. -/
theorem listed_of_follows
    (hPlain : ∀ p ∈ expandableParents db token.decoded opts, PlainParent db token.decoded opts p)
    {requests : List L2Request} (h : L2Follows db token opts req requests)
    (hStands : req.Stands db token.decoded opts) :
    (requests.flatMap (l2Listed db token opts)).Perm (req.rest db token.decoded opts) := by
  induction h with
  | last hNone =>
    rw [List.flatMap_singleton]
    exact listed_last hPlain hStands hNone
  | next hSome _ ih =>
    obtain ⟨hPerm, hNext⟩ := listed_next hPlain hStands hSome _
    rw [List.flatMap_cons]
    exact ((ih hNext).append_left _).trans hPerm

/-- The leading children of all parents. -/
theorem rest_first (db : Db) (token : L2TokenPayload) (opts : L2Options) :
    L2Request.rest db token opts {} = (expandableParents db token opts).flatMap fun p =>
      (leadingChildren db token opts p).map (childRelation p) := by
  unfold L2Request.rest l2Rest
  cases expandableParents db token opts <;> rfl

theorem stands_request (db : Db) (token : L2TokenPayload) (opts : L2Options) :
    L2Request.Stands db token opts {} := fun p _ => stands_first db token p

end Follow

/-! ## Exactness -/

/-- The children of the parents are all different, and no parent is shown as a cluster. -/
structure PlainToken (db : Db) (token : L2TokenPayload) (opts : L2Options) : Prop where
  different : ∀ p ∈ expandableParents db token opts,
    ((outEdgeRows db.edges p token.minEdgeSats).map Edge.toAddress).Nodup
  listed : opts.expandParent.isSome = true ∨ ∀ p ∈ expandableParents db token opts, isFanout db p = false

/-- No victim stands before a child that is to be shown. -/
def VictimsLast (db : Db) (token : L2TokenPayload) (opts : L2Options) : Prop :=
  ∀ p ∈ expandableParents db token opts, Windows.Unbroken (keepsChild db token) (maxPerParent token opts)
    (orderedOutEdges db p token.minEdgeSats)

section Exact

variable {db : Db} {token : L2TokenPayload} {opts : L2Options}

theorem PlainToken.parent (h : PlainToken db token opts) (limit : Nat) (hPos : 0 < limit)
    (hWindows : limit = 1 ∨ VictimsLast db token opts) :
    ∀ p ∈ expandableParents db token (opts.withLimit limit hPos),
      PlainParent db token (opts.withLimit limit hPos) p := fun p hp =>
  ⟨h.different p hp, h.listed.imp_right fun hAll => hAll p hp, hWindows.imp_right fun hLast => hLast p hp⟩

theorem eq_of_length_flatMap {α β : Type} {ps : List α} {f g : α → List β} (hPrefix : ∀ p, f p <+: g p)
    (h : (ps.flatMap g).length ≤ (ps.flatMap f).length) : ∀ p ∈ ps, f p = g p := by
  have hShorter : ∀ qs : List α, (qs.flatMap f).length ≤ (qs.flatMap g).length := by
    intro qs
    induction qs with
    | nil => exact Nat.le_refl _
    | cons q qs ih =>
      rw [List.flatMap_cons, List.flatMap_cons, List.length_append, List.length_append]
      exact Nat.add_le_add (hPrefix q).length_le ih
  induction ps with
  | nil => exact fun p hp => absurd hp List.not_mem_nil
  | cons q ps ih =>
    rw [List.flatMap_cons, List.flatMap_cons, List.length_append, List.length_append] at h
    have hFirst := (hPrefix q).length_le
    have hRest := hShorter ps
    refine List.forall_mem_cons.mpr ⟨(hPrefix q).eq_of_length (by omega), ih (by omega)⟩

end Exact

/-- Following the cursors of a token whose parents have different children and are not shown as clusters: for
every page size the pages list each displayable child of each parent once exactly where no victim stands
before one of them. -/
theorem l2_exact_iff {db : Db} {token : L2TokenPayload} {opts : L2Options}
    (hPlain : PlainToken db token.decoded opts) :
    (∀ limit (hPos : 0 < limit), ∃ requests, L2Follows db token (opts.withLimit limit hPos) {} requests ∧
      (requests.flatMap (l2Listed db token (opts.withLimit limit hPos))).Perm
        (displayableRelations db token.decoded opts)) ↔
      VictimsLast db token.decoded opts := by
  have hListed : ∀ limit (hPos : 0 < limit), limit = 1 ∨ VictimsLast db token.decoded opts →
      ∃ requests, L2Follows db token (opts.withLimit limit hPos) {} requests ∧
        (requests.flatMap (l2Listed db token (opts.withLimit limit hPos))).Perm
          ((expandableParents db token.decoded opts).flatMap fun p =>
            (leadingChildren db token.decoded opts p).map (childRelation p)) := by
    intro limit hPos hWindows
    obtain ⟨requests, hFollows, -⟩ := l2_follows_exists db token (opts.withLimit limit hPos) {}
    refine ⟨requests, hFollows, ?_⟩
    have hPerm := listed_of_follows (hPlain.parent limit hPos hWindows) hFollows (stands_request _ _ _)
    rwa [rest_first] at hPerm
  constructor
  · intro hExact p hp
    obtain ⟨requests, hFollows, hPerm⟩ := hExact 1 Nat.one_pos
    obtain ⟨requests', hFollows', hPerm'⟩ := hListed 1 Nat.one_pos (.inl rfl)
    rw [hFollows.unique hFollows'] at hPerm'
    -- with pages of one edge the leading children are listed
    have hSame := eq_of_length_flatMap
      (fun q => (Windows.leading_prefix (keepsChild db token.decoded) (maxPerParent token.decoded opts)
        (orderedOutEdges db q token.decoded.minEdgeSats)).map (childRelation q))
      (hPerm.symm.trans hPerm').length_eq.le p hp
    refine Windows.leading_eq_iff.mp ?_
    have hLength := congrArg List.length hSame
    rw [List.length_map, List.length_map] at hLength
    exact ((Windows.leading_prefix _ _ _).eq_of_length hLength).symm
  · intro hLast limit hPos
    obtain ⟨requests, hFollows, hPerm⟩ := hListed limit hPos (.inr hLast)
    refine ⟨requests, hFollows, hPerm.trans (List.Perm.of_eq ?_)⟩
    refine List.flatMap_congr fun p hp => ?_
    exact congrArg (List.map (childRelation p)) (Windows.leading_eq_iff.mpr (hLast p hp)).symm

/-! A parent with two children, of which the smaller one is a victim. -/

def refundStore : Db :=
  { Db.initial with
    addresses := (∅ : Table.Rows Address AddressRow).insert (name "p")
      ⟨.downstream, "hack", false, some 1, .expanded, none, 0, 0⟩
    edges := (((∅ : Table.Rows EdgeKey EdgeRow).insert ⟨name "p", name "a", name "t"⟩
      ⟨200000, .outFromHacker, none, some 1, none, none⟩).insert ⟨name "p", name "b", name "t"⟩
      ⟨150000, .outFromHacker, none, some 1, none, none⟩).insert ⟨name "b", name "h", name "u"⟩
      ⟨150000, .inToHacker, none, some 1, none, none⟩ }

def refundToken : L2TokenPayload := ⟨name "h", [name "p"], 100000, 200, 2, 2⟩

def refundOptions : L2Options := { limit := 25, limit_pos := by decide }

theorem l2_exact_iff_refund :
    (∀ limit (hPos : 0 < limit), ∃ requests,
      L2Follows refundStore refundToken (refundOptions.withLimit limit hPos) {} requests ∧
        (requests.flatMap (l2Listed refundStore refundToken (refundOptions.withLimit limit hPos))).Perm
          (displayableRelations refundStore refundToken.decoded refundOptions)) ↔
      VictimsLast refundStore refundToken.decoded refundOptions :=
  l2_exact_iff ⟨by decide +kernel, .inr (by decide +kernel)⟩

end Bloodhound.Graph
