import Bloodhound.Lib.Keyset
import Bloodhound.Graph.VictimSection

/-!
# Pages of the first level

`getOutEdgesFromAddress` of the store, the filter of `graphVictims.ts` and `buildGraphL1Page`: the out-edges
of a hacker come by decreasing amount, page by page; the cursor of a page is the amount and the target of its
last edge that is not a victim's. A cursor is a value here, the token that carries it is not modelled. The first
page shows the hacker, the victims and the refunds too. The OP_RETURN labels are left out.

* `lists_of_follows`: following the cursors is a pager over the ordered out-edges.
* `l1_exact_iff`: when it lists each out-edge to an address outside the victims once.
-/

namespace Bloodhound.Graph

open Bloodhound.Store

/-! ## Reads -/

/-- `OutEdgeKeysetCursor`. -/
structure OutEdgeKeysetCursor where
  amountSats : Int
  toAddress : Address
  deriving DecidableEq

/-- The order of `desc(amountSats), asc(toAddress)`. -/
abbrev OutEdgeOrder : Type := Lex (Int × Address)

def OutEdgeKeysetCursor.order (cursor : OutEdgeKeysetCursor) : OutEdgeOrder :=
  toLex (-cursor.amountSats, cursor.toAddress)

def Edge.cursor (e : Edge) : OutEdgeKeysetCursor := ⟨e.row.amountSats, e.toAddress⟩

def Edge.order (e : Edge) : OutEdgeOrder := e.cursor.order

/-- The rows of the first conditions of `getOutEdgesFromAddress`. -/
def outEdgeRows (edges : Table.Rows EdgeKey EdgeRow) (address : Address) (minEdgeSats : Int) : List Edge :=
  (edges.entries.filter fun e =>
    e.1.fromAddress = address && e.2.direction = .outFromHacker &&
      (minEdgeSats ≤ 0 || minEdgeSats ≤ e.2.amountSats)).map fun e => ⟨e.1, e.2⟩

/-- The order of rows with the same amount and target is the one of the table. -/
def getOutEdgesFromAddress (edges : Table.Rows EdgeKey EdgeRow) (address : Address) (minEdgeSats : Int)
    (limit : Nat) (after : Option OutEdgeKeysetCursor) : List Edge :=
  Keyset.fetch Edge.order (after.map OutEdgeKeysetCursor.order) limit
    (outEdgeRows edges address minEdgeSats)

/-- `filterVictimTargetsOfHacker`, for one address. -/
def isVictimTargetOf (edges : Table.Rows EdgeKey EdgeRow) (hacker : Address) (minEdgeSats : Int)
    (address : Address) : Bool :=
  edges.entries.any fun e =>
    e.1.fromAddress = address && e.1.toAddress = hacker && e.2.direction = .inToHacker &&
      minEdgeSats ≤ e.2.amountSats

def excludeEdgesToHackerVictims (edges : Table.Rows EdgeKey EdgeRow) (hacker : Address) (minEdgeSats : Int)
    (rows : List Edge) : List Edge :=
  rows.filter fun e => !isVictimTargetOf edges hacker minEdgeSats e.toAddress

/-! ## The page -/

/-- The parameters of the pages of one graph; the API admits no empty page. -/
structure L1Options where
  limit : Nat
  limit_pos : 0 < limit
  maxDownstream : Nat
  minEdgeSats : Int := 100000
  expandVictims : Bool := false
  maxVictims : Nat := 100
  graphBundleMinEdges : Nat := 2
  maxGraphDepth : Nat := 2
  reads : Reads := {}

def L1Options.victims (opts : L1Options) : VictimOptions := ⟨opts.expandVictims, opts.maxVictims, opts.minEdgeSats⟩

structure L1Request where
  cursor : Option OutEdgeKeysetCursor := none
  loadedL1 : Nat := 0

structure L2TokenPayload where
  hacker : Address
  parents : List Address
  minEdgeSats : Int
  maxPerParent : Nat
  graphBundleMinEdges : Nat
  maxGraphDepth : Nat

structure L1Page where
  nodes : List GraphNode
  edges : List GraphEdge
  done : Bool
  nextCursor : Option OutEdgeKeysetCursor
  totalL1 : Option Nat
  loadedL1 : Nat
  l2Token : Option L2TokenPayload

def L1Options.fetchLimit (opts : L1Options) (req : L1Request) : Nat :=
  min opts.limit (opts.maxDownstream - req.loadedL1)

/-- The rows of a page: those that are fetched and not a victim's. -/
def l1OutEdges (db : Db) (hacker : Address) (opts : L1Options) (req : L1Request) : List Edge :=
  excludeEdgesToHackerVictims db.edges hacker opts.minEdgeSats
    (if 0 < opts.fetchLimit req then
      getOutEdgesFromAddress db.edges hacker opts.minEdgeSats (opts.fetchLimit req) req.cursor
    else [])

/-- The page ends the list where it has fewer rows than were asked for. -/
def l1NaturalDone (opts : L1Options) (req : L1Request) (outEdges : List Edge) : Bool :=
  outEdges.length < opts.fetchLimit req || opts.fetchLimit req = 0

def l1HackerNode (hacker : Address) (row : AddressRow) : GraphNode where
  id := .address hacker
  type := .hacker
  role := .hacker
  totalReceivedSats := some row.totalReceivedSats
  hopFromHacker := some 0

/-- The out-edges of the page, as they are drawn. -/
def l1Bundled (db : Db) (hacker : Address) (opts : L1Options) (req : L1Request) : List GraphEdge :=
  bundleParallelEdges ((l1OutEdges db hacker opts req).map fun e => mapDbEdgeToGraph hacker e.toAddress e)
    opts.graphBundleMinEdges

def appendTargets (addresses : Table.Rows Address AddressRow) (bundled : List GraphEdge) (page : PageParts) :
    PageParts where
  nodes := page.nodes ++ targetNodes addresses page.seen bundled
  edges := page.edges ++ bundled
  seen := page.seen ++ bundled.map (·.target)

/-- The first page has the hacker and the victims before the targets, and the refunds behind them. -/
def l1Parts (db : Db) (hacker : Address) (row : AddressRow) (opts : L1Options) (req : L1Request) : PageParts :=
  let bundledHackerOut := l1Bundled db hacker opts req
  if req.cursor.isNone then
    let start : PageParts := { nodes := [l1HackerNode hacker row], seen := [.address hacker] }
    let listed := appendTargets db.addresses bundledHackerOut
      (appendVictimsSection db.edges hacker opts.victims start)
    appendVictimRefunds db.edges opts.reads opts.minEdgeSats
      (getVictimAddressSetForHacker db opts.reads hacker VICTIM_REFUND_PROBE_LIMIT opts.minEdgeSats) listed
  else appendTargets db.addresses bundledHackerOut {}

/-- The page of a flagged hacker. -/
def l1FlaggedPage (db : Db) (hacker : Address) (row : AddressRow) (opts : L1Options) (req : L1Request) :
    L1Page :=
  let outEdges := l1OutEdges db hacker opts req
  let parts := l1Parts db hacker row opts req
  let level1Ids := (l1Bundled db hacker opts req).filterMap (·.target.address?)
  let loadedL1 := req.loadedL1 + outEdges.length
  let naturalDone := l1NaturalDone opts req outEdges
  { nodes := parts.nodes
    edges := parts.edges
    done := naturalDone || opts.maxDownstream ≤ loadedL1
    nextCursor := if naturalDone then none else outEdges.getLast?.map Edge.cursor
    totalL1 := if req.cursor.isNone then some (outEdgeRows db.edges hacker opts.minEdgeSats).length else none
    loadedL1
    l2Token := if level1Ids ≠ [] ∧ 1 < opts.maxGraphDepth then
        some ⟨hacker, level1Ids, opts.minEdgeSats, opts.maxDownstream, opts.graphBundleMinEdges,
          opts.maxGraphDepth⟩
      else none }

def flaggedRow (db : Db) (hacker : Address) : Option AddressRow :=
  (db.addresses.lookup hacker).filter (·.isFlaggedHacker)

def buildGraphL1Page (db : Db) (hacker : Address) (opts : L1Options) (req : L1Request) : L1Page :=
  (flaggedRow db hacker).elim
    { nodes := [], edges := [], done := true, nextCursor := none, totalL1 := some 0, loadedL1 := 0
      l2Token := none }
    fun row => l1FlaggedPage db hacker row opts req

/-! ## Following the cursors -/

/-- The requests from one on, each with the cursor of the page before it, until a page has none. -/
inductive L1Follows (db : Db) (hacker : Address) (opts : L1Options) : L1Request → List L1Request → Prop
  | last {req : L1Request} (h : (buildGraphL1Page db hacker opts req).nextCursor = none) :
      L1Follows db hacker opts req [req]
  | next {req : L1Request} {cursor : OutEdgeKeysetCursor} {later : List L1Request}
      (h : (buildGraphL1Page db hacker opts req).nextCursor = some cursor)
      (hLater : L1Follows db hacker opts
        ⟨some cursor, (buildGraphL1Page db hacker opts req).loadedL1⟩ later) :
      L1Follows db hacker opts req (req :: later)

/-- The rows that a page shows. -/
def l1Listed (db : Db) (hacker : Address) (opts : L1Options) (req : L1Request) : List Edge :=
  (flaggedRow db hacker).elim [] fun _ => l1OutEdges db hacker opts req

/-- Beside the payments of the victims and the refunds a page shows the edges of its rows, bundled. -/
theorem edges_buildGraphL1Page (db : Db) (hacker : Address) (opts : L1Options) (req : L1Request) :
    ∃ victims refunds, (buildGraphL1Page db hacker opts req).edges = victims ++ bundleParallelEdges
        ((l1Listed db hacker opts req).map fun e => mapDbEdgeToGraph hacker e.toAddress e)
        opts.graphBundleMinEdges ++ refunds ∧
      (∀ e ∈ victims, e.target = .address hacker) ∧ ∀ e ∈ refunds, e.isRefund = true := by
  unfold buildGraphL1Page l1Listed
  cases flaggedRow db hacker with
  | none => exact ⟨[], [], rfl, fun _ h => absurd h List.not_mem_nil, fun _ h => absurd h List.not_mem_nil⟩
  | some row =>
    show ∃ victims refunds, (l1Parts db hacker row opts req).edges =
      victims ++ l1Bundled db hacker opts req ++ refunds ∧ _
    unfold l1Parts
    dsimp only
    split
    · obtain ⟨victims, hVictims, hPaid⟩ := edges_appendVictimsSection db.edges hacker opts.victims
        { nodes := [l1HackerNode hacker row], seen := [.address hacker] }
      obtain ⟨refunds, hRefunds, hBack⟩ := edges_appendVictimRefunds db.edges opts.reads opts.minEdgeSats
        (getVictimAddressSetForHacker db opts.reads hacker VICTIM_REFUND_PROBE_LIMIT opts.minEdgeSats)
        (appendTargets db.addresses (l1Bundled db hacker opts req) (appendVictimsSection db.edges hacker opts.victims
          { nodes := [l1HackerNode hacker row], seen := [.address hacker] }))
      refine ⟨victims, refunds, ?_, hPaid, hBack⟩
      rw [hRefunds]
      show (_ ++ l1Bundled db hacker opts req) ++ refunds = _
      rw [hVictims, List.nil_append]
    · exact ⟨[], [], (List.append_nil _).symm, fun _ h => absurd h List.not_mem_nil,
        fun _ h => absurd h List.not_mem_nil⟩

def nonVictimOutEdges (db : Db) (hacker : Address) (minEdgeSats : Int) : List Edge :=
  excludeEdgesToHackerVictims db.edges hacker minEdgeSats (outEdgeRows db.edges hacker minEdgeSats)

/-- The out-edges in the order of the pages. -/
def orderedOutEdges (db : Db) (hacker : Address) (minEdgeSats : Int) : List Edge :=
  Keyset.ordered Edge.order (outEdgeRows db.edges hacker minEdgeSats)

/-- The hacker is flagged or has no edge to list; and in the order of the pages each edge that is not a
victim's stands within the cap and on no later page than the first victim's, and no page begins with it behind
an edge with its amount and target. -/
def L1Exact (db : Db) (hacker : Address) (opts : L1Options) : Prop :=
  ((flaggedRow db hacker).isSome = true ∨ nonVictimOutEdges db hacker opts.minEdgeSats = []) ∧
    Keyset.Exact Edge.order (fun e => !isVictimTargetOf db.edges hacker opts.minEdgeSats e.toAddress)
      opts.limit opts.maxDownstream (orderedOutEdges db hacker opts.minEdgeSats)

section Follow

variable {db : Db} {hacker : Address} {opts : L1Options} {req : L1Request}

/-- The rows behind a cursor. -/
def Remains (db : Db) (hacker : Address) (opts : L1Options) (cursor : Option OutEdgeKeysetCursor)
    (rows : List Edge) : Prop :=
  (∃ front, orderedOutEdges db hacker opts.minEdgeSats = front ++ rows) ∧
    ∀ n, getOutEdgesFromAddress db.edges hacker opts.minEdgeSats n cursor = rows.take n

theorem remains_first (db : Db) (hacker : Address) (opts : L1Options) :
    Remains db hacker opts none (orderedOutEdges db hacker opts.minEdgeSats) :=
  ⟨⟨[], rfl⟩, fun n => Keyset.fetch_first _ n _⟩

theorem Remains.rest {cursor : Option OutEdgeKeysetCursor} {front later : List Edge} {e : Edge}
    (h : Remains db hacker opts cursor (front ++ e :: later)) :
    Remains db hacker opts (some e.cursor) (Keyset.rest Edge.order e later) := by
  obtain ⟨⟨before, hOrdered⟩, -⟩ := h
  rw [← List.append_assoc] at hOrdered
  constructor
  · obtain ⟨ties, hTies⟩ : ∃ ties, later = ties ++ Keyset.rest Edge.order e later :=
      ⟨_, (List.takeWhile_append_dropWhile).symm⟩
    refine ⟨(before ++ front) ++ e :: ties, ?_⟩
    rw [hOrdered]
    conv_lhs => rw [hTies]
    rw [List.append_assoc, List.append_assoc, List.append_assoc]
    rfl
  · intro n
    exact Keyset.fetch_behind Edge.order n hOrdered

/-- A page shows the first of the remaining rows, without those of victims. -/
theorem l1OutEdges_eq {rows : List Edge} (h : Remains db hacker opts req.cursor rows) :
    l1OutEdges db hacker opts req = (rows.take (opts.fetchLimit req)).filter
      fun e => !isVictimTargetOf db.edges hacker opts.minEdgeSats e.toAddress := by
  unfold l1OutEdges excludeEdgesToHackerVictims
  split
  · rw [h.2]
  · next hZero =>
    rw [Nat.eq_zero_of_not_pos hZero]
    rfl

theorem buildGraphL1Page_flagged (h : (flaggedRow db hacker).isSome = true) :
    ∃ row, buildGraphL1Page db hacker opts req = l1FlaggedPage db hacker row opts req := by
  obtain ⟨row, hRow⟩ := Option.isSome_iff_exists.mp h
  refine ⟨row, ?_⟩
  unfold buildGraphL1Page
  rw [hRow]
  rfl

/-- A page with a cursor is whole. -/
theorem whole_of_nextCursor (hFlag : (flaggedRow db hacker).isSome = true) {cursor : OutEdgeKeysetCursor}
    (h : (buildGraphL1Page db hacker opts req).nextCursor = some cursor) :
    (l1OutEdges db hacker opts req).length = opts.fetchLimit req ∧ 0 < opts.fetchLimit req ∧
      ∃ front e, l1OutEdges db hacker opts req = front ++ [e] ∧ e.cursor = cursor := by
  obtain ⟨row, hPage⟩ := buildGraphL1Page_flagged hFlag
  rw [hPage] at h
  unfold l1FlaggedPage at h
  dsimp only at h
  split at h
  · cases h
  · next hMore =>
    simp only [l1NaturalDone, Bool.or_eq_true, decide_eq_true_eq, not_or] at hMore
    have hLe : (l1OutEdges db hacker opts req).length ≤ opts.fetchLimit req := by
      unfold l1OutEdges excludeEdgesToHackerVictims
      apply (List.length_filter_le _ _).trans
      split
      · exact List.length_take_le _ _
      · exact Nat.zero_le _
    obtain ⟨e, hLast, hCursor⟩ := Option.map_eq_some_iff.mp h
    obtain ⟨front, hFront⟩ := List.getLast?_eq_some_iff.mp hLast
    exact ⟨by omega, by omega, front, e, hFront, hCursor⟩

theorem done_of_nextCursor (hFlag : (flaggedRow db hacker).isSome = true)
    (h : (buildGraphL1Page db hacker opts req).nextCursor = none) :
    (l1OutEdges db hacker opts req).length < opts.fetchLimit req ∨ opts.fetchLimit req = 0 := by
  obtain ⟨row, hPage⟩ := buildGraphL1Page_flagged hFlag
  rw [hPage] at h
  unfold l1FlaggedPage at h
  dsimp only at h
  split at h
  · next hDone => simpa [l1NaturalDone] using hDone
  · have hNone := List.getLast?_eq_none_iff.mp (Option.map_eq_none_iff.mp h)
    rw [hNone]
    rcases Nat.eq_zero_or_pos (opts.fetchLimit req) with hZero | hPos
    · exact Or.inr hZero
    · exact Or.inl hPos

theorem loadedL1_of_flagged (hFlag : (flaggedRow db hacker).isSome = true) :
    (buildGraphL1Page db hacker opts req).loadedL1 =
      req.loadedL1 + (l1OutEdges db hacker opts req).length := by
  obtain ⟨row, hPage⟩ := buildGraphL1Page_flagged hFlag
  rw [hPage]
  rfl

/-- Following the cursors is a pager over the remaining rows. -/
theorem lists_of_follows (hFlag : (flaggedRow db hacker).isSome = true) {requests : List L1Request}
    (hFollows : L1Follows db hacker opts req requests) {rows : List Edge}
    (hRows : Remains db hacker opts req.cursor rows) :
    Keyset.Lists Edge.order (fun e => !isVictimTargetOf db.edges hacker opts.minEdgeSats e.toAddress)
      opts.limit (opts.maxDownstream - req.loadedL1) rows
      (requests.flatMap (l1OutEdges db hacker opts)) := by
  induction hFollows generalizing rows with
  | @last req h =>
    have hDone := done_of_nextCursor hFlag h
    rw [l1OutEdges_eq hRows] at hDone
    rw [List.flatMap_singleton, l1OutEdges_eq hRows]
    exact .last hDone
  | @next req cursor later h _ ih =>
    obtain ⟨hLength, hPos, front, e, hShown, rfl⟩ := whole_of_nextCursor hFlag h
    have hTake := l1OutEdges_eq hRows
    -- all rows of the page are shown
    have hAll : rows.take (opts.fetchLimit req) = front ++ [e] := by
      rw [← hShown, hTake]
      symm
      apply List.filter_sublist.eq_of_length_le
      rw [← hTake, hLength]
      exact List.length_take_le _ _
    have hSplit : rows = front ++ e :: rows.drop (opts.fetchLimit req) := by
      conv_lhs => rw [← List.take_append_drop (opts.fetchLimit req) rows, hAll]
      rw [List.append_assoc]
      rfl
    rw [hSplit] at hRows
    have hLater := ih hRows.rest
    rw [loadedL1_of_flagged hFlag, hLength, ← Nat.sub_sub] at hLater
    rw [List.flatMap_cons, hShown, hSplit, List.append_assoc]
    refine .more (by rw [← hShown, hLength]; rfl) (fun b hb => ?_) hLater
    rw [← hShown, hTake] at hb
    exact (List.mem_filter.mp hb).2

theorem follows_exists (db : Db) (hacker : Address) (opts : L1Options) (req : L1Request) :
    ∃ requests, L1Follows db hacker opts req requests := by
  generalize hCap : opts.maxDownstream - req.loadedL1 = cap
  induction cap using Nat.strongRecOn generalizing req with
  | ind cap ih =>
    cases h : (buildGraphL1Page db hacker opts req).nextCursor with
    | none => exact ⟨_, .last h⟩
    | some cursor =>
      have hFlag : (flaggedRow db hacker).isSome = true := by
        by_contra hNot
        unfold buildGraphL1Page at h
        rw [Option.not_isSome_iff_eq_none.mp hNot] at h
        cases h
      obtain ⟨hLength, hPos, -⟩ := whole_of_nextCursor hFlag h
      have hFewer : opts.maxDownstream - (buildGraphL1Page db hacker opts req).loadedL1 < cap := by
        rw [loadedL1_of_flagged hFlag, hLength]
        unfold L1Options.fetchLimit at hPos ⊢
        omega
      obtain ⟨later, hLater⟩ := ih _ hFewer
        ⟨some cursor, (buildGraphL1Page db hacker opts req).loadedL1⟩ rfl
      exact ⟨_, .next h hLater⟩

theorem L1Follows.unique {requests requests' : List L1Request}
    (h : L1Follows db hacker opts req requests) (h' : L1Follows db hacker opts req requests') :
    requests' = requests := by
  induction h generalizing requests' with
  | last hNone =>
    cases h' with
    | last _ => rfl
    | next hSome _ =>
      rw [hNone] at hSome
      cases hSome
  | next hSome _ ih =>
    cases h' with
    | last hNone =>
      rw [hSome] at hNone
      cases hNone
    | next hSome' hLater' =>
      rw [hSome] at hSome'
      cases hSome'
      rw [ih hLater']

end Follow

/-- Following the cursors from the first page ends, and lists each out-edge to an address outside the victims
once exactly under the condition. -/
theorem l1_exact_iff (db : Db) (hacker : Address) (opts : L1Options) :
    ∃ requests, L1Follows db hacker opts {} requests ∧
      (∀ requests', L1Follows db hacker opts {} requests' → requests' = requests) ∧
      ((requests.flatMap (l1Listed db hacker opts)).Perm
        (nonVictimOutEdges db hacker opts.minEdgeSats) ↔ L1Exact db hacker opts) := by
  obtain ⟨requests, hFollows⟩ := follows_exists db hacker opts {}
  refine ⟨requests, hFollows, fun _ h => hFollows.unique h, ?_⟩
  let keep : Edge → Bool := fun e => !isVictimTargetOf db.edges hacker opts.minEdgeSats e.toAddress
  have hPerm : ((orderedOutEdges db hacker opts.minEdgeSats).filter keep).Perm
      (nonVictimOutEdges db hacker opts.minEdgeSats) :=
    (List.perm_insertionSort _ _).filter keep
  cases hFlag : flaggedRow db hacker with
  | none =>
    have hNothing : requests.flatMap (l1Listed db hacker opts) = [] := by
      apply List.flatMap_eq_nil_iff.mpr
      intro r _
      unfold l1Listed
      rw [hFlag]
      rfl
    rw [hNothing, List.nil_perm]
    unfold L1Exact
    rw [hFlag]
    constructor
    · intro hNil
      refine ⟨Or.inr hNil, fun front e later hRows hKeep => ?_⟩
      have hMem : e ∈ nonVictimOutEdges db hacker opts.minEdgeSats := by
        apply hPerm.subset
        rw [hRows]
        exact List.mem_filter.mpr ⟨List.mem_append_right _ List.mem_cons_self, hKeep⟩
      rw [hNil] at hMem
      cases hMem
    · rintro ⟨hFlagged | hNil, -⟩
      · cases hFlagged
      · exact hNil
  | some row =>
    have hSome : (flaggedRow db hacker).isSome = true := by rw [hFlag]; rfl
    have hListed : l1Listed db hacker opts = l1OutEdges db hacker opts := by
      funext r
      unfold l1Listed
      rw [hFlag]
      rfl
    have hLists := lists_of_follows hSome hFollows (remains_first db hacker opts)
    have hOrder : ∀ a b : Edge, a.order = b.order → keep a = keep b := by
      intro a b hSame
      have hTarget : a.toAddress = b.toAddress := congrArg (fun k : OutEdgeOrder => (ofLex k).2) hSame
      simp only [keep, hTarget]
    have hExact := hLists.exact_iff hOrder opts.limit_pos
    rw [hListed]
    constructor
    · intro h
      refine ⟨Or.inl hSome, hExact.mp ?_⟩
      apply hLists.sublist.eq_of_length_le
      rw [(h.trans hPerm.symm).length_eq]
    · intro h
      rw [hExact.mpr h.2]
      exact hPerm

/-! ### Equal amount and target -/

/-- A hacker with two payments of one amount to one target. -/
def tiedStore : Db :=
  { Db.initial with
    addresses := (∅ : Table.Rows Address AddressRow).insert (name "h")
      ⟨.hacker, "hack", true, some 0, .expanded, none, 0, 0⟩
    edges := ((∅ : Table.Rows EdgeKey EdgeRow).insert ⟨name "h", name "x", name "t"⟩
      ⟨200000, .outFromHacker, none, some 1, none, none⟩).insert ⟨name "h", name "x", name "u"⟩
      ⟨200000, .outFromHacker, none, some 1, none, none⟩ }

def tiedOptions : L1Options := { limit := 1, limit_pos := Nat.one_pos, maxDownstream := 200 }

/-- With pages of one edge the second payment is not listed. -/
theorem tied_skipped :
    ∃ requests, L1Follows tiedStore (name "h") tiedOptions {} requests ∧
      ¬ (requests.flatMap (l1Listed tiedStore (name "h") tiedOptions)).Perm
        (nonVictimOutEdges tiedStore (name "h") tiedOptions.minEdgeSats) := by
  refine ⟨[{}, ⟨some ⟨200000, name "x"⟩, 1⟩], ?_, fun hPerm => ?_⟩
  · have hCursor : (buildGraphL1Page tiedStore (name "h") tiedOptions {}).nextCursor =
        some ⟨200000, name "x"⟩ := by decide +kernel
    apply L1Follows.next hCursor
    exact .last (by decide +kernel)
  · have hTwo : (nonVictimOutEdges tiedStore (name "h") tiedOptions.minEdgeSats).length = 2 := by
      decide +kernel
    have hOne : ([{}, ⟨some ⟨200000, name "x"⟩, 1⟩].flatMap
        (l1Listed tiedStore (name "h") tiedOptions)).length = 1 := by decide +kernel
    have hLength := hPerm.length_eq
    omega

end Bloodhound.Graph
