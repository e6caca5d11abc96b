import Bloodhound.Graph.PagedL2

/-!
# The shape of the pages

What a client may rely on when it puts pages together, whatever the database holds while they are read: the edges
of a page end in nodes of the page and start there, at the hacker or at parents of its token, except for the
refunds, and the token of a page of the first level names addresses of this page.
-/

namespace Bloodhound.Graph

open Bloodhound.Store

/-! ## The deeper levels -/

/-- The edges start at known addresses. -/
def StartAt (known : Address → Prop) (edges : List GraphEdge) : Prop :=
  ∀ e ∈ edges, ∃ p, known p ∧ e.source = .address p

section L2

variable {db : Db} {token : L2TokenPayload} {opts : L2Options} {parentId : Address} {st st' : L2Loop}
  {known : Address → Prop} {edges edges' : List GraphEdge}

theorem StartAt.append (h : StartAt known edges) (h' : StartAt known edges') : StartAt known (edges ++ edges') :=
  fun e he => (List.mem_append.mp he).elim (h e) (h' e)

theorem startAt_withCluster (hKnown : known parentId) (h : StartAt known st.edges) (shown : Nat)
    (totalSats : Int) : StartAt known (withCluster db token opts parentId shown totalSats st).edges := by
  unfold withCluster
  split
  · apply h.append
    intro e he
    rw [List.mem_singleton.mp he]
    exact ⟨parentId, hKnown, rfl⟩
  · exact h

theorem Round.startAt (hRound : Round db token opts parentId st st') (hKnown : known parentId)
    (h : StartAt known st.edges) : StartAt known st'.edges := by
  have hChildren : ∀ slice : List GraphEdge, (∀ e ∈ slice, ChildOf parentId e) →
      StartAt known (st.emitChildren db.addresses slice).edges :=
    fun slice hSlice => h.append fun e he => ⟨parentId, hKnown, (hSlice e he).source⟩
  cases hRound with
  | leaves slice hSlice hRoom shown totalSats =>
    exact startAt_withCluster hKnown (hChildren slice hSlice) shown totalSats
  | plain slice hSlice hRoom => exact hChildren slice hSlice
  | stays slice hSlice hRoom hSome after => exact hChildren slice hSlice
  | ends slice hSlice hRoom hSome after => exact hChildren slice hSlice

/-- The edges of a page start at the parents that it expands, and end in its nodes. -/
theorem ends_buildGraphL2Page (db : Db) (token : L2TokenPayload) (opts : L2Options) (req : L2Request) :
    PageEnds (· ∈ expandableParents db token.decoded opts) (buildGraphL2Page db token opts req).nodes
      (buildGraphL2Page db token opts req).edges where
  targets := (wellFormed_buildGraphL2Page db token opts req).targets
  sources e he _ := by
    have hStart : StartAt (· ∈ expandableParents db token.decoded opts)
        (buildGraphL2Page db token opts req).edges := by
      refine @l2Loop_induct db token.decoded opts
        (fun st => StartAt (· ∈ expandableParents db token.decoded opts) st.edges)
        (fun st parentId hParent h => ?_) (l2Fuel db token.decoded opts) (.ofRequest req)
        (fun _ h => absurd h List.not_mem_nil)
      obtain ⟨-, hPage, hIndex⟩ := open_of_currentParent hParent
      exact (round_l2Step hPage).startAt (List.mem_of_getElem? hIndex) h
    exact .inr (hStart e he)

theorem parent_of_mem_expandable (h : parentId ∈ expandableParents db token.decoded opts) :
    parentId ∈ token.parents ∧ ∀ p, opts.expandParent = some p → parentId = p := by
  unfold expandableParents at h
  obtain ⟨hMem, hOnly⟩ := List.mem_filter.mp h
  refine ⟨List.mem_of_mem_filter hMem, fun p hp => ?_⟩
  rw [hp] at hOnly
  exact of_decide_eq_true hOnly

/-- A page is the last one if and only if it has no cursor. -/
theorem done_buildGraphL2Page (db : Db) (token : L2TokenPayload) (opts : L2Options) (req : L2Request) :
    (buildGraphL2Page db token opts req).done = (buildGraphL2Page db token opts req).nextCursor.isNone := by
  unfold buildGraphL2Page l2Page
  rw [nextCursor_l2PageOf]
  generalize l2Loop db token.decoded opts (l2Fuel db token.decoded opts) (.ofRequest req) = st
  show l2Done db token.decoded opts st = (l2NextCursor db token.decoded opts st).isNone
  unfold l2Done
  by_cases hInside : (expandableParents db token.decoded opts).length ≤ st.parentIndex
  · rw [decide_eq_true hInside, Bool.and_true]
  · rw [decide_eq_false hInside, Bool.and_false]
    unfold l2NextCursor
    rw [if_pos (Nat.lt_of_not_le hInside)]
    cases st.nextCursor <;> rfl

end L2

/-! ## The first level -/

section L1

variable {db : Db} {hacker : Address} {row : AddressRow} {opts : L1Options} {req : L1Request}
  {known : Address → Prop} {page : PageParts}

/-- The page of a hacker that is not flagged shows nothing and ends the list. -/
theorem buildGraphL1Page_cases (db : Db) (hacker : Address) (opts : L1Options) (req : L1Request) :
    (buildGraphL1Page db hacker opts req).nodes = [] ∧ (buildGraphL1Page db hacker opts req).edges = [] ∧
        (buildGraphL1Page db hacker opts req).done = true ∧
        (buildGraphL1Page db hacker opts req).nextCursor = none ∧
        (buildGraphL1Page db hacker opts req).l2Token = none ∨
      ∃ row, buildGraphL1Page db hacker opts req = l1FlaggedPage db hacker row opts req := by
  unfold buildGraphL1Page
  cases flaggedRow db hacker with
  | none => exact .inl ⟨rfl, rfl, rfl, rfl, rfl⟩
  | some row => exact .inr ⟨row, rfl⟩

theorem childOf_l1Bundled {e : GraphEdge} (h : e ∈ l1Bundled db hacker opts req) : ChildOf hacker e :=
  childOf_of_mem_bundledEdges h

/-- The targets of the hacker that a page has not seen get nodes. -/
theorem sound_appendTargets (addresses : Table.Rows Address AddressRow) {bundled : List GraphEdge}
    (hBundled : ∀ e ∈ bundled, ChildOf hacker e) (hKnown : known hacker) (h : page.Sound known) :
    (appendTargets addresses bundled page).Sound known := by
  have hTargets : ∀ e ∈ bundled, ∃ n ∈ page.nodes ++ targetNodes addresses page.seen bundled, n.id = e.target := by
    intro e he
    rcases @node_of_target addresses page.seen bundled (fun e he => (hBundled e he).target) e he with
      hSeen | ⟨n, hn, hId⟩
    · exact node_append (h.seen _ hSeen) _
    · exact ⟨n, List.mem_append_right _ hn, hId⟩
  refine h.extend ⟨hTargets, fun e he _ => .inr ⟨hacker, hKnown, (hBundled e he).source⟩⟩ fun id hIn => ?_
  refine (List.mem_append.mp hIn).imp_right fun hNew => ?_
  obtain ⟨e, he, rfl⟩ := List.mem_map.mp hNew
  exact hTargets e he

theorem sound_l1Parts : (l1Parts db hacker row opts req).Sound (· = hacker) := by
  have hListed : ∀ page : PageParts, page.Sound (· = hacker) →
      (appendTargets db.addresses (l1Bundled db hacker opts req) page).Sound (· = hacker) := fun page =>
    @sound_appendTargets hacker (· = hacker) page db.addresses _ (fun e he => childOf_l1Bundled he) rfl
  unfold l1Parts
  dsimp only
  split
  · have hStart : PageParts.Sound (· = hacker)
        { nodes := [l1HackerNode hacker row], seen := [.address hacker] } := by
      refine ⟨PageEnds.nil _ _, fun id hIn => ⟨l1HackerNode hacker row, List.mem_singleton_self _, ?_⟩⟩
      exact (List.mem_singleton.mp hIn).symm
    apply sound_appendVictimRefunds
    apply hListed
    exact sound_appendVictimsSection db.edges opts.victims hStart (List.mem_singleton_self _)
  · apply hListed
    exact ⟨PageEnds.nil _ _, fun _ hIn => absurd hIn List.not_mem_nil⟩

theorem seen_l1Parts (hFirst : req.cursor = none) : .address hacker ∈ (l1Parts db hacker row opts req).seen := by
  unfold l1Parts
  rw [hFirst]
  apply seen_appendVictimRefunds
  apply List.mem_append_left
  apply seen_appendVictimsSection
  exact List.mem_singleton_self _

theorem mem_l1Parts {e : GraphEdge} (h : e ∈ l1Bundled db hacker opts req) :
    e ∈ (l1Parts db hacker row opts req).edges := by
  unfold l1Parts
  dsimp only
  split
  · obtain ⟨refunds, hEdges, -⟩ := edges_appendVictimRefunds db.edges opts.reads opts.minEdgeSats
      (getVictimAddressSetForHacker db opts.reads hacker VICTIM_REFUND_PROBE_LIMIT opts.minEdgeSats)
      (appendTargets db.addresses (l1Bundled db hacker opts req) (appendVictimsSection db.edges hacker opts.victims
        { nodes := [l1HackerNode hacker row], seen := [.address hacker] }))
    rw [hEdges]
    exact List.mem_append_left refunds (List.mem_append_right _ h)
  · exact h

/-- The edges of a page start at the hacker or at nodes of the page, but for the refunds, and end in its nodes. -/
theorem ends_buildGraphL1Page (db : Db) (hacker : Address) (opts : L1Options) (req : L1Request) :
    PageEnds (· = hacker) (buildGraphL1Page db hacker opts req).nodes
      (buildGraphL1Page db hacker opts req).edges := by
  rcases buildGraphL1Page_cases db hacker opts req with ⟨-, hEdges, -⟩ | ⟨row, hPage⟩
  · rw [hEdges]
    exact PageEnds.nil _ _
  · rw [hPage]
    exact sound_l1Parts.ends

/-- The first page shows the hacker, where it shows anything. -/
theorem hacker_buildGraphL1Page (hFirst : req.cursor = none)
    (h : (buildGraphL1Page db hacker opts req).edges ≠ [] ∨
      (buildGraphL1Page db hacker opts req).nextCursor ≠ none) :
    ∃ n ∈ (buildGraphL1Page db hacker opts req).nodes, n.id = .address hacker := by
  rcases buildGraphL1Page_cases db hacker opts req with ⟨-, hEdges, -, hCursor, -⟩ | ⟨row, hPage⟩
  · exact absurd h (not_or.mpr ⟨fun hSome => hSome hEdges, fun hSome => hSome hCursor⟩)
  · rw [hPage]
    exact sound_l1Parts.seen _ (seen_l1Parts hFirst)

/-- The parents of the token of a page are among its nodes. -/
theorem parents_buildGraphL1Page {token : L2TokenPayload}
    (h : (buildGraphL1Page db hacker opts req).l2Token = some token) {p : Address} (hp : p ∈ token.parents) :
    ∃ n ∈ (buildGraphL1Page db hacker opts req).nodes, n.id = .address p := by
  rcases buildGraphL1Page_cases db hacker opts req with ⟨-, -, -, -, hNone⟩ | ⟨row, hPage⟩
  · rw [hNone] at h
    cases h
  · have hParent : ∃ e ∈ l1Bundled db hacker opts req, e.target = .address p := by
      rw [hPage] at h
      unfold l1FlaggedPage at h
      dsimp only at h
      split at h
      · cases h
        obtain ⟨e, he, hAddress⟩ := List.mem_filterMap.mp hp
        refine ⟨e, he, ?_⟩
        obtain ⟨a, ha⟩ := (childOf_l1Bundled he).target
        rw [ha] at hAddress ⊢
        cases hAddress
        rfl
      · cases h
    obtain ⟨e, he, hTarget⟩ := hParent
    rw [hPage, ← hTarget]
    exact sound_l1Parts.ends.targets e (mem_l1Parts he)

/-- A page that is not the last one shows something, stays below the cap and has a cursor. -/
theorem progress_buildGraphL1Page (h : (buildGraphL1Page db hacker opts req).done = false) :
    (buildGraphL1Page db hacker opts req).nextCursor ≠ none ∧
      req.loadedL1 < (buildGraphL1Page db hacker opts req).loadedL1 ∧
      (buildGraphL1Page db hacker opts req).loadedL1 < opts.maxDownstream := by
  rcases buildGraphL1Page_cases db hacker opts req with ⟨-, -, hDone, -⟩ | ⟨row, hPage⟩
  · rw [hDone] at h
    cases h
  · rw [hPage] at h ⊢
    change (l1NaturalDone opts req (l1OutEdges db hacker opts req) ||
      decide (opts.maxDownstream ≤ req.loadedL1 + (l1OutEdges db hacker opts req).length)) = false at h
    rw [Bool.or_eq_false_iff] at h
    obtain ⟨hNatural, hCap⟩ := h
    have hBelow := of_decide_eq_false hCap
    have hSome : 0 < (l1OutEdges db hacker opts req).length := by
      unfold l1NaturalDone at hNatural
      rw [Bool.or_eq_false_iff] at hNatural
      have hFull := of_decide_eq_false hNatural.1
      have hLimit := of_decide_eq_false hNatural.2
      omega
    refine ⟨?_, ?_, ?_⟩
    · show (if l1NaturalDone opts req (l1OutEdges db hacker opts req) = true then none
        else (l1OutEdges db hacker opts req).getLast?.map Edge.cursor) ≠ none
      rw [hNatural, if_neg Bool.false_ne_true, ne_eq, Option.map_eq_none_iff, List.getLast?_eq_none_iff]
      exact List.length_pos_iff.mp hSome
    · show req.loadedL1 < req.loadedL1 + (l1OutEdges db hacker opts req).length
      omega
    · show req.loadedL1 + (l1OutEdges db hacker opts req).length < opts.maxDownstream
      omega

end L1

end Bloodhound.Graph
