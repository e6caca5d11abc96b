import Bloodhound.Lib.OrderedMap
import Bloodhound.Graph.PageShape
import Bloodhound.Web.GraphFilter

/-!
# Loading a graph

`graphLoader.ts` of the web client: a graph is loaded page by page, first the pages of the first level and then
those of each token, and the pages are merged by the ids of their nodes and edges. A load may go on from an
earlier one with a higher limit. The server answers each request from the database as it is at that time.

* `closed_load`, `closed_emitPartial`: the graph of a load, at its end and while it is under way, has the two ends
  of each of its edges, except that who pays a refund may be missing, if the graph that the load goes on from has
  them, and has the parents of its sessions.
* `load_ends`: a load whose requests are answered ends, and then every page has been read.
-/

namespace Bloodhound.Web

open Bloodhound.Graph Bloodhound.Store

deriving instance DecidableEq for L2TokenPayload

deriving instance DecidableEq for GraphLoadParams

/-! ## Pages -/

def apiType : NodeType → ApiNodeType
  | .hacker => .hacker
  | .victim => .victim
  | .victimCluster => .victimCluster
  | .downstream => .downstream
  | .fanoutCluster => .fanoutCluster

def apiNode (n : GraphNode) : ApiGraphNode := ⟨n.id, apiType n.type, n.incomingSats⟩

/-- What a merge reads of a response. -/
structure GraphPage where
  nodes : List ApiGraphNode
  edges : List GraphEdge

def apiPage (nodes : List GraphNode) (edges : List GraphEdge) : GraphPage := ⟨nodes.map apiNode, edges⟩

def ApiGraph.page (graph : ApiGraph) : GraphPage := ⟨graph.nodes, graph.edges⟩

def nodesOf (pages : List GraphPage) : List ApiGraphNode := pages.flatMap (·.nodes)

def edgesOf (pages : List GraphPage) : List GraphEdge := pages.flatMap (·.edges)

theorem nodup_merged (nodes : List ApiGraphNode) :
    (ids (OrderedMap.ofList ApiGraphNode.id nodes).values).Nodup := by
  have hKeys := OrderedMap.map_values (f := ApiGraphNode.id) (m := OrderedMap.ofList ApiGraphNode.id nodes)
    fun e he => (OrderedMap.of_get?_ofList (OrderedMap.get?_eq_some_iff.mpr he)).2
  unfold ids
  rw [hKeys]
  exact OrderedMap.nodup_keys _

/-- `mergeGraphPages`, without the OP_RETURN labels. -/
def mergeGraphPages (pages : List GraphPage) : ApiGraph where
  nodes := (OrderedMap.ofList ApiGraphNode.id (nodesOf pages)).values
  edges := (OrderedMap.ofList GraphEdge.id (edgesOf pages)).values
  nodup := nodup_merged (nodesOf pages)

def omitGraphNodeIds (graph : ApiGraph) (drop : List NodeId) : ApiGraph :=
  if drop = [] then graph else graph.restrict (fun n => !drop.contains n.id) graph.edges

/-! ## The server -/

structure ServerConfig where
  graphPageSizeDefault : Nat := 500
  graphPageSizeMax : Nat := 1000
  graphPageSizeMax_pos : 0 < graphPageSizeMax := by decide
  maxGraphVictims : Nat := 10000
  maxGraphDownstream : Nat := 10000
  graphBundleMinEdges : Nat := 2
  maxGraphDepth : Nat := 2
  spendFanoutTopK : Nat := 5

/-- The parameters of a load; the first ones are `GraphLoadParams`. -/
structure LoadHackerGraphParams where
  limits : GraphLoadParams
  pageSize : Nat

/-- What a request finds: the database, how its reads go, and the totals of the column `fanout_meta_json`. -/
structure Answer where
  db : Db
  reads : Reads := {}
  fanoutTotals : Address → Option Int := fun _ => none

/-- The answers to the requests of one load, in their order; there is none where a request fails or the load is
given up before it. -/
abbrev Answers : Type := Nat → Option Answer

def parsePositiveInt (raw fallback : Nat) : Nat := if 1 ≤ raw then raw else fallback

def clampInt (n lower upper : Nat) : Nat := min upper (max lower n)

theorem clampInt_pos {n upper : Nat} (h : 0 < upper) : 0 < clampInt n 1 upper := by
  unfold clampInt
  omega

section Requests

variable (config : ServerConfig) (params : LoadHackerGraphParams)

def pageLimit : Nat :=
  clampInt (parsePositiveInt params.pageSize config.graphPageSizeDefault) 1 config.graphPageSizeMax

theorem pageLimit_pos : 0 < pageLimit config params := clampInt_pos config.graphPageSizeMax_pos

def maxDownstream : Nat := clampInt (parsePositiveInt params.limits.maxDownstream 100) 1 config.maxGraphDownstream

def l1Options (reads : Reads) : L1Options where
  limit := pageLimit config params
  limit_pos := pageLimit_pos config params
  maxDownstream := maxDownstream config params
  minEdgeSats := params.limits.minEdgeSats
  expandVictims := params.limits.expandVictims
  maxVictims := clampInt (parsePositiveInt params.limits.maxVictims 100) 1 config.maxGraphVictims
  reads := reads
  graphBundleMinEdges := config.graphBundleMinEdges
  maxGraphDepth := config.maxGraphDepth

def l2Options (expandParent : Option Address) (fanoutTotals : Address → Option Int) : L2Options where
  limit := pageLimit config params
  limit_pos := pageLimit_pos config params
  maxDownstreamOverride := some (clampInt params.limits.maxDownstream 1 config.maxGraphDownstream)
  spendFanoutTopK := config.spendFanoutTopK
  expandParent := expandParent
  fanoutTotals := fanoutTotals

/-- The limits of a request are within those of the server, which refuses it otherwise. -/
def admits (maxVictims : Nat) : Bool :=
  parsePositiveInt maxVictims 100 ≤ config.maxGraphVictims &&
    parsePositiveInt params.limits.maxDownstream 100 ≤ config.maxGraphDownstream

end Requests

/-! ## The first level -/

/-- `GraphL1State`; the id of the load is left out. -/
structure GraphL1State where
  loadedL1 : Nat := 0
  nextCursor : Option OutEdgeKeysetCursor := none
  done : Bool := false

def shouldResumeL1 (l1 : GraphL1State) (newMaxDownstream : Nat) : Bool :=
  !l1.done || (l1.nextCursor.isSome && l1.loadedL1 < newMaxDownstream)

/-- The variables of `fetchL1Pages`. -/
structure L1Fetch where
  pages : List GraphPage := []
  l2Tokens : List L2TokenPayload := []
  l1 : GraphL1State
  requests : Nat := 0

section L1

variable (config : ServerConfig) (params : LoadHackerGraphParams) (answers : Answers)

def requestL1 (st : L1Fetch) : Option L1Page :=
  if admits config params params.limits.maxVictims then
    (answers st.requests).map fun answer => buildGraphL1Page answer.db params.limits.hacker
      (l1Options config params answer.reads) ⟨st.l1.nextCursor, st.l1.loadedL1⟩
  else none

def L1Fetch.receive (st : L1Fetch) (page : L1Page) : L1Fetch where
  pages := st.pages ++ [apiPage page.nodes page.edges]
  l2Tokens := st.l2Tokens ++ page.l2Token.toList
  l1 := ⟨page.loadedL1, page.nextCursor, page.done⟩
  requests := st.requests + 1

/-- The loop has a request to make. -/
def GraphL1State.goesOn (l1 : GraphL1State) : Bool := !l1.done && l1.nextCursor.isSome

def fetchL1Loop : Nat → L1Fetch → Option L1Fetch
  | 0, st => some st
  | fuel + 1, st => (requestL1 config params answers st).bind fun page =>
      if (st.receive page).l1.goesOn then fetchL1Loop fuel (st.receive page) else some (st.receive page)

def fetchL1Pages (start : Option GraphL1State) : Option L1Fetch :=
  if start.any fun l1 => l1.done && !shouldResumeL1 l1 params.limits.maxDownstream then
    some { l1 := start.getD {} }
  else fetchL1Loop config params answers (maxDownstream config params + 1) { l1 := start.getD {} }

end L1

/-! ## The tokens -/

structure GraphL2Session where
  l2Token : L2TokenPayload
  loadedL2 : Nat := 0
  nextCursor : Option L2Cursor := none
  done : Bool := false

def shouldReexpandL2 (session : GraphL2Session) (oldMaxDownstream newMaxDownstream : Nat) : Bool :=
  oldMaxDownstream < newMaxDownstream && session.done && session.nextCursor.isNone

/-- The variables of `fetchL2ForToken`. -/
structure L2Fetch where
  pages : List GraphPage := []
  session : GraphL2Session
  requests : Nat

section L2

variable (config : ServerConfig) (params : LoadHackerGraphParams) (answers : Answers)
  (expandParent : Option Address)

/-- A request for a token; it sends no limit of the victims. -/
def requestL2 (st : L2Fetch) : Option L2Page :=
  if admits config params 100 then
    (answers st.requests).map fun answer => buildGraphL2Page answer.db st.session.l2Token
      (l2Options config params expandParent answer.fanoutTotals) ⟨st.session.nextCursor, st.session.loadedL2⟩
  else none

def L2Fetch.receive (st : L2Fetch) (page : L2Page) : L2Fetch where
  pages := st.pages ++ [apiPage page.nodes page.edges]
  session := ⟨st.session.l2Token, page.loadedL2, page.nextCursor, page.done⟩
  requests := st.requests + 1

def GraphL2Session.goesOn (session : GraphL2Session) : Bool := !session.done && session.nextCursor.isSome

def fetchL2Loop : Nat → L2Fetch → Option L2Fetch
  | 0, st => some st
  | fuel + 1, st => (requestL2 config params answers expandParent st).bind fun page =>
      if (st.receive page).session.goesOn then fetchL2Loop fuel (st.receive page) else some (st.receive page)

/-- How many children of a parent are shown. -/
def childCap : Nat := max 1 (clampInt params.limits.maxDownstream 1 config.maxGraphDownstream)

def fetchL2Fuel (token : L2TokenPayload) : Nat := (token.parents.length + 1) * (childCap config params + 1)

/-- `fetchL2ForToken`; a session that is expanded again starts from the beginning. -/
def fetchL2ForToken (session : GraphL2Session) (requests : Nat) : Option L2Fetch :=
  fetchL2Loop config params answers none (fetchL2Fuel config params session.l2Token)
    { session := session, requests := requests }

/-- `loadFanoutExpand`. -/
def loadFanoutExpand (token : L2TokenPayload) (parentId : Address) (requests : Nat) : Option L2Fetch :=
  fetchL2Loop config params answers (some parentId) (fetchL2Fuel config params token)
    { session := { l2Token := token }, requests := requests }

/-- The sessions one after the other. -/
structure L2Runs where
  pages : List GraphPage := []
  sessions : List GraphL2Session := []
  requests : Nat

def runSessions : List GraphL2Session → L2Runs → Option L2Runs
  | [], st => some st
  | session :: rest, st => (fetchL2ForToken config params answers session st.requests).bind fun fetched =>
      runSessions rest ⟨st.pages ++ fetched.pages, st.sessions ++ [fetched.session], fetched.requests⟩

end L2

/-! ## A load -/

structure GraphLoadState where
  response : ApiGraph
  params : GraphLoadParams
  l1 : GraphL1State
  l2Sessions : List GraphL2Session

section Load

variable (config : ServerConfig) (params : LoadHackerGraphParams) (answers : Answers)
  (prev : Option GraphLoadState)

def prevPages : List GraphPage := prev.toList.map (·.response.page)

def prevSessions : List GraphL2Session := (prev.map (·.l2Sessions)).getD []

def l1Start : Option GraphL1State :=
  prev.bind fun p => if shouldResumeL1 p.l1 params.limits.maxDownstream then some p.l1 else none

def oldMaxDownstream : Nat := (prev.map (·.params.maxDownstream)).getD params.limits.maxDownstream

/-- A session of the earlier load as it is run again, if it is. -/
def rerun (session : GraphL2Session) : Option GraphL2Session :=
  if shouldReexpandL2 session (oldMaxDownstream params prev) params.limits.maxDownstream then
    some { l2Token := session.l2Token }
  else if !session.done || session.nextCursor.isSome then some session
  else none

def sessionsToRun (newL2Tokens : List L2TokenPayload) : List GraphL2Session :=
  (prevSessions prev).filterMap (rerun params prev) ++
    (newL2Tokens.filter fun token => !(prevSessions prev).any (·.l2Token = token)).map fun token =>
      { l2Token := token }

/-- The sessions that were run, and the earlier ones that were not. -/
def allSessions (run : List GraphL2Session) : List GraphL2Session :=
  (prevSessions prev).foldl (fun l2Sessions session =>
    if l2Sessions.any (·.l2Token = session.l2Token) then l2Sessions else l2Sessions ++ [session]) run

def loadState (l1 : L1Fetch) (l2 : L2Runs) : GraphLoadState where
  response := mergeGraphPages (prevPages prev ++ l1.pages ++ l2.pages)
  params := params.limits
  l1 := l1.l1
  l2Sessions := allSessions prev l2.sessions

/-- `loadHackerGraphInternal`; there is no result where it throws. -/
def loadHackerGraph : Option GraphLoadState :=
  (fetchL1Pages config params answers (l1Start params prev)).bind fun l1 =>
    (runSessions config params answers (sessionsToRun params prev l1.l2Tokens) { requests := l1.requests }).map
      (loadState params prev l1)

/-- How far a load has come: some pages of the first level, or some pages of a session behind those before it. -/
inductive Progress where
  | l1 (pages : Nat)
  | l2 (place pages : Nat)

/-- `emitPartial`: what is shown while the load is under way. -/
def emitPartial : Progress → Option ApiGraph
  | .l1 pages =>
    (fetchL1Loop config params answers (pages + 1) { l1 := (l1Start params prev).getD {} }).map fun l1 =>
      mergeGraphPages (prevPages prev ++ l1.pages)
  | .l2 place pages =>
    (fetchL1Pages config params answers (l1Start params prev)).bind fun l1 =>
      (runSessions config params answers ((sessionsToRun params prev l1.l2Tokens).take place)
        { requests := l1.requests }).bind fun l2 =>
          (sessionsToRun params prev l1.l2Tokens)[place]?.bind fun session =>
            (fetchL2Loop config params answers none (pages + 1)
              { session := session, requests := l2.requests }).map fun fetched =>
                mergeGraphPages (prevPages prev ++ l1.pages ++ l2.pages ++ fetched.pages)

end Load

/-! ## Closed graphs -/

/-- Every edge leads to a node, and every edge but a refund starts at one. -/
structure Closed (nodes : List ApiGraphNode) (edges : List GraphEdge) : Prop where
  targets : ∀ e ∈ edges, e.target ∈ ids nodes
  sources : ∀ e ∈ edges, e.isRefund = false → e.source ∈ ids nodes

section Closed

variable {nodes : List ApiGraphNode} {edges : List GraphEdge} {pages : List GraphPage}
  {pageNodes : List GraphNode} {pageEdges : List GraphEdge} {known : Address → Prop} {id : NodeId}

theorem closed_nil : Closed [] [] where
  targets _ h := absurd h List.not_mem_nil
  sources _ h := absurd h List.not_mem_nil

theorem ids_append (nodes nodes' : List ApiGraphNode) : ids (nodes ++ nodes') = ids nodes ++ ids nodes' :=
  List.map_append

theorem mem_ids_left (h : id ∈ ids nodes) (nodes' : List ApiGraphNode) : id ∈ ids (nodes ++ nodes') := by
  rw [ids_append]
  exact List.mem_append_left _ h

theorem mem_ids_right (h : id ∈ ids nodes) (nodes' : List ApiGraphNode) : id ∈ ids (nodes' ++ nodes) := by
  rw [ids_append]
  exact List.mem_append_right _ h

theorem mem_ids_apiPage (h : ∃ n ∈ pageNodes, n.id = id) : id ∈ ids (pageNodes.map apiNode) := by
  obtain ⟨n, hn, rfl⟩ := h
  exact mem_ids.mpr ⟨apiNode n, List.mem_map_of_mem hn, rfl⟩

/-- A page whose known addresses are shown by now. -/
theorem Closed.addPage (h : Closed nodes edges) (hEnds : PageEnds known pageNodes pageEdges)
    (hKnown : pageEdges ≠ [] → ∀ p, known p → .address p ∈ ids (nodes ++ pageNodes.map apiNode)) :
    Closed (nodes ++ pageNodes.map apiNode) (edges ++ pageEdges) where
  targets e he := by
    rcases List.mem_append.mp he with hOld | hNew
    · exact mem_ids_left (h.targets e hOld) _
    · exact mem_ids_right (mem_ids_apiPage (hEnds.targets e hNew)) _
  sources e he hKind := by
    rcases List.mem_append.mp he with hOld | hNew
    · exact mem_ids_left (h.sources e hOld hKind) _
    · rcases hEnds.sources e hNew hKind with hHere | ⟨p, hp, hSource⟩
      · exact mem_ids_right (mem_ids_apiPage hHere) _
      · rw [hSource]
        exact hKnown (List.ne_nil_of_mem hNew) p hp

/-! ### Merging -/

theorem mem_ids_mergeGraphPages : id ∈ ids (mergeGraphPages pages).nodes ↔ id ∈ ids (nodesOf pages) := by
  have hKeys : ids (mergeGraphPages pages).nodes = (OrderedMap.ofList ApiGraphNode.id (nodesOf pages)).keys :=
    OrderedMap.map_values fun e he =>
      (OrderedMap.of_get?_ofList (OrderedMap.get?_eq_some_iff.mpr he)).2
  rw [hKeys, OrderedMap.mem_keys_ofList]
  rfl

theorem mem_of_mem_merged_edges {e : GraphEdge} (h : e ∈ (mergeGraphPages pages).edges) :
    e ∈ edgesOf pages := by
  obtain ⟨k, hGet⟩ := OrderedMap.mem_values.mp h
  exact (OrderedMap.of_get?_ofList hGet).1

theorem nodup_merged_edges (pages : List GraphPage) : ((mergeGraphPages pages).edges.map GraphEdge.id).Nodup := by
  have hKeys : (mergeGraphPages pages).edges.map GraphEdge.id =
      (OrderedMap.ofList GraphEdge.id (edgesOf pages)).keys :=
    OrderedMap.map_values fun e he =>
      (OrderedMap.of_get?_ofList (OrderedMap.get?_eq_some_iff.mpr he)).2
  rw [hKeys]
  exact OrderedMap.nodup_keys _

/-- The edges of the graph have their ends and ids of their own, as the nodes have. -/
structure ApiGraph.IsClosed (graph : ApiGraph) : Prop where
  closed : Closed graph.nodes graph.edges
  edgeIds : (graph.edges.map GraphEdge.id).Nodup

/-- The pages may be merged by their ids. -/
theorem Closed.merge (h : Closed (nodesOf pages) (edgesOf pages)) : (mergeGraphPages pages).IsClosed where
  closed :=
    { targets := fun e he => mem_ids_mergeGraphPages.mpr (h.targets e (mem_of_mem_merged_edges he))
      sources := fun e he hKind => mem_ids_mergeGraphPages.mpr (h.sources e (mem_of_mem_merged_edges he) hKind) }
  edgeIds := nodup_merged_edges pages

theorem nodesOf_append (pages pages' : List GraphPage) :
    nodesOf (pages ++ pages') = nodesOf pages ++ nodesOf pages' :=
  List.flatMap_append

theorem edgesOf_append (pages pages' : List GraphPage) :
    edgesOf (pages ++ pages') = edgesOf pages ++ edgesOf pages' :=
  List.flatMap_append

@[simp] theorem nodesOf_page (graph : ApiGraph) : nodesOf [graph.page] = graph.nodes := by
  simp [nodesOf, ApiGraph.page]

@[simp] theorem edgesOf_page (graph : ApiGraph) : edgesOf [graph.page] = graph.edges := by
  simp [edgesOf, ApiGraph.page]

theorem nodesOf_concat (pages : List GraphPage) (page : GraphPage) :
    nodesOf (pages ++ [page]) = nodesOf pages ++ page.nodes := by
  simp [nodesOf]

theorem edgesOf_concat (pages : List GraphPage) (page : GraphPage) :
    edgesOf (pages ++ [page]) = edgesOf pages ++ page.edges := by
  simp [edgesOf]

end Closed

/-! ## What a load keeps -/

/-- The graph has the parents of the sessions, and the hacker where its first level goes on. -/
structure GraphLoadState.Covered (s : GraphLoadState) : Prop where
  hacker : s.l1.nextCursor.isSome = true → .address s.params.hacker ∈ ids s.response.nodes
  parents : ∀ session ∈ s.l2Sessions, ∀ p ∈ session.l2Token.parents, .address p ∈ ids s.response.nodes

/-- What a load may rely on of the state that it goes on from. -/
structure Resumes (params : LoadHackerGraphParams) (prev : Option GraphLoadState) : Prop where
  closed : ∀ p, prev = some p → p.response.IsClosed
  covered : ∀ p, prev = some p → p.Covered
  hacker : ∀ p, prev = some p → p.params.hacker = params.limits.hacker

/-- The pages of the first level, behind those of an earlier load. -/
structure L1Fetch.Sound (hacker : Address) (before : List GraphPage) (st : L1Fetch) : Prop where
  closed : Closed (nodesOf (before ++ st.pages)) (edgesOf (before ++ st.pages))
  hacker : st.l1.nextCursor.isSome = true → .address hacker ∈ ids (nodesOf (before ++ st.pages))
  parents : ∀ token ∈ st.l2Tokens, ∀ p ∈ token.parents, .address p ∈ ids (nodesOf (before ++ st.pages))

section Keeps

variable {config : ServerConfig} {params : LoadHackerGraphParams} {answers : Answers}
  {expandParent : Option Address} {before : List GraphPage} {prev : Option GraphLoadState}

theorem resumes_none (params : LoadHackerGraphParams) : Resumes params none where
  closed _ h := by cases h
  covered _ h := by cases h
  hacker _ h := by cases h

theorem sound_requestL1 {st : L1Fetch} {page : L1Page} (h : st.Sound params.limits.hacker before)
    (hPage : requestL1 config params answers st = some page) :
    (st.receive page).Sound params.limits.hacker before := by
  unfold requestL1 at hPage
  split at hPage
  · obtain ⟨answer, -, rfl⟩ := Option.map_eq_some_iff.mp hPage
    generalize hReq : (⟨st.l1.nextCursor, st.l1.loadedL1⟩ : L1Request) = req
    generalize l1Options config params answer.reads = opts
    have hNodes : nodesOf (before ++ (st.receive
        (buildGraphL1Page answer.db params.limits.hacker opts req)).pages) = nodesOf (before ++ st.pages) ++
          (buildGraphL1Page answer.db params.limits.hacker opts req).nodes.map apiNode := by
      show nodesOf (before ++ (st.pages ++ [_])) = _
      rw [← List.append_assoc, nodesOf_concat]
      rfl
    have hEdges : edgesOf (before ++ (st.receive
        (buildGraphL1Page answer.db params.limits.hacker opts req)).pages) = edgesOf (before ++ st.pages) ++
          (buildGraphL1Page answer.db params.limits.hacker opts req).edges := by
      show edgesOf (before ++ (st.pages ++ [_])) = _
      rw [← List.append_assoc, edgesOf_concat]
      rfl
    -- the hacker is shown before, or by this page
    have hHacker : (buildGraphL1Page answer.db params.limits.hacker opts req).edges ≠ [] ∨
        (buildGraphL1Page answer.db params.limits.hacker opts req).nextCursor ≠ none →
        .address params.limits.hacker ∈ ids (nodesOf (before ++ st.pages) ++
          (buildGraphL1Page answer.db params.limits.hacker opts req).nodes.map apiNode) := by
      intro hSome
      cases hCursor : st.l1.nextCursor with
      | some cursor => exact mem_ids_left (h.hacker (by rw [hCursor]; rfl)) _
      | none =>
        have hFirst : req.cursor = none := by rw [← hReq, hCursor]
        exact mem_ids_right (mem_ids_apiPage (hacker_buildGraphL1Page hFirst hSome)) _
    refine ⟨?_, ?_, ?_⟩
    · rw [hNodes, hEdges]
      apply h.closed.addPage (ends_buildGraphL1Page _ _ _ _)
      intro hSome p hp
      rw [hp]
      exact hHacker (.inl hSome)
    · intro hCursor
      rw [hNodes]
      refine hHacker (.inr fun hNone => ?_)
      change (buildGraphL1Page answer.db params.limits.hacker opts req).nextCursor.isSome = true at hCursor
      rw [hNone] at hCursor
      cases hCursor
    · intro token hToken p hp
      rw [hNodes]
      rcases List.mem_append.mp hToken with hOld | hNew
      · exact mem_ids_left (h.parents token hOld p hp) _
      · exact mem_ids_right (mem_ids_apiPage
          (parents_buildGraphL1Page (Option.mem_toList.mp hNew) hp)) _
  · cases hPage

theorem sound_fetchL1Loop (fuel : Nat) {st st' : L1Fetch} (h : st.Sound params.limits.hacker before)
    (hLoop : fetchL1Loop config params answers fuel st = some st') : st'.Sound params.limits.hacker before := by
  induction fuel generalizing st with
  | zero =>
    cases hLoop
    exact h
  | succ fuel ih =>
    obtain ⟨page, hPage, hNext⟩ := Option.bind_eq_some_iff.mp hLoop
    have hReceived := sound_requestL1 h hPage
    split at hNext
    · exact ih hReceived hNext
    · cases hNext
      exact hReceived

/-- The pages of a token whose parents are shown. -/
theorem closed_requestL2 {st : L2Fetch} {page : L2Page}
    (h : Closed (nodesOf (before ++ st.pages)) (edgesOf (before ++ st.pages)))
    (hParents : ∀ p ∈ st.session.l2Token.parents, (∀ q, expandParent = some q → p = q) →
      .address p ∈ ids (nodesOf before))
    (hPage : requestL2 config params answers expandParent st = some page) :
    Closed (nodesOf (before ++ (st.receive page).pages)) (edgesOf (before ++ (st.receive page).pages)) := by
  unfold requestL2 at hPage
  split at hPage
  · obtain ⟨answer, -, rfl⟩ := Option.map_eq_some_iff.mp hPage
    generalize (⟨st.session.nextCursor, st.session.loadedL2⟩ : L2Request) = req
    generalize hOpts : l2Options config params expandParent answer.fanoutTotals = opts
    have hExpand : opts.expandParent = expandParent := by rw [← hOpts]; rfl
    show Closed (nodesOf (before ++ (st.pages ++ [_]))) (edgesOf (before ++ (st.pages ++ [_])))
    rw [← List.append_assoc, nodesOf_concat, edgesOf_concat]
    apply h.addPage (ends_buildGraphL2Page _ _ _ _)
    intro _ p hp
    obtain ⟨hMem, hOnly⟩ := parent_of_mem_expandable hp
    rw [hExpand] at hOnly
    rw [nodesOf_append]
    exact mem_ids_left (mem_ids_left (hParents p hMem hOnly) _) _
  · cases hPage

theorem closed_fetchL2Loop (fuel : Nat) {st st' : L2Fetch}
    (h : Closed (nodesOf (before ++ st.pages)) (edgesOf (before ++ st.pages)))
    (hParents : ∀ p ∈ st.session.l2Token.parents, (∀ q, expandParent = some q → p = q) →
      .address p ∈ ids (nodesOf before))
    (hLoop : fetchL2Loop config params answers expandParent fuel st = some st') :
    Closed (nodesOf (before ++ st'.pages)) (edgesOf (before ++ st'.pages)) ∧
      st'.session.l2Token = st.session.l2Token := by
  induction fuel generalizing st with
  | zero =>
    cases hLoop
    exact ⟨h, rfl⟩
  | succ fuel ih =>
    obtain ⟨page, hPage, hNext⟩ := Option.bind_eq_some_iff.mp hLoop
    have hReceived := closed_requestL2 h hParents hPage
    split at hNext
    · exact @ih (st.receive page) hReceived hParents hNext
    · cases hNext
      exact ⟨hReceived, rfl⟩

/-- The pages of a session begin with none. -/
theorem closed_session {session : GraphL2Session} {requests fuel : Nat} {st' : L2Fetch}
    (h : Closed (nodesOf before) (edgesOf before))
    (hParents : ∀ p ∈ session.l2Token.parents, (∀ q, expandParent = some q → p = q) →
      .address p ∈ ids (nodesOf before))
    (hLoop : fetchL2Loop config params answers expandParent fuel { session := session, requests := requests } =
      some st') :
    Closed (nodesOf (before ++ st'.pages)) (edgesOf (before ++ st'.pages)) ∧
      st'.session.l2Token = session.l2Token := by
  have hStart : Closed (nodesOf (before ++ [])) (edgesOf (before ++ [])) := by rwa [List.append_nil]
  exact @closed_fetchL2Loop config params answers expandParent before fuel
    { session := session, requests := requests } st' hStart hParents hLoop

/-- The sessions one after the other. -/
theorem closed_runSessions {sessions : List GraphL2Session} {st st' : L2Runs}
    (h : Closed (nodesOf (before ++ st.pages)) (edgesOf (before ++ st.pages)))
    (hParents : ∀ session ∈ sessions, ∀ p ∈ session.l2Token.parents, .address p ∈ ids (nodesOf before))
    (hRun : runSessions config params answers sessions st = some st') :
    Closed (nodesOf (before ++ st'.pages)) (edgesOf (before ++ st'.pages)) ∧
      ∀ session ∈ st'.sessions, session ∈ st.sessions ∨
        ∃ session' ∈ sessions, session.l2Token = session'.l2Token := by
  induction sessions generalizing st with
  | nil =>
    cases hRun
    exact ⟨h, fun session hs => .inl hs⟩
  | cons session rest ih =>
    obtain ⟨fetched, hFetched, hNext⟩ := Option.bind_eq_some_iff.mp hRun
    obtain ⟨hFirst, hRest⟩ := List.forall_mem_cons.mp hParents
    have hKnown : ∀ p ∈ session.l2Token.parents, (∀ q, (none : Option Address) = some q → p = q) →
        .address p ∈ ids (nodesOf (before ++ st.pages)) := fun p hp _ => by
      rw [nodesOf_append]
      exact mem_ids_left (hFirst p hp) _
    obtain ⟨hClosed, hToken⟩ := closed_session h hKnown hFetched
    rw [List.append_assoc] at hClosed
    obtain ⟨hAll, hSessions⟩ := ih hClosed hRest hNext
    refine ⟨hAll, fun s hs => ?_⟩
    rcases hSessions s hs with hOld | ⟨session', hMem, hSame⟩
    · rcases List.mem_append.mp hOld with hIn | hIn
      · exact .inl hIn
      · rw [List.mem_singleton.mp hIn]
        exact .inr ⟨session, List.mem_cons_self, hToken⟩
    · exact .inr ⟨session', List.mem_cons_of_mem session hMem, hSame⟩

/-- An earlier session stays only where its token was not run again. -/
theorem mem_allSessions {run : List GraphL2Session} {session : GraphL2Session}
    (h : session ∈ allSessions prev run) : session ∈ run ∨
      session ∈ prevSessions prev ∧ ∀ s ∈ run, s.l2Token ≠ session.l2Token := by
  unfold allSessions at h
  generalize prevSessions prev = old at h ⊢
  induction old generalizing run with
  | nil => exact .inl h
  | cons first rest ih =>
    rw [List.foldl_cons] at h
    by_cases hRun : run.any (·.l2Token = first.l2Token) = true
    · rw [if_pos hRun] at h
      exact (ih h).imp id fun hRest => ⟨List.mem_cons_of_mem first hRest.1, hRest.2⟩
    · rw [if_neg hRun] at h
      rcases ih h with hIn | ⟨hRest, hOther⟩
      · rcases List.mem_append.mp hIn with hOld | hNew
        · exact .inl hOld
        · refine .inr ⟨List.mem_cons.mpr (.inl (List.mem_singleton.mp hNew)), fun s hs hSame => hRun ?_⟩
          rw [List.mem_singleton.mp hNew] at hSame
          exact List.any_eq_true.mpr ⟨s, hs, decide_eq_true hSame⟩
      · exact .inr ⟨List.mem_cons_of_mem first hRest, fun s hs => hOther s (List.mem_append_left _ hs)⟩

theorem mem_sessionsToRun {newL2Tokens : List L2TokenPayload} {session : GraphL2Session}
    (h : session ∈ sessionsToRun params prev newL2Tokens) :
    (∃ session' ∈ prevSessions prev, session.l2Token = session'.l2Token) ∨ session.l2Token ∈ newL2Tokens := by
  rcases List.mem_append.mp h with hOld | hNew
  · obtain ⟨session', hMem, hRerun⟩ := List.mem_filterMap.mp hOld
    refine .inl ⟨session', hMem, ?_⟩
    unfold rerun at hRerun
    split at hRerun
    · cases hRerun
      rfl
    · split at hRerun
      · cases hRerun
        rfl
      · cases hRerun
  · obtain ⟨token, hMem, rfl⟩ := List.mem_map.mp hNew
    exact .inr (List.mem_of_mem_filter hMem)

/-! ### The parts of a load -/

theorem Resumes.shown (_ : Resumes params prev) {p : GraphLoadState} (hp : prev = some p) {id : NodeId}
    (h : id ∈ ids p.response.nodes) : id ∈ ids (nodesOf (prevPages prev)) := by
  subst hp
  show id ∈ ids (nodesOf [p.response.page])
  rwa [nodesOf_page]

theorem Resumes.start (h : Resumes params prev) :
    L1Fetch.Sound params.limits.hacker (prevPages prev) { l1 := (l1Start params prev).getD {} } := by
  refine ⟨?_, fun hCursor => ?_, fun _ hToken => absurd hToken List.not_mem_nil⟩
  · show Closed (nodesOf (prevPages prev ++ [])) (edgesOf (prevPages prev ++ []))
    rw [List.append_nil]
    cases prev with
    | none => exact closed_nil
    | some p =>
      show Closed (nodesOf [p.response.page]) (edgesOf [p.response.page])
      rw [nodesOf_page, edgesOf_page]
      exact (h.closed p rfl).closed
  · cases hp : prev with
    | none =>
      rw [hp] at hCursor
      cases hCursor
    | some p =>
      rw [hp] at hCursor
      have hOwn : p.l1.nextCursor.isSome = true := by
        unfold l1Start at hCursor
        rw [Option.bind_some] at hCursor
        split at hCursor
        · exact hCursor
        · cases hCursor
      rw [List.append_nil, ← hp, ← h.hacker p hp]
      exact h.shown hp ((h.covered p hp).hacker hOwn)

theorem Resumes.fetchL1Pages (h : Resumes params prev) {l1 : L1Fetch}
    (hL1 : fetchL1Pages config params answers (l1Start params prev) = some l1) :
    l1.Sound params.limits.hacker (prevPages prev) := by
  unfold Web.fetchL1Pages at hL1
  split at hL1
  · cases hL1
    exact h.start
  · exact sound_fetchL1Loop _ h.start hL1

/-- The parents of the earlier sessions are shown. -/
theorem Resumes.parents (h : Resumes params prev) {session : GraphL2Session} (hMem : session ∈ prevSessions prev)
    {p : Address} (hp : p ∈ session.l2Token.parents) : .address p ∈ ids (nodesOf (prevPages prev)) := by
  cases hState : prev with
  | none =>
    rw [hState] at hMem
    cases hMem
  | some q =>
    rw [hState] at hMem
    rw [← hState]
    exact h.shown hState ((h.covered q hState).parents session hMem p hp)

theorem Resumes.parents_toRun (h : Resumes params prev) {l1 : L1Fetch}
    (hL1 : l1.Sound params.limits.hacker (prevPages prev)) :
    ∀ session ∈ sessionsToRun params prev l1.l2Tokens, ∀ p ∈ session.l2Token.parents,
      .address p ∈ ids (nodesOf (prevPages prev ++ l1.pages)) := by
  intro session hMem p hp
  rcases mem_sessionsToRun hMem with ⟨session', hOld, hSame⟩ | hNew
  · rw [nodesOf_append]
    exact mem_ids_left (h.parents hOld (hSame ▸ hp)) _
  · exact hL1.parents _ hNew p hp

theorem Resumes.runSessions (h : Resumes params prev) {l1 : L1Fetch}
    (hL1 : l1.Sound params.limits.hacker (prevPages prev)) {sessions : List GraphL2Session}
    (hRuns : ∀ session ∈ sessions, session ∈ sessionsToRun params prev l1.l2Tokens) {requests : Nat} {l2 : L2Runs}
    (hL2 : runSessions config params answers sessions { requests := requests } = some l2) :
    Closed (nodesOf (prevPages prev ++ l1.pages ++ l2.pages)) (edgesOf (prevPages prev ++ l1.pages ++ l2.pages)) ∧
      ∀ session ∈ l2.sessions, ∃ session' ∈ sessions, session.l2Token = session'.l2Token := by
  have hStart : Closed (nodesOf ((prevPages prev ++ l1.pages) ++ []))
      (edgesOf ((prevPages prev ++ l1.pages) ++ [])) := by
    rw [List.append_nil]
    exact hL1.closed
  obtain ⟨hClosed, hSessions⟩ := @closed_runSessions config params answers (prevPages prev ++ l1.pages) sessions
    { requests := requests } l2 hStart (fun session hMem => h.parents_toRun hL1 session (hRuns session hMem)) hL2
  refine ⟨hClosed, fun session hMem => ?_⟩
  rcases hSessions session hMem with hNone | hTo
  · cases hNone
  · exact hTo

/-- The load of a hacker, on its own or from a state of the same hacker that is closed and has the parents of its
sessions. -/
theorem closed_load {state : GraphLoadState} (h : Resumes params prev)
    (hLoad : loadHackerGraph config params answers prev = some state) :
    state.response.IsClosed ∧ state.Covered := by
  obtain ⟨l1, hL1, hRest⟩ := Option.bind_eq_some_iff.mp hLoad
  obtain ⟨l2, hL2, rfl⟩ := Option.map_eq_some_iff.mp hRest
  have hFirst := h.fetchL1Pages hL1
  obtain ⟨hClosed, hSessions⟩ := h.runSessions hFirst (fun session hMem => hMem) hL2
  have hAll : ∀ {id : NodeId}, id ∈ ids (nodesOf (prevPages prev ++ l1.pages)) →
      id ∈ ids (loadState params prev l1 l2).response.nodes := by
    intro id hId
    apply mem_ids_mergeGraphPages.mpr
    rw [nodesOf_append]
    exact mem_ids_left hId _
  refine ⟨hClosed.merge, fun hCursor => hAll (hFirst.hacker hCursor), fun session hMem p hp => hAll ?_⟩
  rcases mem_allSessions hMem with hRun | hOld
  · obtain ⟨session', hTo, hSame⟩ := hSessions session hRun
    exact h.parents_toRun hFirst session' hTo p (hSame ▸ hp)
  · rw [nodesOf_append]
    exact mem_ids_left (h.parents hOld.1 hp) _

/-- What is shown while a load is under way. -/
theorem closed_emitPartial {graph : ApiGraph} (h : Resumes params prev) {progress : Progress}
    (hShown : emitPartial config params answers prev progress = some graph) : graph.IsClosed := by
  cases progress with
  | l1 pages =>
    obtain ⟨l1, hL1, rfl⟩ := Option.map_eq_some_iff.mp hShown
    exact (sound_fetchL1Loop _ h.start hL1).closed.merge
  | l2 place pages =>
    obtain ⟨l1, hL1, hRest⟩ := Option.bind_eq_some_iff.mp hShown
    obtain ⟨l2, hL2, hNext⟩ := Option.bind_eq_some_iff.mp hRest
    obtain ⟨session, hSession, hLast⟩ := Option.bind_eq_some_iff.mp hNext
    obtain ⟨fetched, hFetched, rfl⟩ := Option.map_eq_some_iff.mp hLast
    have hFirst := h.fetchL1Pages hL1
    obtain ⟨hClosed, -⟩ := h.runSessions hFirst (fun session hMem => List.mem_of_mem_take hMem) hL2
    refine (closed_session hClosed (fun p hp _ => ?_) hFetched).1.merge
    rw [nodesOf_append]
    exact mem_ids_left (h.parents_toRun hFirst session (List.mem_of_getElem? hSession) p hp) _

end Keeps

/-! ## The end of a load -/

section Ends

variable {config : ServerConfig} {params : LoadHackerGraphParams} {answers : Answers}
  {expandParent : Option Address} {prev : Option GraphLoadState}

/-- The first level ends when the pages have reached the limit, if it does not end before. -/
theorem fetchL1Loop_ends (hAnswers : ∀ i, (answers i).isSome = true)
    (hAdmits : admits config params params.limits.maxVictims = true) {fuel : Nat} {st : L1Fetch}
    (hFuel : maxDownstream config params - st.l1.loadedL1 < fuel) :
    ∃ st', fetchL1Loop config params answers fuel st = some st' ∧ st'.l1.done = true := by
  induction fuel generalizing st with
  | zero => omega
  | succ fuel ih =>
    obtain ⟨answer, hAnswer⟩ := Option.isSome_iff_exists.mp (hAnswers st.requests)
    have hPage : requestL1 config params answers st = some (buildGraphL1Page answer.db params.limits.hacker
        (l1Options config params answer.reads) ⟨st.l1.nextCursor, st.l1.loadedL1⟩) := by
      unfold requestL1
      rw [if_pos hAdmits, hAnswer]
      rfl
    unfold fetchL1Loop
    rw [hPage, Option.bind_some]
    split
    · next hGoes =>
      have hOpen : (buildGraphL1Page answer.db params.limits.hacker (l1Options config params answer.reads)
          ⟨st.l1.nextCursor, st.l1.loadedL1⟩).done = false := by
        unfold GraphL1State.goesOn at hGoes
        rw [Bool.and_eq_true, Bool.not_eq_true'] at hGoes
        exact hGoes.1
      obtain ⟨-, hMore, hBelow⟩ := progress_buildGraphL1Page hOpen
      change _ < maxDownstream config params at hBelow
      apply ih
      show maxDownstream config params - (buildGraphL1Page answer.db params.limits.hacker
        (l1Options config params answer.reads) ⟨st.l1.nextCursor, st.l1.loadedL1⟩).loadedL1 < fuel
      dsimp only at hMore
      omega
    · next hStops =>
      refine ⟨_, rfl, ?_⟩
      by_contra hOpen
      rw [Bool.not_eq_true] at hOpen
      obtain ⟨hCursor, -⟩ := progress_buildGraphL1Page hOpen
      apply hStops
      unfold GraphL1State.goesOn
      rw [hOpen, Bool.not_false, Bool.true_and]
      exact Option.isSome_iff_ne_none.mpr hCursor

/-- How many places a cursor may still take. -/
def placesLeft (config : ServerConfig) (params : LoadHackerGraphParams) (session : GraphL2Session) : Nat :=
  (session.l2Token.parents.length - session.nextCursor.elim 0 (·.parentIndex)) * (childCap config params + 1) +
    (childCap config params - session.nextCursor.elim 0 (·.loadedFromParent))

/-- A page with a cursor began at a parent. -/
theorem inside_of_nextCursor {db : Db} {token : L2TokenPayload} {opts : L2Options} {req : L2Request}
    {cursor : L2Cursor} (h : (buildGraphL2Page db token opts req).nextCursor = some cursor) :
    req.cursor.elim 0 (·.parentIndex) < (expandableParents db token.decoded opts).length := by
  by_contra hPast
  have hStays : ∀ fuel, l2Loop db token.decoded opts fuel (.ofRequest req) = .ofRequest req := by
    intro fuel
    cases fuel with
    | zero => rfl
    | succ fuel =>
      have hNone : currentParent db token.decoded opts (.ofRequest req) = none := by
        unfold currentParent
        split
        · exact List.getElem?_eq_none_iff.mpr (Nat.le_of_not_lt hPast)
        · rfl
      unfold l2Loop
      rw [hNone]
  unfold buildGraphL2Page l2Page at h
  rw [nextCursor_l2PageOf, hStays] at h
  change (if req.cursor.elim 0 (·.parentIndex) < (expandableParents db token.decoded opts).length then some _
    else none) = some cursor at h
  rw [if_neg hPast] at h
  cases h

/-- Whatever the database, a cursor leaves fewer places than the one before it. -/
theorem placesLeft_receive {st : L2Fetch} {answer : Answer} {cursor : L2Cursor}
    (h : (buildGraphL2Page answer.db st.session.l2Token (l2Options config params expandParent answer.fanoutTotals)
      ⟨st.session.nextCursor, st.session.loadedL2⟩).nextCursor = some cursor) (loadedL2 : Nat) (done : Bool) :
    placesLeft config params ⟨st.session.l2Token, loadedL2, some cursor, done⟩ <
      placesLeft config params st.session := by
  have hLess := l2Left_of_nextCursor h
  have hInside := inside_of_nextCursor h
  have hParents : (expandableParents answer.db st.session.l2Token.decoded
      (l2Options config params expandParent answer.fanoutTotals)).length ≤ st.session.l2Token.parents.length := by
    unfold expandableParents
    exact (List.length_filter_le _ _).trans (List.length_filter_le _ _)
  have hCap : maxPerParent st.session.l2Token.decoded
      (l2Options config params expandParent answer.fanoutTotals) = childCap config params := rfl
  unfold l2Left at hLess
  rw [hCap] at hLess
  unfold placesLeft
  dsimp only [Option.elim_some] at hLess hInside ⊢
  generalize (expandableParents answer.db st.session.l2Token.decoded
    (l2Options config params expandParent answer.fanoutTotals)).length = inside at hLess hInside hParents
  generalize st.session.l2Token.parents.length = all at hParents ⊢
  generalize st.session.nextCursor.elim 0 (·.parentIndex) = first at hLess hInside ⊢
  obtain ⟨extra, rfl⟩ := Nat.exists_eq_add_of_le hParents
  by_cases hNext : cursor.parentIndex < inside
  · have hSplit : inside + extra - cursor.parentIndex = (inside - cursor.parentIndex) + extra := by omega
    have hSplit' : inside + extra - first = (inside - first) + extra := by omega
    rw [hSplit, hSplit', Nat.add_mul, Nat.add_mul]
    omega
  · obtain ⟨n, hn⟩ : ∃ n, inside + extra - first = (inside + extra - cursor.parentIndex) + (n + 1) :=
      ⟨inside + extra - first - (inside + extra - cursor.parentIndex) - 1, by omega⟩
    rw [hn, Nat.add_mul, Nat.succ_mul]
    omega

theorem fetchL2Loop_ends (hAnswers : ∀ i, (answers i).isSome = true) (hAdmits : admits config params 100 = true)
    {fuel : Nat} {st : L2Fetch} (hFuel : placesLeft config params st.session < fuel) :
    ∃ st', fetchL2Loop config params answers expandParent fuel st = some st' ∧
      st'.session.l2Token = st.session.l2Token ∧ st'.session.done = true ∧ st'.session.nextCursor = none := by
  induction fuel generalizing st with
  | zero => omega
  | succ fuel ih =>
    obtain ⟨answer, hAnswer⟩ := Option.isSome_iff_exists.mp (hAnswers st.requests)
    have hPage : requestL2 config params answers expandParent st =
        some (buildGraphL2Page answer.db st.session.l2Token
          (l2Options config params expandParent answer.fanoutTotals)
          ⟨st.session.nextCursor, st.session.loadedL2⟩) := by
      unfold requestL2
      rw [if_pos hAdmits, hAnswer]
      rfl
    have hDone := done_buildGraphL2Page answer.db st.session.l2Token
      (l2Options config params expandParent answer.fanoutTotals) ⟨st.session.nextCursor, st.session.loadedL2⟩
    have hFewer := @placesLeft_receive config params expandParent st answer
    unfold fetchL2Loop
    rw [hPage, Option.bind_some]
    generalize buildGraphL2Page answer.db st.session.l2Token
      (l2Options config params expandParent answer.fanoutTotals)
      ⟨st.session.nextCursor, st.session.loadedL2⟩ = page at hDone hFewer ⊢
    have hSession : ∀ o, page.nextCursor = o →
        (st.receive page).session = ⟨st.session.l2Token, page.loadedL2, o, o.isNone⟩ := by
      rintro o rfl
      rw [← hDone]
      rfl
    cases hCursor : page.nextCursor with
    | none =>
      refine ⟨st.receive page, if_neg ?_, rfl, ?_, ?_⟩
      · rw [hSession none hCursor]
        simp [GraphL2Session.goesOn]
      · rw [hSession none hCursor]
        rfl
      · rw [hSession none hCursor]
    | some cursor =>
      have hGoes : (st.receive page).session.goesOn = true := by
        rw [hSession (some cursor) hCursor]
        rfl
      have hLess := hFewer hCursor page.loadedL2 false
      rw [if_pos hGoes]
      apply @ih (st.receive page)
      rw [hSession (some cursor) hCursor]
      show placesLeft config params ⟨st.session.l2Token, page.loadedL2, some cursor, false⟩ < fuel
      omega

theorem placesLeft_lt (config : ServerConfig) (params : LoadHackerGraphParams) (session : GraphL2Session) :
    placesLeft config params session < fetchL2Fuel config params session.l2Token := by
  unfold placesLeft fetchL2Fuel
  have hFirst : (session.l2Token.parents.length - session.nextCursor.elim 0 (·.parentIndex)) *
      (childCap config params + 1) ≤ session.l2Token.parents.length * (childCap config params + 1) :=
    Nat.mul_le_mul_right _ (Nat.sub_le _ _)
  rw [Nat.succ_mul]
  omega

theorem runSessions_ends (hAnswers : ∀ i, (answers i).isSome = true) (hAdmits : admits config params 100 = true)
    (sessions : List GraphL2Session) (st : L2Runs) :
    ∃ st', runSessions config params answers sessions st = some st' ∧
      st'.sessions.map (·.l2Token) = st.sessions.map (·.l2Token) ++ sessions.map (·.l2Token) ∧
      ∀ session ∈ st'.sessions, session ∈ st.sessions ∨ session.done = true ∧ session.nextCursor = none := by
  induction sessions generalizing st with
  | nil => exact ⟨st, rfl, by simp, fun session hs => .inl hs⟩
  | cons session rest ih =>
    obtain ⟨fetched, hFetched, hToken, hEnd⟩ := @fetchL2Loop_ends config params answers none hAnswers hAdmits
      (fetchL2Fuel config params session.l2Token) { session := session, requests := st.requests }
      (placesLeft_lt config params session)
    obtain ⟨st', hRun, hTokens, hEnds⟩ := ih
      ⟨st.pages ++ fetched.pages, st.sessions ++ [fetched.session], fetched.requests⟩
    refine ⟨st', ?_, ?_, fun s hs => ?_⟩
    · unfold runSessions
      show (fetchL2ForToken config params answers session st.requests).bind _ = _
      unfold fetchL2ForToken
      rw [hFetched]
      exact hRun
    · rw [hTokens, List.map_append, List.map_cons, List.map_nil, hToken, List.append_assoc]
      rfl
    · rcases hEnds s hs with hIn | hIn
      · rcases List.mem_append.mp hIn with hOld | hNew
        · exact .inl hOld
        · rw [List.mem_singleton.mp hNew]
          exact .inr hEnd
      · exact .inr hIn

/-- A load whose requests are answered, from whatever databases and whatever the earlier load was, ends with every
page read: the first level is done, and every session is, without a cursor. -/
theorem load_ends (config : ServerConfig) (params : LoadHackerGraphParams) (answers : Answers)
    (prev : Option GraphLoadState) (hAnswers : ∀ i, (answers i).isSome = true)
    (hAdmits : admits config params params.limits.maxVictims = true ∧ admits config params 100 = true) :
    ∃ state, loadHackerGraph config params answers prev = some state ∧ state.l1.done = true ∧
      ∀ session ∈ state.l2Sessions, session.done = true ∧ session.nextCursor = none := by
  have hFirst : ∃ l1, fetchL1Pages config params answers (l1Start params prev) = some l1 ∧ l1.l1.done = true := by
    unfold fetchL1Pages
    split
    · next hStart =>
      cases hFrom : l1Start params prev with
      | none =>
        rw [hFrom] at hStart
        cases hStart
      | some l1 =>
        rw [hFrom, Option.any_some, Bool.and_eq_true] at hStart
        exact ⟨_, rfl, hStart.1⟩
    · apply fetchL1Loop_ends hAnswers hAdmits.1
      omega
  obtain ⟨l1, hL1, hDone⟩ := hFirst
  obtain ⟨l2, hL2, hTokens, hEnds⟩ := runSessions_ends hAnswers hAdmits.2
    (sessionsToRun params prev l1.l2Tokens) { requests := l1.requests }
  refine ⟨loadState params prev l1 l2, ?_, hDone, fun session hMem => ?_⟩
  · unfold loadHackerGraph
    rw [hL1, Option.bind_some, hL2]
    rfl
  · rcases mem_allSessions hMem with hRun | ⟨hOld, hOther⟩
    · exact (hEnds session hRun).resolve_left List.not_mem_nil
    · -- a session that was not run again had ended
      have hNone : rerun params prev session = none := by
        by_contra hSome
        obtain ⟨again, hAgain⟩ := Option.ne_none_iff_exists'.mp hSome
        have hToRun : again ∈ sessionsToRun params prev l1.l2Tokens :=
          List.mem_append_left _ (List.mem_filterMap.mpr ⟨session, hOld, hAgain⟩)
        have hToken : again.l2Token = session.l2Token := by
          unfold rerun at hAgain
          split at hAgain
          · cases hAgain
            rfl
          · split at hAgain
            · cases hAgain
              rfl
            · cases hAgain
        have hIn : session.l2Token ∈ l2.sessions.map (·.l2Token) := by
          rw [hTokens, ← hToken]
          exact List.mem_append_right _ (List.mem_map_of_mem hToRun)
        obtain ⟨s, hs, hSame⟩ := List.mem_map.mp hIn
        exact hOther s hs hSame
      unfold rerun at hNone
      split at hNone
      · cases hNone
      · split at hNone
        · cases hNone
        · next hStops =>
          rw [Bool.not_eq_true, Bool.or_eq_false_iff, Bool.not_eq_false', Option.isSome_eq_false_iff,
            Option.isNone_iff_eq_none] at hStops
          exact hStops

end Ends

/-! A hacker with three targets, the last of which has a target of its own. -/

def threeTargets : Db :=
  { Db.initial with
    addresses := (∅ : Table.Rows Address AddressRow).insert (name "h")
      ⟨.hacker, "hack", true, some 0, .expanded, none, 0, 0⟩
    edges := ((((∅ : Table.Rows EdgeKey EdgeRow).insert ⟨name "h", name "a", name "t"⟩
      ⟨400000, .outFromHacker, none, some 1, none, none⟩).insert ⟨name "h", name "b", name "t"⟩
      ⟨300000, .outFromHacker, none, some 1, none, none⟩).insert ⟨name "h", name "c", name "t"⟩
      ⟨200000, .outFromHacker, none, some 1, none, none⟩).insert ⟨name "c", name "x", name "u"⟩
      ⟨150000, .outFromHacker, none, some 2, none, none⟩ }

/-- The parameters of a load of the hacker, in pages of two. -/
def limited (maxDownstream : Nat) : LoadHackerGraphParams :=
  ⟨⟨name "h", 100000, 100, maxDownstream, false⟩, 2⟩

theorem load_ends_limited :
    ∃ state, loadHackerGraph {} (limited 3) (fun _ => some { db := threeTargets }) none = some state ∧
      state.l1.done = true ∧ ∀ session ∈ state.l2Sessions, session.done = true ∧ session.nextCursor = none :=
  load_ends {} (limited 3) _ none (fun _ => rfl) ⟨by decide, by decide⟩

end Bloodhound.Web
