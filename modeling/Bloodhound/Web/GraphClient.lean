import Bloodhound.Lib.RecentlyUsed
import Bloodhound.Sources.ContentHash
import Bloodhound.Web.GraphLoader

/-!
# The client and its cache of graphs

`graphCache.ts` and the loading of `HackGraph.tsx`: a graph is taken from the cache, is cut out of a cached one
with weaker limits, goes on from one with a lower limit, or is loaded; a search for a victim asks for a graph of
its own, and a cluster of the graph may be expanded. Loads wait for their answers, show what they have so far, and
cache what they find when they end, although only the last one shows it.

* `closed_of_run`: in all graphs that a client has cached or shows each edge has its two ends, except that who
  pays a refund may be missing, whatever it loads, cuts out and expands and in whatever order the loads end, as
  long as no load goes on from a graph that was cut below the parents of its sessions, and no such parent is
  expanded. A graph that was cut keeps these sessions, and a load from it shows the children of parents that it does
  not have.
* `refund_without_source`, `orphan_of_cut`: these exceptions occur.
* `cached_graph_stays`: which graphs the cache still has.
-/

namespace Bloodhound.Web

open Bloodhound.Graph Bloodhound.Store
open RecentlyUsed (put hit touch)

/-! ## The cache -/

def MAX_ENTRIES : Nat := 20

/-- A search that is not empty. -/
abbrev VictimSearch : Type := Name

def graphCacheKey (limits : GraphLoadParams) (victimSearch : Option VictimSearch) : String :=
  let victim := victimSearch.elim "" fun s => String.ofList (Sources.trim s.val.toList)
  let hacker := if victim = "" then limits.hacker.val else ""
  let expand := if victim = "" ∧ limits.expandVictims = true then "1" else "0"
  "|".intercalate [hacker, victim, toString limits.minEdgeSats, toString limits.maxVictims,
    toString limits.maxDownstream, expand]

/-- The cache, by the keys of `graphCacheKey`; the time of an entry is left out. The first entry is the oldest. -/
abbrev GraphCache : Type := OrderedMap String GraphLoadState

/-- The cache behind a call of `getCachedGraphLoadState`. -/
def getCachedGraphLoadState (key : String) (store : GraphCache) : GraphCache := hit store key

def setCachedGraphLoadState (key : String) (state : GraphLoadState) (store : GraphCache) : GraphCache :=
  put MAX_ENTRIES store key state

def invalidateCachedGraph (key : String) (store : GraphCache) : GraphCache := store.erase key

/-- The entry of a search may be found too. -/
def findRelatedGraphLoadState (params : GraphLoadParams) (victimSearch : Option VictimSearch)
    (store : GraphCache) : Option GraphLoadState :=
  if victimSearch.isSome then none
  else store.values.find? fun s => s.params.hacker = params.hacker && s.params.expandVictims = params.expandVictims

def canTrimLocally (oldParams newParams : GraphLoadParams) : Bool :=
  oldParams.hacker = newParams.hacker && oldParams.expandVictims = newParams.expandVictims &&
    oldParams.minEdgeSats ≤ newParams.minEdgeSats && newParams.maxVictims ≤ oldParams.maxVictims &&
    newParams.maxDownstream ≤ oldParams.maxDownstream &&
    (oldParams.minEdgeSats < newParams.minEdgeSats || newParams.maxVictims < oldParams.maxVictims ||
      newParams.maxDownstream < oldParams.maxDownstream)

def canResumeDownstream (oldParams newParams : GraphLoadParams) : Bool :=
  oldParams.hacker = newParams.hacker && oldParams.minEdgeSats = newParams.minEdgeSats &&
    oldParams.maxVictims = newParams.maxVictims && oldParams.expandVictims = newParams.expandVictims &&
    oldParams.maxDownstream < newParams.maxDownstream

/-! ## The client -/

/-- What the user looks at: the properties of the component. -/
structure View where
  params : LoadHackerGraphParams
  victimSearch : Option VictimSearch := none

def View.key (view : View) : String := graphCacheKey view.params.limits view.victimSearch

/-- What a load finds when it asks: the pages, or the graph of a search, which is not modelled. -/
structure Found where
  answers : Answers
  search : Option ApiGraph := none

/-- A request that waits for its answers. -/
inductive Pending where
  | search (view : View) (generation : Nat) (found : Option ApiGraph)
  | load (view : View) (generation : Nat) (prev : Option GraphLoadState) (answers : Answers)
  | expand (view : View) (state : GraphLoadState) (parentId : Address) (answers : Nat → Answers)

/-- The cache, the references of the component and what waits. `shown` is the graph that was drawn last; the
drawing leaves out the edges without a node at one of their ends. -/
structure Client where
  store : GraphCache := .empty
  graphState : Option GraphLoadState := none
  shown : Option ApiGraph := none
  lastGraphKey : Option String := none
  loadGeneration : Nat := 0
  graphLoading : Bool := false
  pending : List Pending := []

/-- What the user does, and what becomes of the requests. A change of the view drops the graph, a change of any
property ends the loading; an expansion asks for each session anew, with the answers of its place. -/
inductive Action where
  | changeKey
  | changeView
  | loadGraph (view : View) (skipCache : Bool) (found : Found)
  | expandFanoutParent (view : View) (parentId : Address) (answers : Nat → Answers)
  | emits (place : Nat) (progress : Progress)
  | ends (place : Nat)

namespace Client

def begins (load : Pending) (c : Client) : Client := { c with pending := c.pending ++ [load] }

def applyApiGraph (graph : ApiGraph) (c : Client) : Client := { c with shown := some graph }

def keeps (key : String) (state : GraphLoadState) (c : Client) : Client :=
  { c with store := setCachedGraphLoadState key state c.store, graphState := some state }

/-- The graph of the key is shown, and nothing is loading. -/
def finishes (key : String) (graph : ApiGraph) (c : Client) : Client :=
  { c.applyApiGraph graph with lastGraphKey := some key, graphLoading := false }

def startsLoading (load : Pending) (c : Client) : Client := { c.begins load with graphLoading := true }

/-- A graph that is cached under its key. -/
def takesCached (key : String) (state : GraphLoadState) (c : Client) : Client :=
  let hit := { c with store := getCachedGraphLoadState key c.store, graphLoading := false }
  if some key ≠ c.lastGraphKey ∨ c.shown = none then
    { hit with shown := some state.response, lastGraphKey := some key, graphState := some state }
  else hit

end Client

/-- `trimmedState`. -/
def trimmed (related : GraphLoadState) (params : GraphLoadParams) : GraphLoadState :=
  { related with response := filterGraphByLimits related.response params, params := params }

namespace Client

/-- A graph that is not cached. -/
def loadMissing (view : View) (found : Found) (c : Client) : Client :=
  match findRelatedGraphLoadState view.params.limits view.victimSearch c.store with
  | none =>
    if view.victimSearch.isSome then c.startsLoading (.search view c.loadGeneration found.search)
    else c.startsLoading (.load view c.loadGeneration none found.answers)
  | some related =>
    if canTrimLocally related.params view.params.limits then
      (c.keeps view.key (trimmed related view.params.limits)).finishes view.key
        (filterGraphByLimits related.response view.params.limits)
    else if canResumeDownstream related.params view.params.limits then
      c.startsLoading (.load view c.loadGeneration (some related) found.answers)
    else c.startsLoading (.load view c.loadGeneration none found.answers)

def loadGraph (view : View) (skipCache : Bool) (found : Found) (c : Client) : Client :=
  let next := { c with loadGeneration := c.loadGeneration + 1 }
  if skipCache then
    if view.victimSearch.isSome then next.startsLoading (.search view next.loadGeneration found.search)
    else next.startsLoading (.load view next.loadGeneration none found.answers)
  else (next.store.get? view.key).elim (next.loadMissing view found) fun state => next.takesCached view.key state

/-- The state from which a load goes on. -/
def resumesFrom (view : View) (skipCache : Bool) (c : Client) : Option GraphLoadState :=
  if skipCache = true ∨ (c.store.get? view.key).isSome = true then none
  else (findRelatedGraphLoadState view.params.limits view.victimSearch c.store).filter fun related =>
    !canTrimLocally related.params view.params.limits && canResumeDownstream related.params view.params.limits

def expandFanoutParent (view : View) (parentId : Address) (answers : Nat → Answers) (c : Client) : Client :=
  if c.graphLoading then c
  else c.graphState.elim c fun state => c.begins (.expand view state parentId answers)

end Client

/-- The graph with what the expansion of a parent has shown. -/
def expandedGraph (graph : ApiGraph) (pages : List GraphPage) (parentId : Address) : ApiGraph :=
  omitGraphNodeIds (mergeGraphPages [graph.page, (mergeGraphPages pages).page])
    (if .fanout parentId ∈ ids (mergeGraphPages pages).nodes then [] else [.fanout parentId])

/-- The sessions are asked one after the other until one of them shows something. -/
def expandSessions (config : ServerConfig) (params : LoadHackerGraphParams) (state : GraphLoadState)
    (parentId : Address) : List GraphL2Session → (Nat → Answers) → Option GraphLoadState
  | [], _ => none
  | session :: rest, answers =>
    match loadFanoutExpand config params (answers 0) session.l2Token parentId 0 with
    | none => expandSessions config params state parentId rest fun n => answers (n + 1)
    | some fetched =>
      if (mergeGraphPages fetched.pages).nodes = [] ∧ (mergeGraphPages fetched.pages).edges = [] then
        expandSessions config params state parentId rest fun n => answers (n + 1)
      else some { state with response := expandedGraph state.response fetched.pages parentId }

/-- What a search leaves in the cache. -/
def searchState (limits : GraphLoadParams) (graph : ApiGraph) : GraphLoadState where
  response := graph
  params := limits
  l1 := { loadedL1 := 0, nextCursor := none, done := true }
  l2Sessions := []

namespace Client

/-- A load that fails shows nothing, and ends the loading if it is the last one. -/
def fails (generation : Nat) (c : Client) : Client :=
  if generation = c.loadGeneration then { c with graphLoading := false } else c

def settleSearch (view : View) (generation : Nat) (found : Option ApiGraph) (c : Client) : Client :=
  match found with
  | none => c.fails generation
  | some graph =>
    if generation = c.loadGeneration then
      { c with store := setCachedGraphLoadState view.key (searchState view.params.limits graph) c.store }.finishes
        view.key graph
    else c

/-- A load keeps its graph even where a later one has been started. -/
def settleLoad (view : View) (generation : Nat) (result : Option GraphLoadState) (c : Client) : Client :=
  match result with
  | none => c.fails generation
  | some state =>
    if generation = c.loadGeneration then (c.keeps view.key state).finishes view.key state.response
    else c.keeps view.key state

def settleExpand (view : View) (result : Option GraphLoadState) (c : Client) : Client :=
  match result with
  | none => c
  | some state => (c.keeps view.key state).applyApiGraph state.response

/-- The end of a request. -/
def settle (config : ServerConfig) (c : Client) : Pending → Client
  | .search view generation found => c.settleSearch view generation found
  | .load view generation prev answers =>
    c.settleLoad view generation (loadHackerGraph config view.params answers prev)
  | .expand view state parentId answers =>
    c.settleExpand view (expandSessions config view.params state parentId state.l2Sessions answers)

def ends (config : ServerConfig) (place : Nat) (c : Client) : Client :=
  c.pending[place]?.elim c ({ c with pending := c.pending.eraseIdx place }.settle config)

/-- What a load has so far is shown if it is the last one. -/
def emits (config : ServerConfig) (place : Nat) (progress : Progress) (c : Client) : Client :=
  match c.pending[place]? with
  | some (.load view generation prev answers) =>
    if generation = c.loadGeneration then
      (emitPartial config view.params answers prev progress).elim c c.applyApiGraph
    else c
  | _ => c

def act (config : ServerConfig) (c : Client) : Action → Client
  | .changeKey => { c with graphLoading := false }
  | .changeView => { c with shown := none, graphState := none }
  | .loadGraph view skipCache found => c.loadGraph view skipCache found
  | .expandFanoutParent view parentId answers => c.expandFanoutParent view parentId answers
  | .emits place progress => c.emits config place progress
  | .ends place => c.ends config place

end Client

/-! ## Cutting a graph -/

section Cut

variable {graph : ApiGraph} {keep : ApiGraphNode → Bool} {edges : List GraphEdge}

/-- A cut keeps edges with their two ends only. -/
theorem ApiGraph.IsClosed.restrict (h : graph.IsClosed) (keep : ApiGraphNode → Bool)
    (hSub : edges.Sublist graph.edges) : (graph.restrict keep edges).IsClosed where
  closed :=
    { targets := fun _ he => (mem_filterEdgesToNodes.mp he).2.2
      sources := fun _ he _ => (mem_filterEdgesToNodes.mp he).2.1 }
  edgeIds := h.edgeIds.sublist ((List.filter_sublist.trans hSub).map _)

theorem ApiGraph.IsClosed.filterGraphByLimits (h : graph.IsClosed) (params : GraphLoadParams) :
    (filterGraphByLimits graph params).IsClosed := by
  have hFloor : (applyMinEdgeSats graph params.minEdgeSats).IsClosed := h.restrict _ List.filter_sublist
  have hVictims : (applyMaxVictims (applyMinEdgeSats graph params.minEdgeSats) params.maxVictims
      params.expandVictims).IsClosed := by
    unfold applyMaxVictims
    split
    · exact hFloor.restrict _ (List.Sublist.refl _)
    · exact hFloor
  unfold Web.filterGraphByLimits applyMaxDownstream
  split
  · exact hVictims
  · exact hVictims.restrict _ List.filter_sublist

end Cut

/-! ## Expanding a cluster -/

section Expand

variable {graph : ApiGraph} {parentId : Address}

/-- A parent of the sessions is shown. -/
def GraphLoadState.HasParent (s : GraphLoadState) (parentId : Address) : Prop :=
  ∀ session ∈ s.l2Sessions, parentId ∈ session.l2Token.parents → .address parentId ∈ ids s.response.nodes

/-- What was merged may be merged again. -/
theorem Closed.mergeAgain {before pages : List GraphPage}
    (h : Closed (nodesOf (before ++ pages)) (edgesOf (before ++ pages))) :
    Closed (nodesOf (before ++ [(mergeGraphPages pages).page])) (edgesOf (before ++ [(mergeGraphPages pages).page])) := by
  have hIds : ∀ id ∈ ids (nodesOf (before ++ pages)), id ∈ ids (nodesOf (before ++ [(mergeGraphPages pages).page])) := by
    intro id hId
    rw [nodesOf_append, ids_append] at hId ⊢
    rcases List.mem_append.mp hId with hOld | hNew
    · exact List.mem_append_left _ hOld
    · rw [nodesOf_page]
      exact List.mem_append_right _ (mem_ids_mergeGraphPages.mpr hNew)
  have hEdges : ∀ e ∈ edgesOf (before ++ [(mergeGraphPages pages).page]), e ∈ edgesOf (before ++ pages) := by
    intro e he
    rw [edgesOf_append] at he ⊢
    rcases List.mem_append.mp he with hOld | hNew
    · exact List.mem_append_left _ hOld
    · rw [edgesOf_page] at hNew
      exact List.mem_append_right _ (mem_of_mem_merged_edges hNew)
  exact ⟨fun e he => hIds _ (h.targets e (hEdges e he)), fun e he hKind => hIds _ (h.sources e (hEdges e he) hKind)⟩

theorem isClosed_expandedGraph {pages : List GraphPage}
    (h : Closed (nodesOf ([graph.page] ++ pages)) (edgesOf ([graph.page] ++ pages))) (parentId : Address) :
    (expandedGraph graph pages parentId).IsClosed := by
  have hMerged : (mergeGraphPages [graph.page, (mergeGraphPages pages).page]).IsClosed := h.mergeAgain.merge
  unfold expandedGraph omitGraphNodeIds
  split
  · exact hMerged
  · exact hMerged.restrict _ (List.Sublist.refl _)

theorem isClosed_expandSessions {config : ServerConfig} {params : LoadHackerGraphParams}
    {state state' : GraphLoadState} (h : state.response.IsClosed) (sessions : List GraphL2Session)
    (hParent : ∀ session ∈ sessions, parentId ∈ session.l2Token.parents →
      .address parentId ∈ ids state.response.nodes) {answers : Nat → Answers}
    (hExpand : expandSessions config params state parentId sessions answers = some state') :
    state'.response.IsClosed := by
  induction sessions generalizing answers with
  | nil => cases hExpand
  | cons session rest ih =>
    obtain ⟨hFirst, hRest⟩ := List.forall_mem_cons.mp hParent
    unfold expandSessions at hExpand
    split at hExpand
    · exact ih hRest hExpand
    · next fetched hFetched =>
      split at hExpand
      · exact ih hRest hExpand
      · cases hExpand
        have hStart : Closed (nodesOf [state.response.page]) (edgesOf [state.response.page]) := by
          rw [nodesOf_page, edgesOf_page]
          exact h.closed
        have hKnown : ∀ p ∈ session.l2Token.parents, (∀ q, some parentId = some q → p = q) →
            .address p ∈ ids (nodesOf [state.response.page]) := by
          intro p hp hOnly
          rw [hOnly parentId rfl] at hp ⊢
          rw [nodesOf_page]
          exact hFirst hp
        unfold loadFanoutExpand at hFetched
        exact isClosed_expandedGraph
          (@closed_session _ _ _ _ _ { l2Token := session.l2Token } _ _ _ hStart hKnown hFetched).1 parentId

end Expand

/-! ## Runs -/

/-- Loads go on from states that show the parents of their sessions, expansions are of such parents, and a search is
answered with a closed graph. -/
def Client.Allows (c : Client) : Action → Prop
  | .loadGraph view skipCache found =>
    (∀ s, c.resumesFrom view skipCache = some s → s.Covered) ∧ ∀ graph, found.search = some graph → graph.IsClosed
  | .expandFanoutParent _ parentId _ => ∀ s, c.graphState = some s → s.HasParent parentId
  | _ => True

/-- The states that a client reaches by such actions. -/
inductive Run (config : ServerConfig) : Client → Prop where
  | start : Run config {}
  | act {c : Client} (h : Run config c) (a : Action) (hAllows : c.Allows a) : Run config (c.act config a)

/-- What a request that waits may rely on. -/
def Pending.Sound : Pending → Prop
  | .search _ _ found => ∀ graph, found = some graph → graph.IsClosed
  | .load view _ prev _ => Resumes view.params prev
  | .expand _ state parentId _ => state.response.IsClosed ∧ state.HasParent parentId

structure Client.Sound (c : Client) : Prop where
  store : ∀ key state, c.store.get? key = some state → state.response.IsClosed
  graphState : ∀ state, c.graphState = some state → state.response.IsClosed
  shown : ∀ graph, c.shown = some graph → graph.IsClosed
  pending : ∀ load ∈ c.pending, load.Sound
  size : c.store.entries.length ≤ MAX_ENTRIES

section Runs

variable {config : ServerConfig} {c : Client}

theorem sound_start : Client.Sound {} where
  store _ _ h := by cases h
  graphState _ h := by cases h
  shown _ h := by cases h
  pending _ h := absurd h List.not_mem_nil
  size := Nat.zero_le _

theorem closed_setCached (h : c.Sound) {key key' : String} {state state' : GraphLoadState}
    (hClosed : state.response.IsClosed)
    (hGet : (setCachedGraphLoadState key state c.store).get? key' = some state') : state'.response.IsClosed := by
  have hTouched := OrderedMap.get?_of_get?_dropFirst hGet
  rw [RecentlyUsed.get?_touch] at hTouched
  split at hTouched
  · cases hTouched
    exact hClosed
  · exact h.store key' state' hTouched

/-- How far the loading is does not matter. -/
theorem Client.Sound.withLoading (h : c.Sound) (lastGraphKey : Option String) (loadGeneration : Nat)
    (graphLoading : Bool) : Client.Sound { c with lastGraphKey, loadGeneration, graphLoading } :=
  ⟨h.store, h.graphState, h.shown, h.pending, h.size⟩

theorem Client.Sound.keeps (h : c.Sound) (key : String) {state : GraphLoadState}
    (hClosed : state.response.IsClosed) : (c.keeps key state).Sound where
  store _ _ hGet := closed_setCached h hClosed hGet
  graphState _ hState := by
    cases hState
    exact hClosed
  shown := h.shown
  pending := h.pending
  size := RecentlyUsed.length_evict_le MAX_ENTRIES _

theorem Client.Sound.applyApiGraph (h : c.Sound) {graph : ApiGraph} (hClosed : graph.IsClosed) :
    (c.applyApiGraph graph).Sound where
  store := h.store
  graphState := h.graphState
  shown _ hShown := by
    cases hShown
    exact hClosed
  pending := h.pending
  size := h.size

theorem Client.Sound.finishes (h : c.Sound) (key : String) {graph : ApiGraph} (hClosed : graph.IsClosed) :
    (c.finishes key graph).Sound :=
  (h.applyApiGraph hClosed).withLoading (some key) c.loadGeneration false

theorem Client.Sound.begins (h : c.Sound) {load : Pending} (hLoad : load.Sound) : (c.begins load).Sound where
  store := h.store
  graphState := h.graphState
  shown := h.shown
  pending load' hMem := (List.mem_append.mp hMem).elim (h.pending load') fun hNew => by
    rw [List.mem_singleton.mp hNew]
    exact hLoad
  size := h.size

theorem Client.Sound.startsLoading (h : c.Sound) {load : Pending} (hLoad : load.Sound) :
    (c.startsLoading load).Sound :=
  (h.begins hLoad).withLoading c.lastGraphKey c.loadGeneration true

theorem Client.Sound.takesCached (h : c.Sound) {key : String} {state : GraphLoadState}
    (hGet : c.store.get? key = some state) : (c.takesCached key state).Sound := by
  have hClosed := h.store key state hGet
  have hHit : getCachedGraphLoadState key c.store = touch c.store key state := by
    unfold getCachedGraphLoadState hit
    rw [hGet]
    rfl
  have hStore : ∀ key' state', (getCachedGraphLoadState key c.store).get? key' = some state' →
      state'.response.IsClosed := by
    intro key' state' hGet'
    rw [hHit, RecentlyUsed.get?_touch] at hGet'
    split at hGet'
    · cases hGet'
      exact hClosed
    · exact h.store key' state' hGet'
  have hSize : (getCachedGraphLoadState key c.store).entries.length ≤ MAX_ENTRIES := by
    rw [hHit]
    exact (RecentlyUsed.length_touch_le hGet).trans h.size
  unfold Client.takesCached
  dsimp only
  split
  · refine ⟨hStore, fun _ hState => ?_, fun _ hShown => ?_, h.pending, hSize⟩
    · cases hState
      exact hClosed
    · cases hShown
      exact hClosed
  · exact ⟨hStore, h.graphState, h.shown, h.pending, hSize⟩

theorem Client.Sound.related (h : c.Sound) {params : GraphLoadParams} {victimSearch : Option VictimSearch}
    {related : GraphLoadState} (hFind : findRelatedGraphLoadState params victimSearch c.store = some related) :
    related.response.IsClosed := by
  unfold findRelatedGraphLoadState at hFind
  split at hFind
  · cases hFind
  · obtain ⟨key, hGet⟩ := OrderedMap.mem_values.mp (List.mem_of_find?_eq_some hFind)
    exact h.store key related hGet

theorem Client.Sound.loadMissing (h : c.Sound) (view : View) (found : Found)
    (hSearch : ∀ graph, found.search = some graph → graph.IsClosed)
    (hResumes : ∀ s, (findRelatedGraphLoadState view.params.limits view.victimSearch c.store).filter (fun related =>
      !canTrimLocally related.params view.params.limits && canResumeDownstream related.params view.params.limits) =
        some s → s.Covered) : (c.loadMissing view found).Sound := by
  have hFresh : (c.startsLoading (.load view c.loadGeneration none found.answers)).Sound :=
    h.startsLoading (resumes_none view.params)
  unfold Client.loadMissing
  split
  · split
    · exact h.startsLoading hSearch
    · exact hFresh
  · next related hFind =>
    have hClosed := h.related hFind
    split
    · have hCut : (trimmed related view.params.limits).response.IsClosed :=
        hClosed.filterGraphByLimits view.params.limits
      exact (h.keeps view.key hCut).finishes view.key hCut
    · next hTrim =>
      split
      · next hResume =>
        have hCovered : related.Covered := by
          apply hResumes related
          rw [hFind, Option.filter_some, if_pos]
          rw [Bool.not_eq_true] at hTrim
          rw [hTrim, hResume]
          rfl
        have hHacker : related.params.hacker = view.params.limits.hacker := by
          unfold canResumeDownstream at hResume
          simp only [Bool.and_eq_true, decide_eq_true_eq] at hResume
          exact hResume.1.1.1.1
        apply h.startsLoading
        constructor
        · intro p hp
          cases hp
          exact hClosed
        · intro p hp
          cases hp
          exact hCovered
        · intro p hp
          cases hp
          exact hHacker
      · exact hFresh

theorem Client.Sound.loadGraph (h : c.Sound) (view : View) (skipCache : Bool) (found : Found)
    (hAllows : c.Allows (.loadGraph view skipCache found)) : (c.loadGraph view skipCache found).Sound := by
  obtain ⟨hResumes, hSearch⟩ := hAllows
  have hNext : Client.Sound { c with loadGeneration := c.loadGeneration + 1 } := h.withLoading _ _ _
  unfold Client.loadGraph
  dsimp only
  split
  · split
    · exact hNext.startsLoading hSearch
    · exact hNext.startsLoading (resumes_none view.params)
  · next hUses =>
    cases hGet : c.store.get? view.key with
    | some state => exact hNext.takesCached hGet
    | none =>
      apply hNext.loadMissing view found hSearch
      intro s hs
      apply hResumes s
      unfold Client.resumesFrom
      rw [if_neg, hs]
      rw [hGet]
      simpa using hUses

theorem Client.Sound.expandFanoutParent (h : c.Sound) (view : View) (parentId : Address)
    (answers : Nat → Answers) (hParent : ∀ s, c.graphState = some s → s.HasParent parentId) :
    (c.expandFanoutParent view parentId answers).Sound := by
  unfold Client.expandFanoutParent
  split
  · exact h
  · cases hState : c.graphState with
    | none => exact h
    | some state => exact h.begins ⟨h.graphState state hState, hParent state hState⟩

theorem Client.Sound.fails (h : c.Sound) (generation : Nat) : (c.fails generation).Sound := by
  unfold Client.fails
  split
  · exact h.withLoading _ _ _
  · exact h

theorem Client.Sound.settleSearch (h : c.Sound) (view : View) (generation : Nat) {found : Option ApiGraph}
    (hFound : ∀ graph, found = some graph → graph.IsClosed) : (c.settleSearch view generation found).Sound := by
  unfold Client.settleSearch
  split
  · exact h.fails generation
  · next graph =>
    have hClosed := hFound graph rfl
    split
    · apply Client.Sound.finishes _ view.key hClosed
      exact ⟨fun _ _ hGet => closed_setCached h hClosed hGet, h.graphState, h.shown, h.pending,
        RecentlyUsed.length_evict_le MAX_ENTRIES _⟩
    · exact h

theorem Client.Sound.settleLoad (h : c.Sound) (view : View) (generation : Nat) {result : Option GraphLoadState}
    (hResult : ∀ state, result = some state → state.response.IsClosed) :
    (c.settleLoad view generation result).Sound := by
  unfold Client.settleLoad
  split
  · exact h.fails generation
  · next state =>
    have hKept := h.keeps view.key (hResult state rfl)
    split
    · exact hKept.finishes view.key (hResult state rfl)
    · exact hKept

theorem Client.Sound.settleExpand (h : c.Sound) (view : View) {result : Option GraphLoadState}
    (hResult : ∀ state, result = some state → state.response.IsClosed) : (c.settleExpand view result).Sound := by
  unfold Client.settleExpand
  split
  · exact h
  · next state => exact (h.keeps view.key (hResult state rfl)).applyApiGraph (hResult state rfl)

theorem Client.Sound.settle (h : c.Sound) {load : Pending} (hLoad : load.Sound) :
    (c.settle config load).Sound := by
  cases load with
  | search view generation found => exact h.settleSearch view generation hLoad
  | load view generation prev answers =>
    exact h.settleLoad view generation fun state hResult => (closed_load hLoad hResult).1
  | expand view state parentId answers =>
    exact h.settleExpand view fun next hResult => isClosed_expandSessions hLoad.1 state.l2Sessions hLoad.2 hResult

theorem Client.Sound.ends (h : c.Sound) (place : Nat) : (c.ends config place).Sound := by
  unfold Client.ends
  cases hPlace : c.pending[place]? with
  | none => exact h
  | some load =>
    apply Client.Sound.settle _ (h.pending load (List.mem_of_getElem? hPlace))
    exact ⟨h.store, h.graphState, h.shown, fun load hLoad => h.pending load (List.mem_of_mem_eraseIdx hLoad), h.size⟩

theorem Client.Sound.emits (h : c.Sound) (place : Nat) (progress : Progress) :
    (c.emits config place progress).Sound := by
  unfold Client.emits
  split
  · next view generation prev answers hPlace =>
    split
    · cases hResult : emitPartial config view.params answers prev progress with
      | none => exact h
      | some graph =>
        have hLoad : Resumes view.params prev := h.pending _ (List.mem_of_getElem? hPlace)
        exact h.applyApiGraph (closed_emitPartial hLoad hResult)
    · exact h
  · exact h

theorem Client.Sound.act (h : c.Sound) (a : Action) (hAllows : c.Allows a) : (c.act config a).Sound := by
  cases a with
  | changeKey => exact h.withLoading _ _ _
  | changeView =>
    exact ⟨h.store, fun _ hState => (by cases hState), fun _ hShown => (by cases hShown), h.pending, h.size⟩
  | loadGraph view skipCache found => exact h.loadGraph view skipCache found hAllows
  | expandFanoutParent view parentId answers => exact h.expandFanoutParent view parentId answers hAllows
  | emits place progress => exact h.emits place progress
  | ends place => exact h.ends place

theorem sound_of_run (h : Run config c) : c.Sound := by
  induction h with
  | start => exact sound_start
  | act _ a hAllows ih => exact ih.act a hAllows

end Runs

/-- Every graph that a client has cached or shows is closed, in whatever order its loads end and whatever the
database holds meanwhile, and the drawing leaves out no edge but refunds; and the cache has no more entries than it
may. -/
theorem closed_of_run {config : ServerConfig} {c : Client} (h : Run config c) :
    (∀ key state, c.store.get? key = some state → state.response.IsClosed) ∧
      (∀ state, c.graphState = some state → state.response.IsClosed) ∧
      (∀ graph, c.shown = some graph → graph.IsClosed ∧
        ∀ e ∈ graph.edges, e.isRefund = false → e ∈ filterEdgesToNodes graph.nodes graph.edges) ∧
      c.store.entries.length ≤ MAX_ENTRIES := by
  have hSound := sound_of_run h
  refine ⟨hSound.store, hSound.graphState, fun graph hShown => ⟨hSound.shown graph hShown, ?_⟩, hSound.size⟩
  intro e he hKind
  have hClosed := (hSound.shown graph hShown).closed
  exact mem_filterEdgesToNodes.mpr ⟨he, hClosed.sources e he hKind, hClosed.targets e he⟩

/-! A hacker with a victim and a chain of three targets, whose end pays the victim back. -/

def paidBack : Db :=
  { Db.initial with
    addresses := (∅ : Table.Rows Address AddressRow).insert (name "h")
      ⟨.hacker, "hack", true, some 0, .expanded, none, 0, 0⟩
    edges := (((((∅ : Table.Rows EdgeKey EdgeRow).insert ⟨name "v", name "h", name "r"⟩
      ⟨500000, .inToHacker, none, none, none, none⟩).insert ⟨name "h", name "a", name "s"⟩
      ⟨400000, .outFromHacker, none, some 1, none, none⟩).insert ⟨name "a", name "b", name "t"⟩
      ⟨300000, .outFromHacker, none, some 2, none, none⟩).insert ⟨name "b", name "c", name "u"⟩
      ⟨200000, .outFromHacker, none, some 3, none, none⟩).insert ⟨name "c", name "v", name "w"⟩
      ⟨150000, .outFromHacker, none, some 4, none, none⟩ }

def answering (db : Db) : Found := { answers := fun _ => some { db := db } }

/-- The hacker is loaded, with the first page shown on the way, and then again past the cache. -/
def paidBackClient : Client :=
  (((({} : Client).act {} (.loadGraph ⟨limited 3, none⟩ false (answering paidBack))).act {} (.emits 0 (.l1 0))).act
    {} (.ends 0)).act {} (.loadGraph ⟨limited 3, none⟩ true (answering paidBack))

theorem closed_of_run_paidBack :
    ((∀ key state, paidBackClient.store.get? key = some state → state.response.IsClosed) ∧
      (∀ state, paidBackClient.graphState = some state → state.response.IsClosed) ∧
      (∀ graph, paidBackClient.shown = some graph → graph.IsClosed ∧
        ∀ e ∈ graph.edges, e.isRefund = false → e ∈ filterEdgesToNodes graph.nodes graph.edges) ∧
      paidBackClient.store.entries.length ≤ MAX_ENTRIES) ∧
      paidBackClient.shown.map (·.edges.length) = some 4 := by
  constructor
  · refine closed_of_run (.act (.act (.act (.act .start _ ?_) _ ?_) _ ?_) _ ?_)
    · exact ⟨fun _ h => (by cases h), fun _ h => (by cases h)⟩
    · trivial
    · trivial
    · exact ⟨fun _ h => (by cases h), fun _ h => (by cases h)⟩
  · decide +kernel

/-- Its refund is an edge to the victims whose payer is not shown. -/
theorem refund_without_source : ∃ e ∈ (paidBackClient.shown.map (·.edges)).getD [],
    e.isRefund = true ∧ e.source ∉ ids ((paidBackClient.shown.map (·.nodes)).getD []) := by
  decide +kernel

/-- The hacker of `threeTargets` is loaded with all its targets, cut to one target, taken from the cache again, and
then asked for with two targets: the load goes on from the cut one, and shows the child of the third target without
it. -/
def cutAndResumed : Client :=
  [.loadGraph ⟨limited 3, none⟩ false (answering threeTargets), .ends 0,
    .loadGraph ⟨limited 1, none⟩ false (answering threeTargets),
    .loadGraph ⟨limited 3, none⟩ false (answering threeTargets),
    .loadGraph ⟨limited 2, none⟩ false (answering threeTargets), .ends 0].foldl (Client.act {}) {}

theorem orphan_of_cut : ∃ e ∈ (cutAndResumed.shown.map (·.edges)).getD [],
    e.isRefund = false ∧ e.source ∉ ids ((cutAndResumed.shown.map (·.nodes)).getD []) := by
  decide +kernel

/-! ## What the cache still has -/

inductive CacheCall where
  | get (key : String)
  | set (key : String) (state : GraphLoadState)
  | invalidate (key : String)

def CacheCall.apply (store : GraphCache) : CacheCall → GraphCache
  | .get key => getCachedGraphLoadState key store
  | .set key state => setCachedGraphLoadState key state store
  | .invalidate key => invalidateCachedGraph key store

def cacheAfter (calls : List CacheCall) : GraphCache := calls.foldl CacheCall.apply .empty

def CacheCall.op : CacheCall → RecentlyUsed.Op String GraphLoadState
  | .get key => .hit key
  | .set key state => .put key state
  | .invalidate key => .forget key

theorem cacheAfter_eq (calls : List CacheCall) :
    cacheAfter calls = RecentlyUsed.run MAX_ENTRIES (calls.map CacheCall.op) .empty := by
  unfold cacheAfter RecentlyUsed.run
  rw [List.foldl_map]
  congr 1
  funext store call
  cases call <;> rfl

/-- The call sets the state under the key, or finds it there. -/
def CacheCall.Uses (before : List CacheCall) (key : String) (state : GraphLoadState) : CacheCall → Prop
  | .set key' state' => key' = key ∧ state' = state
  | .get key' => key' = key ∧ (cacheAfter before).get? key = some state
  | .invalidate _ => False

theorem stays_of_uses {before : List CacheCall} {call : CacheCall} {key : String}
    {state : GraphLoadState} (h : call.Uses before key state) :
    RecentlyUsed.Stays (call.apply (cacheAfter before)) key state ∅ := by
  cases call with
  | get key' =>
    obtain ⟨rfl, hFound⟩ := h
    show RecentlyUsed.Stays (((cacheAfter before).get? key').elim _ _) key' state ∅
    rw [hFound]
    exact RecentlyUsed.stays_touch _ key' state
  | set key' state' =>
    obtain ⟨rfl, rfl⟩ := h
    exact (RecentlyUsed.stays_touch _ key' state').evict (by decide)
  | invalidate key' => exact h.elim

/-- A graph that was set or found is found again unless its key was set or invalidated meanwhile or twenty other
keys were used; and whatever is found was set last. -/
theorem cached_graph_stays (before later : List CacheCall) (call : CacheCall) (key : String)
    (state : GraphLoadState) (hUses : call.Uses before key state) (hKeeps : ∀ c ∈ later, c.op.Keeps key)
    (hFew : ((RecentlyUsed.usedKeys (later.map CacheCall.op)).erase key).card < MAX_ENTRIES) :
    (cacheAfter (before ++ call :: later)).get? key = some state ∧
      ∀ key' state', (cacheAfter (before ++ call :: later)).get? key' = some state' →
        RecentlyUsed.lastPut key' ((before ++ call :: later).map CacheCall.op) none = some state' := by
  constructor
  · have hLater : cacheAfter (before ++ call :: later) =
        RecentlyUsed.run MAX_ENTRIES (later.map CacheCall.op) (call.apply (cacheAfter before)) := by
      rw [cacheAfter_eq, List.map_append, List.map_cons]
      unfold RecentlyUsed.run
      rw [List.foldl_append, List.foldl_cons]
      have hBefore := cacheAfter_eq before
      unfold RecentlyUsed.run at hBefore
      rw [← hBefore]
      cases call <;> rfl
    rw [hLater]
    refine RecentlyUsed.get?_of_recent (stays_of_uses hUses) _ (fun op hop => ?_) hFew
    obtain ⟨c, hc, rfl⟩ := List.mem_map.mp hop
    exact hKeeps c hc
  · intro key' state' hGet
    rw [cacheAfter_eq] at hGet
    exact RecentlyUsed.put_of_get? (fun v hv => by cases hv) _ hGet

/-- An empty graph, cached for a limit. -/
def emptyState (maxDownstream : Nat) : GraphLoadState where
  response := mergeGraphPages []
  params := (limited maxDownstream).limits
  l1 := {}
  l2Sessions := []

def keyOf (maxDownstream : Nat) : String := graphCacheKey (limited maxDownstream).limits none

theorem cached_graph_stays_two :
    (cacheAfter ([] ++ .set (keyOf 1) (emptyState 1) :: [.set (keyOf 2) (emptyState 2)])).get?
        (keyOf 1) = some (emptyState 1) ∧
      ∀ key' state', (cacheAfter ([] ++ .set (keyOf 1) (emptyState 1) ::
          [.set (keyOf 2) (emptyState 2)])).get? key' = some state' →
        RecentlyUsed.lastPut key' (([] ++ CacheCall.set (keyOf 1) (emptyState 1) ::
          [.set (keyOf 2) (emptyState 2)]).map CacheCall.op) none = some state' := by
  refine cached_graph_stays [] [.set (keyOf 2) (emptyState 2)] (.set (keyOf 1) (emptyState 1))
    (keyOf 1) (emptyState 1) ⟨rfl, rfl⟩ (fun c hc => ?_) (by decide +kernel)
  rw [List.mem_singleton.mp hc]
  show keyOf 2 ≠ keyOf 1
  decide +kernel

end Bloodhound.Web
