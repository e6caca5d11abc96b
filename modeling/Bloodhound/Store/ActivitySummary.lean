import Bloodhound.Lib.Walks
import Bloodhound.Store.Edges

/-!
# The activity summary of hackers

`getHackerActivitySummary` counts recent victims and downstream addresses of hackers. The
downstream query recurses with `UNION ALL`, which keeps duplicates: its tree has one row for
each walk over edge rows from a hacker, not one for each address. So it ends only where no
hacker of the list reaches a cycle, and counts an address as often as there are walks to it.
-/

namespace Bloodhound.Store.ActivitySummary

/-! ## The queries -/

structure HackerActivity where
  recentVictimCount : Nat := 0
  recentDownstreamCount : Nat := 0
  deriving DecidableEq

def d1InClauseChunkSize : ℕ+ := 80

/-- What the summary reads: the tables, and the column `first_seen_at` of addresses. -/
structure Source where
  db : Db
  firstSeenAt : Address → Option Nat

/-- The conditions on a counted address: its role, and that it was first seen in the period. -/
def isRecent (src : Source) (since : Nat) (role : Role) (a : Address) : Bool :=
  (src.db.addresses.lookup a).any (·.role = role) && (src.firstSeenAt a).any (since ≤ ·)

/-- The groups of a list of hackers, with their sizes. -/
def countGroups (rows : List Address) : List (Address × Nat) :=
  rows.eraseDups.map fun h => (h, rows.count h)

/-- The first query: the distinct recent victims that paid the hackers of a chunk. -/
def victimRows (src : Source) (since : Nat) (chunk : List Address) : List (Address × Nat) :=
  countGroups (((src.db.edges.entries.filter fun e =>
    e.1.toAddress ∈ chunk ∧ e.2.direction = .inToHacker ∧
      isRecent src since .victim e.1.fromAddress).map fun e =>
        (e.1.toAddress, e.1.fromAddress)).eraseDups.map Prod.fst)

/-- The base rows of the second query. -/
def treeSeeds (src : Source) (chunk : List Address) : List (Address × Address) :=
  (src.db.addresses.keys.filter (· ∈ chunk)).map fun h => (h, h)

/-- The rows that a row of the tree adds: one for each output of its address. -/
def treeNext (src : Source) (row : Address × Address) : List (Address × Address) :=
  (src.db.edges.entries.filter fun e =>
    e.1.fromAddress = row.2 ∧ e.2.direction = .outFromHacker).map fun e => (row.1, e.1.toAddress)

def isCounted (src : Source) (since : Nat) (row : Address × Address) : Bool :=
  isRecent src since .downstream row.2 && row.2 ≠ row.1

/-- The second query; none where the recursion has not ended within the fuel. -/
def downstreamRows (src : Source) (fuel since : Nat) (chunk : List Address) :
    Option (List (Address × Nat)) :=
  (Walks.unionAll (treeNext src) fuel (treeSeeds src chunk) []).map fun tree =>
    countGroups ((tree.filter (isCounted src since)).map Prod.fst)

/-- Write the groups of a query into the entries of their hackers. -/
def setCounts (set : HackerActivity → Nat → HackerActivity) (rows : List (Address × Nat))
    (result : List (Address × HackerActivity)) : List (Address × HackerActivity) :=
  result.map fun e => (e.1, (rows.lookup e.1).elim e.2 (set e.2))

/-- The loop of the first query. -/
def countVictims (src : Source) (since : Nat) (chunks : List (List Address))
    (result : List (Address × HackerActivity)) : List (Address × HackerActivity) :=
  chunks.foldl (fun result chunk =>
    setCounts (fun entry n => { entry with recentVictimCount := n }) (victimRows src since chunk)
      result) result

/-- The loop of the second query. -/
def countDownstream (src : Source) (fuel since : Nat) :
    List (List Address) → List (Address × HackerActivity) → Option (List (Address × HackerActivity))
  | [], result => some result
  | chunk :: chunks, result => do
    let rows ← downstreamRows src fuel since chunk
    countDownstream src fuel since chunks
      (setCounts (fun entry n => { entry with recentDownstreamCount := n }) rows result)

/-- `getHackerActivitySummary`, with a bound on the rows of each recursion. -/
def getHackerActivitySummary (src : Source) (fuel : Nat) (hackerAddresses : List Address)
    (since : Nat) : Option (List (Address × HackerActivity)) :=
  let chunks := chunkArray d1InClauseChunkSize hackerAddresses
  countDownstream src fuel since chunks
    (countVictims src since chunks (hackerAddresses.eraseDups.map (·, {})))

/-! ## The tree of one hacker -/

variable {src : Source} {since : Nat}

/-- The rows of the edges table that the recursion follows. -/
def outKeys (src : Source) : List EdgeKey :=
  (src.db.edges.entries.filter (·.2.direction = .outFromHacker)).map (·.1)

theorem nodup_outKeys : (outKeys src).Nodup :=
  List.Nodup.sublist (List.filter_sublist.map _) src.db.edges.nodupKeys

/-- A step of the recursion: an output of one address to another. -/
def Downstream (src : Source) (a b : Address) : Prop :=
  Walks.Step EdgeKey.fromAddress EdgeKey.toAddress (outKeys src) a b

/-- The walks of a length from a hacker, last edge first. -/
def walks (src : Source) (h : Address) (n : Nat) : List (List EdgeKey × Address) :=
  Walks.walksFrom EdgeKey.fromAddress EdgeKey.toAddress (outKeys src) h n

theorem walks_succ (h : Address) (n : Nat) :
    walks src h (n + 1) = (walks src h n).flatMap fun w =>
      ((outKeys src).filter (·.fromAddress = w.2)).map fun key => (key :: w.1, key.toAddress) :=
  rfl

theorem treeNext_eq (h a : Address) :
    treeNext src (h, a) =
      ((outKeys src).filter (·.fromAddress = a)).map fun key => (h, key.toAddress) := by
  unfold treeNext outKeys
  rw [List.filter_map, List.map_map, List.filter_filter]
  simp only [Function.comp_def, Bool.decide_and]

/-- The levels of the tree of a hacker are the ends of its walks. -/
theorem level_treeNext (h : Address) (n : Nat) :
    Walks.level (treeNext src) n [(h, h)] = (walks src h n).map fun w => (h, w.2) := by
  induction n with
  | zero => rfl
  | succ n ih =>
    rw [Walks.level, ih, walks_succ, List.flatMap_map, List.map_flatMap]
    refine List.flatMap_congr fun w _ => ?_
    rw [treeNext_eq, List.map_map]
    rfl

def IsStored (src : Source) (h : Address) : Prop := h ∈ src.db.addresses

instance (h : Address) : Decidable (IsStored src h) := by
  unfold IsStored
  infer_instance

theorem mem_treeSeeds {chunk : List Address} {row : Address × Address} :
    row ∈ treeSeeds src chunk ↔ row.1 ∈ chunk ∧ IsStored src row.1 ∧ row.2 = row.1 := by
  unfold treeSeeds IsStored
  rw [List.mem_map]
  constructor
  · rintro ⟨h, hMem, rfl⟩
    obtain ⟨hKey, hChunk⟩ := List.mem_filter.mp hMem
    exact ⟨of_decide_eq_true hChunk, AList.mem_keys.mpr hKey, rfl⟩
  · rintro ⟨hChunk, hKey, hEq⟩
    exact ⟨row.1, List.mem_filter.mpr ⟨AList.mem_keys.mp hKey, decide_eq_true hChunk⟩,
      Prod.ext rfl hEq.symm⟩

/-- The rows with the root `h` in a level come from the seed of `h`. -/
theorem level_root {chunk : List Address} {h : Address} (hChunk : h ∈ chunk)
    (hStored : IsStored src h) (n : Nat) :
    (Walks.level (treeNext src) n (treeSeeds src chunk)).filter (·.1 = h) =
      (walks src h n).map fun w => (h, w.2) := by
  have hNodup : (src.db.addresses.keys.filter (· ∈ chunk)).Nodup :=
    src.db.addresses.nodupKeys.filter _
  have hMem : h ∈ src.db.addresses.keys.filter (· ∈ chunk) :=
    List.mem_filter.mpr ⟨AList.mem_keys.mp hStored, decide_eq_true hChunk⟩
  rw [Walks.level_flatMap, treeSeeds, List.flatMap_map]
  simp only [level_treeNext]
  generalize src.db.addresses.keys.filter (· ∈ chunk) = keys at hNodup hMem
  have hOwn : ∀ k, ((walks src k n).map fun w => (k, w.2)).filter (·.1 = h) =
      if k = h then (walks src k n).map fun w => (k, w.2) else [] := fun k => by
    rw [List.filter_map]
    by_cases hk : k = h <;> simp [hk, Function.comp_def]
  rw [List.filter_flatMap]
  simp only [hOwn]
  induction keys with
  | nil => cases hMem
  | cons k keys ih =>
    rw [List.flatMap_cons]
    rw [List.nodup_cons] at hNodup
    by_cases hk : k = h
    · subst hk
      have hRest : keys.flatMap (fun k' =>
          if k' = k then (walks src k' n).map fun w => (k', w.2) else []) = [] := by
        rw [List.flatMap_eq_nil_iff]
        exact fun k' hk' => if_neg fun (hEq : k' = k) => hNodup.1 (hEq ▸ hk')
      rw [if_pos rfl, hRest, List.append_nil]
    · rw [if_neg hk, List.nil_append]
      exact ih hNodup.2 ((List.mem_cons.mp hMem).resolve_left (Ne.symm hk))

/-! ## Ends of the recursion -/

/-- No cycle of outputs is reached from a hacker. -/
def NoCycle (src : Source) (h : Address) : Prop :=
  ∀ a, Relation.ReflTransGen (Downstream src) h a → ¬ Relation.TransGen (Downstream src) a a

/-- Every counted address is reached from a hacker by one walk only; edges of different
transactions make different walks. -/
def OneWalkEach (src : Source) (since : Nat) (h : Address) : Prop :=
  ∀ a, isCounted src since (h, a) = true → ∀ w w',
    Walks.IsWalk EdgeKey.fromAddress EdgeKey.toAddress (outKeys src) h w a →
    Walks.IsWalk EdgeKey.fromAddress EdgeKey.toAddress (outKeys src) h w' a → w = w'

/-- The recursion from a chunk has an empty level where none of its hackers reaches a cycle. -/
theorem exists_level_eq_nil {chunk : List Address} :
    (∃ n, Walks.level (treeNext src) n (treeSeeds src chunk) = []) ↔
      ∀ h ∈ chunk, IsStored src h → NoCycle src h := by
  constructor
  · rintro ⟨n, hNil⟩ h hChunk hStored
    have hWalks := level_root hChunk hStored n
    rw [hNil, List.filter_nil] at hWalks
    exact Walks.exists_walksFrom_eq_nil.mp ⟨n, List.map_eq_nil_iff.mp hWalks.symm⟩
  · intro hAll
    -- the number of edges bounds the walks of every hacker
    refine ⟨(outKeys src).length + 1, List.eq_nil_iff_forall_not_mem.mpr fun row hRow => ?_⟩
    rw [Walks.level_flatMap, List.mem_flatMap] at hRow
    obtain ⟨⟨h, a⟩, hSeed, hRow⟩ := hRow
    obtain ⟨hChunk, hStored, hEq⟩ := mem_treeSeeds.mp hSeed
    obtain rfl : a = h := hEq
    rw [level_treeNext] at hRow
    obtain ⟨w, hw, -⟩ := List.mem_map.mp hRow
    obtain ⟨hWalk, hLength⟩ := Walks.mem_walksFrom.mp hw
    have hShort := hWalk.length_le (hAll _ hChunk hStored)
    omega

/-- The walks from a hacker to counted addresses, for a bound on their length. -/
def countedWalks (src : Source) (since : Nat) (h : Address) (n : Nat) : Nat :=
  ((Walks.walksBelow EdgeKey.fromAddress EdgeKey.toAddress (outKeys src) h n).filter fun w =>
    isCounted src since (h, w.2)).length

/-- What the query counts for a hacker: its walks to counted addresses. -/
def downstreamCount (src : Source) (since : Nat) (h : Address) : Nat :=
  if IsStored src h then countedWalks src since h ((outKeys src).length + 1) else 0

theorem countedWalks_eq {h : Address} {n : Nat} (hNil : walks src h n = []) :
    countedWalks src since h n = countedWalks src since h ((outKeys src).length + 1) := by
  have hBound : walks src h ((outKeys src).length + 1) = [] := by
    have hAcyclic := Walks.exists_walksFrom_eq_nil.mp ⟨n, hNil⟩
    refine List.eq_nil_iff_forall_not_mem.mpr fun w hw => ?_
    obtain ⟨hWalk, hLength⟩ := Walks.mem_walksFrom.mp hw
    have hShort := hWalk.length_le hAcyclic
    omega
  unfold countedWalks
  rcases Nat.le_total n ((outKeys src).length + 1) with hLe | hLe
  · rw [Walks.walksBelow_eq_of_le hLe hNil]
  · rw [Walks.walksBelow_eq_of_le hLe hBound]

theorem lookup_countGroups (rows : List Address) (h : Address) :
    (countGroups rows).lookup h = if rows.count h = 0 then none else some (rows.count h) := by
  have hLookup : ∀ l : List Address,
      (l.map fun k => (k, rows.count k)).lookup h = if h ∈ l then some (rows.count h) else none := by
    intro l
    induction l with
    | nil => rfl
    | cons k l ih =>
      rw [List.map_cons, List.lookup_cons, ih]
      by_cases hk : h = k
      · simp [hk]
      · simp [hk, beq_false_of_ne hk]
  rw [countGroups, hLookup]
  by_cases hMem : h ∈ rows
  · rw [if_pos (List.mem_eraseDups.mpr hMem), if_neg (List.count_pos_iff.mpr hMem).ne']
  · rw [if_neg (fun h' => hMem (List.mem_eraseDups.mp h')), if_pos (List.count_eq_zero.mpr hMem)]

/-- The rows of a tree with the root `h` are the ends of the walks from it. -/
theorem tree_root (chunk : List Address) (h : Address) (n : Nat) :
    ((List.range n).flatMap fun i =>
        Walks.level (treeNext src) i (treeSeeds src chunk)).filter (·.1 = h) =
      if h ∈ chunk ∧ IsStored src h then
        (Walks.walksBelow EdgeKey.fromAddress EdgeKey.toAddress (outKeys src) h n).map
          fun w => (h, w.2)
      else [] := by
  rw [List.filter_flatMap]
  split
  · next hSeed =>
    rw [Walks.walksBelow, List.map_flatMap]
    exact List.flatMap_congr fun i _ => level_root hSeed.1 hSeed.2 i
  · next hSeed =>
    refine List.flatMap_eq_nil_iff.mpr fun i _ => List.filter_eq_nil_iff.mpr fun row hRow hRoot => ?_
    rw [Walks.level_flatMap, List.mem_flatMap] at hRow
    obtain ⟨⟨k, a⟩, hMem, hRow⟩ := hRow
    obtain ⟨hChunk, hStored, hEq⟩ := mem_treeSeeds.mp hMem
    obtain rfl : a = k := hEq
    rw [level_treeNext] at hRow
    obtain ⟨w, -, rfl⟩ := List.mem_map.mp hRow
    obtain rfl : a = h := of_decide_eq_true hRoot
    exact hSeed ⟨hChunk, hStored⟩

theorem count_map_fst (tree : List (Address × Address)) (p : Address × Address → Bool) (h : Address) :
    ((tree.filter p).map Prod.fst).count h = ((tree.filter (·.1 = h)).filter p).length := by
  rw [List.count_eq_length_filter, List.filter_map, List.length_map, List.filter_filter,
    List.filter_filter]
  congr 1
  refine List.filter_congr fun row _ => ?_
  rw [Bool.and_comm]
  by_cases hRow : row.1 = h
  · simp only [Function.comp_apply, hRow, beq_self_eq_true, decide_true]
  · simp only [Function.comp_apply, beq_false_of_ne hRow, hRow, decide_false]

/-- The group of a hacker in the result for a chunk holds its walks to counted addresses. -/
theorem lookup_downstreamRows {fuel : Nat} {chunk : List Address} {rows : List (Address × Nat)}
    (hRun : downstreamRows src fuel since chunk = some rows) (h : Address) :
    rows.lookup h =
      if h ∈ chunk ∧ downstreamCount src since h ≠ 0 then some (downstreamCount src since h)
      else none := by
  obtain ⟨tree, hTree, rfl⟩ := Option.map_eq_some_iff.mp hRun
  obtain ⟨n, hNil, rfl⟩ := Walks.unionAll_iff.mp ⟨fuel, hTree⟩
  have hCount : ((((List.range n).flatMap fun i =>
      Walks.level (treeNext src) i (treeSeeds src chunk)).filter (isCounted src since)).map
        Prod.fst).count h = if h ∈ chunk then downstreamCount src since h else 0 := by
    rw [count_map_fst, tree_root]
    by_cases hSeed : h ∈ chunk ∧ IsStored src h
    · have hWalks := level_root hSeed.1 hSeed.2 n
      rw [hNil, List.filter_nil] at hWalks
      have hEnd : walks src h n = [] := List.map_eq_nil_iff.mp hWalks.symm
      rw [if_pos hSeed, if_pos hSeed.1, downstreamCount, if_pos hSeed.2, ← countedWalks_eq hEnd,
        List.filter_map, List.length_map]
      rfl
    · rw [if_neg hSeed, List.filter_nil, List.length_nil]
      split
      · next hChunk => rw [downstreamCount, if_neg fun hStored => hSeed ⟨hChunk, hStored⟩]
      · rfl
  rw [lookup_countGroups, hCount]
  by_cases hChunk : h ∈ chunk <;> by_cases hZero : downstreamCount src since h = 0 <;>
    simp [hChunk, hZero]

/-! ## The summary -/

theorem mem_setCounts {set : HackerActivity → Nat → HackerActivity} {rows : List (Address × Nat)}
    {result : List (Address × HackerActivity)} {e : Address × HackerActivity} :
    e ∈ setCounts set rows result ↔
      ∃ entry, (e.1, entry) ∈ result ∧ e.2 = (rows.lookup e.1).elim entry (set entry) := by
  unfold setCounts
  rw [List.mem_map]
  constructor
  · rintro ⟨e', hMem, rfl⟩
    exact ⟨e'.2, hMem, rfl⟩
  · rintro ⟨entry, hMem, hEq⟩
    exact ⟨(e.1, entry), hMem, Prod.ext rfl hEq.symm⟩

theorem keys_setCounts (set : HackerActivity → Nat → HackerActivity) (rows : List (Address × Nat))
    (result : List (Address × HackerActivity)) :
    (setCounts set rows result).map Prod.fst = result.map Prod.fst := by
  unfold setCounts
  rw [List.map_map]
  rfl

/-- The victim counts leave the entries and their downstream counts as they are. -/
theorem countVictims_spec (src : Source) (since : Nat) (chunks : List (List Address))
    {result : List (Address × HackerActivity)}
    (hZero : ∀ e ∈ result, e.2.recentDownstreamCount = 0) :
    (countVictims src since chunks result).map Prod.fst = result.map Prod.fst ∧
      ∀ e ∈ countVictims src since chunks result, e.2.recentDownstreamCount = 0 := by
  induction chunks generalizing result with
  | nil => exact ⟨rfl, hZero⟩
  | cons chunk chunks ih =>
    have hStep : ∀ e ∈ setCounts (fun entry n => { entry with recentVictimCount := n })
        (victimRows src since chunk) result, e.2.recentDownstreamCount = 0 := fun e he => by
      obtain ⟨entry, hMem, hEq⟩ := mem_setCounts.mp he
      rw [hEq]
      cases (victimRows src since chunk).lookup e.1 with
      | none => exact hZero _ hMem
      | some n => exact hZero _ hMem
    obtain ⟨hKeys, hCounts⟩ := ih hStep
    exact ⟨hKeys.trans (keys_setCounts _ _ _), hCounts⟩

/-- After the chunks every hacker in them has its count, and the others the count they had. -/
theorem countDownstream_spec {fuel : Nat} {chunks : List (List Address)}
    {result final : List (Address × HackerActivity)} (seen : List Address)
    (hSeen : ∀ e ∈ result, e.2.recentDownstreamCount =
      if e.1 ∈ seen then downstreamCount src since e.1 else 0)
    (hRun : countDownstream src fuel since chunks result = some final) :
    final.map Prod.fst = result.map Prod.fst ∧
      (∀ chunk ∈ chunks, ∀ h ∈ chunk, IsStored src h → NoCycle src h) ∧
      ∀ e ∈ final, e.2.recentDownstreamCount =
        if e.1 ∈ seen ++ chunks.flatten then downstreamCount src since e.1 else 0 := by
  induction chunks generalizing result seen with
  | nil =>
    obtain rfl : result = final := Option.some.inj hRun
    exact ⟨rfl, fun _ h => absurd h List.not_mem_nil, by simpa using hSeen⟩
  | cons chunk chunks ih =>
    obtain ⟨rows, hRows, hRest⟩ := Option.bind_eq_some_iff.mp hRun
    have hChunk : ∀ h ∈ chunk, IsStored src h → NoCycle src h := by
      obtain ⟨tree, hTree, -⟩ := Option.map_eq_some_iff.mp hRows
      obtain ⟨n, hNil, -⟩ := Walks.unionAll_iff.mp ⟨fuel, hTree⟩
      exact exists_level_eq_nil.mp ⟨n, hNil⟩
    have hStep : ∀ e ∈ setCounts (fun entry n => { entry with recentDownstreamCount := n }) rows
        result, e.2.recentDownstreamCount =
          if e.1 ∈ seen ++ chunk then downstreamCount src since e.1 else 0 := fun e he => by
      obtain ⟨entry, hMem, hEq⟩ := mem_setCounts.mp he
      have hOld := hSeen _ hMem
      rw [lookup_downstreamRows hRows] at hEq
      rw [hEq]
      by_cases hIn : e.1 ∈ chunk <;> by_cases hZero : downstreamCount src since e.1 = 0
      · simpa [hIn, hZero] using hOld
      · simp [hIn, hZero]
      · simpa [hIn, hZero] using hOld
      · simpa [hIn, hZero] using hOld
    obtain ⟨hKeys, hAcyclic, hCounts⟩ := ih (seen ++ chunk) hStep hRest
    refine ⟨hKeys.trans (keys_setCounts _ _ _), ?_, ?_⟩
    · intro c hc
      rcases List.mem_cons.mp hc with rfl | hc
      · exact hChunk
      · exact hAcyclic c hc
    · rw [List.flatten_cons, ← List.append_assoc]
      exact hCounts

theorem downstreamRows_mono {fuel fuel' : Nat} (hLe : fuel ≤ fuel') {chunk : List Address}
    {rows : List (Address × Nat)} (h : downstreamRows src fuel since chunk = some rows) :
    downstreamRows src fuel' since chunk = some rows := by
  obtain ⟨tree, hTree, rfl⟩ := Option.map_eq_some_iff.mp h
  exact Option.map_eq_some_iff.mpr ⟨tree, Walks.unionAll_mono hLe hTree, rfl⟩

/-- Where no hacker reaches a cycle, the loop ends for every large enough bound. -/
theorem exists_countDownstream (since : Nat) {chunks : List (List Address)}
    (hAcyclic : ∀ chunk ∈ chunks, ∀ h ∈ chunk, IsStored src h → NoCycle src h) :
    ∃ bound, ∀ fuel, bound ≤ fuel → ∀ result,
      ∃ final, countDownstream src fuel since chunks result = some final := by
  induction chunks with
  | nil => exact ⟨0, fun _ _ result => ⟨result, rfl⟩⟩
  | cons chunk chunks ih =>
    obtain ⟨bound, hBound⟩ := ih fun c hc => hAcyclic c (List.mem_cons_of_mem _ hc)
    obtain ⟨n, hNil⟩ := exists_level_eq_nil.mpr (hAcyclic chunk List.mem_cons_self)
    obtain ⟨need, hTree⟩ := Walks.unionAll_iff.mpr ⟨n, hNil, rfl⟩
    refine ⟨max bound need, fun fuel hFuel result => ?_⟩
    have hRows : downstreamRows src fuel since chunk = some _ :=
      downstreamRows_mono ((Nat.le_max_right _ _).trans hFuel)
        (Option.map_eq_some_iff.mpr ⟨_, hTree, rfl⟩)
    obtain ⟨final, hFinal⟩ := hBound fuel ((Nat.le_max_left _ _).trans hFuel) (setCounts _ _ result)
    refine ⟨final, ?_⟩
    rw [countDownstream, hRows]
    exact hFinal

/-- The addresses that a hacker's downstream count is about. -/
def recentDownstream (src : Source) (since : Nat) (h : Address) : Set Address :=
  {a | IsStored src h ∧ Relation.ReflTransGen (Downstream src) h a ∧ isCounted src since (h, a) = true}

/-- The summary ends, and counts every recent downstream address of each hacker once. -/
def CountsOnce (src : Source) (hackerAddresses : List Address) (since : Nat) : Prop :=
  ∃ fuel result, getHackerActivitySummary src fuel hackerAddresses since = some result ∧
    result.map Prod.fst = hackerAddresses.eraseDups ∧
    ∀ e ∈ result, e.2.recentDownstreamCount = (recentDownstream src since e.1).ncard

theorem downstreamCount_eq_iff {h : Address} (hAcyclic : IsStored src h → NoCycle src h) :
    downstreamCount src since h = (recentDownstream src since h).ncard ↔
      (IsStored src h → OneWalkEach src since h) := by
  by_cases hStored : IsStored src h
  · obtain ⟨n, hNil⟩ := Walks.exists_walksFrom_eq_nil.mpr (hAcyclic hStored)
    have hEnds := Walks.length_ends_iff nodup_outKeys hNil fun a => isCounted src since (h, a)
    have hSet : recentDownstream src since h = {a | Relation.ReflTransGen (Downstream src) h a ∧
        isCounted src since (h, a) = true} := by
      simp only [recentDownstream, hStored, true_and]
    rw [downstreamCount, if_pos hStored, ← countedWalks_eq hNil, hSet]
    exact hEnds.trans ⟨fun hEach _ => hEach, fun hEach => hEach hStored⟩
  · have hSet : recentDownstream src since h = ∅ := by
      simp only [recentDownstream, hStored, false_and, Set.ofPred_false]
    rw [downstreamCount, if_neg hStored, hSet, Set.ncard_empty]
    exact ⟨fun _ h' => absurd h' hStored, fun _ => rfl⟩

theorem flatten_chunks (hackerAddresses : List Address) :
    (chunkArray d1InClauseChunkSize hackerAddresses).flatten = hackerAddresses :=
  flatten_chunkArray _ _

theorem noCycle_chunks (hackerAddresses : List Address) :
    (∀ chunk ∈ chunkArray d1InClauseChunkSize hackerAddresses, ∀ h ∈ chunk,
        IsStored src h → NoCycle src h) ↔
      ∀ h ∈ hackerAddresses, IsStored src h → NoCycle src h := by
  constructor
  · intro hAll h hMem
    rw [← flatten_chunks hackerAddresses] at hMem
    obtain ⟨chunk, hChunk, hIn⟩ := List.mem_flatten.mp hMem
    exact hAll chunk hChunk h hIn
  · intro hAll chunk hChunk h hIn
    exact hAll h (flatten_chunks hackerAddresses ▸ List.mem_flatten.mpr ⟨chunk, hChunk, hIn⟩)

/-- A summary that is returned has an entry for each hacker, with its count; and no stored hacker of
the list reaches a cycle. -/
theorem getHackerActivitySummary_spec {fuel : Nat} {hackerAddresses : List Address}
    {result : List (Address × HackerActivity)}
    (h : getHackerActivitySummary src fuel hackerAddresses since = some result) :
    result.map Prod.fst = hackerAddresses.eraseDups ∧
      (∀ h ∈ hackerAddresses, IsStored src h → NoCycle src h) ∧
      ∀ e ∈ result, e.2.recentDownstreamCount = downstreamCount src since e.1 := by
  have hNone : ∀ e ∈ hackerAddresses.eraseDups.map fun h => (h, ({} : HackerActivity)),
      e.2.recentDownstreamCount = 0 := fun e he => by
    obtain ⟨_, _, rfl⟩ := List.mem_map.mp he
    rfl
  have hStart := countVictims_spec src since (chunkArray d1InClauseChunkSize hackerAddresses) hNone
  have hKeys : (hackerAddresses.eraseDups.map fun h => (h, ({} : HackerActivity))).map Prod.fst =
      hackerAddresses.eraseDups := by
    rw [List.map_map]
    exact List.map_id _
  obtain ⟨hResult, hAcyclic, hCounts⟩ := countDownstream_spec [] (by simpa using hStart.2) h
  have hNames := (hResult.trans hStart.1).trans hKeys
  refine ⟨hNames, (noCycle_chunks hackerAddresses).mp hAcyclic, fun e he => ?_⟩
  have hMem : e.1 ∈ hackerAddresses.eraseDups := hNames ▸ List.mem_map_of_mem he
  rw [hCounts e he, List.nil_append, flatten_chunks, if_pos (List.mem_eraseDups.mp hMem)]

/-- The summary ends and counts once exactly where no hacker of the list reaches a cycle, and each
counted address is reached by one walk. -/
theorem countsOnce_iff (src : Source) (hackerAddresses : List Address) (since : Nat) :
    CountsOnce src hackerAddresses since ↔
      ∀ h ∈ hackerAddresses, IsStored src h → NoCycle src h ∧ OneWalkEach src since h := by
  constructor
  · rintro ⟨fuel, result, hResult, -, hOnce⟩ h hMem hStored
    obtain ⟨hNames, hAcyclic, hCounts⟩ := getHackerActivitySummary_spec hResult
    have hIn : h ∈ result.map Prod.fst := hNames ▸ List.mem_eraseDups.mpr hMem
    obtain ⟨e, he, rfl⟩ := List.mem_map.mp hIn
    have hEach := (downstreamCount_eq_iff (hAcyclic e.1 hMem)).mp
      ((hCounts e he).symm.trans (hOnce e he))
    exact ⟨hAcyclic e.1 hMem hStored, hEach hStored⟩
  · intro hAll
    obtain ⟨bound, hBound⟩ := exists_countDownstream since
      ((noCycle_chunks hackerAddresses).mpr fun h hMem hStored => (hAll h hMem hStored).1)
    obtain ⟨result, hResult⟩ := hBound bound le_rfl (countVictims src since
      (chunkArray d1InClauseChunkSize hackerAddresses) (hackerAddresses.eraseDups.map (·, {})))
    obtain ⟨hNames, hAcyclic, hCounts⟩ := getHackerActivitySummary_spec hResult
    refine ⟨bound, result, hResult, hNames, fun e he => ?_⟩
    have hMem : e.1 ∈ hackerAddresses :=
      List.mem_eraseDups.mp (hNames ▸ List.mem_map_of_mem he)
    rw [hCounts e he]
    exact (downstreamCount_eq_iff (hAcyclic e.1 hMem)).mpr fun hStored =>
      (hAll e.1 hMem hStored).2

/-- A hacker and a downstream address that it pays, with the given transactions as edges. -/
def paidDownstream (payments : List (Address × Address × Txid)) : Source where
  db := { Db.initial with
    addresses := (AList.insert (name "h") ⟨.hacker, "", true, some 0, .expanded, none, 0, 0⟩ ∅).insert
      (name "d") ⟨.downstream, "", false, some 1, .expanded, none, 0, 0⟩
    edges := payments.foldl (fun edges p => edges.insert ⟨p.1, p.2.1, p.2.2⟩
      ⟨5, .outFromHacker, none, none, none, none⟩) ∅ }
  firstSeenAt _ := some 1

/-- The downstream address pays the hacker back. -/
def paidBack : Source :=
  paidDownstream [(name "h", name "d", name "t"), (name "d", name "h", name "u")]

/-- The hacker pays the downstream address in two transactions. -/
def paidTwice : Source :=
  paidDownstream [(name "h", name "d", name "t"), (name "h", name "d", name "u")]

/-- A cycle keeps the recursion going, and a second payment counts its target again. -/
theorem not_countsOnce_paidBack :
    ¬ CountsOnce paidBack [name "h"] 0 ∧ ¬ CountsOnce paidTwice [name "h"] 0 := by
  constructor
  · rintro ⟨fuel, result, hResult, -⟩
    obtain ⟨-, hAcyclic, -⟩ := getHackerActivitySummary_spec hResult
    have hOut : Downstream paidBack (name "h") (name "d") :=
      ⟨⟨name "h", name "d", name "t"⟩, by decide +kernel, rfl, rfl⟩
    have hBack : Downstream paidBack (name "d") (name "h") :=
      ⟨⟨name "d", name "h", name "u"⟩, by decide +kernel, rfl, rfl⟩
    exact hAcyclic (name "h") List.mem_cons_self (by decide +kernel) (name "h")
      Relation.ReflTransGen.refl ((Relation.TransGen.single hOut).tail hBack)
  · rintro ⟨fuel, result, hResult, hNames, hOnce⟩
    obtain ⟨-, hAcyclic, hCounts⟩ := getHackerActivitySummary_spec hResult
    have hIn : name "h" ∈ result.map Prod.fst := hNames ▸ List.mem_singleton.mpr rfl
    obtain ⟨e, he, hKey⟩ := List.mem_map.mp hIn
    have hTwo := (hCounts e he).symm.trans (hOnce e he)
    rw [hKey] at hTwo
    have hEach := (downstreamCount_eq_iff (hAcyclic (name "h") List.mem_cons_self)).mp hTwo
      (by decide +kernel)
    have hWalk : ∀ txid, (⟨name "h", name "d", txid⟩ : EdgeKey) ∈ outKeys paidTwice →
        Walks.IsWalk EdgeKey.fromAddress EdgeKey.toAddress (outKeys paidTwice) (name "h")
          [⟨name "h", name "d", txid⟩] (name "d") := fun txid hMem => .cons .nil hMem
    have hSame := hEach (name "d") (by decide +kernel) _ _
      (hWalk (name "t") (by decide +kernel)) (hWalk (name "u") (by decide +kernel))
    exact absurd hSame (by decide)

end Bloodhound.Store.ActivitySummary
