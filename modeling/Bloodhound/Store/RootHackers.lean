import Bloodhound.Lib.Search
import Bloodhound.Store.Edges

/-!
# Root hackers

`findRootHackersForSpenders`: for each seed a search against the stored outputs of spenders,
which does not pass flagged hackers. The rows and the senders that it reads are cached across
the seeds. The search ends, and it finds the flagged hackers from which the seed is reached
by outputs to addresses that are not flagged; a flagged seed has no root but itself.
-/

namespace Bloodhound.Store.RootHackers

/-! ## The search -/

/-- `addressRowCache` and `inboundCache`. -/
structure Caches where
  addressRow : List (Address × Option AddressRow) := []
  inbound : List (Address × List Address) := []

def getAddress (db : Db) (address : Address) : Option AddressRow := db.addresses.lookup address

/-- The senders of the stored outputs to an address, one for each row. -/
def selectInbound (db : Db) (address : Address) : List Address :=
  (db.edges.entries.filter fun e =>
    e.1.toAddress = address ∧ e.2.direction = .outFromHacker).map (·.1.fromAddress)

/-- `getAddr`: an absent row is read again. -/
def getAddr (db : Db) (caches : Caches) (address : Address) : Option AddressRow × Caches :=
  match caches.addressRow.lookup address with
  | some (some row) => (some row, caches)
  | _ =>
    let row := getAddress db address
    (row, { caches with addressRow := (address, row) :: caches.addressRow })

def getInbound (db : Db) (caches : Caches) (address : Address) : List Address × Caches :=
  match caches.inbound.lookup address with
  | some rows => (rows, caches)
  | none =>
    let rows := selectInbound db address
    (rows, { caches with inbound := (address, rows) :: caches.inbound })

/-- The loop over the queue of one seed; none where the fuel runs out. -/
def searchRoots (db : Db) : Nat → Caches → List Address → List Address → List Address →
    Option (List Address × Caches)
  | _, caches, [], _, roots => some (roots, caches)
  | 0, _, _ :: _, _, _ => none
  | fuel + 1, caches, cur :: queue, seen, roots =>
    if cur ∈ seen then searchRoots db fuel caches queue seen roots
    else
      let (row, caches) := getAddr db caches cur
      if row.any (·.isFlaggedHacker) then
        searchRoots db fuel caches queue (cur :: seen) (roots ++ [cur])
      else
        let (ins, caches) := getInbound db caches cur
        searchRoots db fuel caches (queue ++ ins.filter (· ∉ cur :: seen)) (cur :: seen) roots

/-- The loop over the seeds. -/
def searchSeeds (db : Db) (fuel : Nat) : Caches → List Address →
    Option (List (Address × List Address))
  | _, [] => some []
  | caches, seed :: seeds => do
    let (roots, caches) ← searchRoots db fuel caches [seed] [] []
    let result ← searchSeeds db fuel caches seeds
    some ((seed, roots) :: result)

/-- `findRootHackersForSpenders`, with a bound on the steps of each search. -/
def findRootHackersForSpenders (db : Db) (fuel : Nat) (addresses : List Address) :
    Option (List (Address × List Address)) :=
  searchSeeds db fuel {} addresses.eraseDups

/-! ## What the caches hold -/

structure Caches.Sound (db : Db) (caches : Caches) : Prop where
  addressRow : ∀ a row, caches.addressRow.lookup a = some row → row = getAddress db a
  inbound : ∀ a rows, caches.inbound.lookup a = some rows → rows = selectInbound db a

theorem Caches.Sound.empty (db : Db) : Caches.Sound db {} where
  addressRow _ _ h := nomatch h
  inbound _ _ h := nomatch h

variable {db : Db} {caches : Caches}

theorem getAddr_spec (h : caches.Sound db) (a : Address) :
    (getAddr db caches a).1 = getAddress db a ∧ (getAddr db caches a).2.Sound db := by
  unfold getAddr
  split
  · next row hHit => exact ⟨h.addressRow a _ hHit, h⟩
  · refine ⟨rfl, ?_, h.inbound⟩
    intro b row hRow
    rw [List.lookup_cons] at hRow
    split at hRow
    · next hEq => rw [← Option.some.inj hRow, eq_of_beq hEq]
    · exact h.addressRow b row hRow

theorem getInbound_spec (h : caches.Sound db) (a : Address) :
    (getInbound db caches a).1 = selectInbound db a ∧ (getInbound db caches a).2.Sound db := by
  unfold getInbound
  split
  · next rows hHit => exact ⟨h.inbound a _ hHit, h⟩
  · refine ⟨rfl, h.addressRow, ?_⟩
    intro b rows hRows
    rw [List.lookup_cons] at hRows
    split at hRows
    · next hEq => rw [← Option.some.inj hRows, eq_of_beq hEq]
    · exact h.inbound b rows hRows

/-! ## The search over the table -/

/-- The stored outputs, from target to sender. -/
def inboundArrows (db : Db) : List (Address × Address) :=
  (db.edges.entries.filter (·.2.direction = .outFromHacker)).map fun e =>
    (e.1.toAddress, e.1.fromAddress)

def isFlagged (db : Db) (a : Address) : Bool := (getAddress db a).any (·.isFlaggedHacker)

theorem targetsOf_inboundArrows (a : Address) :
    Search.targetsOf (inboundArrows db) a = selectInbound db a := by
  unfold Search.targetsOf inboundArrows selectInbound
  rw [List.filter_map, List.map_map, List.filter_filter]
  simp only [Function.comp_def, Bool.decide_and]

/-- The caches change nothing: the search is the one over the stored outputs. -/
theorem searchRoots_eq (h : caches.Sound db) (fuel : Nat) (queue seen roots : List Address) :
    ∃ caches', caches'.Sound db ∧
      searchRoots db fuel caches queue seen roots =
        (Search.stopSearch (inboundArrows db) (isFlagged db) fuel queue seen roots).map
          (·, caches') := by
  induction fuel generalizing caches queue seen roots with
  | zero =>
    refine ⟨caches, h, ?_⟩
    cases queue with
    | nil => rfl
    | cons cur queue => rfl
  | succ fuel ih =>
    cases queue with
    | nil => exact ⟨caches, h, rfl⟩
    | cons cur queue =>
      unfold searchRoots Search.stopSearch
      by_cases hSeen : cur ∈ seen
      · rw [if_pos hSeen, if_pos hSeen]
        exact ih h queue seen roots
      · rw [if_neg hSeen, if_neg hSeen]
        obtain ⟨hRow, hRowSound⟩ := getAddr_spec h cur
        dsimp only
        rw [hRow, show (getAddress db cur).any (·.isFlaggedHacker) = isFlagged db cur from rfl]
        by_cases hFlag : isFlagged db cur = true
        · rw [if_pos hFlag, if_pos hFlag]
          exact ih hRowSound queue (cur :: seen) (roots ++ [cur])
        · rw [if_neg hFlag, if_neg hFlag]
          obtain ⟨hIns, hInsSound⟩ := getInbound_spec hRowSound cur
          rw [hIns, targetsOf_inboundArrows]
          convert ih hInsSound (queue ++ (selectInbound db cur).filter (· ∉ cur :: seen))
            (cur :: seen) roots

/-! ## Paths -/

/-- A stored output from one address to another, in some transaction. -/
def OutEdge (db : Db) (a b : Address) : Prop :=
  ∃ key row, db.edges.lookup key = some row ∧ row.direction = .outFromHacker ∧
    key.fromAddress = a ∧ key.toAddress = b

def IsFlagged (db : Db) (a : Address) : Prop :=
  ∃ row, db.addresses.lookup a = some row ∧ row.isFlaggedHacker = true

/-- A path of stored outputs whose intermediate addresses are not flagged. -/
inductive CleanPath (db : Db) : Address → Address → Prop where
  | edge {a b : Address} (h : OutEdge db a b) : CleanPath db a b
  | cons {a b c : Address} (h : OutEdge db a b) (hb : ¬ IsFlagged db b) (hPath : CleanPath db b c) :
      CleanPath db a c

theorem isFlagged_iff {a : Address} : isFlagged db a = true ↔ IsFlagged db a := by
  unfold isFlagged IsFlagged getAddress
  rw [Option.any_eq_true]

theorem mem_inboundArrows {a b : Address} : (b, a) ∈ inboundArrows db ↔ OutEdge db a b := by
  unfold inboundArrows OutEdge
  rw [List.mem_map]
  constructor
  · rintro ⟨⟨key, row⟩, hMem, hEq⟩
    obtain ⟨hStored, hDirection⟩ := List.mem_filter.mp hMem
    obtain ⟨hTo, hFrom⟩ := Prod.mk.inj hEq
    exact ⟨key, row, Table.lookup_eq_some_iff.mpr hStored, of_decide_eq_true hDirection, hFrom, hTo⟩
  · rintro ⟨key, row, hRow, hDirection, rfl, rfl⟩
    exact ⟨⟨key, row⟩, List.mem_filter.mpr
      ⟨Table.lookup_eq_some_iff.mp hRow, decide_eq_true hDirection⟩, rfl⟩

/-- The search goes back from an address as long as it is not flagged. -/
theorem reach_iff {seed h : Address} :
    Relation.ReflTransGen (Search.StopStep (inboundArrows db) (isFlagged db)) seed h ↔
      h = seed ∨ (¬ IsFlagged db seed ∧ CleanPath db h seed) := by
  have hStep : ∀ a b, Search.StopStep (inboundArrows db) (isFlagged db) a b ↔
      ¬ IsFlagged db a ∧ OutEdge db b a := fun a b => by
    rw [Search.StopStep, mem_inboundArrows, ← isFlagged_iff, Bool.not_eq_true]
  constructor
  · intro hReach
    induction hReach with
    | refl => exact Or.inl rfl
    | tail _ hLast ih =>
      obtain ⟨hClean, hEdge⟩ := (hStep _ _).mp hLast
      rcases ih with rfl | ⟨hSeed, hPath⟩
      · exact Or.inr ⟨hClean, .edge hEdge⟩
      · exact Or.inr ⟨hSeed, .cons hEdge hClean hPath⟩
  · rintro (rfl | ⟨hSeed, hPath⟩)
    · exact Relation.ReflTransGen.refl
    · induction hPath with
      | edge hEdge => exact Relation.ReflTransGen.single ((hStep _ _).mpr ⟨hSeed, hEdge⟩)
      | cons hEdge hClean _ ih => exact (ih hSeed).tail ((hStep _ _).mpr ⟨hClean, hEdge⟩)

/-- The roots of a seed: a flagged seed is its only root, and the roots of another are the flagged
hackers with a clean path to it. -/
structure ExactRoots (db : Db) (seed : Address) (roots : List Address) : Prop where
  nodup : roots.Nodup
  flagged : IsFlagged db seed → roots = [seed]
  reached : ¬ IsFlagged db seed → ∀ h, h ∈ roots ↔ IsFlagged db h ∧ CleanPath db h seed

theorem exactRoots_of_stops {seed : Address} {roots : List Address} (hNodup : roots.Nodup)
    (h : ∀ x, x ∈ roots ↔ isFlagged db x = true ∧
      Relation.ReflTransGen (Search.StopStep (inboundArrows db) (isFlagged db)) seed x) :
    ExactRoots db seed roots where
  nodup := hNodup
  flagged hSeed := by
    have hOnly : ∀ x, x ∈ roots ↔ x = seed := fun x => by
      rw [h, isFlagged_iff, reach_iff]
      constructor
      · exact fun hx => hx.2.resolve_right fun hPath => hPath.1 hSeed
      · rintro rfl
        exact ⟨hSeed, Or.inl rfl⟩
    exact (List.perm_ext_iff_of_nodup hNodup (List.nodup_singleton seed)).mpr
      (fun x => by rw [hOnly, List.mem_singleton]) |>.eq_singleton
  reached hSeed x := by
    rw [h, isFlagged_iff, reach_iff]
    constructor
    · rintro ⟨hx, rfl | ⟨_, hPath⟩⟩
      · exact absurd hx hSeed
      · exact ⟨hx, hPath⟩
    · exact fun ⟨hx, hPath⟩ => ⟨hx, Or.inr ⟨hSeed, hPath⟩⟩

theorem searchSeeds_spec (h : caches.Sound db) {fuel : Nat}
    (hFuel : db.edges.entries.length + 1 ≤ fuel) (seeds : List Address) :
    ∃ result, searchSeeds db fuel caches seeds = some result ∧ result.map Prod.fst = seeds ∧
      ∀ e ∈ result, ExactRoots db e.1 e.2 := by
  induction seeds generalizing caches with
  | nil => exact ⟨[], rfl, rfl, fun _ he => absurd he List.not_mem_nil⟩
  | cons seed seeds ih =>
    have hArrows : (inboundArrows db).length + 1 ≤ fuel := by
      have : (inboundArrows db).length ≤ db.edges.entries.length := by
        rw [inboundArrows, List.length_map]
        exact List.length_filter_le _ _
      omega
    obtain ⟨roots, hSearch, hNodup, hRoots⟩ :=
      Search.stopSearch_found (inboundArrows db) (isFlagged db) seed hArrows
    obtain ⟨caches', hSound, hEq⟩ := searchRoots_eq h fuel [seed] [] []
    obtain ⟨rest, hRest, hKeys, hExact⟩ := ih hSound
    rw [hSearch, Option.map_some] at hEq
    refine ⟨(seed, roots) :: rest, ?_, by rw [List.map_cons, hKeys], fun e he => ?_⟩
    · simp only [searchSeeds, hEq, hRest, bind, Option.bind_some]
    · rcases List.mem_cons.mp he with rfl | he
      · exact exactRoots_of_stops hNodup hRoots
      · exact hExact e he

/-- The lookup ends within one step more than there are stored edges for each seed, has one entry
for each seed, and finds the roots of each. -/
theorem findRootHackersForSpenders_exact (db : Db) (addresses : List Address) :
    ∃ bound, ∀ fuel, bound ≤ fuel →
      ∃ result, findRootHackersForSpenders db fuel addresses = some result ∧
        (result.map Prod.fst).Nodup ∧ (∀ a, a ∈ result.map Prod.fst ↔ a ∈ addresses) ∧
        ∀ e ∈ result, ExactRoots db e.1 e.2 := by
  refine ⟨db.edges.entries.length + 1, fun fuel hFuel => ?_⟩
  obtain ⟨result, hResult, hKeys, hExact⟩ :=
    searchSeeds_spec (Caches.Sound.empty db) hFuel addresses.eraseDups
  refine ⟨result, hResult, ?_, fun a => ?_, hExact⟩
  · rw [hKeys]
    exact Tally.nodup_eraseDups _
  · rw [hKeys, List.mem_eraseDups]

/-- A flagged address that another flagged address pays. -/
def flaggedPayee : Db :=
  let hacker : AddressRow := ⟨.hacker, "", true, none, .expanded, none, 0, 0⟩
  { Db.initial with
    addresses := (AList.insert (name "g") hacker ∅).insert (name "s") hacker
    edges := AList.insert ⟨name "g", name "s", name "t"⟩ ⟨5, .outFromHacker, none, none, none, none⟩ ∅ }

/-- A path without flagged intermediate addresses does not suffice at a flagged seed: the search
stops there, although another hacker pays it. -/
theorem findRootHackersForSpenders_stops_at_seed :
    ¬ ∀ (db : Db) (fuel : Nat) (addresses : List Address) (result : List (Address × List Address)),
      findRootHackersForSpenders db fuel addresses = some result → ∀ e ∈ result, ∀ h,
        h ∈ e.2 ↔ IsFlagged db h ∧ (h = e.1 ∨ CleanPath db h e.1) := by
  intro h
  have hRun : findRootHackersForSpenders flaggedPayee 2 [name "s"] =
      some [(name "s", [name "s"])] := by decide +kernel
  have hFlagged : IsFlagged flaggedPayee (name "g") :=
    isFlagged_iff.mp (by decide +kernel)
  have hPath : CleanPath flaggedPayee (name "g") (name "s") :=
    .edge (mem_inboundArrows.mp (by decide +kernel))
  have hRoot := (h flaggedPayee 2 [name "s"] _ hRun _ List.mem_cons_self (name "g")).mpr
    ⟨hFlagged, Or.inr hPath⟩
  exact absurd hRoot (by decide)

end Bloodhound.Store.RootHackers
