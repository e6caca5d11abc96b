import Bloodhound.Lib.Incidence
import Bloodhound.Ops.RemoveHacker

/-!
# Removing a hacker of a remote database

`removeHackerRemote` of `d1Wrangler.ts`. It takes all its decisions from the database as it finds it, and then runs
one script of statements; nobody else writes meanwhile. The removal of the store decides about an address after the
deletions before it.

* `sound_planPruning`: the script deletes the edges of the hacker, and the addresses that are exclusive in the
  database before it.
* `removeHackerRemote_report`: what the report counts. An edge between two addresses that go counts twice.
-/

namespace Bloodhound.Ops.Remote

open Indexer Store Journal Journal.Op

/-! ## The script -/

inductive ScriptStmt where
  | unflag (address : Address)
  | deleteJob (id : Nat)
  | deleteEdges (address : Address)
  | deleteSyncState (address : Address)
  | deleteAddress (address : Address)
  deriving DecidableEq

def unflagged (row : AddressRow) : AddressRow := { row with isFlaggedHacker := false }

def ScriptStmt.exec : ScriptStmt → Db → Db
  | .unflag address, db => { db with addresses := Table.modify address unflagged db.addresses }
  | .deleteJob id, db => { db with jobs := db.jobs.keep fun id' _ => id' ≠ id }
  | .deleteEdges address, db => { db with edges := Table.filter (apartFrom address) db.edges }
  | .deleteSyncState address, db => { db with syncState := db.syncState.erase address }
  | .deleteAddress address, db => { db with addresses := db.addresses.erase address }

def executeFile (statements : List ScriptStmt) (db : Db) : Db := statements.foldl (fun db i => i.exec db) db

theorem executeFile_append (statements statements' : List ScriptStmt) (db : Db) :
    executeFile (statements ++ statements') db = executeFile statements' (executeFile statements db) :=
  List.foldl_append

/-! ## The queries -/

section Queries

variable (db : Db)

/-- `WHERE from_address = … OR to_address = …`. -/
def countEdges (address : Address) : Nat :=
  Incidence.degree (fun e : (_ : EdgeKey) × EdgeRow => e.1.fromAddress) (fun e => e.1.toAddress) db.edges.entries
    address

def victimsOf (hacker : Address) : List Address :=
  ((db.edges.entries.filter fun e =>
    e.1.toAddress = hacker && e.2.direction = .inToHacker).map (·.1.fromAddress)).dedup

def collectDownstreamRemote (hacker : Address) : List Address :=
  (Search.search (outTargets db.edges) (db.edges.entries.length + 1) [hacker] [hacker]).filter (· ≠ hacker)

/-- The active jobs whose payload names the address. -/
def jobIdsOf (address : Address) : List Nat :=
  (db.jobs.rows.entries.filter fun e => e.2.active && e.2.job.address = some address).map (·.1)

def countOtherLinks (victim hacker : Address) : Nat :=
  db.edges.entries.countP fun e => e.1.fromAddress = victim && e.2.direction = .inToHacker &&
    isFlagged db e.1.toAddress && e.1.toAddress ≠ hacker

def hasEdgeWithOtherFlaggedRemote (address excludeHacker : Address) : Bool :=
  db.edges.entries.any fun e =>
    (e.1.fromAddress = address && isFlagged db e.1.toAddress && e.1.toAddress ≠ excludeHacker &&
      e.1.toAddress ≠ address) ||
    (e.1.toAddress = address && isFlagged db e.1.fromAddress && e.1.fromAddress ≠ excludeHacker &&
      e.1.fromAddress ≠ address)

def hasOutFromOutsideRemote (address : Address) (candidateSet : List Address) (excludeHacker : Address) : Bool :=
  db.edges.entries.any fun e => e.1.toAddress = address && e.2.direction = .outFromHacker &&
    e.1.fromAddress ≠ excludeHacker && e.1.fromAddress ∉ candidateSet

end Queries

/-! ## The plan -/

/-- What has been decided so far. -/
structure Plan where
  statements : List ScriptStmt
  pruned : List Address := []
  victimsPruned : Nat := 0
  downstreamPruned : Nat := 0
  edgesRemoved : Nat := 0

def Plan.prune (db : Db) (address : Address) (p : Plan) : Plan :=
  { p with
    statements := p.statements ++ [.deleteEdges address, .deleteSyncState address, .deleteAddress address]
    pruned := p.pruned ++ [address]
    edgesRemoved := p.edgesRemoved + countEdges db address }

section Planning

variable (db : Db) (hacker : Address)

def planVictim (p : Plan) (victim : Address) : Plan :=
  if victim = hacker ∨ victim ∈ p.pruned then p
  else if 0 < countOtherLinks db victim hacker then p
  else if (db.addresses.lookup victim).all (·.isFlaggedHacker) then p
  else { p.prune db victim with victimsPruned := p.victimsPruned + 1 }

def planCandidate (downstream : List Address) (p : Plan) (candidate : Address) : Plan :=
  if candidate = hacker ∨ candidate ∈ p.pruned then p
  else if (db.addresses.lookup candidate).all (·.isFlaggedHacker) then p
  else if hasEdgeWithOtherFlaggedRemote db candidate hacker then p
  else if hasOutFromOutsideRemote db candidate downstream hacker then p
  else { p.prune db candidate with downstreamPruned := p.downstreamPruned + 1 }

/-- The hacker is unflagged, and its jobs are deleted. -/
def planUnflag : Plan where
  statements := .unflag hacker :: (jobIdsOf db hacker).map .deleteJob

def planHackerEdges (p : Plan) : Plan :=
  { p with
    statements := p.statements ++ [.deleteEdges hacker]
    edgesRemoved := p.edgesRemoved + countEdges db hacker }

def planPruning (downstream : List Address) : Plan :=
  downstream.foldl (planCandidate db hacker downstream)
    ((victimsOf db hacker).foldl (planVictim db hacker) (planHackerEdges db hacker (planUnflag db hacker)))

def planRemoval (pruneExclusive : Bool) : Plan :=
  if pruneExclusive then planPruning db hacker (collectDownstreamRemote db hacker) else planUnflag db hacker

end Planning

structure RemoteReport where
  unflagged : Bool := false
  jobsCancelled : Nat := 0
  victimsPruned : Nat := 0
  downstreamPruned : Nat := 0
  edgesRemoved : Nat := 0
  deriving DecidableEq

def Plan.report (db : Db) (hacker : Address) (p : Plan) : RemoteReport where
  unflagged := true
  jobsCancelled := (jobIdsOf db hacker).length
  victimsPruned := p.victimsPruned
  downstreamPruned := p.downstreamPruned
  edgesRemoved := p.edgesRemoved

/-- The report, and the database after the script. -/
def removeHackerRemote (hacker : Address) (pruneExclusive : Bool) (db : Db) : RemoteReport × Db :=
  if isFlagged db hacker then
    ((planRemoval db hacker pruneExclusive).report db hacker,
      executeFile (planRemoval db hacker pruneExclusive).statements db)
  else ({}, db)

/-! ## What a removal leaves -/

section Left

variable {db : Db} {hacker : Address}

/-- The row of an address after a removal that keeps the address. -/
def leftRow (db : Db) (hacker a : Address) : Option AddressRow :=
  if a = hacker then (db.addresses.lookup a).map unflagged else db.addresses.lookup a

def keptJob (hacker : Address) (_ : Nat) (row : JobRow) : Bool := !(row.active && row.job.address = some hacker)

/-- The listed addresses are gone, and the edges of the addresses in the second list; nothing else is, up to inbound
totals. -/
structure Left (db : Db) (hacker : Address) (pruned cut : List Address) (s : Db) : Prop where
  addresses : ∀ a, (s.addresses.lookup a).map (·.exceptInbound) =
    if a ∈ pruned then none else (leftRow db hacker a).map (·.exceptInbound)
  edges : ∀ k, s.edges.lookup k =
    if k.fromAddress ∈ cut ∨ k.toAddress ∈ cut then none else db.edges.lookup k
  syncState : ∀ a, s.syncState.lookup a = if a ∈ pruned then none else db.syncState.lookup a
  jobs : ∀ id, s.jobs.lookup id = (db.jobs.lookup id).filter (keptJob hacker id)

/-- The databases agree up to inbound totals. -/
structure Agree (s s' : Db) : Prop where
  addresses : SameRows s.addresses s'.addresses
  edges : ∀ k, s.edges.lookup k = s'.edges.lookup k
  syncState : ∀ a, s.syncState.lookup a = s'.syncState.lookup a
  jobs : ∀ id, s.jobs.lookup id = s'.jobs.lookup id

/-- The script leaves the inbound totals, too. -/
structure Swept (db : Db) (hacker : Address) (pruned cut : List Address) (s : Db) : Prop where
  addresses : ∀ a, s.addresses.lookup a = if a ∈ pruned then none else leftRow db hacker a
  edges : s.edges = Table.filter (fun k _ => k.fromAddress ∉ cut && k.toAddress ∉ cut) db.edges
  syncState : ∀ a, s.syncState.lookup a = if a ∈ pruned then none else db.syncState.lookup a
  jobs : ∀ id, s.jobs.lookup id = (db.jobs.lookup id).filter (keptJob hacker id)

variable {pruned cut : List Address} {s : Db}

theorem Swept.left (h : Swept db hacker pruned cut s) : Left db hacker pruned cut s where
  addresses a := by
    rw [h.addresses]
    split <;> rfl
  edges k := by
    rw [h.edges, Table.lookup_filter]
    by_cases hCut : k.fromAddress ∈ cut ∨ k.toAddress ∈ cut
    · rw [if_pos hCut]
      refine Option.filter_eq_none_iff.mpr fun row _ => ?_
      simpa [or_iff_not_imp_left] using hCut
    · rw [if_neg hCut]
      cases db.edges.lookup k with
      | none => rfl
      | some row =>
        refine Option.filter_some_pos ?_
        simpa using hCut
  syncState := h.syncState
  jobs := h.jobs

theorem isSome_leftRow (db : Db) (hacker a : Address) :
    (leftRow db hacker a).isSome = (db.addresses.lookup a).isSome := by
  unfold leftRow
  split
  · exact Option.isSome_map
  · rfl

end Left

/-! ## What the script does -/

section Script

variable {db : Db} {hacker : Address}

theorem mem_jobIdsOf {id : Nat} :
    id ∈ jobIdsOf db hacker ↔ (db.jobs.lookup id).any (fun row => !keptJob hacker id row) = true := by
  unfold jobIdsOf keptJob
  simp only [List.mem_map, List.mem_filter, Bool.not_not, Option.any_eq_true]
  constructor
  · rintro ⟨e, ⟨hMem, hActive⟩, rfl⟩
    exact ⟨e.2, Table.lookup_eq_some_iff.mpr hMem, hActive⟩
  · rintro ⟨row, hRow, hActive⟩
    exact ⟨⟨id, row⟩, ⟨Table.lookup_eq_some_iff.mp hRow, hActive⟩, rfl⟩

theorem executeFile_deleteJobs (ids : List Nat) (db : Db) :
    ∃ jobs, executeFile (ids.map .deleteJob) db = { db with jobs := jobs } ∧
      ∀ id, jobs.lookup id = if id ∈ ids then none else db.jobs.lookup id := by
  induction ids generalizing db with
  | nil => exact ⟨db.jobs, rfl, fun id => (if_neg List.not_mem_nil).symm⟩
  | cons id ids ih =>
    obtain ⟨jobs, hExec, hJobs⟩ := ih ((ScriptStmt.deleteJob id).exec db)
    refine ⟨jobs, hExec, fun id' => ?_⟩
    rw [hJobs]
    show (if id' ∈ ids then none else (db.jobs.keep _).lookup id') = _
    rw [lookup_keep]
    by_cases hIn : id' ∈ ids
    · rw [if_pos hIn, if_pos (List.mem_cons_of_mem _ hIn)]
    · rw [if_neg hIn]
      by_cases hSame : id' = id
      · rw [if_pos (hSame ▸ List.mem_cons_self)]
        exact Option.filter_eq_none_iff.mpr fun row _ => by simp [hSame]
      · rw [if_neg (List.not_mem_cons_of_ne_of_not_mem hSame hIn)]
        cases db.jobs.lookup id' with
        | none => rfl
        | some row => exact Option.filter_some_pos (by simpa using hSame)

theorem swept_unflag (db : Db) (hacker : Address) :
    Swept db hacker [] [] (executeFile (planUnflag db hacker).statements db) := by
  obtain ⟨jobs, hExec, hJobs⟩ :=
    executeFile_deleteJobs (jobIdsOf db hacker) ((ScriptStmt.unflag hacker).exec db)
  have hScript : executeFile (planUnflag db hacker).statements db = _ := hExec
  rw [hScript]
  refine ⟨fun a => ?_, ?_, fun a => (if_neg List.not_mem_nil).symm, fun id => (hJobs id).trans ?_⟩
  · rw [if_neg List.not_mem_nil]
    exact Table.lookup_modify _ _ _ _
  · refine AList.ext ?_
    show db.edges.entries = db.edges.entries.filter _
    simp
  · show (if id ∈ jobIdsOf db hacker then none else db.jobs.lookup id) = _
    simp only [mem_jobIdsOf]
    cases db.jobs.lookup id with
    | none => exact ite_self _
    | some row =>
      rw [Option.any_some]
      cases hKept : keptJob hacker id row with
      | true => exact (if_neg (by simp)).trans (Option.filter_some_pos hKept).symm
      | false =>
        refine (if_pos rfl).trans (Option.filter_eq_none_iff.mpr fun r hr => ?_).symm
        cases hr
        simp [hKept]

variable {pruned cut : List Address} {s : Db}

theorem Swept.deleteEdges (h : Swept db hacker pruned cut s) (a : Address) :
    Swept db hacker pruned (a :: cut) ((ScriptStmt.deleteEdges a).exec s) where
  addresses := h.addresses
  edges := by
    refine AList.ext ?_
    show (s.edges.entries.filter _) = db.edges.entries.filter _
    rw [congrArg AList.entries h.edges]
    show (db.edges.entries.filter _).filter _ = _
    rw [List.filter_filter]
    refine List.filter_congr fun e _ => ?_
    simp only [apartFrom, List.mem_cons, not_or, Bool.not_or, Bool.decide_and]
    rw [Bool.eq_iff_iff]
    simp
    tauto
  syncState := h.syncState
  jobs := h.jobs

theorem Swept.prune (h : Swept db hacker pruned cut s) (a : Address) :
    Swept db hacker (pruned ++ [a]) (a :: cut)
      (executeFile [.deleteEdges a, .deleteSyncState a, .deleteAddress a] s) where
  addresses b := by
    show ((s.addresses.erase a).lookup b) = _
    by_cases hb : b = a
    · rw [hb, AList.lookup_erase, if_pos (List.mem_append_right _ List.mem_cons_self)]
    · rw [AList.lookup_erase_ne hb, h.addresses]
      simp [hb]
  edges := (h.deleteEdges a).edges
  syncState b := by
    show ((s.syncState.erase a).lookup b) = _
    by_cases hb : b = a
    · rw [hb, AList.lookup_erase, if_pos (List.mem_append_right _ List.mem_cons_self)]
    · rw [AList.lookup_erase_ne hb, h.syncState]
      simp [hb]
  jobs := h.jobs

theorem Swept.of_mem (h : Swept db hacker pruned cut s) {pruned' cut' : List Address}
    (hPruned : ∀ a, a ∈ pruned' ↔ a ∈ pruned) (hCut : ∀ a, a ∈ cut' ↔ a ∈ cut) :
    Swept db hacker pruned' cut' s where
  addresses a := by simp only [h.addresses, hPruned]
  edges := by simp only [h.edges, hCut]
  syncState a := by simp only [h.syncState, hPruned]
  jobs := h.jobs

end Script

/-! ## What the plan decides -/

section Decisions

variable {db : Db} {hacker : Address}

theorem countOtherLinks_pos {victim : Address} :
    0 < countOtherLinks db victim hacker ↔ PaysOther db hacker victim := by
  unfold countOtherLinks
  rw [List.countP_pos_iff]
  simp only [Bool.and_eq_true, decide_eq_true_eq, isFlagged_iff]
  constructor
  · rintro ⟨e, he, ⟨⟨hFrom, hDirection⟩, hFlag⟩, hHacker⟩
    exact ⟨e.1, e.2, Table.lookup_eq_some_iff.mpr he, hDirection, hFrom, hHacker, hFlag⟩
  · rintro ⟨k, row, hRow, hDirection, hFrom, hHacker, hFlag⟩
    exact ⟨⟨k, row⟩, Table.lookup_eq_some_iff.mp hRow, ⟨⟨hFrom, hDirection⟩, hFlag⟩, hHacker⟩

theorem hasEdgeWithOtherFlaggedRemote_iff {a : Address} :
    hasEdgeWithOtherFlaggedRemote db a hacker = true ↔ LinkedToOther db hacker a := by
  unfold hasEdgeWithOtherFlaggedRemote
  rw [List.any_eq_true]
  simp only [Bool.or_eq_true, Bool.and_eq_true, decide_eq_true_eq, isFlagged_iff]
  constructor
  · rintro ⟨e, he, ⟨⟨⟨hFrom, hFlag⟩, hHacker⟩, hSelf⟩ | ⟨⟨⟨hTo, hFlag⟩, hHacker⟩, hSelf⟩⟩
    · have hEnd : otherEnd a e.1 = e.1.toAddress := if_pos hFrom
      refine ⟨e.1, e.2, Table.lookup_eq_some_iff.mpr he, .inl hFrom, ?_⟩
      rw [hEnd]
      exact ⟨hSelf, hHacker, hFlag⟩
    · have hEnd : otherEnd a e.1 = e.1.fromAddress := if_neg hSelf
      refine ⟨e.1, e.2, Table.lookup_eq_some_iff.mpr he, .inr hTo, ?_⟩
      rw [hEnd]
      exact ⟨hSelf, hHacker, hFlag⟩
  · rintro ⟨k, row, hRow, hTouch, hSelf, hHacker, hFlag⟩
    refine ⟨⟨k, row⟩, Table.lookup_eq_some_iff.mp hRow, ?_⟩
    rcases ends_of_touches hTouch with ⟨hFrom, hTo⟩ | ⟨hTo, hFrom⟩
    · rw [← hTo] at hSelf hHacker hFlag
      exact .inl ⟨⟨⟨hFrom, hFlag⟩, hHacker⟩, hSelf⟩
    · rw [← hFrom] at hSelf hHacker hFlag
      exact .inr ⟨⟨⟨hTo, hFlag⟩, hHacker⟩, hSelf⟩

theorem mem_collectDownstreamRemote {a : Address} :
    a ∈ collectDownstreamRemote db hacker ↔ a ≠ hacker ∧ Reaches db.edges hacker a := by
  have hAll : ∀ x, outTargets db.edges x ⊆ db.edges.entries.map (·.1.toAddress) := by
    intro x y hy
    obtain ⟨e, he, rfl⟩ := List.mem_map.mp hy
    exact List.mem_map.mpr ⟨e, List.mem_of_mem_filter he, rfl⟩
  unfold collectDownstreamRemote
  rw [List.mem_filter, Search.mem_search hAll hacker (by rw [List.length_map]), step_outTargets,
    decide_eq_true_eq]
  exact and_comm

theorem hasOutFromOutsideRemote_iff {a : Address} :
    hasOutFromOutsideRemote db a (collectDownstreamRemote db hacker) hacker = false ↔
      ∀ b, OutStep db.edges b a → Reaches db.edges hacker b := by
  unfold hasOutFromOutsideRemote
  rw [List.any_eq_false]
  simp only [Bool.and_eq_true, decide_eq_true_eq, mem_collectDownstreamRemote]
  constructor
  · rintro hAll b ⟨k, row, hRow, hDirection, rfl, rfl⟩
    by_contra hReach
    have hHacker : k.fromAddress ≠ hacker := fun hEq => hReach (hEq ▸ .refl)
    exact hAll ⟨k, row⟩ (Table.lookup_eq_some_iff.mp hRow)
      ⟨⟨⟨rfl, hDirection⟩, hHacker⟩, fun h => hReach h.2⟩
  · rintro hAll e he ⟨⟨⟨hTo, hDirection⟩, hHacker⟩, hOutside⟩
    exact hOutside ⟨hHacker, hAll _ ⟨e.1, e.2, Table.lookup_eq_some_iff.mpr he, hDirection, rfl, hTo⟩⟩

theorem mem_victimsOf {a : Address} : a ∈ victimsOf db hacker ↔ IsVictim db hacker a := by
  unfold victimsOf
  rw [List.mem_dedup, List.mem_map]
  constructor
  · rintro ⟨e, he, rfl⟩
    rw [List.mem_filter] at he
    simp only [Bool.and_eq_true, decide_eq_true_eq] at he
    exact ⟨e.1, e.2, Table.lookup_eq_some_iff.mpr he.1, he.2.2, he.2.1, rfl⟩
  · rintro ⟨k, row, hRow, hDirection, rfl, rfl⟩
    refine ⟨⟨k, row⟩, List.mem_filter.mpr ⟨Table.lookup_eq_some_iff.mp hRow, ?_⟩, rfl⟩
    simp [hDirection]

/-- A downstream address with no edge to another flagged hacker, all of whose payers are the hacker or downstream
of it. -/
def RemoteDownstream (db : Db) (hacker a : Address) : Prop :=
  a ≠ hacker ∧ flag db a = some false ∧ Reaches db.edges hacker a ∧ ¬ LinkedToOther db hacker a ∧
    ∀ b, OutStep db.edges b a → Reaches db.edges hacker b

def RemoteExclusive (db : Db) (hacker a : Address) : Prop :=
  ExclusiveVictim db hacker a ∨ RemoteDownstream db hacker a

/-- A plan that the script carries out. -/
structure Plan.Sound (db : Db) (hacker : Address) (p : Plan) : Prop where
  swept : Swept db hacker p.pruned (hacker :: p.pruned) (executeFile p.statements db)
  nodup : (hacker :: p.pruned).Nodup
  edgesRemoved : p.edgesRemoved = ((hacker :: p.pruned).map (countEdges db)).sum
  counts : p.victimsPruned + p.downstreamPruned = p.pruned.length

theorem sound_planHackerEdges (db : Db) (hacker : Address) :
    (planHackerEdges db hacker (planUnflag db hacker)).Sound db hacker where
  swept := by
    unfold planHackerEdges
    rw [executeFile_append]
    exact (swept_unflag db hacker).deleteEdges hacker
  nodup := List.nodup_singleton hacker
  edgesRemoved := by
    show 0 + countEdges db hacker = countEdges db hacker + 0
    omega
  counts := rfl

/-- A plan that prunes one address more. -/
theorem Plan.Sound.prune {p q : Plan} (h : p.Sound db hacker) {a : Address} (ha : a ∉ hacker :: p.pruned)
    (hStatements : q.statements = (p.prune db a).statements) (hPruned : q.pruned = (p.prune db a).pruned)
    (hEdges : q.edgesRemoved = (p.prune db a).edgesRemoved)
    (hCounts : q.victimsPruned + q.downstreamPruned = p.victimsPruned + p.downstreamPruned + 1) :
    q.Sound db hacker where
  swept := by
    rw [hStatements, hPruned]
    unfold Plan.prune
    rw [executeFile_append]
    refine (h.swept.prune a).of_mem (fun _ => Iff.rfl) fun b => ?_
    simp only [List.mem_cons, List.mem_append, List.not_mem_nil, or_false]
    tauto
  nodup := by
    rw [hPruned]
    refine (List.perm_append_singleton a (hacker :: p.pruned)).nodup_iff.mpr ?_
    exact List.nodup_cons.mpr ⟨ha, h.nodup⟩
  edgesRemoved := by
    rw [hEdges, hPruned]
    show p.edgesRemoved + countEdges db a = (((hacker :: p.pruned) ++ [a]).map (countEdges db)).sum
    rw [List.map_append, List.sum_append, h.edgesRemoved]
    simp
  counts := by
    rw [hCounts, h.counts, hPruned]
    show p.pruned.length + 1 = (p.pruned ++ [a]).length
    rw [List.length_append, List.length_singleton]

/-- A loop of decisions. -/
theorem sound_decisions {step : Plan → Address → Plan} {Q : Address → Prop} {candidates : List Address}
    (hStep : ∀ p : Plan, p.Sound db hacker → ∀ a ∈ candidates,
      (step p a = p ∧ (Q a → a ∈ p.pruned)) ∨ ((step p a).Sound db hacker ∧ (step p a).pruned = p.pruned ++ [a] ∧ Q a))
    {p : Plan} (h : p.Sound db hacker) :
    (candidates.foldl step p).Sound db hacker ∧
      ∀ a, a ∈ (candidates.foldl step p).pruned ↔ a ∈ p.pruned ∨ a ∈ candidates ∧ Q a := by
  induction candidates generalizing p with
  | nil => exact ⟨h, fun a => by simp⟩
  | cons c rest ih =>
    have hRest := fun p hp a ha => hStep p hp a (List.mem_cons_of_mem c ha)
    rw [List.foldl_cons]
    rcases hStep p h c List.mem_cons_self with ⟨hSame, hIn⟩ | ⟨hSound, hPruned, hc⟩
    · rw [hSame]
      obtain ⟨hEnd, hMem⟩ := ih hRest h
      refine ⟨hEnd, fun a => (hMem a).trans ?_⟩
      rw [List.mem_cons]
      constructor
      · rintro (hOld | ⟨hMem, hQ⟩)
        · exact .inl hOld
        · exact .inr ⟨.inr hMem, hQ⟩
      · rintro (hOld | ⟨rfl | hMem, hQ⟩)
        · exact .inl hOld
        · exact .inl (hIn hQ)
        · exact .inr ⟨hMem, hQ⟩
    · obtain ⟨hEnd, hMem⟩ := ih hRest hSound
      refine ⟨hEnd, fun a => (hMem a).trans ?_⟩
      rw [hPruned, List.mem_append, List.mem_singleton, List.mem_cons]
      constructor
      · rintro ((hOld | rfl) | ⟨hMem, hQ⟩)
        · exact .inl hOld
        · exact .inr ⟨.inl rfl, hc⟩
        · exact .inr ⟨.inr hMem, hQ⟩
      · rintro (hOld | ⟨rfl | hMem, hQ⟩)
        · exact .inl (.inl hOld)
        · exact .inl (.inr rfl)
        · exact .inr ⟨hMem, hQ⟩

theorem planVictim_cases {p : Plan} (h : p.Sound db hacker) {a : Address} (ha : IsVictim db hacker a) :
    (planVictim db hacker p a = p ∧ (ExclusiveVictim db hacker a → a ∈ p.pruned)) ∨
      ((planVictim db hacker p a).Sound db hacker ∧ (planVictim db hacker p a).pruned = p.pruned ++ [a] ∧
        ExclusiveVictim db hacker a) := by
  unfold planVictim
  split
  · next hDone => exact .inl ⟨rfl, fun hE => hDone.resolve_left hE.1⟩
  next hNew =>
  split
  · next hPays => exact .inl ⟨rfl, fun hE => absurd (countOtherLinks_pos.mp hPays) hE.2.2.2⟩
  next hNone =>
  split
  · next hFlagged =>
    refine .inl ⟨rfl, fun hE => ?_⟩
    rw [(all_isFlagged_iff db a).mpr hE.2.1] at hFlagged
    cases hFlagged
  · next hUnflagged =>
    have hE : ExclusiveVictim db hacker a :=
      ⟨(not_or.mp hNew).1, (all_isFlagged_iff db a).mp (Bool.eq_false_iff.mpr hUnflagged), ha,
        fun hPays => hNone (countOtherLinks_pos.mpr hPays)⟩
    have hOut : a ∉ hacker :: p.pruned := by rwa [List.mem_cons]
    refine .inr ⟨h.prune hOut rfl rfl rfl ?_, rfl, hE⟩
    show p.victimsPruned + 1 + p.downstreamPruned = _
    omega

theorem planCandidate_cases {p : Plan} (h : p.Sound db hacker) {a : Address}
    (ha : Reaches db.edges hacker a) :
    (planCandidate db hacker (collectDownstreamRemote db hacker) p a = p ∧
        (RemoteDownstream db hacker a → a ∈ p.pruned)) ∨
      ((planCandidate db hacker (collectDownstreamRemote db hacker) p a).Sound db hacker ∧
        (planCandidate db hacker (collectDownstreamRemote db hacker) p a).pruned = p.pruned ++ [a] ∧
        RemoteDownstream db hacker a) := by
  unfold planCandidate
  split
  · next hDone => exact .inl ⟨rfl, fun hE => hDone.resolve_left hE.1⟩
  next hNew =>
  split
  · next hFlagged =>
    refine .inl ⟨rfl, fun hE => ?_⟩
    rw [(all_isFlagged_iff db a).mpr hE.2.1] at hFlagged
    cases hFlagged
  next hUnflagged =>
  split
  · next hLinked =>
    exact .inl ⟨rfl, fun hE => absurd (hasEdgeWithOtherFlaggedRemote_iff.mp hLinked) hE.2.2.2.1⟩
  next hApart =>
  split
  · next hOutside =>
    refine .inl ⟨rfl, fun hE => ?_⟩
    rw [hasOutFromOutsideRemote_iff.mpr hE.2.2.2.2] at hOutside
    cases hOutside
  · next hInside =>
    have hE : RemoteDownstream db hacker a :=
      ⟨(not_or.mp hNew).1, (all_isFlagged_iff db a).mp (Bool.eq_false_iff.mpr hUnflagged), ha,
        fun hLinked => hApart (hasEdgeWithOtherFlaggedRemote_iff.mpr hLinked),
        hasOutFromOutsideRemote_iff.mp (Bool.eq_false_iff.mpr hInside)⟩
    have hOut : a ∉ hacker :: p.pruned := by rwa [List.mem_cons]
    refine .inr ⟨h.prune hOut rfl rfl rfl ?_, rfl, hE⟩
    show p.victimsPruned + (p.downstreamPruned + 1) = _
    omega

/-- The plan prunes the addresses that are exclusive in the database it is made from. -/
theorem sound_planPruning (db : Db) (hacker : Address) :
    (planPruning db hacker (collectDownstreamRemote db hacker)).Sound db hacker ∧
      ∀ a, a ∈ (planPruning db hacker (collectDownstreamRemote db hacker)).pruned ↔
        RemoteExclusive db hacker a := by
  obtain ⟨hVictims, hVictimsMem⟩ := sound_decisions (Q := ExclusiveVictim db hacker)
    (fun p hp a ha => planVictim_cases hp (mem_victimsOf.mp ha)) (sound_planHackerEdges db hacker)
  obtain ⟨hAll, hAllMem⟩ := sound_decisions (Q := RemoteDownstream db hacker)
    (fun p hp a ha => planCandidate_cases hp (mem_collectDownstreamRemote.mp ha).2) hVictims
  refine ⟨hAll, fun a => (hAllMem a).trans ?_⟩
  rw [hVictimsMem a, mem_victimsOf, mem_collectDownstreamRemote]
  show (a ∈ [] ∨ _) ∨ _ ↔ _
  constructor
  · rintro ((hNone | hVictim) | hDownstream)
    · cases hNone
    · exact .inl hVictim.2
    · exact .inr hDownstream.2
  · rintro (hVictim | hDownstream)
    · exact .inl (.inr ⟨hVictim.2.2.1, hVictim⟩)
    · exact .inr ⟨⟨hDownstream.1, hDownstream.2.2.1⟩, hDownstream⟩

theorem RemoteExclusive.exclusive {a : Address} (h : RemoteExclusive db hacker a) : Exclusive db hacker a :=
  h.imp_right fun hD => ⟨hD.1, hD.2.1, hD.2.2.1, hD.2.2.2.1, fun b hStep => .inl (hD.2.2.2.2 b hStep)⟩

theorem row_of_exclusive {a : Address} (h : Exclusive db hacker a) : (db.addresses.lookup a).isSome = true := by
  rw [← isSome_flag, h.flag.2]
  rfl

theorem removeHackerRemote_flagged (hFlagged : flag db hacker = some true) (pruneExclusive : Bool) :
    (removeHackerRemote hacker pruneExclusive db).2 =
      executeFile (planRemoval db hacker pruneExclusive).statements db := by
  unfold removeHackerRemote
  rw [if_pos ((isFlagged_iff db hacker).mpr hFlagged)]

end Decisions

/-! ## The report -/

section Report

variable {db : Db} {hacker : Address} {s : Db} {pruned : List Address}

theorem Left.gone (h : Left db hacker pruned (hacker :: pruned) s) {a : Address}
    (hRow : (db.addresses.lookup a).isSome = true) : (s.addresses.lookup a).isSome = false ↔ a ∈ pruned := by
  rw [← Option.isSome_map (f := fun r : AddressRow => r.exceptInbound), h.addresses]
  by_cases hPruned : a ∈ pruned
  · rw [if_pos hPruned]
    exact iff_of_true rfl hPruned
  · rw [if_neg hPruned, Option.isSome_map, isSome_leftRow, hRow]
    exact iff_of_false (by decide) hPruned

/-- The address is the hacker, or has lost its row. -/
def isGone (db : Db) (hacker : Address) (s : Db) (a : Address) : Bool :=
  a = hacker || ((db.addresses.lookup a).isSome && (s.addresses.lookup a).isNone)

theorem isGone_iff (h : Swept db hacker pruned (hacker :: pruned) s)
    (hRows : ∀ a ∈ pruned, (db.addresses.lookup a).isSome = true) (a : Address) :
    isGone db hacker s a = true ↔ a ∈ hacker :: pruned := by
  unfold isGone
  rw [Bool.or_eq_true, Bool.and_eq_true, decide_eq_true_eq, List.mem_cons]
  refine or_congr_right ⟨fun ⟨hRow, hNone⟩ => ?_, fun hPruned => ⟨hRows a hPruned, ?_⟩⟩
  · refine (h.left.gone hRow).mp ?_
    rw [Option.isSome_eq_false_iff]
    exact hNone
  · rw [h.addresses, if_pos hPruned]
    rfl

theorem sum_one {κ ν : Type} (t : Table.Rows κ ν) : Table.sum (fun _ _ => 1) t = t.entries.length := by
  unfold Table.sum
  simp

theorem length_addresses (h : Swept db hacker pruned (hacker :: pruned) s) (hNodup : (hacker :: pruned).Nodup)
    (hRows : ∀ a ∈ pruned, (db.addresses.lookup a).isSome = true) :
    pruned.length + s.addresses.entries.length = db.addresses.entries.length := by
  have hApart : ∀ a, a ∉ hacker :: pruned → s.addresses.lookup a = db.addresses.lookup a := by
    intro a ha
    obtain ⟨hHacker, hKept⟩ := not_or.mp (mt List.mem_cons.mpr ha)
    rw [h.addresses, if_neg hKept, leftRow, if_neg hHacker]
  have hSum := Table.sum_apart (f := fun _ _ => 1) hNodup hApart
  have hHacker : (s.addresses.lookup hacker).elim (0 : Int) (fun _ => 1) -
      (db.addresses.lookup hacker).elim 0 (fun _ => 1) = 0 := by
    rw [h.addresses, if_neg (List.nodup_cons.mp hNodup).1, leftRow, if_pos rfl]
    cases db.addresses.lookup hacker <;> rfl
  have hPruned : ∀ a ∈ pruned, (s.addresses.lookup a).elim (0 : Int) (fun _ => 1) -
      (db.addresses.lookup a).elim 0 (fun _ => 1) = -1 := by
    intro a ha
    obtain ⟨row, hRow⟩ := Option.isSome_iff_exists.mp (hRows a ha)
    rw [h.addresses, if_pos ha, hRow]
    rfl
  rw [sum_one, sum_one, List.map_cons, List.sum_cons, hHacker, List.map_congr_left hPruned, List.map_const',
    List.sum_replicate, nsmul_eq_mul] at hSum
  omega

theorem length_jobs (h : Swept db hacker pruned (hacker :: pruned) s) :
    (jobIdsOf db hacker).length + s.jobs.rows.entries.length = db.jobs.rows.entries.length := by
  have hLookups : ∀ id, s.jobs.rows.lookup id = (Table.filter (keptJob hacker) db.jobs.rows).lookup id := by
    intro id
    rw [Table.lookup_filter]
    exact h.jobs id
  have hSame := Table.sum_congr (f := fun _ _ => 1) hLookups
  rw [sum_one, sum_one] at hSame
  have hSplit := List.length_eq_length_filter_add (l := db.jobs.rows.entries) fun e => keptJob hacker e.1 e.2
  have hGone : (jobIdsOf db hacker).length =
      (db.jobs.rows.entries.filter fun e => !keptJob hacker e.1 e.2).length := by
    unfold jobIdsOf keptJob
    simp only [List.length_map, Bool.not_not]
  have hKept : (Table.filter (keptJob hacker) db.jobs.rows).entries.length =
      (db.jobs.rows.entries.filter fun e => keptJob hacker e.1 e.2).length := rfl
  omega

theorem length_edges (h : Swept db hacker pruned (hacker :: pruned) s) (hNodup : (hacker :: pruned).Nodup)
    (hRows : ∀ a ∈ pruned, (db.addresses.lookup a).isSome = true) :
    ((hacker :: pruned).map (countEdges db)).sum + s.edges.entries.length = db.edges.entries.length +
      db.edges.entries.countP fun e => isGone db hacker s e.1.fromAddress && isGone db hacker s e.1.toAddress &&
        e.1.fromAddress ≠ e.1.toAddress := by
  have hSum := Incidence.sum_degree (fun e : (_ : EdgeKey) × EdgeRow => e.1.fromAddress) (fun e => e.1.toAddress)
    hNodup db.edges.entries
  have hInside : db.edges.entries.countP (Incidence.inside (fun e : (_ : EdgeKey) × EdgeRow => e.1.fromAddress)
      (fun e => e.1.toAddress) (hacker :: pruned)) = db.edges.entries.countP fun e =>
        isGone db hacker s e.1.fromAddress && isGone db hacker s e.1.toAddress &&
          e.1.fromAddress ≠ e.1.toAddress := by
    refine List.countP_congr fun e _ => ?_
    unfold Incidence.inside
    simp only [Bool.and_eq_true, decide_eq_true_eq, isGone_iff h hRows]
  have hLeft : s.edges.entries.length = (db.edges.entries.filter fun e =>
      !Incidence.meets (fun e : (_ : EdgeKey) × EdgeRow => e.1.fromAddress) (fun e => e.1.toAddress)
        (hacker :: pruned) e).length := by
    rw [h.edges]
    show (db.edges.entries.filter _).length = _
    congr 1
    refine List.filter_congr fun e _ => ?_
    rw [Bool.eq_iff_iff]
    simp only [Incidence.meets, Bool.not_or, Bool.and_eq_true, Bool.not_eq_true', decide_eq_true_eq,
      decide_eq_false_iff_not]
  have hSplit := List.length_eq_length_filter_add (l := db.edges.entries)
    (Incidence.meets (fun e : (_ : EdgeKey) × EdgeRow => e.1.fromAddress) (fun e => e.1.toAddress)
      (hacker :: pruned))
  rw [List.countP_eq_length_filter] at hSum
  rw [← hInside]
  show ((hacker :: pruned).map (Incidence.degree _ _ db.edges.entries)).sum + _ = _
  omega

end Report

/-- The remote removal reports the jobs and the addresses that it deletes; an edge counts twice where both its ends
go. -/
theorem removeHackerRemote_report {db : Db} {hacker : Address} (hFlagged : flag db hacker = some true) :
    (removeHackerRemote hacker true db).1.jobsCancelled +
        (removeHackerRemote hacker true db).2.jobs.rows.entries.length = db.jobs.rows.entries.length ∧
      (removeHackerRemote hacker true db).1.victimsPruned + (removeHackerRemote hacker true db).1.downstreamPruned +
        (removeHackerRemote hacker true db).2.addresses.entries.length = db.addresses.entries.length ∧
      (removeHackerRemote hacker true db).1.edgesRemoved +
        (removeHackerRemote hacker true db).2.edges.entries.length = db.edges.entries.length +
          db.edges.entries.countP fun e =>
            isGone db hacker (removeHackerRemote hacker true db).2 e.1.fromAddress &&
              isGone db hacker (removeHackerRemote hacker true db).2 e.1.toAddress &&
              e.1.fromAddress ≠ e.1.toAddress := by
  obtain ⟨hSound, hMem⟩ := sound_planPruning db hacker
  have hRows : ∀ a ∈ (planPruning db hacker (collectDownstreamRemote db hacker)).pruned,
      (db.addresses.lookup a).isSome = true := fun a ha => row_of_exclusive ((hMem a).mp ha).exclusive
  have hReport : (removeHackerRemote hacker true db).1 =
      (planRemoval db hacker true).report db hacker := by
    unfold removeHackerRemote
    rw [if_pos ((isFlagged_iff db hacker).mpr hFlagged)]
  rw [hReport, removeHackerRemote_flagged hFlagged]
  refine ⟨length_jobs hSound.swept, ?_, ?_⟩
  · have hCount := length_addresses hSound.swept hSound.nodup hRows
    rw [← hSound.counts] at hCount
    exact hCount
  · have hCount := length_edges hSound.swept hSound.nodup hRows
    rw [← hSound.edgesRemoved] at hCount
    exact hCount

/-- The victim pays the hacker and, in another role, the sink that the hacker pays, too. -/
def payingVictim : Db :=
  { Db.initial with
    addresses := (((∅ : Table.Rows Address AddressRow).insert (name "sink")
      (addressRow .downstream false)).insert (name "v") (addressRow .victim false)).insert
      (name "h") (addressRow .hacker true)
    edges := outEdge (name "h") (name "sink") (outEdge (name "v") (name "sink")
      ((∅ : Table.Rows EdgeKey EdgeRow).insert ⟨name "v", name "h", name "t"⟩
        { amountSats := 100000, direction := .inToHacker, blockTime := none, hopFromHacker := none,
          edgeKind := none, fanoutMeta := none })) }

theorem removeHackerRemote_report_victim : (removeHackerRemote (name "h") true payingVictim).1.edgesRemoved +
    (removeHackerRemote (name "h") true payingVictim).2.edges.entries.length = 4 := by
  rw [(removeHackerRemote_report (by decide +kernel)).2.2]
  decide +kernel

end Bloodhound.Ops.Remote
