import Bloodhound.Lib.Runs
import Bloodhound.Graph.Hops
import Bloodhound.Indexer.JobWrites

/-!
# Addresses at the maximal depth

The end of an expansion at the last level writes `max_depth` to the targets of the address, whatever they are,
and no trace takes the status back. An address with this status is not expanded again.

* `parkedDeep_exec`: which statements of the jobs leave every parked address far from the hackers.
* `parkedDeep_of_cutRun`: runs of jobs whose statements do.
-/

namespace Bloodhound.Indexer

open Chain Store Bloodhound.Graph
open Journal Journal.Op

/-! ## Parked addresses -/

def isParked (t : Table.Rows Address AddressRow) (a : Address) : Bool :=
  (t.lookup a).any (·.expandStatus = .maxDepth)

def victimIn (t : Table.Rows Address AddressRow) (a : Address) : Bool :=
  (t.lookup a).any (·.role = .victim)

/-- A path of stored out-edges from a flagged hacker. -/
def HackerPath (db : Db) : Nat → Address → Prop :=
  Distance.Path (fun a => flaggedIn db.addresses a = true) (OutEdge db.edges)

/-- The address is neither a flagged hacker nor a victim, and no shorter path leads to it. -/
structure Deep (depth : Nat) (db : Db) (a : Address) : Prop where
  unflagged : flaggedIn db.addresses a = false
  notVictim : victimIn db.addresses a = false
  far : ∀ m < depth, ¬ HackerPath db m a

/-- Every address with the status `max_depth` is at the maximal depth. -/
def ParkedDeep (depth : Nat) (db : Db) : Prop :=
  ∀ a, isParked db.addresses a = true → Deep depth db a

/-! ## Jobs and their statements -/

/-- A job that traces, run with some maximal depth. -/
structure CrawlJob (depth : Nat) where
  env : Env
  inputs : JobInputs
  job : Job
  traces : isTraceJob job = true
  maxCrawlDepth : env.config.maxCrawlDepth = depth

def CrawlJob.op {depth : Nat} (x : CrawlJob depth) : StoreM Unit := JobRun.work x.env x.inputs x.job

/-- A statement of such a job, as far as flags, roles, statuses and out-edges go. -/
def CrawlStmt : Stmt → Prop
  | .address (.upsert data) => data.isFlaggedHacker = none ∧
    (data.role = some .victim → data.forceRole = false ∧ data.expandStatus = none)
  | .address (.setExpandStatus _ status) => status ≠ .maxDepth
  | .address (.setExpandProfile _ _) | .address (.addInboundSats _ _) => True
  | .address (.addTotalReceivedSats _ _) => True
  | .address _ => False
  | .edge (.upsert _) => True
  | .edge _ => False
  | _ => True

theorem jobWrites_crawlStmt : JobWrites CrawlStmt where
  counter i h := by
    cases i with
    | address s => cases h
    | edge s => cases h
    | _ => trivial
  victim _ := ⟨rfl, fun _ => ⟨rfl, rfl⟩⟩
  downstream data h := ⟨h.flag, fun hRole => nomatch h.role.symm.trans hRole⟩
  profile _ _ := trivial
  inbound _ _ := trivial
  received _ _ := trivial
  peak _ := trivial
  totals _ _ := trivial
  transaction _ := trivial
  edge _ := trivial
  seen _ := ⟨rfl, fun hRole => nomatch hRole⟩
  child _ := ⟨rfl, fun hRole => nomatch hRole⟩
  status _ _ h := h
  job _ _ _ _ := trivial
  sync _ _ := trivial

theorem emits_crawlJob {depth : Nat} (x : CrawlJob depth) : x.op.Emits CrawlStmt :=
  emits_work jobWrites_crawlStmt x.inputs x.traces

/-- The status `max_depth` is written for deep addresses only, a parked address is labelled as a victim only
where it has the role of a hacker or of a downstream address, which the upsert keeps, and no out-edge makes a
short path to a parked address. -/
def KeepsDeep (depth : Nat) (db : Db) : Stmt → Prop
  | .address (.upsert data) =>
    (data.expandStatus = some .maxDepth → Deep depth db data.address) ∧
      (data.role = some .victim → isParked db.addresses data.address = true →
        (db.addresses.lookup data.address).any (fun row => row.role = .hacker ∨ row.role = .downstream) = true)
  | .edge (.upsert data) => data.direction = .outFromHacker → ∀ a, isParked db.addresses a = true →
    ∀ i j, i + 1 + j < depth → HackerPath db i data.fromAddress →
      ¬ Distance.Path (· = data.toAddress) (OutEdge db.edges) j a
  | _ => True

/-! ## The statements -/

section Step

variable {depth : Nat} {db : Db} {a : Address}

/-- A change of rows that keeps what is read of each. -/
theorem any_modify {t : Table.Rows Address AddressRow} {k : Address} {f : AddressRow → AddressRow}
    {read : AddressRow → Bool} (h : ∀ row, read (f row) = read row) :
    ((Table.modify k f t).lookup a).any read = (t.lookup a).any read := by
  rw [Table.lookup_modify]
  split
  · cases t.lookup a with
    | none => rfl
    | some row => exact h row
  · rfl

/-- Rows with the same flags, and with fewer parked addresses and victims. -/
theorem ParkedDeep.addresses {t' : Table.Rows Address AddressRow} (h : ParkedDeep depth db)
    (hFlag : flaggedIn t' = flaggedIn db.addresses)
    (hRows : ∀ a, isParked t' a = true → isParked db.addresses a = true ∧
      (victimIn db.addresses a = false → victimIn t' a = false)) :
    ParkedDeep depth { db with addresses := t' } := by
  intro a ha
  obtain ⟨hParked, hVictim⟩ := hRows a ha
  have hDeep := h a hParked
  have hPath : HackerPath { db with addresses := t' } = HackerPath db := by
    unfold HackerPath
    rw [hFlag]
  refine ⟨(congrFun hFlag a).trans hDeep.unflagged, hVictim hDeep.notVictim, ?_⟩
  rw [hPath]
  exact hDeep.far

theorem ParkedDeep.modify {k : Address} {f : AddressRow → AddressRow} (h : ParkedDeep depth db)
    (hFlag : ∀ row, (f row).isFlaggedHacker = row.isFlaggedHacker) (hRole : ∀ row, (f row).role = row.role)
    (hStatus : ∀ row, (f row).expandStatus = .maxDepth → row.expandStatus = .maxDepth) :
    ParkedDeep depth { db with addresses := Table.modify k f db.addresses } := by
  refine h.addresses (funext fun a => any_modify hFlag) fun a ha => ⟨?_, fun hVictim => ?_⟩
  · unfold isParked at ha ⊢
    rw [Table.lookup_modify] at ha
    split at ha
    · obtain ⟨row, hRow, hMax⟩ := (Option.any_eq_true _ _).mp ha
      obtain ⟨before, hBefore, rfl⟩ := Option.map_eq_some_iff.mp hRow
      exact (Option.any_eq_true _ _).mpr ⟨before, hBefore,
        decide_eq_true (hStatus before (of_decide_eq_true hMax))⟩
    · exact ha
  · unfold victimIn
    rw [any_modify fun row => by rw [hRole]]
    exact hVictim

/-- The role that a row has after the upsert of a job. -/
theorem role_updated {data : AddressUpsertData} {row : AddressRow}
    (hCrawl : CrawlStmt (.address (.upsert data))) (hRow : row.role ≠ .victim)
    (hFence : data.role = some .victim → row.role = .hacker ∨ row.role = .downstream) :
    (data.updated row).role ≠ .victim := by
  unfold AddressUpsertData.updated
  dsimp only
  by_cases hVictim : data.role = some .victim
  · have hFenced : data.fenced row = true := by
      unfold AddressUpsertData.fenced
      simp [(hCrawl.2 hVictim).1, hFence hVictim, hVictim]
    rw [if_pos hFenced]
    exact hRow
  · split
    · exact hRow
    · cases hRole : data.role with
      | none => exact hRow
      | some role =>
        rw [hRole] at hVictim
        exact fun h => hVictim (congrArg some h)

/-- An address is parked after its upsert where the upsert says so, or where it was and the upsert is silent. -/
theorem isParked_upsert {data : AddressUpsertData} {t : Table.Rows Address AddressRow}
    (h : isParked (AddressStmt.exec (.upsert data) t) data.address = true) :
    data.expandStatus = some .maxDepth ∨ data.expandStatus = none ∧ isParked t data.address = true := by
  unfold isParked at h ⊢
  rw [lookup_upsert, if_pos rfl, Option.any_some, decide_eq_true_iff] at h
  have hStatus : ∀ before : ExpandStatus, data.expandStatus.getD before = .maxDepth →
      data.expandStatus = some .maxDepth ∨ data.expandStatus = none ∧ before = .maxDepth := by
    intro before
    cases data.expandStatus <;> simp
  cases hRow : t.lookup data.address with
  | none =>
    rw [hRow] at h
    exact Or.inl ((hStatus _ h).resolve_right fun hPending => nomatch hPending.2)
  | some row =>
    rw [hRow] at h
    exact (hStatus _ h).imp_right fun hBefore => ⟨hBefore.1, decide_eq_true hBefore.2⟩

theorem victimIn_upsert {data : AddressUpsertData} (hCrawl : CrawlStmt (.address (.upsert data)))
    (hVictim : victimIn db.addresses data.address = false)
    (hStatus : db.addresses.lookup data.address = none → data.expandStatus ≠ none)
    (hFence : data.role = some .victim → (db.addresses.lookup data.address).any
      (fun row => row.role = .hacker ∨ row.role = .downstream) = true) :
    victimIn (AddressStmt.exec (.upsert data) db.addresses) data.address = false := by
  unfold victimIn at hVictim ⊢
  rw [lookup_upsert, if_pos rfl, Option.any_some, decide_eq_false_iff_not]
  cases hRow : db.addresses.lookup data.address with
  | none =>
    intro hRole
    cases hData : data.role with
    | none => simp [AddressUpsertData.inserted, hData] at hRole
    | some role =>
      simp only [Option.elim_none, AddressUpsertData.inserted, hData, Option.getD_some] at hRole
      exact hStatus hRow (hCrawl.2 (hData.trans (congrArg some hRole))).2
  | some row =>
    rw [hRow] at hVictim hFence
    exact role_updated hCrawl (of_decide_eq_false hVictim) fun hRole => of_decide_eq_true (hFence hRole)

theorem ParkedDeep.upsert {data : AddressUpsertData} (h : ParkedDeep depth db)
    (hCrawl : CrawlStmt (.address (.upsert data))) (hKeeps : KeepsDeep depth db (.address (.upsert data))) :
    ParkedDeep depth { db with addresses := AddressStmt.exec (.upsert data) db.addresses } := by
  have hFlag : flaggedIn (AddressStmt.exec (.upsert data) db.addresses) = flaggedIn db.addresses :=
    flaggedIn_upsert hCrawl.1
  have hPath : HackerPath { db with addresses := AddressStmt.exec (.upsert data) db.addresses } =
      HackerPath db := by
    unfold HackerPath
    rw [hFlag]
  intro a ha
  by_cases hAddress : a = data.address
  · subst hAddress
    have hStatus := isParked_upsert ha
    have hDeep : Deep depth db data.address := by
      rcases hStatus with hWritten | ⟨-, hParked⟩
      · exact hKeeps.1 hWritten
      · exact h _ hParked
    refine ⟨(congrFun hFlag _).trans hDeep.unflagged, ?_, ?_⟩
    · refine victimIn_upsert hCrawl hDeep.notVictim (fun hRow hNone => ?_) fun hRole => ?_
      · rcases hStatus with hWritten | ⟨-, hParked⟩
        · rw [hNone] at hWritten
          cases hWritten
        · unfold isParked at hParked
          rw [hRow] at hParked
          cases hParked
      · rcases hStatus with hWritten | ⟨-, hParked⟩
        · rw [(hCrawl.2 hRole).2] at hWritten
          cases hWritten
        · exact hKeeps.2 hRole hParked
    · rw [hPath]
      exact hDeep.far
  · have hSame : (AddressStmt.exec (.upsert data) db.addresses).lookup a = db.addresses.lookup a := by
      rw [lookup_upsert, if_neg hAddress]
    have hDeep : Deep depth db a := h a (by
      unfold isParked at ha ⊢
      rwa [← hSame])
    refine ⟨(congrFun hFlag _).trans hDeep.unflagged, ?_, ?_⟩
    · have hVictim := hDeep.notVictim
      unfold victimIn at hVictim ⊢
      rwa [hSame]
    · rw [hPath]
      exact hDeep.far

theorem ParkedDeep.upsertEdge {data : EdgeUpsertData} (h : ParkedDeep depth db)
    (hKeeps : KeepsDeep depth db (.edge (.upsert data))) :
    ParkedDeep depth { db with edges := EdgeStmt.exec (.upsert data) db.edges } := by
  intro a ha
  have hDeep := h a ha
  refine ⟨hDeep.unflagged, hDeep.notVictim, fun m hm hPath => ?_⟩
  have hSteps : ∀ x y, OutEdge (EdgeStmt.exec (.upsert data) db.edges) x y →
      OutEdge db.edges x y ∨ data.direction = .outFromHacker ∧ x = data.fromAddress ∧ y = data.toAddress := by
    intro x y hEdge
    rcases outEdge_upsertEdge.mp hEdge with ⟨hOut, rfl, rfl⟩ | ⟨k, row, -, hRow, hFrom, hTo, hOut⟩
    · exact Or.inr ⟨hOut, rfl, rfl⟩
    · exact Or.inl (outEdge_iff.mpr ⟨k, row, hRow, hFrom, hTo, hOut⟩)
  by_cases hOut : data.direction = .outFromHacker
  · -- a short path is an old one or goes along the new edge
    rcases Distance.path_of_added (fun x y hEdge => (hSteps x y hEdge).imp_right And.right) hPath with
      hOld | ⟨i, j, hLe, hTo, hOn⟩
    · exact hDeep.far m hm hOld
    · exact hKeeps hOut a ha i j (by omega) hTo hOn
  · exact hDeep.far m hm (hPath.mono fun x y hEdge => (hSteps x y hEdge).resolve_right fun hNew => hOut hNew.1)

/-- Only the addresses and the edges matter. -/
theorem ParkedDeep.of_tables {db' : Db} (h : ParkedDeep depth db) (hAddresses : db'.addresses = db.addresses)
    (hEdges : db'.edges = db.edges) : ParkedDeep depth db' := by
  have hPath : HackerPath db' = HackerPath db := by
    unfold HackerPath
    rw [hAddresses, hEdges]
  intro a ha
  rw [hAddresses] at ha
  obtain ⟨hFlag, hVictim, hFar⟩ := h a ha
  exact ⟨hAddresses ▸ hFlag, hAddresses ▸ hVictim, hPath ▸ hFar⟩

/-- Each statement of a job that keeps the parked addresses deep. -/
theorem parkedDeep_exec {i : Stmt} (hCrawl : CrawlStmt i) (hKeeps : KeepsDeep depth db i)
    (h : ParkedDeep depth db) : ParkedDeep depth (exec i db) := by
  cases i with
  | address s =>
    cases s with
    | upsert data => exact h.upsert hCrawl hKeeps
    | setExpandStatus a status => exact h.modify (fun _ => rfl) (fun _ => rfl) fun _ hMax => absurd hMax hCrawl
    | setExpandProfile a profile => exact h.modify (fun _ => rfl) (fun _ => rfl) fun _ hMax => hMax
    | addInboundSats a d => exact h.modify (fun _ => rfl) (fun _ => rfl) fun _ hMax => hMax
    | addTotalReceivedSats a d => exact h.modify (fun _ => rfl) (fun _ => rfl) fun _ hMax => hMax
    | _ => cases hCrawl
  | edge s =>
    cases s with
    | upsert data => exact h.upsertEdge hKeeps
    | _ => cases hCrawl
  | _ => exact h.of_tables rfl rfl

end Step

/-! ## Runs -/

/-- In a run of jobs that trace, cut off anywhere, whose statements keep the parked addresses deep, they are deep
in every state reached. -/
theorem parkedDeep_of_cutRun {depth : Nat} {db db' : Db}
    (hRun : CutRun (CrawlJob.op : CrawlJob depth → StoreM Unit) (KeepsDeep depth) db db')
    (h : ParkedDeep depth db) : ParkedDeep depth db' :=
  cutRun_invariant emits_crawlJob (fun _ _ hCrawl hKeeps hDeep => parkedDeep_exec hCrawl hKeeps hDeep) hRun h

/-! ### Runs on a small chain -/

section Computed

variable {depth : Nat} {db : Db}

def flaggedList (t : Table.Rows Address AddressRow) : List Address :=
  (t.entries.filter (·.2.isFlaggedHacker)).map (·.1)

theorem any_lookup_iff {t : Table.Rows Address AddressRow} {read : AddressRow → Bool} {a : Address} :
    (t.lookup a).any read = true ↔ a ∈ (t.entries.filter (read ·.2)).map (·.1) := by
  rw [Option.any_eq_true, List.mem_map]
  constructor
  · rintro ⟨row, hRow, hRead⟩
    exact ⟨⟨a, row⟩, List.mem_filter.mpr ⟨Table.lookup_eq_some_iff.mp hRow, hRead⟩, rfl⟩
  · rintro ⟨⟨_, row⟩, hMem, rfl⟩
    obtain ⟨hEntry, hRead⟩ := List.mem_filter.mp hMem
    exact ⟨row, Table.lookup_eq_some_iff.mpr hEntry, hRead⟩

theorem mem_hackerLayer {m : Nat} {a : Address} :
    a ∈ Distance.layer (flaggedList db.addresses) (outPairs db.edges) m ↔ HackerPath db m a := by
  rw [Distance.mem_layer]
  unfold HackerPath OutEdge
  rw [show (fun a => a ∈ flaggedList db.addresses) = fun a => flaggedIn db.addresses a = true from
    funext fun a => propext any_lookup_iff.symm]

instance (m : Nat) (a : Address) : Decidable (HackerPath db m a) := decidable_of_iff _ mem_hackerLayer

instance (b : Address) (j : Nat) (a : Address) :
    Decidable (Distance.Path (· = b) (OutEdge db.edges) j a) :=
  decidable_of_iff (a ∈ Distance.layer [b] (outPairs db.edges) j) (by
    rw [Distance.mem_layer]
    unfold OutEdge
    simp only [List.mem_singleton])

instance (a : Address) : Decidable (Deep depth db a) :=
  decidable_of_iff (flaggedIn db.addresses a = false ∧ victimIn db.addresses a = false ∧
    ∀ m < depth, ¬ HackerPath db m a) ⟨fun h => ⟨h.1, h.2.1, h.2.2⟩, fun h => ⟨h.1, h.2, h.3⟩⟩

/-- The condition of an edge, for the parked addresses and the lengths below the depth. -/
theorem keepsDeep_edge_iff {data : EdgeUpsertData} : KeepsDeep depth db (.edge (.upsert data)) ↔
    (data.direction = .outFromHacker →
      ∀ a ∈ (db.addresses.entries.filter (·.2.expandStatus = .maxDepth)).map (·.1), ∀ i < depth, ∀ j < depth,
        i + 1 + j < depth → HackerPath db i data.fromAddress →
          ¬ Distance.Path (· = data.toAddress) (OutEdge db.edges) j a) := by
  refine imp_congr_right fun _ => forall_congr' fun a => ?_
  constructor
  · intro h ha i _ j _
    exact h (any_lookup_iff.mpr ha) i j
  · intro h ha i j hLess
    exact h (any_lookup_iff.mp ha) i (by omega) j (by omega) hLess

instance KeepsDeep.decidable : (i : Stmt) → Decidable (KeepsDeep depth db i)
  | .address (.upsert _) => inferInstanceAs (Decidable ((_ → _) ∧ (_ → _ → _)))
  | .edge (.upsert _) => decidable_of_iff _ keepsDeep_edge_iff.symm
  | .address (.setExpandStatus _ _) | .address (.setExpandProfile _ _) => inferInstanceAs (Decidable True)
  | .address (.addInboundSats _ _) | .address (.setInboundSats _ _) => inferInstanceAs (Decidable True)
  | .address .zeroInboundSats | .address (.addTotalReceivedSats _ _) => inferInstanceAs (Decidable True)
  | .address (.setTotalReceivedSats _ _) | .address .zeroHackerTotalReceived => inferInstanceAs (Decidable True)
  | .address (.delete _) => inferInstanceAs (Decidable True)
  | .edge (.deleteTouching _) | .edge .deleteHackTrace => inferInstanceAs (Decidable True)
  | .transaction _ | .peak _ | .hackStats _ | .insertHackVictim _ _ => inferInstanceAs (Decidable True)
  | .syncState _ _ | .deleteSyncState _ | .job _ | .scheduler _ => inferInstanceAs (Decidable True)

end Computed

/-- A transaction of one input and one output. -/
def payment (txid sender target : Name) (sats : Int) : ChainTxDetail where
  txid
  vin := [{ prevout := some ⟨some sender, some sats⟩ }]
  vout := [{ scriptpubkeyAddress := some target, value := some sats }]

/-- A job that stops after the first page, on a chain where the hacker pays `x`, which pays the target. -/
def lastLevelJob (target : Address) (job : Job) (h : isTraceJob job = true) : CrawlJob 2 :=
  let txs := [payment (name "u") (name "x") target 400000, payment (name "t") (name "h") (name "x") 800000]
  let provider := { Provider.ofTxs txs with getAddressTxs := fun _ => txs.map (·.toSummary) }
  { env := { provider, config := { maxCrawlDepth := 2, backfillMaxTxs := 25 } }
    inputs := { calls := ⟨provider, provider, provider, provider⟩ }
    job
    traces := h
    maxCrawlDepth := rfl }

def payJob (target : Address) : CrawlJob 2 := lastLevelJob target (.processTx (name "t")) rfl

def expandJob (target : Address) : CrawlJob 2 :=
  lastLevelJob target (.expandDownstream { address := name "x" }) rfl

def firstLevel (target : Address) : Db := (payJob target).op.final twoHackers ⟨{}, []⟩

/-- The store after the expansion of `x`. -/
def lastLevel (target : Address) : Db := (expandJob target).op.final (firstLevel target) ⟨{}, []⟩

theorem parkedDeep_twoHackers : ParkedDeep 2 twoHackers := by
  intro a ha
  rw [isParked, any_lookup_iff] at ha
  revert ha a
  decide +kernel

/-- The target of `x` is new, and gets parked. -/
theorem parkedDeep_lastLevel :
    isParked (lastLevel (name "y")).addresses (name "y") = true ∧ ParkedDeep 2 (lastLevel (name "y")) := by
  have hPay : CutStep (CrawlJob.op : CrawlJob 2 → StoreM Unit) (KeepsDeep 2) twoHackers
      (firstLevel (name "y")) := by
    unfold firstLevel
    exact cutStep_final (payJob (name "y")) (by decide +kernel)
  have hExpand : CutStep (CrawlJob.op : CrawlJob 2 → StoreM Unit) (KeepsDeep 2) (firstLevel (name "y"))
      (lastLevel (name "y")) := by
    unfold lastLevel
    exact cutStep_final (expandJob (name "y")) (by decide +kernel)
  exact ⟨by decide +kernel, parkedDeep_of_cutRun ((Relation.ReflTransGen.single hPay).tail hExpand)
    parkedDeep_twoHackers⟩

/-- The target of `x` is another hacker, and gets parked all the same. -/
theorem hacker_parked :
    CutRun (CrawlJob.op : CrawlJob 2 → StoreM Unit) (fun _ _ => True) twoHackers (lastLevel (name "g")) ∧
      ParkedDeep 2 twoHackers ∧ ¬ ParkedDeep 2 (lastLevel (name "g")) := by
  have hPay : CutStep (CrawlJob.op : CrawlJob 2 → StoreM Unit) (fun _ _ => True) twoHackers
      (firstLevel (name "g")) := by
    unfold firstLevel
    exact cutStep_final (payJob (name "g")) (by decide +kernel)
  have hExpand : CutStep (CrawlJob.op : CrawlJob 2 → StoreM Unit) (fun _ _ => True) (firstLevel (name "g"))
      (lastLevel (name "g")) := by
    unfold lastLevel
    exact cutStep_final (expandJob (name "g")) (by decide +kernel)
  refine ⟨(Relation.ReflTransGen.single hPay).tail hExpand, parkedDeep_twoHackers, fun h => ?_⟩
  have hFlag : flaggedIn (lastLevel (name "g")).addresses (name "g") = true := by decide +kernel
  rw [(h (name "g") (by decide +kernel)).unflagged] at hFlag
  cases hFlag

end Bloodhound.Indexer
