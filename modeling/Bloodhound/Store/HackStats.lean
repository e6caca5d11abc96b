import Bloodhound.Store.AddressCounters
import Bloodhound.Store.EdgeRows

/-!
# Statistics of the hacks

The rows of `hack_stats` and `hack_victims` against what `reconcileHackStats` computes from the edges
and the flagged addresses.
-/

namespace Bloodhound.Store

open Journal Journal.Op

/-! ## The reconciliation -/

/-- `HACK_STAT_IDS`. -/
def hackStatIds : List HackId := ["coldcard", "liquid", "ledger", "binance"]

abbrev EdgeTable : Type := Table.Rows EdgeKey EdgeRow

abbrev VictimTable : Type := Table.Rows (HackId × Address) Unit

/-- The hack of a flagged address. -/
def flaggedHack (t : AddressTable) (a : Address) : Option HackId :=
  ((t.lookup a).filter (·.isFlaggedHacker)).map (·.hackId)

/-- The hack that an edge is a payment to. -/
def paidHack (t : AddressTable) (k : EdgeKey) (row : EdgeRow) : Option HackId :=
  if row.direction = .inToHacker then flaggedHack t k.toAddress else none

/-- The hacks with the senders of the payments to them. -/
def victimPairs (t : AddressTable) (edges : EdgeTable) : List (HackId × Address) :=
  edges.entries.filterMap fun e => (paidHack t e.1 e.2).map fun id => (id, e.1.fromAddress)

def insertVictims (v : VictimTable) (pairs : List (HackId × Address)) : VictimTable :=
  pairs.foldl (fun v pair => v.insert pair ()) v

/-- What an address adds to a number of a hack. -/
def AddressRow.hackStat (row : AddressRow) (k : HackStatsField × HackId) : Int :=
  match k.1 with
  | .victimCount => 0
  | .hackerCount =>
    if isHackerActive row.isFlaggedHacker row.totalReceivedSats && row.hackId = k.2 then 1 else 0
  | .totalInSats => if row.isFlaggedHacker && row.hackId = k.2 then row.totalReceivedSats else 0

/-- What the stored victims add to a number of a hack. -/
def victimStat (v : VictimTable) (k : HackStatsField × HackId) : Int :=
  match k.1 with
  | .victimCount => Table.sum (fun pair _ => if pair.1 = k.2 then 1 else 0) v
  | _ => 0

/-- A number of a hack, from the tables. -/
def hackTotal (t : AddressTable) (v : VictimTable) (k : HackStatsField × HackId) : Int :=
  Table.sum (fun _ row => row.hackStat k) t + victimStat v k

/-- `reconcileHackStats`: the victims are inserted anew, and the rows of the known hacks are ensured
before every row is computed. -/
def reconcileHackStats (db : Db) : Db :=
  let victims := insertVictims ∅ (victimPairs db.addresses db.edges)
  let ensured := hackStatIds.foldl (fun t id => (HackStatsStmt.ensure id).exec t) db.hackStats
  { db with
    hackVictims := victims
    hackStats := Table.mapRows (fun id _ =>
      { victimCount := hackTotal db.addresses victims (.victimCount, id)
        hackerCount := hackTotal db.addresses victims (.hackerCount, id)
        totalInSats := hackTotal db.addresses victims (.totalInSats, id) }) ensured }

/-- The rows are those that the reconciliation would leave. -/
def HackReconciled (db : Db) : Prop :=
  (∀ id, db.hackStats.lookup id = (reconcileHackStats db).hackStats.lookup id) ∧
    ∀ pair, db.hackVictims.lookup pair = (reconcileHackStats db).hackVictims.lookup pair

theorem mem_victimPairs {t : AddressTable} {edges : EdgeTable} {pair : HackId × Address} :
    pair ∈ victimPairs t edges ↔ ∃ k row, edges.lookup k = some row ∧ row.direction = .inToHacker ∧
      flaggedHack t k.toAddress = some pair.1 ∧ k.fromAddress = pair.2 := by
  unfold victimPairs paidHack
  rw [List.mem_filterMap]
  constructor
  · rintro ⟨⟨k, row⟩, he, hPair⟩
    obtain ⟨id, hPaid, rfl⟩ := Option.map_eq_some_iff.mp hPair
    dsimp only at hPaid
    split at hPaid
    · next hDir => exact ⟨k, row, Table.lookup_eq_some_iff.mpr he, hDir, hPaid, rfl⟩
    · cases hPaid
  · rintro ⟨k, row, hRow, hDir, hPaid, hFrom⟩
    refine ⟨⟨k, row⟩, Table.lookup_eq_some_iff.mp hRow, ?_⟩
    rw [if_pos hDir, hPaid, Option.map_some, hFrom]

theorem isSome_insertVictims {v : VictimTable} {pairs : List (HackId × Address)} {pair : HackId × Address} :
    ((insertVictims v pairs).lookup pair).isSome = true ↔ (v.lookup pair).isSome = true ∨ pair ∈ pairs := by
  induction pairs generalizing v with
  | nil => simp [insertVictims]
  | cons head pairs ih =>
    refine ih.trans ?_
    rw [Table.lookup_insert_if, List.mem_cons]
    by_cases hEq : pair = head <;> simp [hEq]

/-- The same senders have paid the same hacks. -/
def SamePairs (t : AddressTable) (edges : EdgeTable) (t' : AddressTable) (edges' : EdgeTable) : Prop :=
  ∀ pair, pair ∈ victimPairs t' edges' ↔ pair ∈ victimPairs t edges

/-- The stored victims are the senders of the stored payments. -/
def VictimsExact (v : VictimTable) (t : AddressTable) (edges : EdgeTable) : Prop :=
  ∀ pair, (v.lookup pair).isSome = true ↔ pair ∈ victimPairs t edges

theorem VictimsExact.same {v : VictimTable} {t t' : AddressTable} {edges edges' : EdgeTable}
    (h : VictimsExact v t edges) (hSame : SamePairs t edges t' edges') : VictimsExact v t' edges' :=
  fun pair => (h pair).trans (hSame pair).symm

/-! ## Numbers -/

def HackStatsRow.get (row : HackStatsRow) : HackStatsField → Int
  | .victimCount => row.victimCount
  | .hackerCount => row.hackerCount
  | .totalInSats => row.totalInSats

/-- A stored number of a hack, zero without a row. -/
def Db.hackStat (db : Db) (k : HackStatsField × HackId) : Int :=
  ((db.hackStats.lookup k.2).getD ⟨0, 0, 0⟩).get k.1

/-- What the statistics read of a row. -/
def AddressRow.hackerPart (row : AddressRow) : Bool × HackId × Int :=
  (row.isFlaggedHacker, row.hackId, row.totalReceivedSats)

/-- The tables are the same for the statistics. -/
def SameHackers (t t' : AddressTable) : Prop :=
  ∀ a, (t.lookup a).map (·.hackerPart) = (t'.lookup a).map (·.hackerPart)

theorem SameHackers.symm {t t' : AddressTable} (h : SameHackers t t') : SameHackers t' t :=
  fun a => (h a).symm

theorem SameHackers.flaggedHack {t t' : AddressTable} (h : SameHackers t t') (a : Address) :
    flaggedHack t a = flaggedHack t' a := by
  have hPart : ∀ row : Option AddressRow, (row.filter (·.isFlaggedHacker)).map (·.hackId) =
      ((row.map (·.hackerPart)).filter (·.1)).map (·.2.1) := by
    intro row
    cases row with
    | none => rfl
    | some row => cases hFlag : row.isFlaggedHacker <;>
        simp [AddressRow.hackerPart, Option.filter_some, hFlag]
  rw [Store.flaggedHack, Store.flaggedHack, hPart, hPart, h a]

theorem SameHackers.pairs {t t' : AddressTable} (h : SameHackers t t') (edges : EdgeTable) :
    SamePairs t edges t' edges := fun pair => by
  simp only [mem_victimPairs, h.flaggedHack]

theorem hackStat_congr {row row' : AddressRow} (h : row.hackerPart = row'.hackerPart)
    (k : HackStatsField × HackId) : row.hackStat k = row'.hackStat k := by
  simp only [AddressRow.hackerPart, Prod.mk.injEq] at h
  simp only [AddressRow.hackStat, h.1, h.2.1, h.2.2]

def hackShare (row : Option AddressRow) (k : HackStatsField × HackId) : Int := row.elim 0 (·.hackStat k)

theorem hackShare_congr {row row' : Option AddressRow}
    (h : row.map (·.hackerPart) = row'.map (·.hackerPart)) (k : HackStatsField × HackId) :
    hackShare row k = hackShare row' k := by
  cases row <;> cases row' <;> simp at h
  · rfl
  · exact hackStat_congr h k

/-- No flagged address has received a negative amount. -/
def ReceivedNonneg (t : AddressTable) : Prop :=
  ∀ a row, t.lookup a = some row → row.isFlaggedHacker = true → 0 ≤ row.totalReceivedSats

theorem ReceivedNonneg.congr {t t' : AddressTable} (h : ReceivedNonneg t) (hSame : SameHackers t' t) :
    ReceivedNonneg t' := by
  intro a row hRow hFlag
  have hPart := hSame a
  rw [hRow, Option.map_some, eq_comm, Option.map_eq_some_iff] at hPart
  obtain ⟨stored, hStored, hPart⟩ := hPart
  simp only [AddressRow.hackerPart, Prod.mk.injEq] at hPart
  rw [← hPart.2.2]
  exact h a stored hStored (hPart.1.trans hFlag)

theorem hackStat_nonneg {row : AddressRow} (h : row.isFlaggedHacker = true → 0 ≤ row.totalReceivedSats)
    (k : HackStatsField × HackId) : 0 ≤ row.hackStat k := by
  unfold AddressRow.hackStat
  split
  · exact le_rfl
  · split <;> decide
  · split
    · next hFlag => exact h (Bool.and_eq_true_iff.mp hFlag).1
    · exact le_rfl

theorem ReceivedNonneg.share {t : AddressTable} (h : ReceivedNonneg t) (a : Address)
    (k : HackStatsField × HackId) : 0 ≤ hackShare (t.lookup a) k := by
  cases hRow : t.lookup a with
  | none => exact le_rfl
  | some row => exact hackStat_nonneg (h a row hRow) k

theorem victimStat_nonneg (v : VictimTable) (k : HackStatsField × HackId) : 0 ≤ victimStat v k := by
  unfold victimStat
  split
  · refine List.sum_nonneg fun d hd => ?_
    obtain ⟨e, -, rfl⟩ := List.mem_map.mp hd
    dsimp only
    split <;> decide
  · exact le_rfl

section Totals

variable {t t' : AddressTable} {v : VictimTable} {k : HackStatsField × HackId}

theorem hackTotal_apart {as : List Address} (hNodup : as.Nodup)
    (h : ∀ a, a ∉ as → t'.lookup a = t.lookup a) :
    hackTotal t' v k = hackTotal t v k +
      (as.map fun a => hackShare (t'.lookup a) k - hackShare (t.lookup a) k).sum := by
  unfold hackTotal
  rw [Table.sum_apart hNodup h]
  unfold hackShare
  ring

theorem hackTotal_row {a : Address} (h : ∀ b, b ≠ a → t'.lookup b = t.lookup b) :
    hackTotal t' v k = hackTotal t v k + (hackShare (t'.lookup a) k - hackShare (t.lookup a) k) := by
  rw [hackTotal_apart (List.nodup_singleton a) fun b hb => h b fun hEq => hb (List.mem_singleton.mpr hEq),
    List.map_singleton, List.sum_singleton]

theorem hackTotal_congr (h : ∀ a, hackShare (t'.lookup a) k = hackShare (t.lookup a) k) :
    hackTotal t' v k = hackTotal t v k :=
  congrArg (· + victimStat v k) (Table.sum_eq_of_values h)

/-- The shares of some addresses are part of the total. -/
theorem shares_le_hackTotal (hNonneg : ReceivedNonneg t) {as : List Address} (hNodup : as.Nodup) :
    (as.map fun a => hackShare (t.lookup a) k).sum ≤ hackTotal t v k := by
  have hSum := Table.sum_lookups_le (f := fun _ row => row.hackStat k)
    (fun a row hRow => hackStat_nonneg (hNonneg a row hRow) k) hNodup
  have hVictims := victimStat_nonneg v k
  unfold hackTotal
  change (as.map fun a => hackShare (t.lookup a) k).sum ≤ _ at hSum
  omega

theorem hackTotal_nonneg (hNonneg : ReceivedNonneg t) : 0 ≤ hackTotal t v k :=
  shares_le_hackTotal hNonneg List.nodup_nil

end Totals

/-! ## Owed numbers -/

/-- The tables are the given ones for the statistics, and each stored number of a hack misses what it is
owed. -/
structure HackOff (t : AddressTable) (v : VictimTable) (e : EdgeTable)
    (owed : HackStatsField × HackId → Int) (db : Db) : Prop where
  table : SameHackers db.addresses t
  victims : db.hackVictims = v
  edges : db.edges = e
  known : ∀ id ∈ hackStatIds, (db.hackStats.lookup id).isSome = true
  stats : ∀ k, db.hackStat k + owed k = hackTotal t v k

/-- A write of the tables owes the change of the totals. -/
theorem HackOff.write {t t' : AddressTable} {v v' : VictimTable} {e : EdgeTable}
    {owed : HackStatsField × HackId → Int} {db s : Db} (h : HackOff t v e owed db)
    (hTable : SameHackers s.addresses t') (hVictims : s.hackVictims = v')
    (hStats : s.hackStats = db.hackStats) :
    HackOff t' v' s.edges (fun k => owed k + (hackTotal t' v' k - hackTotal t v k)) s where
  table := hTable
  victims := hVictims
  edges := rfl
  known := hStats ▸ h.known
  stats k := by
    have hStat := h.stats k
    have hSame : s.hackStat k = db.hackStat k := by rw [Db.hackStat, hStats, Db.hackStat]
    omega

/-- A statement that leaves the statistics and what they are computed from. -/
def Stmt.apartFromHacks : Stmt → Bool
  | .edge _ | .hackStats _ | .insertHackVictim _ _ => false
  | .address (.setExpandStatus _ _) | .address (.setExpandProfile _ _) => true
  | .address (.addInboundSats _ _) | .address (.setInboundSats _ _) | .address .zeroInboundSats => true
  | .address _ => false
  | _ => true

theorem sameHackers_modify (f : AddressRow → AddressRow)
    (hf : ∀ row, (f row).hackerPart = row.hackerPart) (a : Address) (t : AddressTable) :
    SameHackers (Table.modify a f t) t := by
  intro b
  rw [Table.lookup_modify]
  split
  · rw [Option.map_map]
    congr 1
    exact funext hf
  · rfl

theorem SameHackers.trans {t t' t'' : AddressTable} (h : SameHackers t t') (h' : SameHackers t' t'') :
    SameHackers t t'' := fun a => (h a).trans (h' a)

theorem sameHackers_exec {i : AddressStmt} (hi : (Stmt.address i).apartFromHacks = true)
    (t : AddressTable) : SameHackers (i.exec t) t := by
  cases i with
  | setExpandStatus a s => exact sameHackers_modify ({ · with expandStatus := s }) (fun _ => rfl) a t
  | setExpandProfile a p =>
    exact sameHackers_modify ({ · with expandProfile := some p }) (fun _ => rfl) a t
  | addInboundSats a d =>
    exact sameHackers_modify (fun row => { row with inboundSats := row.inboundSats + d }) (fun _ => rfl) a t
  | setInboundSats a d => exact sameHackers_modify ({ · with inboundSats := d }) (fun _ => rfl) a t
  | zeroInboundSats =>
    intro b
    unfold AddressStmt.exec
    rw [Table.lookup_mapRows, Option.map_map]
    rfl
  | _ => cases hi

section Owed

variable {t : AddressTable} {v : VictimTable} {e : EdgeTable}
  {owed rest : HackStatsField × HackId → Int} {db : Db}

theorem HackOff.congr (h : HackOff t v e owed db) (hOwed : ∀ k, owed k = rest k) :
    HackOff t v e rest db := { h with stats := fun k => hOwed k ▸ h.stats k }

theorem HackOff.exec (h : HackOff t v e owed db) {i : Stmt} (hi : i.apartFromHacks = true) :
    HackOff t v e owed (exec i db) := by
  obtain ⟨hTable, hVictims, hEdges, hKnown, hStats⟩ := h
  cases i with
  | address i => exact ⟨(sameHackers_exec hi db.addresses).trans hTable, hVictims, hEdges, hKnown, hStats⟩
  | edge | hackStats | insertHackVictim => cases hi
  | _ => exact ⟨hTable, hVictims, hEdges, hKnown, hStats⟩

theorem hack_apart {α : Type} {p : StoreM α} (h : p.Emits fun i => i.apartFromHacks = true) :
    Triple (HackOff t v e owed) p (fun _ => HackOff t v e owed) fun _ _ => True :=
  (triple_of_emits h fun _ hi _ hs => hs.exec hi).conseq (fun _ h => h) (fun _ _ h => h)
    fun _ _ _ => trivial

theorem hackStat_ensure (id : HackId) (db : Db) (k : HackStatsField × HackId) :
    (Journal.exec (Stmt.hackStats (.ensure id)) db).hackStat k = db.hackStat k := by
  show (((db.hackStats.insert id ((db.hackStats.lookup id).getD ⟨0, 0, 0⟩)).lookup k.2).getD
    ⟨0, 0, 0⟩).get k.1 = _
  rw [Table.lookup_insert_if]
  split
  · next hEq =>
    rw [← hEq]
    rfl
  · rfl

theorem isSome_ensure (id id' : HackId) (s : Table.Rows HackId HackStatsRow) :
    (((HackStatsStmt.ensure id).exec s).lookup id').isSome =
      (decide (id' = id) || (s.lookup id').isSome) := by
  unfold HackStatsStmt.exec
  rw [Table.lookup_insert_if]
  split
  · next hEq => rw [decide_eq_true hEq]; rfl
  · next hNe => rw [decide_eq_false hNe, Bool.false_or]

theorem hackStat_adjust {id : HackId} {row : HackStatsRow} (hRow : db.hackStats.lookup id = some row)
    (f : HackStatsField) (d : Int) (k : HackStatsField × HackId) :
    (Journal.exec (Stmt.hackStats (.adjust id f d)) db).hackStat k =
      if k = (f, id) then max 0 (db.hackStat k + d) else db.hackStat k := by
  obtain ⟨g, id'⟩ := k
  show (((Table.modify id (fun r => r.adjust d f) db.hackStats).lookup id').getD ⟨0, 0, 0⟩).get g = _
  rw [Table.lookup_modify]
  by_cases hId : id' = id
  · subst hId
    rw [if_pos rfl, hRow, Option.map_some, Option.getD_some, Db.hackStat, hRow, Option.getD_some]
    cases f <;> cases g <;> simp [HackStatsRow.adjust, HackStatsRow.get]
  · rw [if_neg hId, if_neg fun hEq => hId (Prod.mk.inj hEq).2]
    rfl

/-- An adjustment by a part of what a number is owed; the rest is within the total. -/
theorem hack_adjust {f : HackStatsField} {id : HackId} {d : Int}
    (hOwed : ∀ k, owed k = (if k = (f, id) then d else 0) + rest k)
    (hRest : rest (f, id) ≤ hackTotal t v (f, id)) :
    Triple (HackOff t v e owed) (adjustHackStatsCounter id f d) (fun _ => HackOff t v e rest)
      fun _ _ => True := by
  refine triple_when (fun _ => ?_) fun hZero db h => h.congr fun k => ?_
  · refine Triple.bind (Q := fun _ s => HackOff t v e owed s ∧ (s.hackStats.lookup id).isSome = true)
      (triple_run (fun db h => ?_) fun _ _ _ => trivial) fun _ => triple_run (fun db h => ?_)
      fun _ _ _ => trivial
    · refine ⟨⟨h.table, h.victims, h.edges, fun id' hId => ?_, fun k => ?_⟩, ?_⟩
      · show (((HackStatsStmt.ensure id).exec db.hackStats).lookup id').isSome = true
        rw [isSome_ensure, h.known id' hId, Bool.or_true]
      · rw [hackStat_ensure]
        exact h.stats k
      · show (((HackStatsStmt.ensure id).exec db.hackStats).lookup id).isSome = true
        rw [isSome_ensure, decide_eq_true rfl, Bool.true_or]
    · obtain ⟨hOff, hRow⟩ := h
      obtain ⟨row, hRow⟩ := Option.isSome_iff_exists.mp hRow
      refine ⟨hOff.table, hOff.victims, hOff.edges, fun id' hId => ?_, fun k => ?_⟩
      · show ((Table.modify id _ db.hackStats).lookup id').isSome = true
        rw [Table.lookup_modify]
        split
        · rw [Option.isSome_map]
          exact hOff.known id' hId
        · exact hOff.known id' hId
      · have hStat := hOff.stats k
        have hPart := hOwed k
        rw [hackStat_adjust hRow]
        by_cases hKey : k = (f, id)
        · rw [if_pos hKey] at hPart ⊢
          rw [← hKey] at hRest
          omega
        · rw [if_neg hKey] at hPart ⊢
          omega
  · rw [hOwed k, not_not.mp hZero]
    split <;> omega

/-- What moves with a row: its total, and the row itself where it is counted among the hackers. -/
def movedStat (row : AddressRow) (countHacker : Bool) (k : HackStatsField × HackId) : Int :=
  if k.1 = .hackerCount ∧ countHacker = false then 0 else row.hackStat k

theorem hack_move {row : AddressRow} {sign : Int} {countHacker : Bool} (hFlag : row.isFlaggedHacker = true)
    (hOwed : ∀ k, owed k = sign * movedStat row countHacker k + rest k)
    (hRest : ∀ k, rest k ≤ hackTotal t v k) :
    Triple (HackOff t v e owed) (moveHackStats row sign countHacker) (fun _ => HackOff t v e rest)
      fun _ _ => True := by
  refine triple_when (fun _ => ?_) fun h => absurd hFlag h
  let counted : Prop := isHackerActive row.isFlaggedHacker row.totalReceivedSats = true ∧ countHacker = true
  let count : HackStatsField × HackId → Int := fun k =>
    if k = (.hackerCount, row.hackId) ∧ counted then sign else 0
  refine Triple.bind (Q := fun _ => HackOff t v e fun k => count k + rest k)
    (hack_adjust (fun k => ?_) ?_) fun _ => ?_
  · rw [hOwed k]
    obtain ⟨f, id⟩ := k
    cases f with
    | victimCount => simp [movedStat, AddressRow.hackStat, count]
    | hackerCount =>
      by_cases hId : id = row.hackId <;> cases countHacker <;>
        by_cases hActive : isHackerActive row.isFlaggedHacker row.totalReceivedSats = true <;>
        simp [movedStat, AddressRow.hackStat, count, counted, hId, hActive, eq_comm]
    | totalInSats =>
      by_cases hId : id = row.hackId <;> simp [movedStat, AddressRow.hackStat, count, hId, hFlag, eq_comm]
  · have hZero : count (.totalInSats, row.hackId) = 0 := if_neg fun h => by cases h.1
    show count (.totalInSats, row.hackId) + _ ≤ _
    rw [hZero, zero_add]
    exact hRest _
  · refine triple_when (fun hCount => hack_adjust (fun k => ?_) (hRest _)) fun hCount s hs =>
      hs.congr fun k => ?_
    · show count k + _ = _
      simp only [count, counted, hCount.1, hCount.2, and_true]
    · have hZero : count k = 0 := if_neg fun h => hCount h.2
      rw [hZero, zero_add]

/-! ## A row changes -/

/-- The change of a row is one that the adjustments follow: where it is flagged before and after, its
total moves only with its hack, and then it stays active or inactive. -/
def StatsTracked (before : Option AddressRow) (after : AddressRow) : Prop :=
  ∀ b, before = some b → b.isFlaggedHacker = true → after.isFlaggedHacker = true →
    if b.hackId = after.hackId then b.totalReceivedSats = after.totalReceivedSats
    else isHackerActive true b.totalReceivedSats = isHackerActive true after.totalReceivedSats

/-- The part of a row's share that counts hackers. -/
def AddressRow.activeStat (row : AddressRow) (k : HackStatsField × HackId) : Int :=
  if k.1 = .hackerCount then row.hackStat k else 0

theorem activeStat_of_active {row : AddressRow}
    (h : isHackerActive row.isFlaggedHacker row.totalReceivedSats = true) (k : HackStatsField × HackId) :
    row.activeStat k = if k = (.hackerCount, row.hackId) then 1 else 0 := by
  obtain ⟨f, id⟩ := k
  cases f <;> simp [AddressRow.activeStat, AddressRow.hackStat, h, eq_comm]

theorem activeStat_of_inactive {row : AddressRow}
    (h : ¬isHackerActive row.isFlaggedHacker row.totalReceivedSats = true) (k : HackStatsField × HackId) :
    row.activeStat k = 0 := by
  obtain ⟨f, id⟩ := k
  cases f <;> simp [AddressRow.activeStat, AddressRow.hackStat, h]

theorem flagged_of_active {row : AddressRow}
    (h : isHackerActive row.isFlaggedHacker row.totalReceivedSats = true) : row.isFlaggedHacker = true :=
  (Bool.and_eq_true_iff.mp h).1

theorem hackStat_of_unflagged {row : AddressRow} (h : ¬row.isFlaggedHacker = true)
    (k : HackStatsField × HackId) : row.hackStat k = 0 := by
  obtain ⟨f, id⟩ := k
  cases f <;> simp [AddressRow.hackStat, isHackerActive, h]

def wasActive (before : Option AddressRow) : Bool :=
  before.any fun row => isHackerActive row.isFlaggedHacker row.totalReceivedSats

/-- The change of the number of active hackers where the row becomes active or inactive. -/
def activeChange (before : Option AddressRow) (after : AddressRow) (k : HackStatsField × HackId) : Int :=
  if wasActive before = isHackerActive after.isFlaggedHacker after.totalReceivedSats then 0
  else after.activeStat k - before.elim 0 (·.activeStat k)

theorem hack_adjustHackerActive {before : Option AddressRow} {after : AddressRow}
    (hOwed : ∀ k, owed k = activeChange before after k + rest k)
    (hRest : ∀ id, rest (.hackerCount, id) ≤ hackTotal t v (.hackerCount, id)) :
    Triple (HackOff t v e owed) (adjustOnChange (adjustHackerActive before after) (wasActive before)
      (isHackerActive after.isFlaggedHacker after.totalReceivedSats)) (fun _ => HackOff t v e rest)
      fun _ _ => True := by
  refine triple_when (fun hChanged => ?_) fun hSame db h => h.congr fun k => ?_
  · refine Triple.bind (Q := fun _ => HackOff t v e owed)
      (hack_apart (emits_when fun _ => emits_run rfl)) fun _ => ?_
    cases hActive : isHackerActive after.isFlaggedHacker after.totalReceivedSats with
    | true =>
      rw [hActive] at hChanged
      have hWas : wasActive before = false := by simpa using hChanged
      have hBefore : ∀ k, before.elim 0 (·.activeStat k) = 0 := by
        intro k
        cases before with
        | none => rfl
        | some b =>
          refine activeStat_of_inactive (fun h => ?_) k
          rw [wasActive, Option.any_some, h] at hWas
          cases hWas
      show Triple _ (forEach [after] _) _ _
      refine Triple.bind ?_ fun _ => triple_pure () fun _ h => h
      refine triple_when (fun _ => hack_adjust (fun k => ?_) (hRest _)) fun h =>
        absurd (flagged_of_active hActive) h
      rw [hOwed k, activeChange, if_neg (by rw [hWas, hActive]; decide), hBefore k,
        activeStat_of_active hActive, sub_zero]
      rfl
    | false =>
      rw [hActive] at hChanged
      have hWas : wasActive before = true := by simpa using hChanged
      cases before with
      | none => cases hWas
      | some b =>
        show Triple _ (forEach [b] _) _ _
        refine Triple.bind ?_ fun _ => triple_pure () fun _ h => h
        refine triple_when (fun _ => hack_adjust (fun k => ?_) (hRest _)) fun h =>
          absurd (flagged_of_active hWas) h
        rw [hOwed k, activeChange, if_neg (by rw [hWas, hActive]; decide),
          activeStat_of_inactive (by rw [hActive]; decide), Option.elim_some, activeStat_of_active hWas]
        by_cases hk : k = (.hackerCount, b.hackId) <;> simp [hk]
  · rw [hOwed k, activeChange, if_pos (not_not.mp hSame), zero_add]

/-- The flag of a row or its hack changed. -/
def statsFlagChanged (before : Option AddressRow) (after : AddressRow) : Bool :=
  before.any (·.isFlaggedHacker) != after.isFlaggedHacker

def statsHackChanged (before : Option AddressRow) (after : AddressRow) : Bool :=
  decide ((before.map (·.hackId)).getD "coldcard" ≠ after.hackId)

/-- What the move of a row from its hack to another changes. -/
def reconcileChange (before : Option AddressRow) (after : AddressRow) (k : HackStatsField × HackId) : Int :=
  if statsFlagChanged before after = true ∨ statsHackChanged before after = true then
    movedStat after (statsHackChanged before after && !statsFlagChanged before after) k -
      before.elim 0 (movedStat · (statsHackChanged before after && !statsFlagChanged before after) k)
  else 0

theorem movedStat_of_unflagged {row : AddressRow} (h : ¬row.isFlaggedHacker = true) (countHacker : Bool)
    (k : HackStatsField × HackId) : movedStat row countHacker k = 0 := by
  rw [movedStat, hackStat_of_unflagged h, ite_self]

theorem movedStat_le {row : AddressRow} (countHacker : Bool) {k : HackStatsField × HackId}
    (h : 0 ≤ row.hackStat k) : movedStat row countHacker k ≤ row.hackStat k := by
  unfold movedStat
  split
  · exact h
  · exact le_rfl

/-- `hack_move` also where the row is not flagged. -/
theorem hack_moveRow {row : AddressRow} {sign : Int} {countHacker : Bool}
    (hOwed : ∀ k, owed k = sign * movedStat row countHacker k + rest k)
    (hRest : ∀ k, rest k ≤ hackTotal t v k) :
    Triple (HackOff t v e owed) (moveHackStats row sign countHacker) (fun _ => HackOff t v e rest)
      fun _ _ => True := by
  by_cases hFlag : row.isFlaggedHacker = true
  · exact hack_move hFlag hOwed hRest
  · refine triple_when (fun h => absurd h hFlag) fun _ db h => h.congr fun k => ?_
    rw [hOwed k, movedStat_of_unflagged hFlag, mul_zero, zero_add]

theorem hack_reconcileForAddress {before : Option AddressRow} {after : AddressRow}
    (hOwed : ∀ k, owed k = reconcileChange before after k + rest k)
    (hAfter : ∀ k, 0 ≤ after.hackStat k) (hRest : ∀ k, after.hackStat k + rest k ≤ hackTotal t v k) :
    Triple (HackOff t v e owed) (reconcileHackStatsForAddress before after) (fun _ => HackOff t v e rest)
      fun _ _ => True := by
  have hEnd : ∀ k, rest k ≤ hackTotal t v k := fun k => by
    have := hAfter k
    have := hRest k
    omega
  refine triple_when (fun hChanged => ?_) fun hSame db h => h.congr fun k => ?_
  · let counted := statsHackChanged before after && !statsFlagChanged before after
    have hChange : ∀ k, reconcileChange before after k =
        movedStat after counted k - before.elim 0 (movedStat · counted k) := fun k => if_pos hChanged
    have hMiddle : ∀ k, movedStat after counted k + rest k ≤ hackTotal t v k := fun k => by
      have := movedStat_le counted (hAfter k)
      have := hRest k
      omega
    refine Triple.bind (Q := fun _ => HackOff t v e fun k => movedStat after counted k + rest k) ?_
      fun _ => hack_moveRow (fun k => ?_) hEnd
    · cases before with
      | none =>
        exact triple_pure () fun db h => h.congr fun k => by
          rw [hOwed k, hChange k, Option.elim_none, sub_zero]
      | some b =>
        refine Triple.bind (hack_moveRow (fun k => ?_) hMiddle) fun _ => triple_pure () fun _ h => h
        rw [hOwed k, hChange k, Option.elim_some]
        show _ = -1 * movedStat b counted k + _
        ring
    · show _ = 1 * movedStat after counted k + _
      rw [one_mul]
  · have hNone : reconcileChange before after k = 0 := if_neg hSame
    rw [hOwed k, hNone, zero_add]

theorem hackStat_split (row : AddressRow) (k : HackStatsField × HackId) :
    row.activeStat k + movedStat row false k = row.hackStat k := by
  unfold AddressRow.activeStat movedStat
  by_cases hCount : k.1 = .hackerCount
  · rw [if_pos hCount, if_pos ⟨hCount, rfl⟩, add_zero]
  · rw [if_neg hCount, if_neg fun h => hCount h.1, zero_add]

theorem movedStat_counted (row : AddressRow) (k : HackStatsField × HackId) :
    movedStat row true k = row.hackStat k := if_neg fun h => by cases h.2

theorem activeChange_of_unflagged {b after : AddressRow}
    (h : ¬(b.isFlaggedHacker = true ∧ after.isFlaggedHacker = true)) (k : HackStatsField × HackId) :
    activeChange (some b) after k = after.activeStat k - b.activeStat k := by
  unfold activeChange
  split
  · next hSame =>
    have hSame : isHackerActive b.isFlaggedHacker b.totalReceivedSats = _ := hSame
    have hInactive : ¬isHackerActive after.isFlaggedHacker after.totalReceivedSats = true := fun hActive =>
      h ⟨flagged_of_active (hSame.trans hActive), flagged_of_active hActive⟩
    rw [activeStat_of_inactive hInactive, activeStat_of_inactive (hSame ▸ hInactive), sub_zero]
  · rfl

theorem activeChange_none (after : AddressRow) (k : HackStatsField × HackId) :
    activeChange none after k = after.activeStat k := by
  unfold activeChange
  split
  · next hSame =>
    rw [activeStat_of_inactive fun h => by rw [h] at hSame; cases hSame]
  · exact sub_zero _

/-- The two adjustments together follow a tracked change. -/
theorem change_of_tracked {before : Option AddressRow} {after : AddressRow} (h : StatsTracked before after)
    (k : HackStatsField × HackId) :
    activeChange before after k + reconcileChange before after k = after.hackStat k - hackShare before k := by
  cases before with
  | none =>
    rw [activeChange_none, reconcileChange, Option.elim_none, sub_zero]
    have hFlag : statsFlagChanged none after = after.isFlaggedHacker := Bool.false_xor _
    rw [hFlag]
    by_cases hAfter : after.isFlaggedHacker = true
    · rw [if_pos (Or.inl hAfter), hAfter, Bool.not_true, Bool.and_false, hackStat_split]
      exact (sub_zero _).symm
    · rw [movedStat_of_unflagged hAfter, ite_self, hackStat_of_unflagged hAfter,
        activeStat_of_inactive fun hActive => hAfter (flagged_of_active hActive)]
      rfl
  | some b =>
    have hFlag : statsFlagChanged (some b) after = (b.isFlaggedHacker != after.isFlaggedHacker) := rfl
    have hHack : statsHackChanged (some b) after = decide (b.hackId ≠ after.hackId) := rfl
    show _ = after.hackStat k - b.hackStat k
    by_cases hBoth : b.isFlaggedHacker = true ∧ after.isFlaggedHacker = true
    · have hTracked := h b rfl hBoth.1 hBoth.2
      have hSame : statsFlagChanged (some b) after = false := by rw [hFlag, hBoth.1, hBoth.2]; rfl
      by_cases hId : b.hackId = after.hackId
      · -- nothing that counts changed
        rw [if_pos hId] at hTracked
        have hPart : b.hackerPart = after.hackerPart := by
          rw [AddressRow.hackerPart, AddressRow.hackerPart, hBoth.1, hBoth.2, hId, hTracked]
        have hActive : wasActive (some b) = isHackerActive after.isFlaggedHacker after.totalReceivedSats := by
          show isHackerActive b.isFlaggedHacker b.totalReceivedSats = _
          rw [hBoth.1, hBoth.2, hTracked]
        rw [activeChange, if_pos hActive, reconcileChange, hSame, hHack, hackStat_congr hPart]
        simp [hId]
      · rw [if_neg hId] at hTracked
        have hActive : wasActive (some b) = isHackerActive after.isFlaggedHacker after.totalReceivedSats := by
          show isHackerActive b.isFlaggedHacker b.totalReceivedSats = _
          rw [hBoth.1, hBoth.2, hTracked]
        have hMoved : statsHackChanged (some b) after = true := by rw [hHack, decide_eq_true hId]
        rw [activeChange, if_pos hActive, reconcileChange, if_pos (Or.inr hMoved), hMoved, hSame,
          Option.elim_some, Bool.not_false, Bool.and_true, movedStat_counted, movedStat_counted, zero_add]
    · rw [activeChange_of_unflagged hBoth, reconcileChange, Option.elim_some]
      by_cases hChanged : statsFlagChanged (some b) after = true
      · rw [if_pos (Or.inl hChanged), hChanged, Bool.not_true, Bool.and_false]
        have := hackStat_split after k
        have := hackStat_split b k
        omega
      · -- neither row is flagged
        have hEq : b.isFlaggedHacker = after.isFlaggedHacker := by simpa [hFlag] using hChanged
        have hAfter : ¬after.isFlaggedHacker = true := fun h' => hBoth ⟨hEq.trans h', h'⟩
        have hB : ¬b.isFlaggedHacker = true := hEq ▸ hAfter
        rw [movedStat_of_unflagged hAfter, movedStat_of_unflagged hB, hackStat_of_unflagged hAfter,
          hackStat_of_unflagged hB, activeStat_of_inactive fun h' => hAfter (flagged_of_active h'),
          activeStat_of_inactive fun h' => hB (flagged_of_active h'), sub_zero, ite_self, add_zero]

theorem count_nonneg (row : AddressRow) (id : HackId) : 0 ≤ row.hackStat (.hackerCount, id) := by
  show (0 : Int) ≤ if _ then 1 else 0
  split <;> decide

/-- Counting the hackers anew is part of the row's new share. -/
theorem reconcileChange_count_le {before : Option AddressRow} {after : AddressRow}
    (hAfter : ∀ k, 0 ≤ after.hackStat k) (id : HackId) :
    reconcileChange before after (.hackerCount, id) ≤ after.hackStat (.hackerCount, id) := by
  unfold reconcileChange
  split
  · have hMoved := movedStat_le (statsHackChanged before after && !statsFlagChanged before after)
      (hAfter (.hackerCount, id))
    have hBefore : 0 ≤ before.elim 0
        (movedStat · (statsHackChanged before after && !statsFlagChanged before after) (.hackerCount, id)) := by
      cases before with
      | none => exact le_rfl
      | some b =>
        rw [Option.elim_some, movedStat]
        split
        · exact le_rfl
        · exact count_nonneg b id
    omega
  · exact hAfter _

theorem hack_applyAddressStatsDelta {before : Option AddressRow} {after : AddressRow}
    (hTracked : StatsTracked before after)
    (hOwed : ∀ k, owed k = after.hackStat k - hackShare before k + rest k)
    (hAfter : ∀ k, 0 ≤ after.hackStat k) (hRest : ∀ k, after.hackStat k + rest k ≤ hackTotal t v k) :
    Triple (HackOff t v e owed) (applyAddressStatsDelta before after) (fun _ => HackOff t v e rest)
      fun _ _ => True := by
  have hCounter : ∀ (c : Counter) (was is : Bool) {owed' : HackStatsField × HackId → Int},
      Triple (HackOff t v e owed') (adjustOnChange (adjustCounter c) was is) (fun _ => HackOff t v e owed')
        fun _ _ => True := fun c was is _ =>
    hack_apart (emits_when fun _ => emits_when fun _ => emits_run rfl)
  refine Triple.bind (Q := fun _ => HackOff t v e owed) (triple_query (fun _ h => h) fun _ _ _ => trivial)
    fun state => (hCounter _ _ _).bind fun _ => (hCounter _ _ _).bind fun _ => ?_
  refine Triple.bind (Q := fun _ => HackOff t v e owed)
    (triple_when (fun _ => hCounter _ _ _) fun _ _ h => h) fun _ => ?_
  refine Triple.bind (Q := fun _ => HackOff t v e fun k => reconcileChange before after k + rest k)
    (hack_adjustHackerActive (fun k => ?_) fun id => ?_) fun _ => ?_
  · rw [hOwed k, ← change_of_tracked hTracked k]
    ring
  · have hLe := @reconcileChange_count_le before after hAfter id
    have := hRest (.hackerCount, id)
    omega
  · exact (hack_reconcileForAddress (fun k => rfl) hAfter hRest).bind fun _ =>
      hack_apart (emits_when fun _ => emits_run rfl)

end Owed

end Bloodhound.Store
