import Bloodhound.Store.EdgeOps
import Bloodhound.Store.HackStats

/-!
# Statistics of the hacks over edge operations

What a batch of edges, a recalculation and a deletion owe the statistics of the hacks. A batch credits
the received totals of the hackers one by one (`credited`), and counts the senders of the payments that
are new to their sub-batch (`countedPairs`).
-/

namespace Bloodhound.Store

open Journal Journal.Op

/-! ## Credits -/

/-- The addresses after credits to received totals. -/
def credited (t : AddressTable) (credits : List (Address × Int)) : AddressTable :=
  credits.foldl (fun t credit => (AddressStmt.addTotalReceivedSats credit.1 credit.2).exec t) t

def AddressRow.credit (row : AddressRow) (d : Int) : AddressRow :=
  { row with totalReceivedSats := row.totalReceivedSats + d }

/-- The statement credits one address by an amount that depends on its total. -/
def AddressStmt.Credits (i : AddressStmt) (a : Address) (amount : Int → Int) : Prop :=
  ∀ t b, (i.exec t).lookup b =
    if b = a then (t.lookup b).map fun row => row.credit (amount row.totalReceivedSats) else t.lookup b

theorem credits_add (a : Address) (d : Int) : (AddressStmt.addTotalReceivedSats a d).Credits a fun _ => d :=
  fun t b => Table.lookup_modify a b _ t

theorem credits_set (a : Address) (n : Int) : (AddressStmt.setTotalReceivedSats a n).Credits a (n - ·) := by
  intro t b
  refine (Table.lookup_modify a b _ t).trans ?_
  have hRow : (fun row : AddressRow => { row with totalReceivedSats := n }) =
      fun row => row.credit (n - row.totalReceivedSats) := by
    funext row
    simp [AddressRow.credit]
  rw [hRow]

theorem credit_part {row row' : AddressRow} (hPart : row.hackerPart = row'.hackerPart) (amount : Int → Int) :
    (row.credit (amount row.totalReceivedSats)).hackerPart =
      (row'.credit (amount row'.totalReceivedSats)).hackerPart := by
  simp only [AddressRow.hackerPart, Prod.mk.injEq] at hPart
  simp only [AddressRow.hackerPart, AddressRow.credit, hPart.1, hPart.2.1, hPart.2.2]

section Credits

variable {t : AddressTable} {v : VictimTable} {e : EdgeTable}
  {owed rest : HackStatsField × HackId → Int} {db : Db}

/-- Nothing is owed. -/
abbrev HackSettled (t : AddressTable) (v : VictimTable) (e : EdgeTable) : Db → Prop :=
  HackOff t v e fun _ => 0

theorem HackOff.same {t' : AddressTable} (h : HackOff t v e owed db) (hSame : SameHackers t t') :
    HackOff t' v e owed db :=
  { h with
    table := h.table.trans hSame
    stats := fun k => (h.stats k).trans (hackTotal_congr fun a => hackShare_congr (hSame a).symm k).symm }

section Statement

variable {i : AddressStmt} {a : Address} {amount : Int → Int} (hi : i.Credits a amount)
include hi

theorem AddressStmt.Credits.flaggedHack (t : AddressTable) (b : Address) :
    flaggedHack (i.exec t) b = flaggedHack t b := by
  unfold Store.flaggedHack
  rw [hi]
  split
  · cases t.lookup b with
    | none => rfl
    | some row =>
      cases hFlag : row.isFlaggedHacker <;> simp [Option.filter_some, AddressRow.credit, hFlag]
  · rfl

theorem AddressStmt.Credits.sameHackers {t' : AddressTable} (h : SameHackers t t') :
    SameHackers (i.exec t) (i.exec t') := by
  intro b
  rw [hi, hi]
  have hRow := h b
  split
  · cases hT : t.lookup b <;> cases hT' : t'.lookup b <;> rw [hT, hT'] at hRow
    · cases hRow
    · cases hRow
    · exact congrArg some (credit_part (Option.some.inj hRow) amount)
  · exact hRow

/-- A credit owes the change of the row that is read before it. -/
theorem hack_credit {before : Option AddressRow}
    (hBefore : before.map (·.hackerPart) = (t.lookup a).map (·.hackerPart)) :
    Triple (HackSettled t v e) (run (.address i) : StoreM Unit) (fun _ => HackOff (i.exec t) v e fun k =>
      before.elim 0 fun row => (row.credit (amount row.totalReceivedSats)).hackStat k - row.hackStat k)
      fun _ _ => True := by
  refine triple_run (fun s h => ?_) fun _ _ _ => trivial
  have hWritten := h.write (s := exec (Stmt.address i) s) (hi.sameHackers h.table) h.victims rfl
  rw [show (exec (Stmt.address i) s).edges = e from h.edges] at hWritten
  refine hWritten.congr fun k => ?_
  have hTotal := @hackTotal_row t (i.exec t) v k a fun b hb => by rw [hi, if_neg hb]
  rw [hi, if_pos rfl] at hTotal
  rw [hTotal, zero_add, add_sub_cancel_left]
  cases before with
  | none =>
    rw [Option.map_none, eq_comm, Option.map_eq_none_iff] at hBefore
    rw [hBefore]
    rfl
  | some row =>
    rw [Option.map_some, eq_comm, Option.map_eq_some_iff] at hBefore
    obtain ⟨stored, hStored, hPart⟩ := hBefore
    rw [hStored]
    show (stored.credit _).hackStat k - stored.hackStat k = (row.credit _).hackStat k - row.hackStat k
    rw [hackStat_congr hPart, hackStat_congr (credit_part hPart amount)]

end Statement

theorem flaggedHack_credited (credits : List (Address × Int)) (t : AddressTable) (a : Address) :
    flaggedHack (credited t credits) a = flaggedHack t a := by
  induction credits generalizing t with
  | nil => rfl
  | cons credit credits ih => exact (ih _).trans ((credits_add credit.1 credit.2).flaggedHack t a)

theorem hack_getAddress (a : Address) :
    Triple (HackOff t v e owed) (getAddress a) (fun row s => HackOff t v e owed s ∧
      row.map (·.hackerPart) = (t.lookup a).map (·.hackerPart)) fun _ _ => True :=
  triple_query (fun _ h => ⟨h, h.table a⟩) fun _ _ _ => trivial

/-- A credit changes the count of active hackers and the total of the hack. -/
theorem change_of_credit (row : AddressRow) (d : Int) (k : HackStatsField × HackId) :
    (row.credit d).hackStat k - row.hackStat k = activeChange (some row) (row.credit d) k +
      if k = (.totalInSats, row.hackId) ∧ row.isFlaggedHacker = true then d else 0 := by
  obtain ⟨f, id⟩ := k
  cases f with
  | victimCount => simp [AddressRow.hackStat, activeChange, AddressRow.activeStat]
  | hackerCount =>
    have hTotal : ¬((HackStatsField.hackerCount, id) = (.totalInSats, row.hackId) ∧
        row.isFlaggedHacker = true) := fun h => by cases h.1
    rw [if_neg hTotal, add_zero, activeChange]
    split
    · next hSame =>
      have hSame : isHackerActive row.isFlaggedHacker row.totalReceivedSats =
        isHackerActive row.isFlaggedHacker (row.totalReceivedSats + d) := hSame
      simp only [AddressRow.hackStat, AddressRow.credit, hSame]
      exact sub_self _
    · simp [AddressRow.activeStat]
  | totalInSats =>
    have hCount : activeChange (some row) (row.credit d) (.totalInSats, id) = 0 := by
      simp [activeChange, AddressRow.activeStat]
    rw [hCount, zero_add]
    by_cases hId : id = row.hackId <;> by_cases hFlag : row.isFlaggedHacker = true <;>
      simp [AddressRow.hackStat, AddressRow.credit, hId, hFlag, eq_comm]

theorem hack_applyTotalReceivedDelta {a : Address} {d : Int}
    (hNonneg : ReceivedNonneg ((AddressStmt.addTotalReceivedSats a d).exec t)) :
    Triple (HackSettled t v e) (applyTotalReceivedDelta a d)
      (fun _ => HackSettled ((AddressStmt.addTotalReceivedSats a d).exec t) v e) fun _ _ => True := by
  have hZero : ∀ k, 0 ≤ hackTotal ((AddressStmt.addTotalReceivedSats a d).exec t) v k := fun k =>
    hackTotal_nonneg hNonneg
  refine triple_when (fun _ => ?_) fun hNone db h => h.same fun b => ?_
  · refine (hack_getAddress a).bind fun before => triple_of_fact fun hBefore => ?_
    refine (hack_credit (credits_add a d) hBefore).bind fun _ => ?_
    cases before with
    | none => exact triple_pure () fun _ h => h
    | some row =>
      refine Triple.bind ?_ fun _ => triple_pure () fun _ h => h
      have hRow : adjustHackerActive (some row) row = adjustHackerActive (some row) (row.credit d) := by
        funext δ
        unfold adjustHackerActive
        split <;> rfl
      dsimp only
      rw [hRow]
      refine Triple.bind (hack_adjustHackerActive (change_of_credit row d) fun id => ?_) fun _ => ?_
      · rw [if_neg fun h => by cases h.1]
        exact hZero _
      · refine triple_when (fun hFlag => hack_adjust (fun k => ?_) (hZero _)) fun hFlag s h =>
          h.congr fun k => if_neg fun hk => hFlag hk.2
        simp only [hFlag, and_true, add_zero]
  · rw [not_not.mp hNone, credits_add]
    split
    · cases t.lookup b with
      | none => rfl
      | some row => simp [AddressRow.credit, AddressRow.hackerPart]
    · rfl

/-! ## Recalculations -/

/-- The same flagged addresses with the same hacks, and no negative total of one of them. -/
structure FlagsKept (t t' : AddressTable) : Prop where
  flags : ∀ a, flaggedHack t' a = flaggedHack t a
  received : ReceivedNonneg t'

/-- Settled for some addresses with the given flags. -/
def HackFlags (t : AddressTable) (v : VictimTable) (e : EdgeTable) (db : Db) : Prop :=
  ∃ t', FlagsKept t t' ∧ HackSettled t' v e db

theorem flaggedHack_eq_some {t : AddressTable} {a : Address} {id : HackId} :
    flaggedHack t a = some id ↔
      ∃ row, t.lookup a = some row ∧ row.isFlaggedHacker = true ∧ row.hackId = id := by
  unfold flaggedHack
  rw [Option.map_eq_some_iff]
  simp only [Option.filter_eq_some_iff, and_assoc]

theorem FlagsKept.credit {t₁ : AddressTable} (h : FlagsKept t t₁) {i : AddressStmt} {a : Address}
    {amount : Int → Int} (hi : i.Credits a amount) (hTotal : ∀ row, t₁.lookup a = some row →
      row.isFlaggedHacker = true → 0 ≤ row.totalReceivedSats + amount row.totalReceivedSats) :
    FlagsKept t (i.exec t₁) where
  flags b := (hi.flaggedHack t₁ b).trans (h.flags b)
  received b row hRow hFlag := by
    rw [hi] at hRow
    split at hRow
    · next hb =>
      obtain ⟨stored, hStored, rfl⟩ := Option.map_eq_some_iff.mp hRow
      exact hTotal stored (hb ▸ hStored) hFlag
    · exact h.received b row hRow hFlag

/-- Counting an active hacker anew. -/
theorem hack_adjustCount {row : AddressRow} {d : Int}
    (hOwed : ∀ k, owed k = activeChange (some row) (row.credit d) k + rest k)
    (hRest : ∀ k, rest k ≤ hackTotal t v k) :
    Triple (HackOff t v e owed) (adjustOnChange (adjustHackStatsCounter row.hackId .hackerCount)
      (isHackerActive row.isFlaggedHacker row.totalReceivedSats)
      (isHackerActive row.isFlaggedHacker (row.totalReceivedSats + d))) (fun _ => HackOff t v e rest)
      fun _ _ => True := by
  have hWas : wasActive (some row) = isHackerActive row.isFlaggedHacker row.totalReceivedSats := rfl
  have hIs : isHackerActive (row.credit d).isFlaggedHacker (row.credit d).totalReceivedSats =
      isHackerActive row.isFlaggedHacker (row.totalReceivedSats + d) := rfl
  refine triple_when (fun hChanged => hack_adjust (fun k => ?_) (hRest _)) fun hSame s h => h.congr fun k => ?_
  · rw [hOwed k, activeChange, hWas, hIs, if_neg hChanged, Option.elim_some]
    congr 1
    cases hActive : isHackerActive row.isFlaggedHacker (row.totalReceivedSats + d) with
    | true =>
      rw [activeStat_of_active (hIs.trans hActive), activeStat_of_inactive fun h => hChanged (h.trans hActive.symm),
        sub_zero]
      rfl
    | false =>
      have hOld : isHackerActive row.isFlaggedHacker row.totalReceivedSats = true := by
        simpa [hActive] using hChanged
      rw [activeStat_of_inactive (by rw [hIs, hActive]; decide), activeStat_of_active hOld]
      by_cases hk : k = (.hackerCount, row.hackId) <;> simp [hk]
  · rw [hOwed k, activeChange, hWas, hIs, if_pos (not_not.mp hSame), zero_add]

/-- The total of a flagged address becomes the sum of the payments to it. -/
theorem hack_recalcTotalReceived {a : Address}
    (hSum : ∀ db : Db, db.edges = e → flaggedHack t a ≠ none → 0 ≤ sumInToHacker db a) :
    Triple (HackFlags t v e) (recalcTotalReceived a) (fun _ => HackFlags t v e) fun _ _ => True := by
  refine triple_of_state fun s hs => ?_
  obtain ⟨t₁, hKept, hSettled⟩ := hs
  refine Triple.pre (P := HackSettled t₁ v e) ?_ fun s' hs' => hs' ▸ hSettled
  refine (hack_getAddress a).bind fun before => triple_of_fact fun hBefore => ?_
  refine Triple.bind (Q := fun n s => HackSettled t₁ v e s ∧ (flaggedHack t a ≠ none → 0 ≤ n))
    (triple_query (fun s h => ⟨h, hSum s h.edges⟩) fun _ _ _ => trivial) fun n => triple_of_fact fun hn => ?_
  have hKept' := hKept.credit (credits_set a n) fun row hRow hRowFlag => by
    have hHack := (hKept.flags a).symm.trans (flaggedHack_eq_some.mpr ⟨row, hRow, hRowFlag, rfl⟩)
    have := hn (by rw [hHack]; simp)
    omega
  refine Triple.post (Q := fun _ => HackSettled ((AddressStmt.setTotalReceivedSats a n).exec t₁) v e) ?_
    fun _ _ h => ⟨_, hKept', h⟩
  have hZero : ∀ k, 0 ≤ hackTotal ((AddressStmt.setTotalReceivedSats a n).exec t₁) v k := fun k =>
    hackTotal_nonneg hKept'.received
  refine (hack_credit (credits_set a n) hBefore).bind fun _ => ?_
  cases before with
  | none => exact triple_pure () fun _ h => h
  | some row =>
    refine Triple.bind ?_ fun _ => triple_pure () fun _ h => h
    refine triple_when (fun hFlag => ?_) fun hFlag s h => h.congr fun k => ?_
    · have hTotal : row.totalReceivedSats + (n - row.totalReceivedSats) = n := by omega
      refine Triple.bind (Q := fun _ => HackOff _ v e
        fun k => activeChange (some row) (row.credit (n - row.totalReceivedSats)) k) (hack_adjust (fun k => ?_) ?_)
        fun _ => ?_
      · show (row.credit _).hackStat k - row.hackStat k = _
        rw [change_of_credit]
        simp only [hFlag, and_true]
        ring
      · have hCount : activeChange (some row) (row.credit (n - row.totalReceivedSats))
            (.totalInSats, row.hackId) = 0 := by
          simp [activeChange, AddressRow.activeStat]
        rw [hCount]
        exact hZero _
      · have hCount := @hack_adjustCount ((AddressStmt.setTotalReceivedSats a n).exec t₁) v e _ (fun _ => 0)
          row (n - row.totalReceivedSats) (fun k => (add_zero _).symm) hZero
        rwa [hTotal] at hCount
    · show (row.credit _).hackStat k - row.hackStat k = 0
      have hCredited : ¬(row.credit (n - row.totalReceivedSats)).isFlaggedHacker = true := hFlag
      rw [hackStat_of_unflagged hFlag, hackStat_of_unflagged hCredited, sub_self]

theorem hack_recalcTotalReceivedFor {as : List Address}
    (hSum : ∀ db : Db, db.edges = e → ∀ a ∈ as, flaggedHack t a ≠ none → 0 ≤ sumInToHacker db a) :
    Triple (HackFlags t v e) (recalcTotalReceivedFor as) (fun _ => HackFlags t v e) fun _ _ => True :=
  triple_forEach fun a ha => hack_recalcTotalReceived fun db hEdges => hSum db hEdges a (List.mem_dedup.mp ha)

/-! ## Victims -/

/-- The hacks that rows pay, with their senders. -/
def paidBy (t : AddressTable) (rows : List EdgeUpsertData) : List (HackId × Address) :=
  rows.filterMap fun row => (flaggedHack t row.toAddress).map fun id => (id, row.fromAddress)

/-- A victim that was not stored is counted once. -/
theorem victimStat_insert (v : VictimTable) (id : HackId) (a : Address) (k : HackStatsField × HackId) :
    victimStat (v.insert (id, a) ()) k = victimStat v k +
      if k = (.victimCount, id) ∧ (v.lookup (id, a)).isNone = true then 1 else 0 := by
  obtain ⟨f, id'⟩ := k
  cases f with
  | victimCount =>
    simp only [victimStat, Table.sum_insert]
    cases hRow : v.lookup (id, a) <;> by_cases hId : id = id' <;> simp [hId, eq_comm]
  | hackerCount => simp [victimStat]
  | totalInSats => simp [victimStat]

theorem hack_countVictim (hNonneg : ReceivedNonneg t) (id : HackId) (a : Address) :
    Triple (HackSettled t v e) (do
        let inserted ← tryInsertHackVictim id a
        when inserted (adjustHackStatsCounter id .victimCount 1))
      (fun _ => HackSettled t (v.insert (id, a) ()) e) fun _ _ => True := by
  refine Triple.bind (Q := fun inserted s => HackOff t (v.insert (id, a) ()) e
    (fun k => if k = (.victimCount, id) ∧ inserted = true then 1 else 0) s)
    (triple_step (fun s h => ?_) fun _ _ _ => trivial) fun inserted => ?_
  · have hInserted : (replay [Stmt.insertHackVictim id a] s).hackVictims = v.insert (id, a) () := by
      show s.hackVictims.insert (id, a) () = _
      rw [h.victims]
    have hWritten := h.write (s := replay [Stmt.insertHackVictim id a] s) h.table hInserted rfl
    rw [show (replay [Stmt.insertHackVictim id a] s).edges = e from h.edges] at hWritten
    refine hWritten.congr fun k => ?_
    rw [h.victims, hackTotal, hackTotal, victimStat_insert]
    ring
  · refine triple_when (fun hInserted => hack_adjust (fun k => ?_) (hackTotal_nonneg hNonneg))
      fun hInserted s h => h.congr fun k => if_neg fun hk => hInserted hk.2
    simp only [hInserted, and_true, add_zero]

theorem hack_countRows (hNonneg : ReceivedNonneg t) {hackers : Address → Option AddressRow}
    (hHackers : ∀ a, ((hackers a).filter (·.isFlaggedHacker)).map (·.hackId) = flaggedHack t a)
    (rows : List EdgeUpsertData) :
    Triple (HackSettled t v e) (forEach rows fun row =>
        forEach ((hackers row.toAddress).filter (·.isFlaggedHacker)).toList fun hacker => do
          let inserted ← tryInsertHackVictim hacker.hackId row.fromAddress
          when inserted (adjustHackStatsCounter hacker.hackId .victimCount 1))
      (fun _ => HackSettled t (insertVictims v (paidBy t rows)) e) fun _ _ => True := by
  induction rows generalizing v with
  | nil => exact triple_pure () fun _ h => h
  | cons row rows ih =>
    have hRow := hHackers row.toAddress
    cases hFiltered : (hackers row.toAddress).filter (·.isFlaggedHacker) with
    | none =>
      rw [hFiltered, Option.map_none] at hRow
      have hPairs : paidBy t (row :: rows) = paidBy t rows := by
        rw [paidBy, List.filterMap_cons, ← hRow]
        rfl
      rw [hPairs]
      refine Triple.bind ?_ fun _ => ih
      dsimp only
      rw [hFiltered]
      exact triple_pure () fun _ h => h
    | some hacker =>
      rw [hFiltered, Option.map_some] at hRow
      have hPairs : paidBy t (row :: rows) = (hacker.hackId, row.fromAddress) :: paidBy t rows := by
        rw [paidBy, List.filterMap_cons, ← hRow]
        rfl
      rw [hPairs]
      refine Triple.bind ?_ fun _ => ih
      dsimp only
      rw [hFiltered]
      exact Triple.bind (hack_countVictim hNonneg _ _) fun _ => triple_pure () fun _ h => h

theorem hack_countNewVictims (hNonneg : ReceivedNonneg t) (rows : List EdgeUpsertData) :
    Triple (HackSettled t v e) (countNewVictims rows)
      (fun _ => HackSettled t (insertVictims v (paidBy t rows)) e) fun _ _ => True := by
  refine triple_when (fun _ => ?_) fun hNone s h => ?_
  · refine Triple.bind (Q := fun hackers s => HackSettled t v e s ∧
      ∀ a, ((hackers a).filter (·.isFlaggedHacker)).map (·.hackId) = flaggedHack t a)
      (triple_query (fun s h => ⟨h, h.table.flaggedHack⟩) fun _ _ _ => trivial) fun hackers => ?_
    exact triple_of_fact fun hHackers => hack_countRows hNonneg hHackers rows
  · rw [not_not.mp hNone]
    exact h

/-! ## Batches -/

/-- The credits of a sub-batch. -/
def chunkCredits (chunk : List EdgeUpsertData) (e : EdgeTable) : List (Address × Int) :=
  deltaByTarget (storedAmounts chunk e) (inRows chunk)

/-- The hacks with the senders of the payments that a sub-batch takes to be new. -/
def countedPairs (t : AddressTable) (chunk : List EdgeUpsertData) (e : EdgeTable) :
    List (HackId × Address) :=
  paidBy t ((inRows chunk).filter fun row => (storedAmounts chunk e row.key).isNone)

def batchCredits : List (List EdgeUpsertData) → EdgeTable → List (Address × Int)
  | [], _ => []
  | chunk :: rest, e => chunkCredits chunk e ++ batchCredits rest (upsertedEdges chunk e)

def batchPairs (t : AddressTable) : List (List EdgeUpsertData) → EdgeTable → List (HackId × Address)
  | [], _ => []
  | chunk :: rest, e => countedPairs t chunk e ++ batchPairs t rest (upsertedEdges chunk e)

/-- No credit makes the received total of a flagged hacker negative. -/
def CreditsNonneg (t : AddressTable) (credits : List (Address × Int)) : Prop :=
  ∀ front, front <+: credits → ReceivedNonneg (credited t front)

theorem credited_append (t : AddressTable) (credits credits' : List (Address × Int)) :
    credited t (credits ++ credits') = credited (credited t credits) credits' := List.foldl_append

theorem CreditsNonneg.left {credits credits' : List (Address × Int)}
    (h : CreditsNonneg t (credits ++ credits')) : CreditsNonneg t credits := fun front hFront =>
  h front (hFront.trans (List.prefix_append credits credits'))

theorem CreditsNonneg.right {credits credits' : List (Address × Int)}
    (h : CreditsNonneg t (credits ++ credits')) : CreditsNonneg (credited t credits) credits' := by
  intro front hFront
  rw [← credited_append]
  exact h _ (List.prefix_append_right_inj credits |>.mpr hFront)

theorem paidBy_credited (t : AddressTable) (credits : List (Address × Int)) (rows : List EdgeUpsertData) :
    paidBy (credited t credits) rows = paidBy t rows := by
  unfold paidBy
  simp only [flaggedHack_credited]

theorem batchPairs_credited (t : AddressTable) (credits : List (Address × Int))
    (chunks : List (List EdgeUpsertData)) (e : EdgeTable) :
    batchPairs (credited t credits) chunks e = batchPairs t chunks e := by
  induction chunks generalizing e with
  | nil => rfl
  | cons chunk rest ih => rw [batchPairs, batchPairs, ih, countedPairs, countedPairs, paidBy_credited]

theorem hack_credits {credits : List (Address × Int)} (hNonneg : CreditsNonneg t credits) :
    Triple (HackSettled t v e) (forEach credits fun credit => applyTotalReceivedDelta credit.1 credit.2)
      (fun _ => HackSettled (credited t credits) v e) fun _ _ => True := by
  induction credits generalizing t with
  | nil => exact triple_pure () fun _ h => h
  | cons credit credits ih =>
    have hSplit : CreditsNonneg t ([credit] ++ credits) := hNonneg
    exact (hack_applyTotalReceivedDelta (hSplit [credit] (List.prefix_append _ _))).bind fun _ => ih hSplit.right

theorem apart_applyInboundSatsDelta (a : Address) (d : Int) :
    (applyInboundSatsDelta a d).Emits fun i => i.apartFromHacks = true := by
  refine emits_when fun _ => (emits_query _).bind fun existing => (emits_query _).bind fun state => ?_
  refine Emits.bind (emits_run rfl) fun _ => emits_forEach fun row _ => emits_when fun _ => ?_
  refine (emits_query _).bind fun sync => emits_now.bind fun _ => emits_when fun _ => emits_when fun _ => ?_
  refine (emits_query _).bind fun state => emits_now.bind fun _ => emits_now.bind fun _ => ?_
  split <;> exact emits_run rfl

theorem apart_applyPeakDeltas (old : EdgeKey → Option Int) (chunk : List EdgeUpsertData) :
    (applyPeakDeltas old chunk).Emits fun i => i.apartFromHacks = true := by
  refine emits_forEach fun row _ => Emits.tryCatch ?_ fun _ => emits_pure ()
  refine emits_when fun _ => ?_
  split
  · exact emits_run rfl
  · refine (emits_query _).bind fun _ => emits_when fun _ => (emits_query _).bind fun _ => emits_run ?_
    rfl

theorem HackOff.edge (h : HackOff t v e owed db) (i : EdgeStmt) :
    HackOff t v (i.exec e) owed (Journal.exec (Stmt.edge i) db) :=
  ⟨h.table, h.victims, congrArg i.exec h.edges, h.known, h.stats⟩

theorem hack_writeRows (env : Env) (chunk : List EdgeUpsertData) :
    Triple (HackOff t v e owed) (executeSqlBatch env (chunk.map fun data => .edge (.upsert data)))
      (fun _ => HackOff t v (upsertedEdges chunk e) owed) fun _ _ => True := by
  unfold executeSqlBatch
  split
  · next hNone =>
    rw [List.map_eq_nil_iff] at hNone
    subst hNone
    exact triple_pure () fun _ h => h
  split
  · rename_i hSome _
    clear hSome
    refine triple_step (fun s h => ?_) fun _ _ _ => trivial
    induction chunk generalizing e s with
    | nil => exact h
    | cons data chunk ih => exact ih _ (h.edge (.upsert data))
  · rename_i hSome _
    clear hSome
    induction chunk generalizing e with
    | nil => exact triple_pure () fun _ h => h
    | cons data chunk ih =>
      exact Triple.bind (triple_run (fun s h => h.edge (.upsert data)) fun _ _ _ => trivial) fun _ => ih

theorem hack_upsertEdgesChunk (env : Env) {chunk : List EdgeUpsertData}
    (hNonneg : CreditsNonneg t (chunkCredits chunk e)) :
    Triple (HackSettled t v e) (upsertEdgesChunk env chunk) (fun _ =>
      HackSettled (credited t (chunkCredits chunk e)) (insertVictims v (countedPairs t chunk e))
        (upsertedEdges chunk e)) fun _ _ => True := by
  refine Triple.bind (Q := fun old s => HackSettled t v e s ∧ old = storedAmounts chunk e)
    (triple_query (fun s h => ⟨h, congrArg (storedAmounts chunk) h.edges⟩) fun _ _ _ => trivial) fun old => ?_
  refine triple_of_fact fun hOld => (hack_writeRows env chunk).bind fun _ => ?_
  subst hOld
  refine Triple.bind ?_ fun _ => triple_pure _ fun _ h => h
  refine (hack_credits hNonneg).bind fun _ => ?_
  refine (hack_apart (emits_forEach fun e _ => apart_applyInboundSatsDelta e.1 e.2)).bind fun _ => ?_
  refine Triple.bind ?_ fun _ => hack_apart (apart_applyPeakDeltas _ _)
  have hCount := @hack_countNewVictims (credited t (chunkCredits chunk e)) v (upsertedEdges chunk e)
    (hNonneg _ List.prefix_rfl)
    ((inRows chunk).filter fun row => (storedAmounts chunk e row.key).isNone)
  rwa [paidBy_credited] at hCount

theorem hack_upsertEdgesChunks (env : Env) {chunks : List (List EdgeUpsertData)}
    (hNonneg : CreditsNonneg t (batchCredits chunks e)) (totalIn totalOut : Int) :
    Triple (HackSettled t v e) (upsertEdgesChunks env chunks totalIn totalOut) (fun _ =>
      HackSettled (credited t (batchCredits chunks e)) (insertVictims v (batchPairs t chunks e))
        (upsertedEdges chunks.flatten e)) fun _ _ => True := by
  induction chunks generalizing t v e totalIn totalOut with
  | nil => exact triple_pure _ fun _ h => h
  | cons chunk rest ih =>
    refine (hack_upsertEdgesChunk env hNonneg.left).bind fun delta => ?_
    have hRest := ih (t := credited t (chunkCredits chunk e)) (v := insertVictims v (countedPairs t chunk e))
      hNonneg.right (totalIn + delta.1) (totalOut + delta.2)
    rw [batchPairs_credited, ← credited_append] at hRest
    have hPairs : insertVictims v (batchPairs t (chunk :: rest) e) = insertVictims
        (insertVictims v (countedPairs t chunk e)) (batchPairs t rest (upsertedEdges chunk e)) :=
      List.foldl_append
    rw [List.flatten_cons, upsertedEdges_append, hPairs, batchCredits]
    exact hRest

theorem hack_upsertEdgesBatch (env : Env) {rows : List EdgeUpsertData}
    (hNonneg : CreditsNonneg t (batchCredits (chunkArray env.store.d1BatchSize rows) e)) :
    Triple (HackSettled t v e) (upsertEdgesBatch env rows) (fun _ =>
      HackSettled (credited t (batchCredits (chunkArray env.store.d1BatchSize rows) e))
        (insertVictims v (batchPairs t (chunkArray env.store.d1BatchSize rows) e)) (upsertedEdges rows e))
      fun _ _ => True := by
  refine triple_when (fun _ => ?_) fun hNone s h => ?_
  · have hChunks := hack_upsertEdgesChunks (v := v) env hNonneg 0 0
    rw [flatten_chunkArray] at hChunks
    exact hChunks.bind fun totals => hack_apart (emits_when fun _ => emits_run rfl)
  · rw [not_not.mp hNone]
    exact h

end Credits

/-! ## Victims of a batch -/

section Pairs

variable {t : AddressTable} {e : EdgeTable}

/-- The payments to flagged hackers that were stored, and those that the batch brings, stay payments; and
a payment that its sub-batch finds stored comes from a known victim of the hack. -/
structure PaymentsTracked (t : AddressTable) (chunks : List (List EdgeUpsertData)) (e : EdgeTable) : Prop where
  kept : ∀ pair, pair ∈ victimPairs t e ∨ pair ∈ paidBy t (inRows chunks.flatten) →
    pair ∈ victimPairs t (upsertedEdges chunks.flatten e)
  found : ∀ front chunk back, chunks = front ++ chunk :: back → ∀ row ∈ inRows chunk,
    (storedAmounts chunk (upsertedEdges front.flatten e) row.key).isSome = true →
      ∀ pair ∈ paidBy t [row], pair ∈ victimPairs t (upsertedEdges front.flatten e)

/-- A stored row after upserts is an old one, or has the direction of one of the upserts. -/
theorem written_or_kept {rows : List EdgeUpsertData} {k : EdgeKey} {row : EdgeRow}
    (h : (upsertedEdges rows e).lookup k = some row) :
    e.lookup k = some row ∨ ∃ data ∈ rows, data.key = k ∧ data.direction = row.direction := by
  induction rows generalizing e with
  | nil => exact Or.inl h
  | cons data rows ih =>
    rcases ih h with hOld | ⟨data', hData, hKey, hDir⟩
    · rw [lookup_upsertEdge] at hOld
      split at hOld
      · next hk =>
        refine Or.inr ⟨data, List.mem_cons_self, hk.symm, ?_⟩
        rw [← Option.some.inj hOld]
        cases e.lookup k <;> rfl
      · exact Or.inl hOld
    · exact Or.inr ⟨data', List.mem_cons_of_mem _ hData, hKey, hDir⟩

theorem mem_paidBy {rows : List EdgeUpsertData} {pair : HackId × Address} : pair ∈ paidBy t rows ↔
    ∃ row ∈ rows, flaggedHack t row.toAddress = some pair.1 ∧ row.fromAddress = pair.2 := by
  unfold paidBy
  rw [List.mem_filterMap]
  constructor
  · rintro ⟨row, hRow, hPair⟩
    obtain ⟨id, hHack, rfl⟩ := Option.map_eq_some_iff.mp hPair
    exact ⟨row, hRow, hHack, rfl⟩
  · rintro ⟨row, hRow, hHack, hFrom⟩
    exact ⟨row, hRow, by rw [hHack, Option.map_some, hFrom]⟩

theorem batchPairs_subset {chunks : List (List EdgeUpsertData)} {pair : HackId × Address}
    (h : pair ∈ batchPairs t chunks e) : pair ∈ paidBy t (inRows chunks.flatten) := by
  induction chunks generalizing e with
  | nil => cases h
  | cons chunk rest ih =>
    have hRows : inRows (chunk :: rest).flatten = inRows chunk ++ inRows rest.flatten := by
      unfold inRows
      rw [List.flatten_cons, List.filter_append]
    rw [hRows, paidBy, List.filterMap_append, List.mem_append]
    rcases List.mem_append.mp h with h | h
    · obtain ⟨row, hRow, hPaid⟩ := mem_paidBy.mp h
      exact Or.inl (mem_paidBy.mpr ⟨row, List.mem_of_mem_filter hRow, hPaid⟩)
    · exact Or.inr (ih h)

/-- A payment after a batch was there before, or its sender is counted. -/
theorem paid_or_counted {chunks : List (List EdgeUpsertData)} (hTracked : PaymentsTracked t chunks e)
    {pair : HackId × Address} (h : pair ∈ victimPairs t (upsertedEdges chunks.flatten e)) :
    pair ∈ victimPairs t e ∨ pair ∈ batchPairs t chunks e := by
  have hFound := hTracked.found
  clear hTracked
  induction chunks generalizing e with
  | nil => exact Or.inl h
  | cons chunk rest ih =>
    rw [List.flatten_cons, upsertedEdges_append] at h
    have hRest := ih h fun front chunk' back hSplit row hRow => by
      have hLater := hFound (chunk :: front) chunk' back (by rw [hSplit, List.cons_append]) row hRow
      rwa [List.flatten_cons, upsertedEdges_append] at hLater
    rcases hRest with hPaid | hCounted
    · obtain ⟨k, row, hRow, hDir, hHack, hFrom⟩ := mem_victimPairs.mp hPaid
      rcases written_or_kept hRow with hOld | ⟨data, hData, rfl, hDataDir⟩
      · exact Or.inl (mem_victimPairs.mpr ⟨k, row, hOld, hDir, hHack, hFrom⟩)
      · have hIn : data ∈ inRows chunk := mem_inRows.mpr ⟨hData, hDataDir.trans hDir⟩
        cases hStored : storedAmounts chunk e data.key with
        | none =>
          refine Or.inr (List.mem_append_left _ (mem_paidBy.mpr ⟨data, ?_, hHack, hFrom⟩))
          exact List.mem_filter.mpr ⟨hIn, by rw [hStored]; rfl⟩
        | some amount =>
          refine Or.inl (hFound [] chunk rest rfl data hIn ?_ pair
            (mem_paidBy.mpr ⟨data, List.mem_singleton_self data, hHack, hFrom⟩))
          show (storedAmounts chunk e data.key).isSome = true
          rw [hStored]
          rfl
    · exact Or.inr (List.mem_append_right _ hCounted)

/-- The victims after a tracked batch. -/
theorem VictimsExact.batch {v : VictimTable} (h : VictimsExact v t e) {chunks : List (List EdgeUpsertData)}
    (hTracked : PaymentsTracked t chunks e) :
    VictimsExact (insertVictims v (batchPairs t chunks e)) t (upsertedEdges chunks.flatten e) := by
  intro pair
  rw [isSome_insertVictims, h pair]
  constructor
  · rintro (hOld | hCounted)
    · exact hTracked.kept pair (Or.inl hOld)
    · exact hTracked.kept pair (Or.inr (batchPairs_subset hCounted))
  · exact paid_or_counted hTracked

end Pairs

end Bloodhound.Store
