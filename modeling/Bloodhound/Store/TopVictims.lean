import Bloodhound.Lib.Groups
import Bloodhound.Store.Edges

/-!
# The largest victims of a hacker

`collectTopVictimAddressesByScan` reads the payments to a hacker by amount, largest first,
until it has seen enough senders; where a page does not suffice it reads a page of twice
the size, and gives up above a limit. The order of equal amounts is left to the database
and may differ from one query to the next. A list that is returned is the one that
`collectTopVictimAddressesByGroupBy` gives: the senders with the largest maxima.
-/

namespace Bloodhound.Store.TopVictims

/-! ## The scan -/

/-- `VICTIM_SCAN_FETCH_INITIAL_MULTIPLIER` and `VICTIM_SCAN_FETCH_MAX_MULTIPLIER`. -/
structure ScanMultipliers where
  initial : Nat := 4
  max : Nat := 128

/-- The payments to a hacker that the conditions of the queries keep, with their senders. -/
def paymentsTo (edges : Table.Rows EdgeKey EdgeRow) (hacker : Address) (minEdgeSats : Option Int) :
    List (Address × Int) :=
  (edges.entries.filter fun e =>
    e.1.toAddress = hacker ∧ e.2.direction = .inToHacker ∧
      minEdgeSats.all (· ≤ e.2.amountSats)).map fun e => (e.1.fromAddress, e.2.amountSats)

/-- The orders in which the database lists rows by descending amount, one for each query: the order
of equal amounts is open. -/
structure DescendingQuery (rows : List (Address × Int)) where
  order : Nat → List (Address × Int)
  perm : ∀ n, (order n).Perm rows
  sorted : ∀ n, Groups.Descending (order n)

/-- The loop over the rows of a page: whether enough senders were seen, and the senders. -/
def addRows (limit : Nat) : List Address → List (Address × Int) → Bool × List Address
  | out, [] => (false, out)
  | out, row :: rows =>
    let out := if row.1 ∈ out then out else out ++ [row.1]
    if limit ≤ out.length then (true, out) else addRows limit out rows

variable {rows : List (Address × Int)}

/-- The loop over the pages; `none` where the fuel runs out, `some none` where the scan gives up. -/
def scanPages (query : DescendingQuery rows) (limit maxFetch : Nat) :
    Nat → Nat → Option (Option (List Address))
  | 0, _ => none
  | fuel + 1, fetchLimit =>
    if fetchLimit ≤ maxFetch then
      let page := (query.order fetchLimit).take fetchLimit
      let (full, out) := addRows limit [] page
      if full then some (some out)
      else if page.length < fetchLimit then some (some out)
      else scanPages query limit maxFetch fuel (fetchLimit * 2)
    else some none

/-- `collectTopVictimAddressesByScan`, with a bound on the pages. -/
def collectTopVictimAddressesByScan (mult : ScanMultipliers) (query : DescendingQuery rows)
    (fuel limit : Nat) : Option (Option (List Address)) :=
  scanPages query limit (limit * mult.max) fuel (limit * mult.initial)

/-! ## A page -/

/-- The loop over a page keeps the senders of first rows, up to the limit. -/
theorem addRows_eq {limit : Nat} {out : List Address} (hOut : out.length < limit)
    (page : List (Address × Int)) :
    addRows limit out page =
      (decide (limit ≤ out.length + (Groups.firstRows out page).length),
        out ++ ((Groups.firstRows out page).map Prod.fst).take (limit - out.length)) := by
  induction page generalizing out with
  | nil => simp [addRows, Groups.firstRows, hOut]
  | cons row page ih =>
    rw [addRows, Groups.firstRows]
    by_cases hSeen : row.1 ∈ out
    · simp only [hSeen, if_true, not_le.mpr hOut, if_false]
      exact ih hOut
    · simp only [hSeen, if_false, List.length_append, List.length_cons, List.length_nil,
        Nat.zero_add, List.map_cons]
      obtain ⟨room, hRoom⟩ := Nat.exists_eq_add_of_lt hOut
      have hLeft : limit - out.length = room + 1 := by omega
      rw [hLeft, List.take_succ_cons]
      by_cases hFull : limit ≤ out.length + 1
      · have hZero : room = 0 := by omega
        have hEnough : limit ≤ out.length + ((Groups.firstRows (out ++ [row.1]) page).length + 1) := by
          omega
        rw [if_pos hFull, hZero, List.take_zero]
        simp only [hEnough, decide_true]
      · have hMore : (out ++ [row.1]).length < limit := by
          rw [List.length_append, List.length_singleton]
          omega
        rw [if_neg hFull, ih hMore, List.length_append, List.length_singleton, List.append_assoc,
          List.singleton_append, Nat.add_assoc, Nat.add_comm 1, show limit - (out.length + 1) = room by omega]

/-- The senders of a full page, and of a page that holds all rows, are the first groups. -/
theorem isTop_of_page (query : DescendingQuery rows) {limit fetchLimit : Nat} (hLimit : 0 < limit)
    (hEnd : (addRows limit [] ((query.order fetchLimit).take fetchLimit)).1 = true ∨
      ((query.order fetchLimit).take fetchLimit).length < fetchLimit) :
    Groups.IsTop rows limit (addRows limit [] ((query.order fetchLimit).take fetchLimit)).2 := by
  obtain ⟨hPerm, hSorted⟩ := Groups.firstRows_groups (query.sorted fetchLimit)
  refine ⟨_, hPerm.trans (Groups.groupMax_perm (query.perm fetchLimit)), hSorted, ?_⟩
  rw [@addRows_eq limit [] hLimit] at hEnd ⊢
  rw [List.nil_append, List.length_nil, Nat.sub_zero, ← List.map_take]
  rcases hEnd with hFull | hAll
  · rw [List.length_nil, Nat.zero_add] at hFull
    obtain ⟨rest, hRest⟩ := Groups.firstRows_take (query.order fetchLimit) fetchLimit
    rw [← hRest, List.take_append_of_le_length (of_decide_eq_true hFull)]
  · rw [List.take_of_length_le]
    rw [List.length_take] at hAll
    omega

/-! ## The pages -/

/-- With no limit on the senders the pages are empty, and the loop does not end. -/
theorem scanPages_zero (query : DescendingQuery rows) (maxFetch fuel : Nat) :
    scanPages query 0 maxFetch fuel 0 = none := by
  induction fuel with
  | zero => rfl
  | succ fuel ih =>
    rw [scanPages, if_pos (Nat.zero_le _)]
    simpa [addRows] using ih

theorem isTop_of_scanPages {query : DescendingQuery rows} {limit maxFetch fuel fetchLimit : Nat}
    {out : List Address} (hLimit : 0 < limit)
    (h : scanPages query limit maxFetch fuel fetchLimit = some (some out)) :
    Groups.IsTop rows limit out := by
  induction fuel generalizing fetchLimit with
  | zero => cases h
  | succ fuel ih =>
    have hPage := @isTop_of_page _ query limit fetchLimit hLimit
    rw [scanPages] at h
    split at h
    · dsimp only at h
      split at h
      · next hFull =>
        cases h
        exact hPage (Or.inl hFull)
      · split at h
        · next hAll =>
          cases h
          exact hPage (Or.inr hAll)
        · exact ih h
    · cases h

/-- A scan with a positive limit and a positive first page ends. -/
theorem exists_scanPages (query : DescendingQuery rows) (limit maxFetch : Nat) {fetchLimit : Nat}
    (hPage : 0 < fetchLimit) :
    ∃ fuel result, scanPages query limit maxFetch fuel fetchLimit = some result := by
  obtain ⟨room, hRoom⟩ : ∃ room, maxFetch < fetchLimit + room := ⟨maxFetch + 1, by omega⟩
  -- the pages double, so the room below the limit shrinks
  induction room using Nat.strong_induction_on generalizing fetchLimit with
  | _ room ih =>
    by_cases hLe : fetchLimit ≤ maxFetch
    · obtain ⟨fuel, result, hRest⟩ := @ih (room - fetchLimit) (by omega) (fetchLimit * 2)
        (by omega) (by omega)
      refine ⟨fuel + 1, ?_⟩
      rw [scanPages, if_pos hLe]
      dsimp only
      split
      · exact ⟨_, rfl⟩
      · split
        · exact ⟨_, rfl⟩
        · exact ⟨result, hRest⟩
    · exact ⟨1, none, by rw [scanPages, if_neg hLe]⟩

/-- Whatever the multipliers of the pages, a list that the scan returns is the list of the query with
groups: the senders with the largest maxima, under some order of equal ones. -/
theorem collectTopVictimAddressesByScan_isTop (mult : ScanMultipliers)
    (edges : Table.Rows EdgeKey EdgeRow) (hacker : Address) (minEdgeSats : Option Int)
    (query : DescendingQuery (paymentsTo edges hacker minEdgeSats)) (fuel limit : Nat)
    (out : List Address)
    (h : collectTopVictimAddressesByScan mult query fuel limit = some (some out)) :
    Groups.IsTop (paymentsTo edges hacker minEdgeSats) limit out := by
  obtain rfl | hLimit := Nat.eq_zero_or_pos limit
  · rw [collectTopVictimAddressesByScan, Nat.zero_mul, Nat.zero_mul, scanPages_zero] at h
    cases h
  · exact isTop_of_scanPages hLimit h

/-- Two payments of one victim and a larger one of another. -/
def threePayments : Table.Rows EdgeKey EdgeRow :=
  ((AList.insert ⟨name "v", name "h", name "t"⟩ ⟨5, .inToHacker, none, none, none, none⟩ ∅).insert
    ⟨name "v", name "h", name "u"⟩ ⟨7, .inToHacker, none, none, none, none⟩).insert
    ⟨name "w", name "h", name "u"⟩ ⟨9, .inToHacker, none, none, none, none⟩

def threePaymentsQuery : DescendingQuery (paymentsTo threePayments (name "h") none) where
  order _ := [(name "w", 9), (name "v", 7), (name "v", 5)]
  perm _ := by decide +kernel
  sorted _ := by
    unfold Groups.Descending
    decide

theorem collectTopVictimAddressesByScan_isTop_three :
    Groups.IsTop (paymentsTo threePayments (name "h") none) 2 [name "w", name "v"] :=
  collectTopVictimAddressesByScan_isTop {} threePayments (name "h") none threePaymentsQuery 1 2
    [name "w", name "v"] (by decide +kernel)

end Bloodhound.Store.TopVictims
