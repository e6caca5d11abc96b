import Bloodhound.Lib.Latest
import Bloodhound.Store.ActivitySummary

/-!
# OP_RETURN texts of addresses

`resolveOpReturnForAddress` shows an address the text of its latest spend that has one, and a
downstream address that is no victim also the text of the latest transaction that funds it.
Both lookups read the latest `3 * 200` rows of the address. `resolveOpReturnForAddresses` reads
for a chunk of `n` addresses the latest `n * 3 * 200` rows of all of them, so the rows of a busy
address may leave another one without its own, and an address may also get more than alone.
-/

namespace Bloodhound.Store.OpReturnLookup

open ActivitySummary (d1InClauseChunkSize)
open Latest (distinctUpTo addUpTo Finds)

/-! ## Queries -/

abbrev EdgeEntry : Type := (_ : EdgeKey) × EdgeRow

/-- The rows of `edges` in the orders in which the indexes on the two addresses yield them; rows
that a query leaves tied come in that order. -/
structure EdgeScan (edges : Table.Rows EdgeKey EdgeRow) where
  byFrom : List EdgeEntry
  byTo : List EdgeEntry
  perm_byFrom : byFrom.Perm edges.entries
  perm_byTo : byTo.Perm edges.entries

def opReturnSpendTxLimit : Nat := 200

def opReturnGraphLabelMaxChars : Nat := 48

def opReturnDisplayDelimiter : String := " · "

section Queries
variable (db : Db)

/-- `coalesce(block_height, 0)`. -/
def rowHeight (e : EdgeEntry) : Nat := ((db.transactions.lookup e.1.txid).bind (·.blockHeight)).getD 0

/-- The time of the transaction, else of the edge; a row without a time is before all others. -/
def rowTime (e : EdgeEntry) : Nat :=
  (((db.transactions.lookup e.1.txid).bind (·.blockTime)).or e.2.blockTime).elim 0 (· + 1)

/-- The order of the queries: the greater height first, then the later time. -/
def latestFirst (e f : EdgeEntry) : Prop :=
  rowHeight db f < rowHeight db e ∨ rowHeight db f = rowHeight db e ∧ rowTime db f ≤ rowTime db e

instance : DecidableRel (latestFirst db) := fun _ _ => inferInstanceAs (Decidable (_ ∨ _ ∧ _))

instance : IsTrans EdgeEntry (latestFirst db) where
  trans e f g hef hfg := by
    unfold latestFirst at *
    omega

instance : Std.Total (latestFirst db) where
  total e f := by
    unfold latestFirst
    omega

/-- The latest rows with a property, up to a limit. -/
def selectLatest (scan : List EdgeEntry) (p : EdgeEntry → Bool) (limit : Nat) : List EdgeEntry :=
  ((scan.filter p).insertionSort (latestFirst db)).take limit

/-- The rows of a payment by a hacker that is not a refund or dust of a victim. -/
def isIncoming (e : EdgeEntry) : Bool :=
  e.2.direction = .outFromHacker && e.2.edgeKind ≠ some .victimDust && e.2.edgeKind ≠ some .victimRefund

variable (scan : EdgeScan db.edges)

def listSpendTxidsOrderedForAddresses (spenderAddresses : List Address) (limit : Nat) : List Txid :=
  let rows := (chunkArray d1InClauseChunkSize spenderAddresses.eraseDups).flatMap fun chunk =>
    selectLatest db scan.byFrom (fun e => e.1.fromAddress ∈ chunk) (max (limit * 3) limit)
  distinctUpTo limit [] ((rows.insertionSort (latestFirst db)).map (·.1.txid))

def listIncomingOutFromHackerTxids (address : Address) (limit : Nat) : List Txid :=
  distinctUpTo limit [] ((selectLatest db scan.byTo (fun e => e.1.toAddress = address && isIncoming e)
    (max (limit * 3) limit)).map (·.1.txid))

/-- The loop over the rows of all addresses. -/
def addRow (owner : EdgeEntry → Address) (limitPer : Nat) (byAddr : Address → List Txid)
    (e : EdgeEntry) : Address → List Txid :=
  Function.update byAddr (owner e) (addUpTo limitPer (byAddr (owner e)) e.1.txid)

/-- The shared query of the two lookups by address. -/
def selectChunk (edges : List EdgeEntry) (owner : EdgeEntry → Address) (p : EdgeEntry → Bool)
    (limitPer : Nat) (chunk : List Address) : List EdgeEntry :=
  selectLatest db edges (fun e => decide (owner e ∈ chunk) && p e)
    (max (limitPer * 3) limitPer * chunk.length)

/-- What the two lookups by address have in common; an address without rows has no list. -/
def txidsByAddress (edges : List EdgeEntry) (owner : EdgeEntry → Address) (p : EdgeEntry → Bool)
    (addresses : List Address) (limitPer : Nat) : Address → List Txid :=
  let rows := (chunkArray d1InClauseChunkSize addresses.eraseDups).flatMap
    (selectChunk db edges owner p limitPer)
  (rows.insertionSort (latestFirst db)).foldl (addRow owner limitPer) fun _ => []

def listSpendTxidsByAddress (spenderAddresses : List Address) (limitPer : Nat) :
    Address → List Txid :=
  txidsByAddress db scan.byFrom (·.1.fromAddress) (fun _ => true) spenderAddresses limitPer

def listIncomingOutFromHackerTxidsByAddress (addresses : List Address) (limitPer : Nat) :
    Address → List Txid :=
  txidsByAddress db scan.byTo (·.1.toAddress) isIncoming addresses limitPer

/-- The text of a transaction that is displayed. -/
def opReturnDisplay (txid : Txid) : Option String :=
  ((db.transactions.lookup txid).bind (·.opReturnDisplay)).filter (· ≠ "")

def getOpReturnDisplayByTxids (txids : List Txid) (txid : Txid) : Option String :=
  if txid ∈ txids then opReturnDisplay db txid else none

def isKnownVictimAddress (address : Address) : Bool :=
  db.edges.entries.any fun e => e.1.fromAddress = address && e.2.direction = .inToHacker

def filterKnownVictimAddresses (addresses : List Address) : List Address :=
  (chunkArray d1InClauseChunkSize addresses.eraseDups).flatMap fun chunk =>
    ((db.edges.entries.filter fun e => e.1.fromAddress ∈ chunk && e.2.direction = .inToHacker).map
      (·.1.fromAddress)).eraseDups

def isDownstream (address : Address) : Bool :=
  (db.addresses.lookup address).any (·.role = .downstream)

end Queries

/-! ## Segments -/

inductive SegmentKind where
  | own
  | incoming
  deriving DecidableEq

structure OpReturnSegment where
  text : String
  txid : Txid
  kind : SegmentKind
  deriving DecidableEq

structure OpReturnResult where
  opReturn : Option String := none
  opReturnTruncated : Bool := false
  opReturnTxid : Option Txid := none
  deriving DecidableEq

/-- The length of a text in UTF-16 code units. -/
def jsLength (text : String) : Nat :=
  (text.toList.map fun c => if 0x10000 ≤ c.toNat then 2 else 1).sum

def opReturnTruncatedFlag (text : String) : Bool := opReturnGraphLabelMaxChars < jsLength text

def combineOpReturnSegments (segments : List OpReturnSegment) : OpReturnResult :=
  let opReturn := String.intercalate opReturnDisplayDelimiter (segments.map (·.text))
  { opReturn := some opReturn
    opReturnTruncated := opReturnTruncatedFlag opReturn
    opReturnTxid := ((segments.find? (·.kind = .own)).or segments.head?).map (·.txid) }

/-- `dedupeOpReturnSegments`, after the texts that were seen. -/
def dedupeFrom : List String → List OpReturnSegment → List OpReturnSegment
  | _, [] => []
  | seen, segment :: segments =>
    if segment.text ∈ seen then dedupeFrom seen segments
    else segment :: dedupeFrom (segment.text :: seen) segments

def dedupeOpReturnSegments (segments : List OpReturnSegment) : List OpReturnSegment :=
  dedupeFrom [] segments

/-- The loop that adds a segment for the first transaction with a text. -/
def firstSegment (displays : Txid → Option String) (kind : SegmentKind) (txids : List Txid) :
    List OpReturnSegment :=
  (txids.findSome? fun txid => (displays txid).map fun text => ⟨text, txid, kind⟩).toList

/-- The result for the segments of an address that are not deduplicated yet. -/
def resultOf (segments : List OpReturnSegment) : OpReturnResult :=
  if dedupeOpReturnSegments segments = [] then {}
  else combineOpReturnSegments (dedupeOpReturnSegments segments)

/-! ## Resolution -/

section Resolution
variable (db : Db) (scan : EdgeScan db.edges)

def resolveOpReturnFromSpenders (spenderAddresses : List Address) : List OpReturnSegment :=
  let txids := listSpendTxidsOrderedForAddresses db scan spenderAddresses opReturnSpendTxLimit
  firstSegment (getOpReturnDisplayByTxids db txids) .own txids

def resolveOpReturnSegments (address : Address) : List OpReturnSegment :=
  let own := resolveOpReturnFromSpenders db scan [address]
  let incoming :=
    if isDownstream db address && !isKnownVictimAddress db address then
      let txids := listIncomingOutFromHackerTxids db scan address opReturnSpendTxLimit
      firstSegment (getOpReturnDisplayByTxids db txids) .incoming txids
    else []
  dedupeOpReturnSegments (own ++ incoming)

def resolveOpReturnForAddress (address : Address) : OpReturnResult :=
  let segments := resolveOpReturnSegments db scan address
  if segments ≠ [] then combineOpReturnSegments segments
  else if (db.addresses.lookup address).any (·.isFlaggedHacker) then
    let downstream := ((scan.byFrom.filter fun e =>
      e.1.fromAddress = address && e.2.direction = .outFromHacker).map (·.1.toAddress)).eraseDups
    (downstream.findSome? fun a =>
      let segments := resolveOpReturnSegments db scan a
      if segments ≠ [] then some (combineOpReturnSegments segments) else none).getD {}
  else {}

/-- The downstream addresses of a list that are no victims. -/
def incomingCandidates (unique : List Address) : List Address :=
  let downstreamAddrs := unique.filter (isDownstream db)
  let victims := filterKnownVictimAddresses db downstreamAddrs
  downstreamAddrs.filter (· ∉ victims)

/-- `resolveOpReturnForAddresses`: the map of the results. -/
def resolveOpReturnForAddresses (addresses : List Address) (address : Address) :
    Option OpReturnResult :=
  let unique := addresses.eraseDups
  let spendByAddr := listSpendTxidsByAddress db scan unique opReturnSpendTxLimit
  let spendDisplays := getOpReturnDisplayByTxids db (unique.flatMap spendByAddr)
  let candidates := incomingCandidates db unique
  let incomingByAddr := listIncomingOutFromHackerTxidsByAddress db scan candidates opReturnSpendTxLimit
  let inDisplays := getOpReturnDisplayByTxids db (candidates.flatMap incomingByAddr)
  if address ∈ unique then
    let own := firstSegment spendDisplays .own (spendByAddr address)
    let incoming :=
      if address ∈ candidates then firstSegment inDisplays .incoming (incomingByAddr address) else []
    some (resultOf (own ++ incoming))
  else none

end Resolution

/-! ## The rows of one owner -/

section Owner
variable {db : Db} {edges : List EdgeEntry} {owner : EdgeEntry → Address} {p : EdgeEntry → Bool}

/-- The rows of an owner, the latest first. -/
def ownRows (db : Db) (edges : List EdgeEntry) (owner : EdgeEntry → Address) (p : EdgeEntry → Bool)
    (a : Address) : List EdgeEntry :=
  (edges.filter fun e => decide (owner e = a) && p e).insertionSort (latestFirst db)

/-- The chunk of an address in the queries for a list. -/
def chunkOf (addresses : List Address) (a : Address) : List Address :=
  ((chunkArray d1InClauseChunkSize addresses.eraseDups).find? (a ∈ ·)).getD []

/-- The rows that the query for its chunk lists for an address. -/
def sharedWindow (db : Db) (edges : List EdgeEntry) (owner : EdgeEntry → Address)
    (p : EdgeEntry → Bool) (limitPer : Nat) (addresses : List Address) (a : Address) : Nat :=
  (selectChunk db edges owner p limitPer (chunkOf addresses a)).countP fun e => decide (owner e = a)

theorem filter_selectChunk {limitPer : Nat} {chunk : List Address} {a : Address} (ha : a ∈ chunk) :
    (selectChunk db edges owner p limitPer chunk).filter (fun e => decide (owner e = a)) =
      (ownRows db edges owner p a).take
        ((selectChunk db edges owner p limitPer chunk).countP fun e => decide (owner e = a)) := by
  rw [selectChunk, selectLatest, Latest.filter_take, Latest.filter_insertionSort, List.filter_filter,
    ownRows]
  congr 3
  funext e
  by_cases he : owner e = a
  · simp [he, ha]
  · simp [he]

theorem owner_mem_of_mem_selectChunk {limitPer : Nat} {chunk : List Address} {e : EdgeEntry}
    (h : e ∈ selectChunk db edges owner p limitPer chunk) : owner e ∈ chunk := by
  have hMem := (List.mem_insertionSort _).mp (List.mem_of_mem_take h)
  have hOwner := (Bool.and_eq_true _ _).mp (List.mem_filter.mp hMem).2
  exact of_decide_eq_true hOwner.1

/-- Among chunks without a common member, one has the rows of an owner. -/
theorem filter_flatMap_chunks {rows : List Address → List EdgeEntry}
    (hRows : ∀ chunk, ∀ e ∈ rows chunk, owner e ∈ chunk) {a : Address} {chunks : List (List Address)}
    (hNodup : chunks.flatten.Nodup) (ha : a ∈ chunks.flatten) :
    a ∈ (chunks.find? (a ∈ ·)).getD [] ∧
      (chunks.flatMap rows).filter (fun e => decide (owner e = a)) =
        (rows ((chunks.find? (a ∈ ·)).getD [])).filter fun e => decide (owner e = a) := by
  have hNone : ∀ chunk, a ∉ chunk → (rows chunk).filter (fun e => decide (owner e = a)) = [] := by
    intro chunk hChunk
    refine List.filter_eq_nil_iff.mpr fun e he hOwner => hChunk ?_
    exact of_decide_eq_true hOwner ▸ hRows chunk e he
  induction chunks with
  | nil => cases ha
  | cons chunk chunks ih =>
    rw [List.flatten_cons, List.nodup_append] at hNodup
    obtain ⟨-, hTail, hApart⟩ := hNodup
    rw [List.flatMap_cons, List.filter_append]
    by_cases hChunk : a ∈ chunk
    · have hRest : (chunks.flatMap rows).filter (fun e => decide (owner e = a)) = [] := by
        rw [List.filter_flatMap, List.flatMap_eq_nil_iff]
        intro other hOther
        refine hNone other fun hMem => ?_
        exact hApart a hChunk a (List.mem_flatten.mpr ⟨other, hOther, hMem⟩) rfl
      rw [List.find?_cons_of_pos (by simpa using hChunk), Option.getD_some, hRest, List.append_nil]
      exact ⟨hChunk, rfl⟩
    · rw [List.find?_cons_of_neg (by simpa using hChunk), hNone chunk hChunk, List.nil_append]
      refine ih hTail ?_
      rw [List.flatten_cons, List.mem_append] at ha
      exact ha.resolve_left hChunk

/-- The loop over all rows keeps for an owner what the loop over its rows keeps. -/
theorem foldl_addRow (limitPer : Nat) (rows : List EdgeEntry) (byAddr : Address → List Txid)
    (a : Address) :
    rows.foldl (addRow owner limitPer) byAddr a =
      ((rows.filter fun e => decide (owner e = a)).map (·.1.txid)).foldl (addUpTo limitPer)
        (byAddr a) := by
  induction rows generalizing byAddr with
  | nil => rfl
  | cons e rows ih =>
    rw [List.foldl_cons, ih]
    by_cases he : owner e = a
    · rw [List.filter_cons_of_pos (by simpa using he), List.map_cons, List.foldl_cons, addRow, he,
        Function.update_self]
    · rw [List.filter_cons_of_neg (by simpa using he), addRow,
        Function.update_of_ne fun hEq => he hEq.symm]

theorem sorted_ownRows (a : Address) : (ownRows db edges owner p a).Pairwise (latestFirst db) :=
  List.pairwise_insertionSort _ _

/-- A lookup by address works on the rows that the query for the chunk lists for the address. -/
theorem txidsByAddress_eq {limitPer : Nat} (hLimit : 0 < limitPer) {addresses : List Address}
    {a : Address} (ha : a ∈ addresses) :
    txidsByAddress db edges owner p addresses limitPer a =
      distinctUpTo limitPer [] (((ownRows db edges owner p a).map (·.1.txid)).take
        (sharedWindow db edges owner p limitPer addresses a)) := by
  have hNodup : (chunkArray d1InClauseChunkSize addresses.eraseDups).flatten.Nodup := by
    rw [flatten_chunkArray]
    exact Tally.nodup_eraseDups addresses
  have hMem : a ∈ (chunkArray d1InClauseChunkSize addresses.eraseDups).flatten := by
    rw [flatten_chunkArray]
    exact List.mem_eraseDups.mpr ha
  obtain ⟨hChunk, hRows⟩ := @filter_flatMap_chunks owner (selectChunk db edges owner p limitPer)
    (fun _ _ he => owner_mem_of_mem_selectChunk he) a _ hNodup hMem
  change a ∈ chunkOf addresses a at hChunk
  change _ = (selectChunk db edges owner p limitPer (chunkOf addresses a)).filter _ at hRows
  rw [txidsByAddress, foldl_addRow, Latest.filter_insertionSort, hRows, filter_selectChunk hChunk,
    ((sorted_ownRows a).sublist (List.take_sublist _ _)).insertionSort_eq,
    Latest.foldl_addUpTo hLimit, List.map_take]
  rfl

end Owner

/-! ## What an address gets -/

section Address
variable {db : Db} {scan : EdgeScan db.edges}

def isNonHacker (db : Db) (a : Address) : Bool :=
  (db.addresses.lookup a).all fun row => !row.isFlaggedHacker

def isDisplayed (db : Db) (txid : Txid) : Bool := (opReturnDisplay db txid).isSome

/-- The transactions of the spends of an address, one for each row, the latest first. -/
def spendTxids (db : Db) (scan : EdgeScan db.edges) (a : Address) : List Txid :=
  (ownRows db scan.byFrom (·.1.fromAddress) (fun _ => true) a).map (·.1.txid)

/-- The transactions that fund an address, if their texts are shown. -/
def fundingTxids (db : Db) (scan : EdgeScan db.edges) (a : Address) : List Txid :=
  if isDownstream db a && !isKnownVictimAddress db a then
    (ownRows db scan.byTo (·.1.toAddress) isIncoming a).map (·.1.txid)
  else []

def firstDisplayed (db : Db) (txids : List Txid) : Option Txid := txids.find? (isDisplayed db)

/-- The rows that a query for one address reads. -/
def aloneWindow : Nat := max (opReturnSpendTxLimit * 3) opReturnSpendTxLimit

/-- The rows of spends that the query for its chunk lists for an address. -/
def spendWindow (db : Db) (scan : EdgeScan db.edges) (addresses : List Address) (a : Address) : Nat :=
  sharedWindow db scan.byFrom (·.1.fromAddress) (fun _ => true) opReturnSpendTxLimit
    addresses.eraseDups a

def fundingWindow (db : Db) (scan : EdgeScan db.edges) (addresses : List Address) (a : Address) :
    Nat :=
  sharedWindow db scan.byTo (·.1.toAddress) isIncoming opReturnSpendTxLimit
    (incomingCandidates db addresses.eraseDups) a

theorem chunkArray_singleton (a : Address) :
    chunkArray d1InClauseChunkSize [a].eraseDups = [[a]] := by
  rw [List.eraseDups_cons]
  rfl

theorem listSpendTxidsOrderedForAddresses_singleton (a : Address) (limit : Nat) :
    listSpendTxidsOrderedForAddresses db scan [a] limit =
      distinctUpTo limit [] (((spendTxids db scan a)).take (max (limit * 3) limit)) := by
  have hRows : selectLatest db scan.byFrom (fun e => e.1.fromAddress ∈ [a]) (max (limit * 3) limit) =
      (ownRows db scan.byFrom (·.1.fromAddress) (fun _ => true) a).take (max (limit * 3) limit) := by
    rw [selectLatest, ownRows]
    congr 3
    funext e
    simp
  rw [listSpendTxidsOrderedForAddresses, chunkArray_singleton, List.flatMap_cons, List.flatMap_nil,
    List.append_nil, hRows,
    ((sorted_ownRows a).sublist (List.take_sublist _ _)).insertionSort_eq, List.map_take]
  rfl

theorem listIncomingOutFromHackerTxids_eq {a : Address}
    (hShown : (isDownstream db a && !isKnownVictimAddress db a) = true) (limit : Nat) :
    listIncomingOutFromHackerTxids db scan a limit =
      distinctUpTo limit [] ((fundingTxids db scan a).take (max (limit * 3) limit)) := by
  rw [listIncomingOutFromHackerTxids, fundingTxids, if_pos hShown, ← List.map_take]
  rfl

/-! ## Displayed segments -/

/-- The segment that a lookup adds for the transactions it found. -/
theorem firstSegment_eq (displays : Txid → Option String) (kind : SegmentKind) (txids : List Txid) :
    firstSegment displays kind txids =
      ((txids.find? fun t => (displays t).isSome).bind fun t =>
        (displays t).map fun text => (⟨text, t, kind⟩ : OpReturnSegment)).toList := by
  rw [firstSegment]
  congr 1
  induction txids with
  | nil => rfl
  | cons t txids ih =>
    rw [List.findSome?_cons, List.find?_cons]
    cases hText : displays t with
    | none => exact ih
    | some text => simp [hText]

/-- Texts that are read for a list of transactions serve every part of it. -/
theorem firstSegment_getOpReturnDisplayByTxids {txids all : List Txid} (h : txids ⊆ all)
    (kind : SegmentKind) :
    firstSegment (getOpReturnDisplayByTxids db all) kind txids =
      firstSegment (opReturnDisplay db) kind txids := by
  rw [firstSegment, firstSegment]
  congr 1
  induction txids with
  | nil => rfl
  | cons t txids ih =>
    obtain ⟨hHead, hTail⟩ := List.cons_subset.mp h
    rw [List.findSome?_cons, List.findSome?_cons, ih hTail, getOpReturnDisplayByTxids, if_pos hHead]

/-- The segment of a displayed transaction. -/
def segmentOf (db : Db) (kind : SegmentKind) (txid : Option Txid) : List OpReturnSegment :=
  (txid.bind fun t => (opReturnDisplay db t).map fun text => ⟨text, t, kind⟩).toList

theorem firstSegment_distinctUpTo {limit : Nat} (hLimit : 0 < limit) (kind : SegmentKind)
    (window : Nat) (txids : List Txid) :
    firstSegment (opReturnDisplay db) kind (distinctUpTo limit [] (txids.take window)) =
      if Finds (isDisplayed db) limit window txids then
        segmentOf db kind (firstDisplayed db txids)
      else [] := by
  have hFind := @Latest.find_distinctUpTo _ _ (isDisplayed db) _ hLimit window txids
  rw [firstSegment_eq]
  change (((distinctUpTo limit [] (txids.take window)).find? (isDisplayed db)).bind _).toList = _
  rw [hFind]
  split
  · rfl
  · rfl

/-- What the lookups find for an address, given their windows. -/
def foundSegments (db : Db) (scan : EdgeScan db.edges) (a : Address) (spendWindow fundingWindow : Nat) :
    List OpReturnSegment :=
  (if Finds (isDisplayed db) opReturnSpendTxLimit spendWindow (spendTxids db scan a) then
      segmentOf db .own (firstDisplayed db (spendTxids db scan a)) else []) ++
    if Finds (isDisplayed db) opReturnSpendTxLimit fundingWindow (fundingTxids db scan a) then
      segmentOf db .incoming (firstDisplayed db (fundingTxids db scan a)) else []

theorem not_finds_nil (limit window : Nat) (shown : Txid → Bool) : ¬ Finds shown limit window [] :=
  fun h => Nat.not_lt_zero _ h.1

theorem resolveOpReturnSegments_eq (a : Address) :
    resolveOpReturnSegments db scan a =
      dedupeOpReturnSegments (foundSegments db scan a aloneWindow aloneWindow) := by
  have hLimit : 0 < opReturnSpendTxLimit := by decide
  rw [resolveOpReturnSegments, foundSegments, resolveOpReturnFromSpenders]
  dsimp only
  rw [firstSegment_getOpReturnDisplayByTxids (List.Subset.refl _),
    listSpendTxidsOrderedForAddresses_singleton, firstSegment_distinctUpTo hLimit]
  congr 2
  split
  next hShown =>
    rw [firstSegment_getOpReturnDisplayByTxids (List.Subset.refl _),
      listIncomingOutFromHackerTxids_eq hShown, firstSegment_distinctUpTo hLimit]
    rfl
  next hShown =>
    rw [fundingTxids, if_neg hShown, if_neg (not_finds_nil _ _ _)]

theorem resolveOpReturnForAddress_eq {a : Address} (h : isNonHacker db a = true) :
    resolveOpReturnForAddress db scan a = resultOf (foundSegments db scan a aloneWindow aloneWindow) := by
  have hFlag : (db.addresses.lookup a).any (·.isFlaggedHacker) = false := by
    rw [isNonHacker] at h
    cases hRow : db.addresses.lookup a with
    | none => rfl
    | some row => simpa [hRow] using h
  rw [resolveOpReturnForAddress, resolveOpReturnSegments_eq, resultOf]
  dsimp only
  rw [hFlag, ite_not, if_neg Bool.false_ne_true]

/-- The victims among a list are the victims one by one. -/
theorem mem_filterKnownVictimAddresses {addresses : List Address} {a : Address} :
    a ∈ filterKnownVictimAddresses db addresses ↔
      a ∈ addresses ∧ isKnownVictimAddress db a = true := by
  rw [filterKnownVictimAddresses, List.mem_flatMap, isKnownVictimAddress, List.any_eq_true]
  constructor
  · rintro ⟨chunk, hChunk, hMem⟩
    obtain ⟨e, he, rfl⟩ := List.mem_map.mp (List.mem_eraseDups.mp hMem)
    obtain ⟨heMem, hRow⟩ := List.mem_filter.mp he
    rw [Bool.and_eq_true, decide_eq_true_eq] at hRow
    refine ⟨?_, e, heMem, by simpa using hRow.2⟩
    have hFlat := List.mem_flatten.mpr ⟨chunk, hChunk, hRow.1⟩
    rw [flatten_chunkArray] at hFlat
    exact List.mem_eraseDups.mp hFlat
  · rintro ⟨hMem, e, he, hRow⟩
    rw [Bool.and_eq_true, decide_eq_true_eq] at hRow
    have hFlat : a ∈ (chunkArray d1InClauseChunkSize addresses.eraseDups).flatten := by
      rw [flatten_chunkArray]
      exact List.mem_eraseDups.mpr hMem
    obtain ⟨chunk, hChunk, haChunk⟩ := List.mem_flatten.mp hFlat
    refine ⟨chunk, hChunk, List.mem_eraseDups.mpr (List.mem_map.mpr ⟨e, ?_, hRow.1⟩)⟩
    rw [List.mem_filter, Bool.and_eq_true, decide_eq_true_eq, hRow.1]
    exact ⟨he, haChunk, hRow.2⟩

theorem mem_incomingCandidates {unique : List Address} {a : Address} :
    a ∈ incomingCandidates db unique ↔
      a ∈ unique ∧ (isDownstream db a && !isKnownVictimAddress db a) = true := by
  rw [incomingCandidates]
  simp only [List.mem_filter, mem_filterKnownVictimAddresses, decide_not, Bool.not_eq_true',
    decide_eq_false_iff_not, Bool.and_eq_true]
  constructor
  · rintro ⟨⟨hMem, hDown⟩, hVictim⟩
    refine ⟨hMem, hDown, ?_⟩
    exact Bool.eq_false_of_not_eq_true fun h => hVictim ⟨⟨hMem, hDown⟩, h⟩
  · rintro ⟨hMem, hDown, hVictim⟩
    exact ⟨⟨hMem, hDown⟩, fun h => by simp [h.2] at hVictim⟩

theorem listSpendTxidsByAddress_eq {addresses : List Address} {a : Address} (ha : a ∈ addresses) :
    listSpendTxidsByAddress db scan addresses.eraseDups opReturnSpendTxLimit a =
      distinctUpTo opReturnSpendTxLimit []
        ((spendTxids db scan a).take (spendWindow db scan addresses a)) :=
  txidsByAddress_eq (by decide) (List.mem_eraseDups.mpr ha)

theorem listIncomingOutFromHackerTxidsByAddress_eq {addresses : List Address} {a : Address}
    (ha : a ∈ incomingCandidates db addresses.eraseDups) :
    listIncomingOutFromHackerTxidsByAddress db scan (incomingCandidates db addresses.eraseDups)
        opReturnSpendTxLimit a =
      distinctUpTo opReturnSpendTxLimit []
        ((fundingTxids db scan a).take (fundingWindow db scan addresses a)) := by
  rw [fundingTxids, if_pos (mem_incomingCandidates.mp ha).2]
  exact txidsByAddress_eq (by decide) ha

theorem resolveOpReturnForAddresses_eq {addresses : List Address} {a : Address}
    (ha : a ∈ addresses) :
    resolveOpReturnForAddresses db scan addresses a =
      some (resultOf (foundSegments db scan a (spendWindow db scan addresses a)
        (fundingWindow db scan addresses a))) := by
  have hLimit : 0 < opReturnSpendTxLimit := by decide
  have hUnique := List.mem_eraseDups.mpr ha
  rw [resolveOpReturnForAddresses]
  dsimp only
  rw [if_pos hUnique, foundSegments,
    firstSegment_getOpReturnDisplayByTxids fun t ht => List.mem_flatMap.mpr ⟨a, hUnique, ht⟩,
    listSpendTxidsByAddress_eq ha, firstSegment_distinctUpTo hLimit]
  congr 3
  split
  next hCandidate =>
    rw [firstSegment_getOpReturnDisplayByTxids fun t ht => List.mem_flatMap.mpr ⟨a, hCandidate, ht⟩,
      listIncomingOutFromHackerTxidsByAddress_eq hCandidate, firstSegment_distinctUpTo hLimit]
  next hOther =>
    have hNone : fundingTxids db scan a = [] :=
      if_neg fun hShown => hOther (mem_incomingCandidates.mpr ⟨hUnique, hShown⟩)
    rw [hNone, if_neg (not_finds_nil _ _ _)]

/-! ## Comparison -/

theorem resultOf_nil : resultOf [] = {} := rfl

theorem resultOf_singleton (segment : OpReturnSegment) :
    resultOf [segment] =
      ⟨some segment.text, opReturnTruncatedFlag segment.text, some segment.txid⟩ := by
  have hDedupe : dedupeOpReturnSegments [segment] = [segment] := by
    rw [dedupeOpReturnSegments, dedupeFrom, if_neg (List.not_mem_nil), dedupeFrom]
  rw [resultOf, hDedupe, if_neg (List.cons_ne_nil _ _), combineOpReturnSegments]
  have hText : String.intercalate opReturnDisplayDelimiter ([segment].map (·.text)) = segment.text :=
    rfl
  have hFirst : ([segment].find? fun x => decide (x.kind = .own)).or [segment].head? = some segment := by
    rw [List.find?_cons]
    split <;> rfl
  rw [hText, hFirst, Option.map_some]

theorem resultOf_pair {own incoming : OpReturnSegment} (hOwn : own.kind = .own) :
    resultOf [own, incoming] =
      if own.text = incoming.text then resultOf [own]
      else
        ⟨some (own.text ++ opReturnDisplayDelimiter ++ incoming.text),
          opReturnTruncatedFlag (own.text ++ opReturnDisplayDelimiter ++ incoming.text),
          some own.txid⟩ := by
  split
  next hSame =>
    have hDedupe : dedupeOpReturnSegments [own, incoming] = dedupeOpReturnSegments [own] := by
      simp [dedupeOpReturnSegments, dedupeFrom, hSame]
    rw [resultOf, hDedupe, resultOf]
  next hDiffer =>
    have hDedupe : dedupeOpReturnSegments [own, incoming] = [own, incoming] := by
      simp [dedupeOpReturnSegments, dedupeFrom, Ne.symm hDiffer]
    rw [resultOf, hDedupe, if_neg (List.cons_ne_nil _ _), combineOpReturnSegments]
    have hText : String.intercalate opReturnDisplayDelimiter ([own, incoming].map (·.text)) =
        own.text ++ opReturnDisplayDelimiter ++ incoming.text := rfl
    rw [hText, List.find?_cons_of_pos (by simpa using hOwn), Option.some_or, Option.map_some]

theorem append_ne_left (x y : String) : x ++ opReturnDisplayDelimiter ++ y ≠ x := by
  intro h
  have hLength := congrArg String.length h
  rw [String.length_append, String.length_append] at hLength
  have hDelimiter : opReturnDisplayDelimiter.length = 3 := by decide
  omega

theorem append_ne_right (x y : String) : x ++ opReturnDisplayDelimiter ++ y ≠ y := by
  intro h
  have hLength := congrArg String.length h
  rw [String.length_append, String.length_append] at hLength
  have hDelimiter : opReturnDisplayDelimiter.length = 3 := by decide
  omega

/-- The segments that two lookups find of a spend's and a funding transaction's. -/
def pick (own incoming : OpReturnSegment) (findsOwn findsIncoming : Bool) : List OpReturnSegment :=
  (if findsOwn then [own] else []) ++ if findsIncoming then [incoming] else []

/-- Two lookups of the same two segments give the same result exactly if they find the same ones,
if both find the spend's and the texts are equal, or if the segments are of one transaction
and both lookups find one. -/
theorem resultOf_pick_eq_iff {own incoming : OpReturnSegment} (hOwn : own.kind = .own)
    (hText : own.txid = incoming.txid → own.text = incoming.text)
    (findsOwn findsIncoming findsOwn' findsIncoming' : Bool) :
    resultOf (pick own incoming findsOwn findsIncoming) =
        resultOf (pick own incoming findsOwn' findsIncoming') ↔
      findsOwn = findsOwn' ∧ findsIncoming = findsIncoming' ∨
        findsOwn = true ∧ findsOwn' = true ∧ own.text = incoming.text ∨
        own.txid = incoming.txid ∧ (findsOwn = true ∨ findsIncoming = true) ∧
          (findsOwn' = true ∨ findsIncoming' = true) := by
  have hLeft := append_ne_left own.text incoming.text
  have hRight := append_ne_right own.text incoming.text
  have hPair := @resultOf_pair own incoming hOwn
  by_cases hSame : own.text = incoming.text
  · rw [if_pos hSame] at hPair
    cases findsOwn <;> cases findsIncoming <;> cases findsOwn' <;> cases findsIncoming' <;>
      simp [pick, resultOf_nil, resultOf_singleton, hPair, hSame]
    all_goals exact eq_comm
  · have hTxid : own.txid ≠ incoming.txid := fun h => hSame (hText h)
    rw [if_neg hSame] at hPair
    cases findsOwn <;> cases findsIncoming <;> cases findsOwn' <;> cases findsIncoming' <;>
      simp [pick, resultOf_nil, resultOf_singleton, hPair, hSame, hTxid, Ne.symm hSame, hLeft, hRight,
        hLeft.symm, hRight.symm]

/-! ## The batch and the single lookup -/

/-- Two pairs of windows serve an address alike: the first displayed transaction of its spends
comes within the window and before the cap in both or in none, likewise for its funding
transactions. Or both find the spends' one and the texts of the two are equal, or the two are
one transaction, and each pair finds it one way or the other. -/
def LookupsAgree (db : Db) (scan : EdgeScan db.edges) (a : Address)
    (spendWindow fundingWindow spendWindow' fundingWindow' : Nat) : Prop :=
  let finds window txids := Finds (isDisplayed db) opReturnSpendTxLimit window txids
  let spends := spendTxids db scan a
  let fundings := fundingTxids db scan a
  let spend := firstDisplayed db spends
  let funding := firstDisplayed db fundings
  ((finds spendWindow spends ↔ finds spendWindow' spends) ∧
      (finds fundingWindow fundings ↔ finds fundingWindow' fundings)) ∨
    (finds spendWindow spends ∧ finds spendWindow' spends ∧
      spend.bind (opReturnDisplay db) = funding.bind (opReturnDisplay db)) ∨
    (spend = funding ∧ (finds spendWindow spends ∨ finds fundingWindow fundings) ∧
      (finds spendWindow' spends ∨ finds fundingWindow' fundings))

/-- The lookups for an address find the same alone, within its own latest rows, and in a list,
within the rows that the queries for its chunks list for it. -/
def WindowsAgree (db : Db) (scan : EdgeScan db.edges) (addresses : List Address) (a : Address) : Prop :=
  LookupsAgree db scan a (spendWindow db scan addresses a) (fundingWindow db scan addresses a)
    aloneWindow aloneWindow

/-- Either a list has a displayed transaction, or no lookup finds one. -/
theorem displayed_cases (db : Db) (txids : List Txid) :
    (∃ t text, firstDisplayed db txids = some t ∧ opReturnDisplay db t = some text) ∨
      (firstDisplayed db txids = none ∧
        ∀ limit window, ¬ Finds (isDisplayed db) limit window txids) := by
  cases hFirst : firstDisplayed db txids with
  | none =>
    refine Or.inr ⟨rfl, fun limit window h => ?_⟩
    obtain ⟨t, hMem, hShown⟩ := List.findIdx_lt_length.mp h.1
    exact List.find?_eq_none.mp hFirst t hMem hShown
  | some t =>
    have hDisplayed : isDisplayed db t = true := List.find?_some hFirst
    obtain ⟨text, hText⟩ := Option.isSome_iff_exists.mp hDisplayed
    exact Or.inl ⟨t, text, rfl, hText⟩

theorem foundSegments_eq_pick {a : Address} {spendWindow fundingWindow : Nat}
    {own incoming : OpReturnSegment}
    (hOwn : Finds (isDisplayed db) opReturnSpendTxLimit spendWindow (spendTxids db scan a) →
      segmentOf db .own (firstDisplayed db (spendTxids db scan a)) = [own])
    (hIncoming : Finds (isDisplayed db) opReturnSpendTxLimit fundingWindow (fundingTxids db scan a) →
      segmentOf db .incoming (firstDisplayed db (fundingTxids db scan a)) = [incoming]) :
    foundSegments db scan a spendWindow fundingWindow =
      pick own incoming
        (decide (Finds (isDisplayed db) opReturnSpendTxLimit spendWindow (spendTxids db scan a)))
        (decide (Finds (isDisplayed db) opReturnSpendTxLimit fundingWindow (fundingTxids db scan a))) := by
  rw [foundSegments, pick]
  simp only [decide_eq_true_eq]
  congr 1
  · split
    next h => exact hOwn h
    next => rfl
  · split
    next h => exact hIncoming h
    next => rfl

theorem segmentOf_eq {kind : SegmentKind} {t : Txid} {text : String}
    (hText : opReturnDisplay db t = some text) : segmentOf db kind (some t) = [⟨text, t, kind⟩] := by
  rw [segmentOf, Option.bind_some, hText]
  rfl

theorem resultOf_foundSegments_eq_iff (a : Address) (spendWindow fundingWindow spendWindow'
    fundingWindow' : Nat) :
    resultOf (foundSegments db scan a spendWindow fundingWindow) =
        resultOf (foundSegments db scan a spendWindow' fundingWindow') ↔
      LookupsAgree db scan a spendWindow fundingWindow spendWindow' fundingWindow' := by
  rw [LookupsAgree]
  dsimp only
  rcases displayed_cases db (spendTxids db scan a) with ⟨t, x, hSpend, hX⟩ | ⟨hSpend, hNoSpend⟩
  · rcases displayed_cases db (fundingTxids db scan a) with
      ⟨u, y, hFunding, hY⟩ | ⟨hFunding, hNoFunding⟩
    · have hPick (v w : Nat) := @foundSegments_eq_pick db scan a v w ⟨x, t, .own⟩ ⟨y, u, .incoming⟩
        (fun _ => hSpend ▸ segmentOf_eq hX) (fun _ => hFunding ▸ segmentOf_eq hY)
      have hText : t = u → x = y := fun h => Option.some.inj (hX.symm.trans (h ▸ hY))
      rw [hPick, hPick, resultOf_pick_eq_iff rfl hText, hSpend, hFunding, Option.bind_some,
        Option.bind_some, hX, hY]
      simp only [decide_eq_decide, decide_eq_true_eq, Option.some_inj]
    · have hPick (v w : Nat) := @foundSegments_eq_pick db scan a v w ⟨x, t, .own⟩ ⟨x, t, .incoming⟩
        (fun _ => hSpend ▸ segmentOf_eq hX) (fun h => absurd h (hNoFunding _ _))
      rw [hPick, hPick, @resultOf_pick_eq_iff ⟨x, t, .own⟩ ⟨x, t, .incoming⟩ rfl fun _ => rfl,
        hSpend, hFunding]
      simp only [hNoFunding, decide_eq_decide, decide_eq_true_eq, Option.bind_some, Option.bind_none, hX]
      tauto
  · rcases displayed_cases db (fundingTxids db scan a) with
      ⟨u, y, hFunding, hY⟩ | ⟨hFunding, hNoFunding⟩
    · have hPick (v w : Nat) := @foundSegments_eq_pick db scan a v w ⟨y, u, .own⟩ ⟨y, u, .incoming⟩
        (fun h => absurd h (hNoSpend _ _)) (fun _ => hFunding ▸ segmentOf_eq hY)
      rw [hPick, hPick, @resultOf_pick_eq_iff ⟨y, u, .own⟩ ⟨y, u, .incoming⟩ rfl fun _ => rfl,
        hSpend, hFunding]
      simp only [hNoSpend, decide_eq_decide, decide_eq_true_eq, Option.bind_some, Option.bind_none, hY]
      tauto
    · simp [foundSegments, hNoSpend, hNoFunding]

/-- The batch gives every address that is no hacker what the single lookup gives it, exactly if the
windows agree for every such address. -/
theorem resolveOpReturnForAddresses_agrees_iff (db : Db) (scan : EdgeScan db.edges)
    (addresses : List Address) :
    (∀ a ∈ addresses, isNonHacker db a = true →
        resolveOpReturnForAddresses db scan addresses a =
          some (resolveOpReturnForAddress db scan a)) ↔
      ∀ a ∈ addresses, isNonHacker db a = true → WindowsAgree db scan addresses a := by
  refine forall₃_congr fun a ha hNonHacker => ?_
  rw [resolveOpReturnForAddresses_eq ha, resolveOpReturnForAddress_eq hNonHacker, Option.some_inj]
  exact resultOf_foundSegments_eq_iff a _ _ _ _

end Address

/-! ## A transaction with many outputs -/

section ManyOutputs

/-- Distinct addresses. -/
def payee (i : Nat) : Address :=
  ⟨String.ofList (List.replicate (i + 1) 'p'), by
    intro h
    have hLength := congrArg String.length h
    simp at hLength⟩

theorem payee_injective : Function.Injective payee := by
  intro i j h
  have hLength := congrArg (fun a : Address => a.1.length) h
  simpa [payee] using hLength

def payment (txid : Txid) (i : Nat) : EdgeEntry :=
  ⟨⟨name "spender", payee i, txid⟩, ⟨1, .outFromHacker, none, none, none, none⟩⟩

/-- The outputs of a later transaction without a text, as many as one query reads, and an output of
an earlier one with a text. -/
def manyOutputs : List EdgeEntry :=
  (List.range aloneWindow).map (payment (name "later")) ++ [payment (name "earlier") 0]

theorem nodupKeys_manyOutputs : manyOutputs.NodupKeys := by
  have hKeys : manyOutputs.keys =
      (List.range aloneWindow).map (fun i => (payment (name "later") i).1) ++
        [(payment (name "earlier") 0).1] := by
    rw [List.keys, manyOutputs, List.map_append, List.map_map]
    rfl
  rw [List.NodupKeys, hKeys, List.nodup_append]
  refine ⟨List.Nodup.map (fun i j h => payee_injective ?_) List.nodup_range, List.nodup_singleton _, ?_⟩
  · exact congrArg EdgeKey.toAddress h
  · intro key hKey other hOther hEq
    obtain ⟨i, -, rfl⟩ := List.mem_map.mp hKey
    rw [List.mem_singleton.mp hOther] at hEq
    exact absurd (congrArg EdgeKey.txid hEq) (show name "later" ≠ name "earlier" by decide)

def manyOutputsDb : Db :=
  { Db.initial with
    edges := ⟨manyOutputs, nodupKeys_manyOutputs⟩
    transactions := ((∅ : Table.Rows Txid TransactionRow).insert (name "later")
      ⟨some 2, none, none, none⟩).insert (name "earlier") ⟨some 1, none, none, some "text"⟩ }

def manyOutputsScan : EdgeScan manyOutputsDb.edges where
  byFrom := manyOutputs
  byTo := manyOutputs
  perm_byFrom := List.Perm.refl _
  perm_byTo := List.Perm.refl _

theorem mem_manyOutputs {e : EdgeEntry} (h : e ∈ manyOutputs) : e.1.fromAddress = name "spender" := by
  rcases List.mem_append.mp h with hLater | hEarlier
  · obtain ⟨i, -, rfl⟩ := List.mem_map.mp hLater
    rfl
  · rw [List.mem_singleton.mp hEarlier]
    rfl

theorem rowHeight_later (i : Nat) : rowHeight manyOutputsDb (payment (name "later") i) = 2 := by
  change rowHeight manyOutputsDb (payment (name "later") 0) = 2
  decide +kernel

theorem rowHeight_earlier (i : Nat) : rowHeight manyOutputsDb (payment (name "earlier") i) = 1 := by
  change rowHeight manyOutputsDb (payment (name "earlier") 0) = 1
  decide +kernel

theorem sorted_manyOutputs : manyOutputs.Pairwise (latestFirst manyOutputsDb) := by
  rw [manyOutputs, List.pairwise_append]
  refine ⟨List.pairwise_map.mpr (List.pairwise_of_forall fun i j => ?_), List.pairwise_singleton _ _, ?_⟩
  · exact Or.inr ⟨by rw [rowHeight_later, rowHeight_later], le_rfl⟩
  · intro e he f hf
    obtain ⟨i, -, rfl⟩ := List.mem_map.mp he
    rw [List.mem_singleton.mp hf]
    exact Or.inl (by rw [rowHeight_later, rowHeight_earlier]; decide)

theorem spendTxids_manyOutputs :
    spendTxids manyOutputsDb manyOutputsScan (name "spender") =
      List.replicate aloneWindow (name "later") ++ [name "earlier"] := by
  have hAll : manyOutputs.filter (fun e => decide (e.1.fromAddress = name "spender") && true) =
      manyOutputs := by
    refine List.filter_eq_self.mpr fun e he => ?_
    rw [Bool.and_true]
    exact decide_eq_true (mem_manyOutputs he)
  have hLater : ((List.range aloneWindow).map (payment (name "later"))).map (·.1.txid) =
      List.replicate aloneWindow (name "later") := by
    rw [List.map_map]
    refine List.eq_replicate_iff.mpr ⟨by rw [List.length_map, List.length_range], fun t ht => ?_⟩
    obtain ⟨i, -, rfl⟩ := List.mem_map.mp ht
    rfl
  rw [spendTxids, ownRows, show manyOutputsScan.byFrom = manyOutputs from rfl, hAll,
    sorted_manyOutputs.insertionSort_eq, manyOutputs, List.map_append, hLater, List.map_singleton]
  rfl

/-- With a second address, the query for the chunk reads every row. -/
theorem spendWindow_manyOutputs :
    spendWindow manyOutputsDb manyOutputsScan [name "spender", name "other"] (name "spender") =
      aloneWindow + 1 := by
  have hChunk : chunkOf [name "spender", name "other"].eraseDups (name "spender") =
      [name "spender", name "other"] := by decide +kernel
  have hAll : manyOutputs.filter (fun e =>
      decide (e.1.fromAddress ∈ [name "spender", name "other"]) && true) = manyOutputs := by
    refine List.filter_eq_self.mpr fun e he => ?_
    rw [Bool.and_true, mem_manyOutputs he]
    decide
  have hLength : manyOutputs.length = aloneWindow + 1 := by
    rw [manyOutputs, List.length_append, List.length_map, List.length_range, List.length_singleton]
  have hRows : selectChunk manyOutputsDb manyOutputsScan.byFrom (·.1.fromAddress) (fun _ => true)
      opReturnSpendTxLimit [name "spender", name "other"] = manyOutputs := by
    rw [selectChunk, selectLatest, show manyOutputsScan.byFrom = manyOutputs from rfl, hAll,
      sorted_manyOutputs.insertionSort_eq]
    refine List.take_of_length_le ?_
    rw [hLength]
    decide
  rw [spendWindow, sharedWindow, hChunk, hRows, ← hLength, List.countP_eq_length]
  exact fun e he => decide_eq_true (mem_manyOutputs he)

theorem findIdx_replicate_append {shown : Txid → Bool} {t u : Txid} (ht : shown t = false)
    (hu : shown u = true) (n : Nat) : (List.replicate n t ++ [u]).findIdx shown = n := by
  induction n with
  | zero => simp [hu]
  | succ n ih => rw [List.replicate_succ, List.cons_append, List.findIdx_cons, ht, cond_false, ih]

theorem finds_manyOutputs (window : Nat) :
    Finds (isDisplayed manyOutputsDb) opReturnSpendTxLimit window
        (spendTxids manyOutputsDb manyOutputsScan (name "spender")) ↔ aloneWindow < window := by
  have hLater : isDisplayed manyOutputsDb (name "later") = false := by decide +kernel
  have hEarlier : isDisplayed manyOutputsDb (name "earlier") = true := by decide +kernel
  have hIndex := findIdx_replicate_append hLater hEarlier aloneWindow
  have hBefore : (List.replicate aloneWindow (name "later") ++ [name "earlier"]).take aloneWindow =
      List.replicate aloneWindow (name "later") := by
    rw [List.take_left']
    exact List.length_replicate
  rw [Finds, spendTxids_manyOutputs, hIndex, hBefore, List.toFinset_replicate_of_ne_zero (by decide),
    List.length_append, List.length_replicate]
  refine ⟨fun h => h.2.1, fun h => ⟨Nat.lt_succ_self _, h, ?_⟩⟩
  rw [Finset.card_singleton]
  decide

/-- The spender's lookup alone reads outputs of the later transaction only; in a list with another
address it reads the earlier one too, and finds its text. -/
theorem resolveOpReturnForAddresses_differs :
    ¬ ∀ a ∈ [name "spender", name "other"], isNonHacker manyOutputsDb a = true →
        resolveOpReturnForAddresses manyOutputsDb manyOutputsScan [name "spender", name "other"] a =
          some (resolveOpReturnForAddress manyOutputsDb manyOutputsScan a) := by
  intro h
  have hSame := h (name "spender") List.mem_cons_self (by decide +kernel)
  rw [resolveOpReturnForAddresses_eq List.mem_cons_self,
    resolveOpReturnForAddress_eq (by decide +kernel), Option.some_inj,
    resultOf_foundSegments_eq_iff] at hSame
  have hFundings : fundingTxids manyOutputsDb manyOutputsScan (name "spender") = [] := by
    rw [fundingTxids, if_neg]
    decide +kernel
  have hAlone := (finds_manyOutputs aloneWindow).not.mpr (lt_irrefl _)
  have hShared := (finds_manyOutputs (aloneWindow + 1)).mpr (Nat.lt_succ_self _)
  rw [LookupsAgree, spendWindow_manyOutputs, hFundings] at hSame
  dsimp only at hSame
  simp [hAlone, hShared, not_finds_nil] at hSame

end ManyOutputs

end Bloodhound.Store.OpReturnLookup
