import Bloodhound.Graph.Computed
import Bloodhound.Graph.TraceCore
import Bloodhound.Indexer.SpendFanout
import Bloodhound.Lib.Runs
import Bloodhound.Store.Raises

/-!
# The floor of the expansion

A downstream address below the expand floor is stored as `skippedMin`, and becomes `pending` when its
inbound total reaches the floor. Chunks and fan-outs write the crawl status before they raise the inbound
total, from the total they expect; what they raise it by is never more (`floorKept_throughout`). The
payments back to victims are the exception: they raise the total of an address whose status is left alone.
-/

namespace Bloodhound.Graph

open Bloodhound.Chain Bloodhound.Store Bloodhound.Indexer
open Journal Journal.Op

/-! ## The property -/

/-- No downstream address at or above the floor is skipped. -/
def FloorKept (floor : Int) (t : Table.Rows Address AddressRow) : Prop :=
  ∀ a row, t.lookup a = some row → row.role = .downstream → row.expandStatus = .skippedMin →
    row.inboundSats < floor

/-- The address is downstream and skipped. -/
def isHeldBack (t : Table.Rows Address AddressRow) (a : Address) : Bool :=
  (t.lookup a).any fun row => row.role = .downstream && row.expandStatus = .skippedMin

theorem isHeldBack_of_lookup {t : Table.Rows Address AddressRow} {a : Address} {row : AddressRow}
    (hRow : t.lookup a = some row) (hRole : row.role = .downstream) (hStatus : row.expandStatus = .skippedMin) :
    isHeldBack t a = true := by
  unfold isHeldBack
  rw [hRow, Option.any_some, hRole, hStatus]
  rfl

/-! ## Crawl statuses that are written -/

theorem lt_of_not_qualifies {inboundSats floor : Int} (h : qualifiesForExpand inboundSats floor = false) :
    inboundSats < floor := by
  unfold qualifiesForExpand at h
  simp only [Bool.or_eq_false_iff, decide_eq_false_iff_not] at h
  omega

/-- The status after an upsert is `skippedMin` only below the floor, unless it was neither given nor
`skippedMin` before. -/
theorem lt_of_written_skippedMin {existing : Option ExpandStatus} {inboundSats floor : Int}
    {before : ExpandStatus} (hBefore : before = .skippedMin → existing = some .skippedMin ∨ inboundSats < floor)
    (h : (expandStatusToWrite existing inboundSats floor).getD before = .skippedMin) :
    inboundSats < floor := by
  cases hQualifies : qualifiesForExpand inboundSats floor with
  | false => exact lt_of_not_qualifies hQualifies
  | true =>
    unfold expandStatusToWrite at h
    rw [hQualifies] at h
    cases existing with
    | none => cases h
    | some status =>
      cases status with
      | skippedMin => cases h
      | pending | queued | expanding | backfilling | expanded | maxDepth =>
        exact (hBefore h).resolve_left nofun

/-! ## Upserts, then additions -/

section Lists
variable {floor : Int} {v : CoreView} {rows : List AddressUpsertData} {gain : Address → Int}

/-- The upserts give each address the status for the total that it is expected to reach. -/
def Expects (floor : Int) (v : CoreView) (gain : Address → Int) (data : AddressUpsertData) : Prop :=
  data.expandStatus = expandStatusToWrite ((v.addresses.lookup data.address).map (·.expandStatus))
    (v.inboundAt data.address + gain data.address) floor

theorem inboundAt_of_lookup {a : Address} {row : AddressRow} (h : v.addresses.lookup a = some row) :
    v.inboundAt a = row.inboundSats := by
  unfold CoreView.inboundAt
  rw [h]
  rfl

/-- One upsert, of an address that may have been upserted before. -/
theorem expected_upsert {data : AddressUpsertData} {before : Option AddressRow} {again : Prop}
    (hData : Expects floor v gain data)
    (hFirst : ¬ again → before = v.addresses.lookup data.address)
    (hAgain : again → ∀ row, before = some row → row.inboundSats = v.inboundAt data.address ∧
      (row.expandStatus = .skippedMin → v.inboundAt data.address + gain data.address < floor))
    (hHas : again → before.isSome) :
    (before.elim data.inserted data.updated).inboundSats = v.inboundAt data.address ∧
      ((before.elim data.inserted data.updated).expandStatus = .skippedMin →
        v.inboundAt data.address + gain data.address < floor) := by
  have hExpected : ∀ status : ExpandStatus, (status = .skippedMin →
      (v.addresses.lookup data.address).map (·.expandStatus) = some .skippedMin ∨
        v.inboundAt data.address + gain data.address < floor) →
      data.expandStatus.getD status = .skippedMin → v.inboundAt data.address + gain data.address < floor := by
    intro status hStatus h
    rw [hData] at h
    exact lt_of_written_skippedMin hStatus h
  by_cases hMem : again
  · obtain ⟨row, hRow⟩ := Option.isSome_iff_exists.mp (hHas hMem)
    obtain ⟨hInbound, hStatus⟩ := hAgain hMem row hRow
    rw [hRow]
    exact ⟨hInbound, hExpected _ fun h => Or.inr (hStatus h)⟩
  · have hBefore := hFirst hMem
    cases hRow : v.addresses.lookup data.address with
    | none =>
      rw [hBefore, hRow]
      refine ⟨?_, hExpected _ nofun⟩
      unfold CoreView.inboundAt
      rw [hRow]
      rfl
    | some row =>
      rw [hBefore, hRow]
      refine ⟨(inboundAt_of_lookup hRow).symm, hExpected _ fun h => Or.inl ?_⟩
      rw [hRow, Option.map_some, h]

/-- After such upserts an address keeps its total, and is skipped only if the expected total is below the
floor. -/
theorem lookup_replay_expected (hRows : ∀ data ∈ rows, Expects floor v gain data) (a : Address) :
    (a ∉ rows.map (·.address) → (replay (upsertStmts rows) v).addresses.lookup a = v.addresses.lookup a) ∧
      (a ∈ rows.map (·.address) → ∀ row, (replay (upsertStmts rows) v).addresses.lookup a = some row →
        row.inboundSats = v.inboundAt a ∧
          (row.expandStatus = .skippedMin → v.inboundAt a + gain a < floor)) := by
  induction rows using List.reverseRecOn with
  | nil => exact ⟨fun _ => rfl, fun h => nomatch h⟩
  | append_singleton rows data ih =>
    obtain ⟨ihOut, ihIn⟩ := ih fun d hd => hRows d (List.mem_append_left _ hd)
    have hData := hRows data (List.mem_append_right _ List.mem_cons_self)
    have hLookup : (replay (upsertStmts (rows ++ [data])) v).addresses.lookup a =
        if a = data.address then
          some (((replay (upsertStmts rows) v).addresses.lookup a).elim data.inserted data.updated)
        else (replay (upsertStmts rows) v).addresses.lookup a := by
      unfold upsertStmts
      rw [List.map_append, replay_append]
      exact lookup_upsert data _ a
    rw [hLookup]
    by_cases hSame : a = data.address
    · subst hSame
      rw [if_pos rfl]
      refine ⟨fun h => absurd (by simp) h, fun _ row hRow => ?_⟩
      cases hRow
      exact expected_upsert hData ihOut ihIn fun hMem => by
        obtain ⟨d, hd, hAddress⟩ := List.mem_map.mp hMem
        exact hAddress ▸ has_upsertStmts hd v
    · rw [if_neg hSame]
      refine ⟨fun h => ihOut fun hMem => h (by simp [hMem]), fun h => ihIn ?_⟩
      simpa [hSame] using h

/-- Upserts that expect a gain, then additions of at most that gain: the floor is kept at every point. The
additions must not reach an address that is held back and gets no status. -/
theorem floorKept_throughout {adds : List Core} (h : FloorKept floor v.addresses) (hGain : ∀ a, 0 ≤ gain a)
    (hRows : ∀ data ∈ rows, Expects floor v gain data) (hAdds : ∀ i ∈ adds, i.OfBatch)
    (hRaise : ∀ a ∈ rows.map (·.address), raiseAt a adds ≤ gain a)
    (hOther : ∀ a, a ∉ rows.map (·.address) → isHeldBack v.addresses a = true → raiseAt a adds = 0) :
    Throughout (fun w : CoreView => FloorKept floor w.addresses) (upsertStmts rows ++ adds) v := by
  refine Throughout.append ?_ ?_
  · -- a status is written before the total changes
    intro q hq
    obtain ⟨rows', hPrefix, rfl⟩ := List.prefix_map_iff.mp hq
    have hRows' : ∀ data ∈ rows', Expects floor v gain data := fun data hd => hRows data (hPrefix.subset hd)
    intro a row hRow hRole hStatus
    obtain ⟨hOut, hIn⟩ := lookup_replay_expected hRows' a
    by_cases hMem : a ∈ rows'.map (·.address)
    · obtain ⟨hInbound, hBelow⟩ := hIn hMem row hRow
      have hGainAt := hGain a
      have hLt := hBelow hStatus
      omega
    · exact h a row ((hOut hMem).symm.trans hRow) hRole hStatus
  · intro q hq a row hRow hRole hStatus
    have hQ : ∀ i ∈ q, i.OfBatch := fun i hi => hAdds i (hq.subset hi)
    have hAdded : inboundSum a q ≤ raiseAt a adds := inboundSum_le_of_prefix hq
    rw [lookup_replay_ofBatch hQ] at hRow
    obtain ⟨old, hOld, rfl⟩ := Option.map_eq_some_iff.mp hRow
    obtain ⟨hOut, hIn⟩ := lookup_replay_expected hRows a
    change old.inboundSats + inboundSum a q < floor
    by_cases hMem : a ∈ rows.map (·.address)
    · obtain ⟨hInbound, hBelow⟩ := hIn hMem old hOld
      have hLe := hRaise a hMem
      have hLt := hBelow hStatus
      omega
    · rw [hOut hMem] at hOld
      have hZero := hOther a hMem (isHeldBack_of_lookup hOld hRole hStatus)
      have hLt := h a old hOld hRole hStatus
      omega

end Lists

/-! ## Chunks -/

section Chunk
variable {opts : HackTraceApplyChunkOptions} {applyMeta : HackTraceApplyMeta} {victim : Address → Bool}
  {slice : List HackTraceEdgeDraft}

/-- The sum of the outputs to an address. -/
def paidOut (a : Address) (slice : List HackTraceEdgeDraft) : Int :=
  ((slice.filter fun e => e.direction = .outFromHacker && e.toAddress = a).map (·.amountSats)).sum

theorem paidOut_filter_add (a : Address) (p : HackTraceEdgeDraft → Bool) (slice : List HackTraceEdgeDraft) :
    paidOut a (slice.filter p) + paidOut a (slice.filter (!p ·)) = paidOut a slice := by
  unfold paidOut
  rw [← List.sum_append, ← List.map_append, ← List.filter_append]
  exact (((List.filter_append_perm p slice).filter _).map _).sum_eq

theorem total_downstreamAmounts {a : Address} (hVictim : victim a = false) :
    Tally.total a (downstreamAmounts victim slice) = paidOut a slice := by
  unfold Tally.total downstreamAmounts paidOut
  rw [List.filter_map, List.map_map, List.filter_filter]
  have hKeep : ∀ e : HackTraceEdgeDraft, ((decide (e.toAddress = a)) && isDownstreamEdge victim e) =
      (decide (e.direction = .outFromHacker) && decide (e.toAddress = a)) := by
    intro e
    unfold isDownstreamEdge
    by_cases hTarget : e.toAddress = a
    · rw [hTarget, hVictim]
      simp
    · simp [hTarget]
  exact congrArg (fun l => (l.map fun e : HackTraceEdgeDraft => e.amountSats).sum)
    (List.filter_congr fun e _ => hKeep e)

theorem outSats_edgeRows (a : Address) : outSats a (edgeRows opts applyMeta victim slice) =
    paidOut a (slice.filter fun e => displayFloor opts e ≤ e.amountSats) := by
  unfold outSats outRows edgeRows Tally.total paidOut
  rw [List.filter_map, List.map_map, List.filter_map, List.filter_map, List.map_map, List.filter_filter]
  refine congrArg (fun l => (l.map fun e : HackTraceEdgeDraft => e.amountSats).sum)
    (List.filter_congr fun e _ => ?_)
  exact Bool.and_comm _ _

/-- The outputs to an address outside the victims are credited or stored, each once. -/
theorem credited_add_stored {a : Address} (hVictim : victim a = false) :
    Tally.total a (skippedInbound opts victim slice) + outSats a (edgeRows opts applyMeta victim slice) =
      Tally.total a (downstreamAmounts victim slice) := by
  have hStored : (slice.filter fun e => displayFloor opts e ≤ e.amountSats) =
      slice.filter fun e => !decide (e.amountSats < displayFloor opts e) := by
    refine List.filter_congr fun e _ => ?_
    rw [← decide_not, decide_eq_decide, not_lt]
  unfold skippedInbound
  rw [Tally.total_tally, total_downstreamAmounts hVictim, total_downstreamAmounts hVictim, outSats_edgeRows,
    hStored]
  exact paidOut_filter_add a _ slice

theorem nonneg_of_mem_downstreamAmounts (hAmounts : ∀ e ∈ slice, 0 ≤ e.amountSats) :
    ∀ p ∈ downstreamAmounts victim slice, 0 ≤ p.2 := by
  intro p hp
  obtain ⟨e, he, rfl⟩ := List.mem_map.mp hp
  exact hAmounts e (List.mem_of_mem_filter he)

/-- What a range adds to an address: nothing more than the amounts that its rows expect. -/
theorem raiseAt_slice_le {env : Env} {t : Table.Rows EdgeKey EdgeRow} (hEdges : AmountsNonneg t)
    (hAmounts : ∀ e ∈ slice, 0 ≤ e.amountSats) (a : Address) :
    raiseAt a ((skippedInbound opts victim slice).flatMap inboundStmts ++
        batchStmts env (edgeRows opts applyMeta victim slice) t) ≤
      Tally.total a (skippedInbound opts victim slice) + outSats a (edgeRows opts applyMeta victim slice) := by
  have hCredits : 0 ≤ Tally.total a (skippedInbound opts victim slice) := by
    unfold skippedInbound
    rw [Tally.total_tally]
    exact Tally.total_nonneg (nonneg_of_mem_downstreamAmounts fun e he =>
      hAmounts e (List.mem_of_mem_filter he))
  have hRows : ∀ row ∈ edgeRows opts applyMeta victim slice, 0 ≤ row.amountSats := by
    intro row hRow
    obtain ⟨e, he, rfl⟩ := List.mem_map.mp hRow
    exact hAmounts e (List.mem_of_mem_filter he)
  have hKeys : ((skippedInbound opts victim slice).map Prod.fst).Nodup := Tally.nodup_tally _
  rw [raiseAt_append, raiseAt_inboundStmts a hKeys, max_eq_right hCredits]
  exact Int.add_le_add_left (raiseAt_batchStmts_le hRows hEdges env a) _

theorem expects_downstreamRow {v : CoreView} {data : AddressUpsertData}
    (h : data ∈ downstreamRows victim (expandContext v.addresses) opts.minExpandSats slice) :
    Expects opts.minExpandSats v (Tally.total · (downstreamAmounts victim slice)) data := by
  obtain ⟨e, _, rfl⟩ := List.mem_map.mp h
  unfold Expects downstreamRow expandContext CoreView.inboundAt
  dsimp only
  rw [Option.map_map, Option.map_map]
  rfl

/-- A range keeps the floor, unless it stores a payment back to a victim that is held back. -/
theorem floorKept_sliceStmts {env : Env} {v : CoreView} (h : FloorKept opts.minExpandSats v.addresses)
    (hEdges : AmountsNonneg v.edges) (hAmounts : ∀ e ∈ slice, 0 ≤ e.amountSats)
    (hReturns : ∀ e ∈ slice, isVictimReturn (isVictimOf v.edges opts.flaggedHackers) e = true →
      opts.minExpandSats ≤ e.amountSats → isHeldBack v.addresses e.toAddress = false) :
    Throughout (fun w : CoreView => FloorKept opts.minExpandSats w.addresses)
      (sliceStmts env applyMeta opts slice v) v := by
  unfold sliceStmts
  dsimp only
  generalize hVictims : isVictimOf v.edges opts.flaggedHackers = victim at hReturns
  refine @floorKept_throughout _ _ _ (Tally.total · (downstreamAmounts victim slice)) _ h
    (fun a => Tally.total_nonneg (nonneg_of_mem_downstreamAmounts hAmounts))
    (fun data hData => expects_downstreamRow hData) ?_ (fun a ha => ?_) (fun a ha hHeld => ?_)
  · intro i hi
    rcases List.mem_append.mp hi with hi | hi
    · obtain ⟨e, _, he⟩ := List.mem_flatMap.mp hi
      exact ofBatch_inboundStmts i he
    · exact ofBatch_batchStmts i hi
  · obtain ⟨data, hData, rfl⟩ := List.mem_map.mp ha
    obtain ⟨e, he, rfl⟩ := List.mem_map.mp hData
    have hVictim : victim e.toAddress = false := by
      have hDown := (List.mem_filter.mp he).2
      unfold isDownstreamEdge at hDown
      simpa using (Bool.and_eq_true_iff.mp hDown).2
    exact (raiseAt_slice_le hEdges hAmounts _).trans_eq (credited_add_stored hVictim)
  · refine le_antisymm ((raiseAt_slice_le hEdges hAmounts a).trans_eq ?_) (raiseAt_nonneg _ _)
    cases hVictim : victim a with
    | false =>
      -- an output to the address would be among the rows
      rw [credited_add_stored hVictim]
      refine Tally.total_eq_zero fun hMem => ha ?_
      obtain ⟨p, hp, rfl⟩ := List.mem_map.mp hMem
      obtain ⟨e, he, rfl⟩ := List.mem_map.mp hp
      exact List.mem_map.mpr ⟨_, List.mem_map.mpr ⟨e, he, rfl⟩, rfl⟩
    | true =>
      have hCredits : Tally.total a (skippedInbound opts victim slice) = 0 := by
        unfold skippedInbound
        rw [Tally.total_tally]
        refine Tally.total_eq_zero fun hMem => ?_
        obtain ⟨p, hp, rfl⟩ := List.mem_map.mp hMem
        obtain ⟨e, he, rfl⟩ := List.mem_map.mp hp
        have hDown := (List.mem_filter.mp he).2
        unfold isDownstreamEdge at hDown
        rw [hVictim] at hDown
        simp at hDown
      have hStored : outSats a (edgeRows opts applyMeta victim slice) = 0 := by
        refine outSats_eq_zero fun row hRow hOut hTo => ?_
        obtain ⟨e, he, rfl⟩ := List.mem_map.mp hRow
        obtain ⟨he, hFloor⟩ := List.mem_filter.mp he
        change e.direction = .outFromHacker at hOut
        change e.toAddress = a at hTo
        subst hTo
        have hReturn : isVictimReturn victim e = true := by
          unfold isVictimReturn
          rw [hOut, hVictim]
          rfl
        unfold displayFloor at hFloor
        rw [hOut] at hFloor
        have hFree := hReturns e he hReturn (of_decide_eq_true hFloor)
        rw [hHeld] at hFree
        cases hFree
      rw [hCredits, hStored, add_zero]

end Chunk

/-! ## Victims -/

/-- An address that is downstream after the upsert of a victim was so before, with its status and total. -/
theorem lookup_victimRow {t : Table.Rows Address AddressRow} {a x : Address} {row : AddressRow}
    (h : ((AddressStmt.upsert (victimRow a)).exec t).lookup x = some row) (hRole : row.role = .downstream) :
    ∃ old, t.lookup x = some old ∧ old.role = .downstream ∧ old.expandStatus = row.expandStatus ∧
      old.inboundSats = row.inboundSats := by
  rw [lookup_upsert] at h
  split at h
  · cases hOld : t.lookup x with
    | none => rw [hOld] at h; cases h; cases hRole
    | some old =>
      rw [hOld] at h
      cases h
      refine ⟨old, rfl, ?_, rfl, rfl⟩
      by_contra hOther
      change (if (victimRow a).fenced old then old.role else .victim) = Role.downstream at hRole
      split at hRole
      · exact hOther hRole
      · cases hRole
  · exact ⟨row, h, hRole, rfl, rfl⟩

section Victims
variable {floor : Int} {input : HackTraceApplyInput} {opts : HackTraceApplyChunkOptions} {v : CoreView}

theorem mem_victimStmts {i : Core} (h : i ∈ victimStmts input opts) :
    ∃ a, i = .address (.upsert (victimRow a)) := by
  unfold victimStmts at h
  split at h
  · obtain ⟨data, hData, rfl⟩ := List.mem_map.mp h
    obtain ⟨a, _, rfl⟩ := List.mem_map.mp hData
    exact ⟨a, rfl⟩
  · cases h

theorem floorKept_victimStmts (h : FloorKept floor v.addresses) :
    Throughout (fun w : CoreView => FloorKept floor w.addresses) (victimStmts input opts) v := by
  refine throughout_of_inv (fun i hi w hw => ?_) h
  obtain ⟨a, rfl⟩ := mem_victimStmts hi
  intro x row hRow hRole hStatus
  obtain ⟨old, hOld, hOldRole, hOldStatus, hInbound⟩ := lookup_victimRow hRow hRole
  rw [← hInbound]
  exact hw x old hOld hOldRole (hOldStatus.trans hStatus)

theorem isHeldBack_victimStmts (a : Address) :
    isHeldBack (replay (victimStmts input opts) v).addresses a = true → isHeldBack v.addresses a = true := by
  apply replay_inv (P := fun w : CoreView => isHeldBack w.addresses a = true → isHeldBack v.addresses a = true)
    ?_ id
  intro i hi w hw hHeld
  obtain ⟨b, rfl⟩ := mem_victimStmts hi
  refine hw ?_
  obtain ⟨row, hRow, hBoth⟩ := (Option.any_eq_true _ _).mp hHeld
  simp only [Bool.and_eq_true, decide_eq_true_eq] at hBoth
  obtain ⟨old, hOld, hRole, hStatus, _⟩ := lookup_victimRow hRow hBoth.1
  exact isHeldBack_of_lookup hOld hRole (hStatus.trans hBoth.2)

end Victims

/-! ## Fan-outs -/

section Fanout
variable {env : Env} {v : CoreView} {tx : ChainTxDetail} {spender : Address} {hop : Nat}

theorem floorKept_setExpandProfile {floor : Int} (h : FloorKept floor v.addresses) (a : Address)
    (profile : ExpandProfile) :
    FloorKept floor (exec (Core.address (.setExpandProfile a profile)) v).addresses := by
  intro x row hRow hRole hStatus
  change (Table.modify _ _ v.addresses).lookup x = some row at hRow
  rw [Table.lookup_modify] at hRow
  split at hRow
  · obtain ⟨old, hOld, rfl⟩ := Option.map_eq_some_iff.mp hRow
    exact h x old hOld hRole hStatus
  · exact h x row hRow hRole hStatus

/-- The summary of a fan-out adds its total to its target, by a credit or by an edge. -/
theorem raiseAt_fanout_le {applyMeta : HackTraceApplyMeta} {primary : Address} {fanoutMeta : FanoutMeta}
    {t : Table.Rows EdgeKey EdgeRow} (hEdges : AmountsNonneg t) (hTotal : 0 ≤ fanoutMeta.totalOutSats)
    (a : Address) :
    raiseAt a (if fanoutMeta.totalOutSats < env.config.minExpandSats then
        inboundStmts (primary, fanoutMeta.totalOutSats)
      else batchStmts env [fanoutEdge applyMeta spender primary hop fanoutMeta] t) ≤
      Tally.total a [(primary, fanoutMeta.totalOutSats)] := by
  have hNonneg : 0 ≤ Tally.total a [(primary, fanoutMeta.totalOutSats)] :=
    Tally.total_nonneg fun e he => by rw [List.mem_singleton.mp he]; exact hTotal
  split
  · have hRaise := @raiseAt_inboundStmts a [(primary, fanoutMeta.totalOutSats)] (List.nodup_singleton _)
    rw [List.flatMap_cons, List.flatMap_nil, List.append_nil] at hRaise
    rw [hRaise, max_eq_right hNonneg]
  · exact raiseAt_batchStmts_le (fun row hRow => by rw [List.mem_singleton.mp hRow]; exact hTotal) hEdges env a

theorem floorKept_fanoutCoreStmts (h : FloorKept env.config.minExpandSats v.addresses)
    (hEdges : AmountsNonneg v.edges) :
    Throughout (fun w : CoreView => FloorKept env.config.minExpandSats w.addresses)
      (fanoutCoreStmts env tx spender hop v) v := by
  unfold fanoutCoreStmts
  cases hTop : (buildFanoutMeta env.config tx spender).topOutputs.head? with
  | none => exact throughout_of_inv (fun i hi => nomatch hi) h
  | some primary =>
    have hTotal : 0 < (buildFanoutMeta env.config tx spender).totalOutSats :=
      totalOutSats_pos fun hNil => by rw [hNil] at hTop; cases hTop
    generalize buildFanoutMeta env.config tx spender = fanoutMeta at hTotal
    rw [Option.toList_some, List.flatMap_cons, List.flatMap_nil, List.append_nil]
    have hStmts : Throughout (fun w : CoreView => FloorKept env.config.minExpandSats w.addresses)
        (fanoutStmts env ⟨tx.txid, blockTimeIso tx.status⟩ spender primary.1 hop fanoutMeta v) v := by
      refine @floorKept_throughout _ _ _ (Tally.total · [(primary.1, fanoutMeta.totalOutSats)]) _ h
        (fun a => Tally.total_nonneg fun e he => by rw [List.mem_singleton.mp he]; exact hTotal.le)
        (fun data hData => ?_) (fun i hi => ?_) (fun a _ => raiseAt_fanout_le hEdges hTotal.le a)
        (fun a ha _ => ?_)
      · rw [List.mem_singleton.mp hData]
        unfold Expects fanoutTargetRow expandContext CoreView.inboundAt
        dsimp only
        rw [Option.map_map, Option.map_map, Tally.total_cons, if_pos rfl, Tally.total_nil, add_zero]
        rfl
      · split at hi
        · exact ofBatch_inboundStmts i hi
        · exact ofBatch_batchStmts i hi
      · refine le_antisymm ((raiseAt_fanout_le hEdges hTotal.le a).trans_eq ?_) (raiseAt_nonneg _ _)
        exact Tally.total_eq_zero fun hMem => ha (by simpa [fanoutTargetRow] using hMem)
    refine hStmts.append (throughout_of_inv (fun i hi w hw => ?_) hStmts.last)
    rw [List.mem_singleton.mp hi]
    exact floorKept_setExpandProfile hw _ _

end Fanout

/-! ## Runs -/

/-- The arguments of a chunk. Like those of a computed list, no amount of its drafts is negative. -/
structure ChunkCall where
  applyMeta : HackTraceApplyMeta
  input : HackTraceApplyInput
  opts : HackTraceApplyChunkOptions
  nonneg : ∀ e ∈ input.flat, 0 ≤ e.amountSats

/-- The call for the list that is computed from a transaction. -/
def ChunkCall.ofTx (tx : ChainTxDetail) (spending : Option Spender) (maxGraphEdgesPerTx : Option Nat)
    (opts : HackTraceApplyChunkOptions) : ChunkCall where
  applyMeta := ⟨tx.txid, blockTimeIso tx.status⟩
  input :=
    let computed := computeHackTraceEdges tx opts.flaggedHackers spending maxGraphEdgesPerTx
    ⟨flattenHackTraceEdges computed, computed.victimAddresses⟩
  opts := opts
  nonneg _ h := (amount_pos h).le

/-- The options of the call; the floor is that of the configuration. -/
def ChunkCall.options (call : ChunkCall) (env : Env) : HackTraceApplyChunkOptions :=
  { call.opts with minExpandSats := env.config.minExpandSats }

def ChunkCall.slice (call : ChunkCall) (env : Env) : List HackTraceEdgeDraft :=
  chunkSlice call.input (call.options env)

inductive FloorStep where
  | chunk (call : ChunkCall)
  | fanout (tx : ChainTxDetail) (spender : Address) (hop : Nat)

def FloorStep.op (env : Env) : FloorStep → StoreM Unit
  | .chunk call => do
    let _ ← applyHackTraceEdgesChunk env call.applyMeta call.input (call.options env)
    pure ()
  | .fanout tx spender hop => applySpendFanoutSummary env tx spender hop

/-- The step stores no payment back to a victim that is downstream and skipped. -/
def FloorStep.Fits (env : Env) : FloorStep → Db → Prop
  | .chunk call, db => ∀ e ∈ call.slice env,
      isVictimReturn (isVictimOf db.edges call.opts.flaggedHackers) e = true →
        env.config.minExpandSats ≤ e.amountSats → isHeldBack db.addresses e.toAddress = false
  | .fanout _ _ _, _ => True

/-- The floor is kept, and no stored amount is negative. -/
structure FloorHolds (floor : Int) (v : CoreView) : Prop where
  kept : FloorKept floor v.addresses
  nonneg : AmountsNonneg v.edges

section Step
variable {env : Env} {v : CoreView} {db : Db}

theorem nonneg_slice (call : ChunkCall) : ∀ e ∈ call.slice env, 0 ≤ e.amountSats :=
  fun e he => call.nonneg e (List.mem_of_mem_take (List.mem_of_mem_drop he))

theorem floorKept_chunkCoreStmts {call : ChunkCall} (hFits : FloorStep.Fits env (.chunk call) db)
    (h : FloorHolds env.config.minExpandSats db.core) :
    Throughout (fun w : CoreView => FloorKept env.config.minExpandSats w.addresses)
      (chunkCoreStmts env call.applyMeta call.input (call.options env) db.core) db.core := by
  have hVictims := @floorKept_victimStmts _ call.input (call.options env) _ h.kept
  have hEdges := edges_replay_victimStmts call.input (call.options env) db.core
  refine hVictims.append ?_
  refine @floorKept_sliceStmts (call.options env) call.applyMeta (call.slice env) env _ hVictims.last
    (by rw [hEdges]; exact h.nonneg) (nonneg_slice call) fun e he hReturn hFloor => ?_
  rw [hEdges] at hReturn
  have hFree := hFits e he hReturn hFloor
  by_contra hHeld
  have hBefore := isHeldBack_victimStmts _ (Bool.eq_true_of_not_eq_false hHeld)
  exact Bool.false_ne_true (hFree.symm.trans hBefore)

theorem nonneg_of_upsertStmts {rows : List AddressUpsertData} {i : Core} (hi : i ∈ upsertStmts rows)
    (h : AmountsNonneg v.edges) : AmountsNonneg (exec i v).edges := by
  obtain ⟨data, _, rfl⟩ := List.mem_map.mp hi
  exact h

theorem nonneg_of_inboundStmts {e : Address × Int} {i : Core} (hi : i ∈ inboundStmts e)
    (h : AmountsNonneg v.edges) : AmountsNonneg (exec i v).edges := by
  rw [eq_of_mem_inboundStmts hi]
  exact h

theorem nonneg_of_chunkCoreStmts {call : ChunkCall} {i : Core}
    (hi : i ∈ chunkCoreStmts env call.applyMeta call.input (call.options env) db.core)
    (h : AmountsNonneg v.edges) : AmountsNonneg (exec i v).edges := by
  rcases List.mem_append.mp hi with hi | hi
  · obtain ⟨a, rfl⟩ := mem_victimStmts hi
    exact h
  · rcases List.mem_append.mp hi with hi | hi
    · exact nonneg_of_upsertStmts hi h
    · rcases List.mem_append.mp hi with hi | hi
      · obtain ⟨e, _, he⟩ := List.mem_flatMap.mp hi
        exact nonneg_of_inboundStmts he h
      · refine amountsNonneg_of_batchStmts (fun row hRow => ?_) hi h
        obtain ⟨e, he, rfl⟩ := List.mem_map.mp hRow
        exact nonneg_slice call e (List.mem_of_mem_filter he)

theorem nonneg_of_fanoutCoreStmts {tx : ChainTxDetail} {spender : Address} {hop : Nat} {i : Core}
    (hi : i ∈ fanoutCoreStmts env tx spender hop db.core) (h : AmountsNonneg v.edges) :
    AmountsNonneg (exec i v).edges := by
  obtain ⟨primary, hPrimary, hi⟩ := List.mem_flatMap.mp hi
  have hTotal : 0 < (buildFanoutMeta env.config tx spender).totalOutSats :=
    totalOutSats_pos fun hNil => by rw [hNil] at hPrimary; cases hPrimary
  rcases List.mem_append.mp hi with hi | hi
  · rcases List.mem_append.mp hi with hi | hi
    · exact nonneg_of_upsertStmts hi h
    · split at hi
      · exact nonneg_of_inboundStmts hi h
      · refine amountsNonneg_of_batchStmts (fun row hRow => ?_) hi h
        rw [List.mem_singleton.mp hRow]
        exact hTotal.le
  · rw [List.mem_singleton.mp hi]
    exact h

theorem floorHolds_throughout {stmts : List Core}
    (hKept : Throughout (fun w : CoreView => FloorKept env.config.minExpandSats w.addresses) stmts db.core)
    (hNonneg : ∀ i ∈ stmts, ∀ w : CoreView, AmountsNonneg w.edges → AmountsNonneg (exec i w).edges)
    (h : AmountsNonneg db.edges) :
    Throughout (FloorHolds env.config.minExpandSats) stmts db.core :=
  fun q hq => ⟨hKept q hq, replay_inv (fun i hi w hw => hNonneg i (hq.subset hi) w hw) h⟩

theorem final_chunk (call : ChunkCall) (c : Ctl Mem Err) : (FloorStep.op env (.chunk call)).final db c =
    (applyHackTraceEdgesChunk env call.applyMeta call.input (call.options env)).final db c := by
  unfold FloorStep.op Op.final
  dsimp only
  cases hRes : (applyHackTraceEdgesChunk env call.applyMeta call.input (call.options env) db c).res with
  | ok r =>
    rw [bind_of_ok hRes]
    exact congrArg (replay · db) (List.append_nil _)
  | error e => rw [bind_of_error hRes]

/-- A step that fits keeps the floor, whether it returns or throws. -/
theorem floorHolds_step (step : FloorStep) (c : Ctl Mem Err) (hFits : step.Fits env db)
    (h : FloorHolds env.config.minExpandSats db.core) :
    FloorHolds env.config.minExpandSats ((step.op env).final db c).core := by
  cases step with
  | chunk call =>
    rw [final_chunk]
    cases hGuard : c.mem.cpuGuard.exceeded with
    | true =>
      -- the guard stops the call before its first statement
      have hNone : (applyHackTraceEdgesChunk env call.applyMeta call.input (call.options env)).final db c =
          db := by
        unfold Op.final applyHackTraceEdgesChunk readCpuGuard
        rw [mem_bind]
        simp only [hGuard, if_true]
        rfl
      rw [hNone]
      exact h
    | false =>
      have hWrites := writesAt_applyRange env call.applyMeta call.input (call.options env) c.mem.cpuGuard db
      have hAll := floorHolds_throughout (floorKept_chunkCoreStmts hFits h)
        (fun i hi w hw => nonneg_of_chunkCoreStmts hi hw) h.nonneg
      have hEnd := final_of_throughout hWrites tracks_core hAll c
      unfold Op.final at hEnd ⊢
      rw [applyHackTraceEdgesChunk_eq env _ _ _ db hGuard]
      exact hEnd
  | fanout tx spender hop =>
    have hAll := floorHolds_throughout (@floorKept_fanoutCoreStmts env db.core tx spender hop h.kept h.nonneg)
      (fun i hi w hw => nonneg_of_fanoutCoreStmts hi hw) h.nonneg
    exact final_of_throughout (writesAt_applySpendFanoutSummary env tx spender hop db) tracks_core hAll c

end Step

/-- In a run of chunks and fan-outs that store no payment back to a skipped downstream victim, wherever
each of them stops, no downstream address at or above the floor is skipped. -/
theorem floorKept_of_attempts {env : Env} {db db' : Db}
    (hRun : Attempts (FloorStep.op env) (FloorStep.Fits env) db db')
    (hStart : FloorHolds env.config.minExpandSats db.core) :
    ∀ a row, db'.addresses.lookup a = some row → row.role = .downstream →
      env.config.minExpandSats ≤ row.inboundSats → row.expandStatus ≠ .skippedMin := by
  have hEnd : FloorHolds env.config.minExpandSats db'.core :=
    attempts_invariant (I := fun s => FloorHolds env.config.minExpandSats s.core)
      (fun step _ c hFits h => floorHolds_step step c hFits h) hRun hStart
  intro a row hRow hRole hFloor hStatus
  exact absurd (hEnd.kept a row hRow hRole hStatus) (not_lt.mpr hFloor)

/-! ### A payment back to a victim -/

/-- A payment as a chunk of one output. -/
def paymentStep (txid sender target : Name) (sats : Int) : FloorStep :=
  .chunk (.ofTx
    { txid
      vin := [{ prevout := some ⟨some sender, some 900000⟩ }]
      vout := [{ scriptpubkeyAddress := some target, value := some sats }] }
    (some ⟨name "h", 0⟩) none { flaggedHackers := [name "h"] })

def floorEnv : Env := { provider := .ofTxs [] }

def FloorStep.after (step : FloorStep) (db : Db) : Db := (step.op floorEnv).final db ⟨{}, []⟩

theorem attempts_after {guard : FloorStep → Db → Prop} {db mid : Db}
    (hRun : Attempts (FloorStep.op floorEnv) guard db mid) (step : FloorStep) (hGuard : guard step mid) :
    Attempts (FloorStep.op floorEnv) guard db (step.after mid) :=
  hRun.tail ⟨step, ⟨{}, []⟩, hGuard, rfl⟩

theorem floorHolds_initial (floor : Int) : FloorHolds floor Db.initial.core :=
  ⟨fun _ _ h => (nomatch h), fun _ _ h => (nomatch h)⟩

/-- The hacker `h` pays `x` below the floor. -/
def paidBelow : Db := (paymentStep (name "t") (name "h") (name "x") 50000).after .initial

/-- A second payment takes `x` over the floor. -/
theorem floorKept_secondPayment : ∃ row,
    ((paymentStep (name "u") (name "h") (name "x") 60000).after paidBelow).addresses.lookup (name "x") = some row ∧
      row.inboundSats = 110000 ∧ row.expandStatus ≠ .skippedMin := by
  have hFirst : Attempts (FloorStep.op floorEnv) (FloorStep.Fits floorEnv) .initial paidBelow :=
    attempts_after .refl _ (by unfold paymentStep FloorStep.Fits; decide +kernel)
  have hSecond := attempts_after hFirst (paymentStep (name "u") (name "h") (name "x") 60000)
    (by unfold paymentStep FloorStep.Fits; decide +kernel)
  have hRow : (((paymentStep (name "u") (name "h") (name "x") 60000).after paidBelow).addresses.lookup
      (name "x")).map (fun row => (row.role, row.inboundSats)) = some (.downstream, 110000) := by decide +kernel
  obtain ⟨row, hLookup, hSame⟩ := Option.map_eq_some_iff.mp hRow
  simp only [Prod.mk.injEq] at hSame
  refine ⟨row, hLookup, hSame.2, ?_⟩
  apply floorKept_of_attempts hSecond (floorHolds_initial _) _ _ hLookup hSame.1
  rw [hSame.2]
  decide

/-- `x` pays the hacker, and is paid back over the floor: it stays skipped. -/
theorem skipped_paidBack : ∃ db', Attempts (FloorStep.op floorEnv) (fun _ _ => True) .initial db' ∧
    ∃ row, db'.addresses.lookup (name "x") = some row ∧ row.role = .downstream ∧
      floorEnv.config.minExpandSats ≤ row.inboundSats ∧ row.expandStatus = .skippedMin := by
  let mid := (paymentStep (name "u") (name "x") (name "h") 300000).after paidBelow
  have hFirst : Attempts (FloorStep.op floorEnv) (fun _ _ => True) .initial paidBelow :=
    attempts_after .refl _ trivial
  have hMid : Attempts (FloorStep.op floorEnv) (fun _ _ => True) .initial mid := attempts_after hFirst _ trivial
  refine ⟨(paymentStep (name "w") (name "h") (name "x") 200000).after mid, attempts_after hMid _ trivial, ?_⟩
  have hRow : (((paymentStep (name "w") (name "h") (name "x") 200000).after mid).addresses.lookup
      (name "x")).map (fun row => (row.role, row.inboundSats, row.expandStatus)) =
      some (.downstream, 250000, .skippedMin) := by decide +kernel
  obtain ⟨row, hLookup, hSame⟩ := Option.map_eq_some_iff.mp hRow
  simp only [Prod.mk.injEq] at hSame
  refine ⟨row, hLookup, hSame.1, ?_, hSame.2.2⟩
  rw [hSame.2.1]
  decide

end Bloodhound.Graph
