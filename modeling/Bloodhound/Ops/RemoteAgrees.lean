import Bloodhound.Ops.RemoteRemoval

/-!
# The two removals

The removal of the store decides about an address after the deletions before it, the remote removal on the database
as it was. `removeHackerRemote_agrees_iff` says when both leave the same. Only the removal of the store recomputes
inbound totals, so these are left out of the comparison.
-/

namespace Bloodhound.Ops.Remote

open Indexer Store Journal Journal.Op

/-! ## The removal of the store -/

section Local

variable {db : Db} {hacker : Address} {s : Db}

/-- The rows of a removal that goes on: an address that has lost its row has lost its sync state, too. -/
structure Underway (db : Db) (hacker : Address) (s : Db) : Prop where
  addresses : ∀ a, s.addresses.lookup a = none ∨
    (s.addresses.lookup a).map (·.exceptInbound) = (leftRow db hacker a).map (·.exceptInbound)
  syncState : ∀ a, s.syncState.lookup a =
    if s.addresses.lookup a = none ∧ (db.addresses.lookup a).isSome then none else db.syncState.lookup a
  jobs : ∀ id, s.jobs.lookup id = (db.jobs.lookup id).filter (keptJob hacker id)

/-- The statements of a deletion of edges. -/
def RecountStmt : Stmt → Prop
  | .edge (.deleteTouching _) | .address (.setInboundSats _ _) => True
  | _ => False

theorem recounts_deleteEdges (a : Address) : (deleteEdgesTouchingAddress a).Emits RecountStmt :=
  (emits_query _).bind fun _ => (emits_run trivial).bind fun _ => emits_forEach fun _ _ =>
    (emits_query _).bind fun _ => emits_run trivial

theorem isNone_setInboundSats (a b : Address) (v : Int) (t : Table.Rows Address AddressRow) :
    (Table.modify a (fun r => { r with inboundSats := v }) t).lookup b = none ↔ t.lookup b = none := by
  rw [Table.lookup_modify]
  split
  · exact Option.map_eq_none_iff
  · exact Iff.rfl

theorem Underway.recount (h : Underway db hacker s) {i : Stmt} (hi : RecountStmt i) :
    Underway db hacker (exec i s) := by
  cases i with
  | edge => exact ⟨h.addresses, h.syncState, h.jobs⟩
  | address stmt =>
    cases stmt with
    | setInboundSats a v =>
      refine ⟨fun b => ?_, fun b => ?_, h.jobs⟩
      · rcases h.addresses b with hNone | hSame
        · exact .inl ((isNone_setInboundSats a b v s.addresses).mpr hNone)
        · exact .inr ((sameRows_setInboundSats a v s.addresses b).trans hSame)
      · refine (h.syncState b).trans (if_congr (and_congr_left fun _ => ?_) rfl rfl)
        exact (isNone_setInboundSats a b v s.addresses).symm
    | _ => cases hi
  | _ => cases hi

theorem triple_recount (a b : Address) :
    Triple (fun s => Underway db hacker s ∧ (s.addresses.lookup b).isSome = true) (deleteEdgesTouchingAddress a)
      (fun _ s => Underway db hacker s ∧ (s.addresses.lookup b).isSome = true) fun _ _ => True := by
  refine (triple_of_emits (recounts_deleteEdges a) fun i hi s hs => ⟨hs.1.recount hi, ?_⟩).conseq
    (fun _ h => h) (fun _ _ h => h) fun _ _ _ => trivial
  rw [Option.isSome_iff_ne_none]
  cases i with
  | edge => exact Option.isSome_iff_ne_none.mp hs.2
  | address stmt =>
    cases stmt with
    | setInboundSats a' v =>
      exact fun hNone => Option.isSome_iff_ne_none.mp hs.2 ((isNone_setInboundSats a' b v s.addresses).mp hNone)
    | _ => cases hi
  | _ => cases hi

/-- An operation without statements. -/
theorem triple_reads {α : Type} {p : StoreM α} (h : p.Emits fun _ => False) (P : Db → Prop) :
    Triple P p (fun _ => P) fun _ _ => True :=
  (triple_of_emits h fun _ hi => hi.elim).conseq (fun _ h => h) (fun _ _ h => h) fun _ _ _ => trivial

theorem triple_prune_underway (a : Address) :
    Triple (fun s => Underway db hacker s ∧ (s.addresses.lookup a).isSome = true) (prune a)
      (fun _ => Underway db hacker) fun _ _ => True := by
  refine (triple_recount a a).bind fun _ => ?_
  refine Triple.bind (Q := fun _ s => ∃ s', Underway db hacker s' ∧ (s'.addresses.lookup a).isSome = true ∧
    s = { s' with syncState := s'.syncState.erase a })
    (triple_run (fun s hs => ⟨s, hs.1, hs.2, rfl⟩) fun _ _ _ => trivial) fun _ => ?_
  refine triple_run (fun s hs => ?_) fun _ _ _ => trivial
  obtain ⟨s', h, hRow, rfl⟩ := hs
  refine ⟨fun b => ?_, fun b => ?_, h.jobs⟩
  · show (s'.addresses.erase a).lookup b = none ∨ ((s'.addresses.erase a).lookup b).map _ = _
    by_cases hb : b = a
    · rw [hb]
      exact .inl (AList.lookup_erase a s'.addresses)
    · rw [AList.lookup_erase_ne hb]
      exact h.addresses b
  · by_cases hb : b = a
    · subst hb
      have hOld : (db.addresses.lookup b).isSome = true := by
        rcases h.addresses b with hNone | hSame
        · rw [hNone] at hRow
          cases hRow
        · rw [← isSome_leftRow db hacker b, ← Option.isSome_map (f := fun r : AddressRow => r.exceptInbound),
            ← hSame, Option.isSome_map]
          exact hRow
      exact (AList.lookup_erase b s'.syncState).trans (if_pos ⟨AList.lookup_erase b s'.addresses, hOld⟩).symm
    · refine (AList.lookup_erase_ne hb).trans ((h.syncState b).trans (if_congr
        (and_congr_left fun _ => ?_) rfl rfl))
      exact Iff.of_eq (congrArg (· = none) (AList.lookup_erase_ne hb).symm)

/-- The rows that a query reads, before what the query decides. -/
theorem triple_readFlagged {K : Db → Prop} (a : Address) :
    Triple K (getAddress a) (fun row s => K s ∧ (row.all (·.isFlaggedHacker) = false →
      (s.addresses.lookup a).isSome = true)) fun _ _ => True := by
  refine triple_query (fun s hs => ⟨hs, fun hRow => ?_⟩) fun _ _ _ => trivial
  cases hLookup : s.addresses.lookup a with
  | none =>
    rw [hLookup] at hRow
    cases hRow
  | some row => rfl

theorem triple_pruneVictims_underway (victims pruned : List Address) :
    Triple (Underway db hacker) (pruneVictims hacker victims pruned) (fun _ => Underway db hacker)
      fun _ _ => True := by
  induction victims generalizing pruned with
  | nil => exact triple_pure _ fun _ hs => hs
  | cons victim rest ih =>
    unfold pruneVictims
    split
    · exact ih _
    refine Triple.bind (Q := fun _ => Underway db hacker) (triple_query (fun _ hs => hs) fun _ _ _ => trivial)
      fun links => ?_
    split
    · exact ih _
    refine (triple_readFlagged victim).bind fun row => triple_of_state fun s hs => ?_
    split
    · exact (ih _).pre fun s' hs' => hs' ▸ hs.1
    · next hUnflagged =>
      refine ((triple_prune_underway victim).pre fun s' hs' => ?_).bind fun _ => ih _
      subst hs'
      exact ⟨hs.1, hs.2 (Bool.eq_false_iff.mpr hUnflagged)⟩

theorem triple_pruneDownstream_underway (candidates downstream pruned : List Address) :
    Triple (Underway db hacker) (pruneDownstream hacker candidates downstream pruned)
      (fun _ => Underway db hacker) fun _ _ => True := by
  induction downstream generalizing pruned with
  | nil => exact triple_pure _ fun _ hs => hs
  | cons candidate rest ih =>
    unfold pruneDownstream
    split
    · exact ih _
    refine (triple_readFlagged candidate).bind fun row => triple_of_state fun s hs => ?_
    split
    · exact (ih _).pre fun s' hs' => hs' ▸ hs.1
    next hUnflagged =>
    have hReads : Triple (fun s' => s' = s) (hasEdgeWithOtherFlaggedHacker candidate hacker) (fun _ s' => s' = s)
        fun _ _ => True := triple_reads ((emits_query _).bind fun _ => (emits_query _).bind fun _ =>
      emits_anyOtherFlagged _ _ _) _
    refine hReads.bind fun linked => ?_
    split
    · exact (ih _).pre fun s' hs' => hs' ▸ hs.1
    refine Triple.bind (Q := fun _ s' => s' = s) (triple_query (fun _ h => h) fun _ _ _ => trivial)
      fun outside => ?_
    split
    · exact (ih _).pre fun s' hs' => hs' ▸ hs.1
    · refine ((triple_prune_underway candidate).pre fun s' hs' => ?_).bind fun _ => ih _
      subst hs'
      exact ⟨hs.1, hs.2 (Bool.eq_false_iff.mpr hUnflagged)⟩

theorem rest_exec_counter {i : Stmt} (hi : i.isCounter = true) (s : Db) :
    (exec i s).addresses = s.addresses ∧ (exec i s).syncState = s.syncState ∧ (exec i s).jobs = s.jobs := by
  cases i with
  | scheduler | hackStats | insertHackVictim => exact ⟨rfl, rfl, rfl⟩
  | _ => cases hi

/-- The row of the flagged hacker is there, and loses its flag only. -/
theorem lookup_unflag (hFlagged : flag db hacker = some true) (a : Address) :
    ((AddressStmt.upsert { address := hacker, isFlaggedHacker := some false }).exec db.addresses).lookup a =
      leftRow db hacker a := by
  show (db.addresses.insert hacker _).lookup a = _
  rw [Table.lookup_insert_if]
  unfold leftRow
  split
  · next hSame =>
    unfold flag at hFlagged
    cases hRow : db.addresses.lookup hacker with
    | none =>
      rw [hRow] at hFlagged
      cases hFlagged
    | some row =>
      rw [hSame, hRow, Option.map_some, Option.elim_some]
      congr 1
      unfold AddressUpsertData.updated unflagged
      simp [AddressUpsertData.fenced]
  · rfl

/-- The hacker is unflagged, and nothing else has changed in these tables. -/
structure Begun (db : Db) (hacker : Address) (s : Db) : Prop where
  addresses : ∀ a, s.addresses.lookup a = leftRow db hacker a
  syncState : s.syncState = db.syncState
  jobs : s.jobs = db.jobs

theorem triple_unflag_begun (hFlagged : flag db hacker = some true) :
    Triple (fun s => s = db) (upsertAddress { address := hacker, isFlaggedHacker := some false })
      (fun _ => Begun db hacker) fun _ _ => True := by
  have hRest : Triple (fun s => s.syncState = db.syncState ∧ s.jobs = db.jobs)
      (upsertAddress { address := hacker, isFlaggedHacker := some false })
      (fun _ s => s.syncState = db.syncState ∧ s.jobs = db.jobs) fun _ _ => True := by
    refine (triple_of_emits (S := fun i => ∀ s, (exec i s).syncState = s.syncState ∧ (exec i s).jobs = s.jobs)
      (emits_upsertAddress (fun i hi s => (rest_exec_counter hi s).2) fun _ => ⟨rfl, rfl⟩)
      fun i hi s hs => ⟨(hi s).1.trans hs.1, (hi s).2.trans hs.2⟩).conseq (fun _ h => h) (fun _ _ h => h)
      fun _ _ _ => trivial
  intro s c hs
  subst hs
  refine ⟨fun _ hOk => ?_, fun _ _ => trivial⟩
  obtain ⟨hSync, hJobs⟩ := hRest.ok ⟨rfl, rfl⟩ hOk
  refine ⟨fun a => ?_, hSync, hJobs⟩
  have hAddresses : Db.addresses _ = _ := congrArg CoreView.addresses (core_final (writes_upsertAddress _ s) hOk)
  rw [hAddresses]
  exact lookup_unflag hFlagged a

/-- The deletion of the hacker's jobs. -/
theorem triple_cancelJobs_underway (hacker : Address) :
    Triple (Begun db hacker) (deleteActiveJobsForAddress hacker : StoreM Unit) (fun _ => Underway db hacker)
      fun _ _ => True := by
  have hCounters : ∀ p : StoreM Unit, p.Emits (fun i => i.isQueueCounter = true) →
      Triple (Underway db hacker) p (fun _ => Underway db hacker) fun _ _ => True := by
    intro p hEmits
    refine (triple_of_emits hEmits fun i hi s hs => ?_).conseq (fun _ h => h) (fun _ _ h => h)
      fun _ _ _ => trivial
    obtain ⟨hAddresses, hSync, hJobs⟩ := rest_exec_counter (isCounter_of_isQueueCounter hi) s
    exact ⟨by rw [hAddresses]; exact hs.addresses, by rw [hAddresses, hSync]; exact hs.syncState,
      by rw [hJobs]; exact hs.jobs⟩
  refine Triple.bind (Q := fun _ => Begun db hacker) (triple_query (fun _ hs => hs) fun _ _ _ => trivial)
    fun rows => ?_
  refine Triple.bind (Q := fun _ => Underway db hacker) (triple_run (fun s hs => ?_) fun _ _ _ => trivial)
    fun _ => ?_
  · refine ⟨fun a => .inr (congrArg _ (hs.addresses a)), fun a => ?_, fun id => ?_⟩
    · refine (congrArg (AList.lookup a) hs.syncState).trans (if_neg ?_).symm
      rintro ⟨hNone, hSome⟩
      rw [← isSome_leftRow db hacker a, ← hs.addresses a] at hSome
      exact Option.isSome_iff_ne_none.mp hSome hNone
    · show (s.jobs.keep _).lookup id = _
      rw [lookup_keep, hs.jobs]
      rfl
  · refine (hCounters _ (emits_adjustPendingJobCount (fun _ h => h) _)).bind fun _ => ?_
    exact hCounters _ (emits_storeForEach fun e => emits_adjustActiveJobCount (fun _ h => h) e.1 e.2)

theorem triple_flagged (hFlagged : flag db hacker = some true) {pruneExclusive : Bool} {P : Db → Prop}
    (h : Triple (fun s => s = db) (removeFlagged hacker pruneExclusive) (fun _ => P) fun _ _ => True) :
    Triple (fun s => s = db) (removeHacker hacker pruneExclusive) (fun _ => P) fun _ _ => True := by
  refine Triple.bind (Q := fun existing s => s = db ∧ existing.any (·.isFlaggedHacker) = true)
    (triple_query (fun s hs => ⟨hs, hs ▸ (isFlagged_iff db hacker).mpr hFlagged⟩) fun _ _ _ => trivial)
    fun existing => triple_of_fact fun hExisting => ?_
  rw [if_pos hExisting]
  exact h

/-- A removal without pruning. -/
theorem triple_removeOnly {P Q : Db → Prop}
    (hUnflag : Triple (fun s => s = db) (upsertAddress { address := hacker, isFlaggedHacker := some false })
      (fun _ => P) fun _ _ => True)
    (hCancel : Triple P (deleteActiveJobsForAddress hacker : StoreM Unit) (fun _ => Q) fun _ _ => True) :
    Triple (fun s => s = db) (removeFlagged hacker false) (fun _ => Q) fun _ _ => True := by
  have hNothing : Triple (fun s => s = db) (pure [] : StoreM (List Address)) (fun _ s => s = db)
      fun _ _ => True := triple_pure _ fun _ hs => hs
  exact hNothing.bind fun _ => hNothing.bind fun _ => hUnflag.bind fun _ => hCancel.bind fun _ =>
    triple_pure _ fun _ hs => hs

/-- The rows that a removal of the store leaves, whatever its decisions are. -/
theorem triple_removeHacker_underway (hFlagged : flag db hacker = some true) (pruneExclusive : Bool) :
    Triple (fun s => s = db) (removeHacker hacker pruneExclusive) (fun _ => Underway db hacker)
      fun _ _ => True := by
  refine triple_flagged hFlagged ?_
  cases pruneExclusive with
  | false => exact triple_removeOnly (triple_unflag_begun hFlagged) (triple_cancelJobs_underway hacker)
  | true =>
    have hVictims : Triple (fun s => s = db) (listVictimAddressesForHacker hacker) (fun _ s => s = db)
        fun _ _ => True := triple_reads (emits_query _) _
    have hCollect := triple_reads (emits_collectDownstreamAddresses hacker) fun s => s = db
    have hEdges : Triple (Underway db hacker) (deleteEdgesTouchingAddress hacker) (fun _ => Underway db hacker)
        fun _ _ => True :=
      (triple_of_emits (recounts_deleteEdges hacker) fun i hi s hs => hs.recount hi).conseq (fun _ h => h)
        (fun _ _ h => h) fun _ _ _ => trivial
    refine hVictims.bind fun victims => hCollect.bind fun downstream => (triple_unflag_begun hFlagged).bind fun _ =>
      (triple_cancelJobs_underway hacker).bind fun _ => hEdges.bind fun _ => ?_
    exact (triple_pruneVictims_underway _ _).bind fun _ => (triple_pruneDownstream_underway _ _ _).bind fun _ =>
      triple_pure _ fun _ hs => hs

/-- The flags show which addresses are gone. -/
theorem Underway.left (h : Underway db hacker s) {pruned cut : List Address}
    (hEdges : ∀ k, s.edges.lookup k =
      if k.fromAddress ∈ cut ∨ k.toAddress ∈ cut then none else db.edges.lookup k)
    (hFlags : ∀ a, flag s a = if a ∈ pruned then none else if a = hacker then some false else flag db a)
    (hRows : ∀ a ∈ pruned, (db.addresses.lookup a).isSome = true) : Left db hacker pruned cut s where
  addresses a := by
    by_cases hPruned : a ∈ pruned
    · have hGone := hFlags a
      rw [if_pos hPruned] at hGone
      rw [if_pos hPruned, Option.map_eq_none_iff.mp hGone, Option.map_none]
    · rw [if_neg hPruned]
      rcases h.addresses a with hNone | hSame
      · have hFlag := hFlags a
        rw [if_neg hPruned, flag, hNone] at hFlag
        split at hFlag
        · cases hFlag
        · next hHacker =>
          rw [hNone, leftRow, if_neg hHacker, Option.map_eq_none_iff.mp hFlag.symm]
      · exact hSame
  edges := hEdges
  syncState a := by
    rw [h.syncState a]
    refine if_congr ?_ rfl rfl
    have hFlag := hFlags a
    constructor
    · rintro ⟨hNone, hSome⟩
      by_contra hPruned
      rw [if_neg hPruned, flag, hNone] at hFlag
      split at hFlag
      · cases hFlag
      · rw [Option.map_eq_none_iff.mp hFlag.symm] at hSome
        cases hSome
    · intro hPruned
      rw [if_pos hPruned] at hFlag
      exact ⟨Option.map_eq_none_iff.mp hFlag, hRows a hPruned⟩
  jobs := h.jobs

end Local

/-! ## The two removals -/

section Compare

variable {db : Db} {hacker : Address} {s s' : Db} {pruned pruned' : List Address}

theorem Left.agree {cut cut' : List Address} (h : Left db hacker pruned cut s)
    (h' : Left db hacker pruned' cut' s') (hPruned : ∀ a, a ∈ pruned ↔ a ∈ pruned')
    (hCut : ∀ a, a ∈ cut ↔ a ∈ cut') : Agree s s' where
  addresses a := by
    rw [h.addresses, h'.addresses]
    simp only [hPruned]
  edges k := by
    rw [h.edges, h'.edges]
    simp only [hCut]
  syncState a := by
    rw [h.syncState, h'.syncState]
    simp only [hPruned]
  jobs id := by rw [h.jobs, h'.jobs]

/-- What is left shows the pruned addresses. -/
theorem Left.agree_iff (h : Left db hacker pruned (hacker :: pruned) s)
    (h' : Left db hacker pruned' (hacker :: pruned') s')
    (hRows : ∀ a ∈ pruned, (db.addresses.lookup a).isSome = true)
    (hRows' : ∀ a ∈ pruned', (db.addresses.lookup a).isSome = true) :
    Agree s s' ↔ ∀ a, a ∈ pruned ↔ a ∈ pruned' := by
  constructor
  · intro hAgree a
    have hSame : (s.addresses.lookup a).isSome = (s'.addresses.lookup a).isSome := by
      have hMap := congrArg Option.isSome (hAgree.addresses a)
      rwa [Option.isSome_map, Option.isSome_map] at hMap
    constructor
    · intro hPruned
      rw [← h'.gone (hRows a hPruned), ← hSame, h.gone (hRows a hPruned)]
      exact hPruned
    · intro hPruned
      rw [← h.gone (hRows' a hPruned), hSame, h'.gone (hRows' a hPruned)]
      exact hPruned
  · intro hSame
    exact h.agree h' hSame fun a => by rw [List.mem_cons, List.mem_cons, hSame a]

theorem Agree.refl (s : Db) : Agree s s := ⟨fun _ => rfl, fun _ => rfl, fun _ => rfl, fun _ => rfl⟩

/-- Every address and every edge of the first database is in the second one. -/
structure Within (s s' : Db) : Prop where
  addresses : ∀ a, (s.addresses.lookup a).isSome = true → (s'.addresses.lookup a).isSome = true
  edges : ∀ k row, s.edges.lookup k = some row → s'.edges.lookup k = some row

theorem Left.within {cut cut' : List Address} (h : Left db hacker pruned cut s)
    (h' : Left db hacker pruned' cut' s') (hPruned : pruned' ⊆ pruned) (hCut : cut' ⊆ cut) : Within s s' where
  addresses a hRow := by
    rw [← Option.isSome_map (f := fun r : AddressRow => r.exceptInbound), h.addresses] at hRow
    rw [← Option.isSome_map (f := fun r : AddressRow => r.exceptInbound), h'.addresses]
    split at hRow
    · cases hRow
    · next hKept =>
      rw [if_neg fun hGone => hKept (hPruned hGone)]
      exact hRow
  edges k row hRow := by
    rw [h.edges] at hRow
    rw [h'.edges]
    split at hRow
    · cases hRow
    · next hKept =>
      rw [if_neg fun hGone => hKept (hGone.imp (fun hFrom => hCut hFrom) fun hTo => hCut hTo)]
      exact hRow

/-- No exclusive address is downstream of the hacker and paid by an exclusive victim that is not. -/
def NoVictimPays (db : Db) (hacker : Address) : Prop :=
  ∀ a, ExclusiveDownstream db hacker a → ExclusiveVictim db hacker a ∨
    ∀ b, OutStep db.edges b a → Reaches db.edges hacker b

theorem remoteExclusive_iff :
    (∀ a, RemoteExclusive db hacker a ↔ Exclusive db hacker a) ↔ NoVictimPays db hacker := by
  constructor
  · intro hSame a hE
    exact ((hSame a).mpr (.inr hE)).imp_right fun hD => hD.2.2.2.2
  · refine fun hNone a => ⟨RemoteExclusive.exclusive, fun hE => ?_⟩
    rcases hE with hVictim | hDownstream
    · exact .inl hVictim
    · exact (hNone a hDownstream).imp_right fun hPaid =>
        ⟨hDownstream.1, hDownstream.2.1, hDownstream.2.2.1, hDownstream.2.2.2.1, hPaid⟩

theorem left_removeOnly (hFlagged : flag db hacker = some true) {c : Ctl Mem Err} {result : RemoveHackerResult}
    (hOk : (removeHacker hacker false db c).res = .ok result) :
    Left db hacker [] [] ((removeHacker hacker false).final db c) := by
  have hUnflagged : Unflagged db hacker ((removeHacker hacker false).final db c) :=
    (triple_flagged hFlagged (triple_removeOnly (triple_unflag hacker db) (triple_cancelJobs hacker db))).ok rfl hOk
  refine ((triple_removeHacker_underway hFlagged false).ok rfl hOk).left (fun k => ?_) (fun a => ?_)
    fun a ha => absurd ha List.not_mem_nil
  · rw [hUnflagged.edges, if_neg fun hCut => hCut.elim List.not_mem_nil List.not_mem_nil]
  · rw [hUnflagged.flags, if_neg List.not_mem_nil]

theorem left_removeHacker (hFlagged : flag db hacker = some true) {c : Ctl Mem Err} {result : RemoveHackerResult}
    (hOk : (removeHacker hacker true db c).res = .ok result) :
    ∃ pruned, Left db hacker pruned (hacker :: pruned) ((removeHacker hacker true).final db c) ∧
      ∀ a, a ∈ pruned ↔ Exclusive db hacker a := by
  obtain ⟨pruned, hRemoved, hPruned⟩ := (triple_removeHacker hFlagged).ok rfl hOk
  refine ⟨pruned, ?_, hPruned⟩
  exact ((triple_removeHacker_underway hFlagged true).ok rfl hOk).left hRemoved.edges hRemoved.flags
    fun a ha => row_of_exclusive ((hPruned a).mp ha)

theorem final_removeHacker_unflagged (hFlagged : flag db hacker ≠ some true) {pruneExclusive : Bool}
    {c : Ctl Mem Err} {result : RemoveHackerResult}
    (hOk : (removeHacker hacker pruneExclusive db c).res = .ok result) :
    (removeHacker hacker pruneExclusive).final db c = db := by
  have hTriple : Triple (fun s => s = db) (removeHacker hacker pruneExclusive) (fun _ s => s = db)
      fun _ _ => True := by
    refine Triple.bind (Q := fun existing s => s = db ∧ ¬ existing.any (·.isFlaggedHacker) = true)
      (triple_query (fun s hs => ⟨hs, fun h => hFlagged ((isFlagged_iff db hacker).mp (hs ▸ h))⟩)
        fun _ _ _ => trivial) fun existing => triple_of_fact fun hExisting => ?_
    rw [if_neg hExisting]
    exact triple_pure _ fun _ hs => hs
  exact hTriple.ok rfl hOk

end Compare

/-- The remote removal deletes no address and no edge that the removal of the store keeps; and both leave the same
addresses, edges, sync states and jobs, up to inbound totals, exactly when no address that is pruned as downstream of
the hacker is paid by an exclusive victim that is not downstream itself. -/
theorem removeHackerRemote_agrees_iff {db : Db} {hacker : Address} {pruneExclusive : Bool} {c : Ctl Mem Err}
    {result : RemoveHackerResult} (hOk : (removeHacker hacker pruneExclusive db c).res = .ok result) :
    Within ((removeHacker hacker pruneExclusive).final db c) (removeHackerRemote hacker pruneExclusive db).2 ∧
      (Agree (removeHackerRemote hacker pruneExclusive db).2 ((removeHacker hacker pruneExclusive).final db c) ↔
        (pruneExclusive = true → flag db hacker = some true → NoVictimPays db hacker)) := by
  by_cases hFlagged : flag db hacker = some true
  · rw [removeHackerRemote_flagged hFlagged]
    cases pruneExclusive with
    | false =>
      have hRemote := (swept_unflag db hacker).left
      have hLocal := left_removeOnly hFlagged hOk
      refine ⟨hLocal.within hRemote (List.Subset.refl _) (List.Subset.refl _), ?_⟩
      exact iff_of_true (hRemote.agree hLocal (fun _ => Iff.rfl) fun _ => Iff.rfl) (fun h => by cases h)
    | true =>
      obtain ⟨hSound, hMem⟩ := sound_planPruning db hacker
      obtain ⟨pruned, hLocal, hPruned⟩ := left_removeHacker hFlagged hOk
      have hRemote := hSound.swept.left
      have hSub : (planPruning db hacker (collectDownstreamRemote db hacker)).pruned ⊆ pruned := fun a ha =>
        (hPruned a).mpr ((hMem a).mp ha).exclusive
      refine ⟨hLocal.within hRemote hSub (List.cons_subset_cons hacker hSub), ?_⟩
      refine (hRemote.agree_iff hLocal (fun a ha => row_of_exclusive ((hMem a).mp ha).exclusive)
        fun a ha => row_of_exclusive ((hPruned a).mp ha)).trans ?_
      have hSets : (∀ a, a ∈ (planPruning db hacker (collectDownstreamRemote db hacker)).pruned ↔
          a ∈ pruned) ↔ NoVictimPays db hacker := by
        rw [← remoteExclusive_iff]
        exact forall_congr' fun a => by rw [hMem a, hPruned a]
      exact hSets.trans ⟨fun h _ _ => h, fun h => h rfl hFlagged⟩
  · have hRemote : (removeHackerRemote hacker pruneExclusive db).2 = db := by
      unfold removeHackerRemote
      rw [if_neg fun h => hFlagged ((isFlagged_iff db hacker).mp h)]
    rw [final_removeHacker_unflagged hFlagged hOk, hRemote]
    exact ⟨⟨fun _ h => h, fun _ _ h => h⟩, iff_of_true (.refl db) fun _ h => absurd h hFlagged⟩

/-- The removal of the store deletes the sink behind the victim; the remote removal keeps it. -/
theorem removeHackerRemote_agrees_victim :
    Within ((removeHacker (name "h") true).final payingVictim ⟨{}, []⟩)
        (removeHackerRemote (name "h") true payingVictim).2 ∧ ¬ NoVictimPays payingVictim (name "h") := by
  have hRun : ((removeHacker (name "h") true payingVictim ⟨{}, []⟩).res.toOption).map id =
      some { unflagged := true, victimsPruned := 1, downstreamPruned := 1 } := by decide +kernel
  obtain ⟨result, hOk, _⟩ := exists_ok hRun
  have h := removeHackerRemote_agrees_iff hOk
  refine ⟨h.1, fun hNone => ?_⟩
  have hSink := congrArg Option.isSome ((h.2.mpr fun _ _ => hNone).addresses (name "sink"))
  rw [Option.isSome_map, Option.isSome_map] at hSink
  have hGone : (((removeHacker (name "h") true).final payingVictim ⟨{}, []⟩).addresses.lookup
      (name "sink")).isSome = false := by decide +kernel
  have hKept : ((removeHackerRemote (name "h") true payingVictim).2.addresses.lookup
      (name "sink")).isSome = true := by decide +kernel
  rw [hGone, hKept] at hSink
  cases hSink

end Bloodhound.Ops.Remote
