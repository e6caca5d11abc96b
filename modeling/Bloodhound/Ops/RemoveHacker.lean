import Bloodhound.Ops.Hackers

/-!
# What a removal deletes

A removal that prunes deletes the edges of the hacker, and with their edges the addresses that are
`ExclusiveVictim` or `ExclusiveDownstream` in the store before it: it decides about an address by
its own edges only. It keeps what the other flagged hackers reach exactly when they reach neither
the hacker nor such an address (`removeHacker_keeps_iff`).
-/

namespace Bloodhound.Ops

open Indexer Store Journal Journal.Op

/-! ## Reachability -/

/-- An out-edge leads from the first address to the second. -/
def OutStep (edges : Table.Rows EdgeKey EdgeRow) (a b : Address) : Prop :=
  ∃ k row, edges.lookup k = some row ∧ row.direction = .outFromHacker ∧ k.fromAddress = a ∧
    k.toAddress = b

abbrev Reaches (edges : Table.Rows EdgeKey EdgeRow) : Address → Address → Prop :=
  Relation.ReflTransGen (OutStep edges)

theorem mem_outTargets {edges : Table.Rows EdgeKey EdgeRow} {a b : Address} :
    b ∈ outTargets edges a ↔ OutStep edges a b := by
  unfold outTargets
  rw [List.mem_map]
  constructor
  · rintro ⟨e, he, rfl⟩
    rw [List.mem_filter] at he
    simp only [Bool.and_eq_true, decide_eq_true_eq] at he
    exact ⟨e.1, e.2, Table.lookup_eq_some_iff.mpr he.1, he.2.2, he.2.1, rfl⟩
  · rintro ⟨k, row, hRow, hDirection, rfl, rfl⟩
    refine ⟨⟨k, row⟩, List.mem_filter.mpr ⟨Table.lookup_eq_some_iff.mp hRow, ?_⟩, rfl⟩
    simp [hDirection]

theorem step_outTargets (edges : Table.Rows EdgeKey EdgeRow) :
    Search.Step (outTargets edges) = OutStep edges := by
  funext a b
  exact propext mem_outTargets

/-! ## The addresses that a removal takes to be the hacker's alone -/

/-- Whether the address has a row, and is flagged. -/
def flag (db : Db) (a : Address) : Option Bool := (db.addresses.lookup a).map (·.isFlaggedHacker)

variable (db : Db) (hacker : Address)

def OtherHacker (a : Address) : Prop := a ≠ hacker ∧ flag db a = some true

/-- The address pays another flagged hacker. -/
def PaysOther (a : Address) : Prop :=
  ∃ k row, db.edges.lookup k = some row ∧ row.direction = .inToHacker ∧ k.fromAddress = a ∧
    OtherHacker db hacker k.toAddress

def IsVictim (a : Address) : Prop :=
  ∃ k row, db.edges.lookup k = some row ∧ row.direction = .inToHacker ∧ k.toAddress = hacker ∧
    k.fromAddress = a

/-- A victim that pays no other flagged hacker. -/
def ExclusiveVictim (a : Address) : Prop :=
  a ≠ hacker ∧ flag db a = some false ∧ IsVictim db hacker a ∧ ¬ PaysOther db hacker a

/-- The address has an edge with another flagged hacker. -/
def LinkedToOther (a : Address) : Prop :=
  ∃ k row, db.edges.lookup k = some row ∧ (k.fromAddress = a ∨ k.toAddress = a) ∧
    otherEnd a k ≠ a ∧ OtherHacker db hacker (otherEnd a k)

/-- A downstream address with no edge to another flagged hacker, all of whose payers are the
hacker, downstream of it or among its exclusive victims. -/
def ExclusiveDownstream (a : Address) : Prop :=
  a ≠ hacker ∧ flag db a = some false ∧ Reaches db.edges hacker a ∧ ¬ LinkedToOther db hacker a ∧
    ∀ b, OutStep db.edges b a → Reaches db.edges hacker b ∨ ExclusiveVictim db hacker b

def Exclusive (a : Address) : Prop := ExclusiveVictim db hacker a ∨ ExclusiveDownstream db hacker a

/-! ## The store during a removal -/

/-- The edges of the hacker and of the pruned addresses are gone, and the pruned addresses; the
hacker is not flagged any more. -/
structure Removed (pruned : List Address) (s : Db) : Prop where
  edges : ∀ k, s.edges.lookup k =
    if k.fromAddress ∈ hacker :: pruned ∨ k.toAddress ∈ hacker :: pruned then none
    else db.edges.lookup k
  flags : ∀ a, flag s a =
    if a ∈ pruned then none else if a = hacker then some false else flag db a

variable {db hacker}

theorem Exclusive.flag {a : Address} (h : Exclusive db hacker a) :
    a ≠ hacker ∧ Ops.flag db a = some false := by
  rcases h with h | h
  · exact ⟨h.1, h.2.1⟩
  · exact ⟨h.1, h.2.1⟩

theorem flag_of_deletes {keep : EdgeKey → EdgeRow → Bool} {s s' : Db} (h : Deletes keep s s')
    (a : Address) : flag s' a = flag s a := by
  have hSame := congrArg (Option.map AddressRow.isFlaggedHacker) (h.addresses a)
  rw [Option.map_map, Option.map_map] at hSame
  exact hSame

theorem triple_prune (a : Address) (pruned : List Address) :
    Triple (Removed db hacker pruned) (prune a) (fun _ => Removed db hacker (a :: pruned))
      fun _ _ => True := by
  refine triple_of_state fun s hs => ?_
  refine (triple_deleteEdgesTouchingAddress a s).bind fun _ => ?_
  refine Triple.bind (Q := fun _ => Deletes (apartFrom a) s) (triple_run (fun s' h => ?_)
    fun _ _ _ => trivial) fun _ => triple_run (fun s' h => ?_) fun _ _ _ => trivial
  · exact ⟨h.edges, h.addresses, h.peaks, h.scheduler⟩
  · refine ⟨fun k => ?_, fun b => ?_⟩
    · show s'.edges.lookup k = _
      rw [h.edges, Table.lookup_filter, hs.edges]
      by_cases hOld : k.fromAddress ∈ hacker :: pruned ∨ k.toAddress ∈ hacker :: pruned
      · have hNew : k.fromAddress ∈ hacker :: a :: pruned ∨ k.toAddress ∈ hacker :: a :: pruned := by
          simp only [List.mem_cons] at hOld ⊢
          tauto
        rw [if_pos hOld, if_pos hNew, Option.filter_none]
      · rw [if_neg hOld]
        by_cases hTouch : k.fromAddress = a ∨ k.toAddress = a
        · have hNew : k.fromAddress ∈ hacker :: a :: pruned ∨ k.toAddress ∈ hacker :: a :: pruned := by
            simp only [List.mem_cons]
            tauto
          rw [if_pos hNew]
          refine Option.filter_eq_none_iff.mpr fun row _ => ?_
          simpa [apartFrom, or_iff_not_imp_left] using hTouch
        · have hNew : ¬ (k.fromAddress ∈ hacker :: a :: pruned ∨
              k.toAddress ∈ hacker :: a :: pruned) := by
            simp only [List.mem_cons] at hOld ⊢
            tauto
          rw [if_neg hNew]
          cases db.edges.lookup k with
          | none => rfl
          | some row =>
            refine Option.filter_some_pos ?_
            simpa [apartFrom] using hTouch
    · show ((s'.addresses.erase a).lookup b).map (·.isFlaggedHacker) = _
      by_cases hb : b = a
      · subst hb
        rw [AList.lookup_erase, if_pos List.mem_cons_self, Option.map_none]
      · have hFlag := flag_of_deletes h b
        rw [AList.lookup_erase_ne hb]
        rw [show (s'.addresses.lookup b).map (·.isFlaggedHacker) = flag s b from hFlag, hs.flags]
        simp only [List.mem_cons, hb, false_or]

/-! ## Decisions -/

section Decisions

variable {pruned : List Address} {s : Db}

theorem isFlagged_iff (s : Db) (a : Address) : isFlagged s a = true ↔ flag s a = some true := by
  unfold isFlagged flag
  cases s.addresses.lookup a with
  | none => simp
  | some row => simp

theorem all_isFlagged_iff (s : Db) (a : Address) :
    (s.addresses.lookup a).all (·.isFlaggedHacker) = false ↔ flag s a = some false := by
  unfold flag
  cases s.addresses.lookup a with
  | none => simp
  | some row => simp

theorem Removed.flag_eq (h : Removed db hacker pruned s) {a : Address} (hHacker : a ≠ hacker)
    (hPruned : a ∉ pruned) : flag s a = flag db a := by
  rw [h.flags, if_neg hPruned, if_neg hHacker]

/-- The other flagged hackers are never pruned. -/
theorem Removed.otherHacker_iff (h : Removed db hacker pruned s)
    (hPruned : ∀ a ∈ pruned, Exclusive db hacker a) (a : Address) :
    a ≠ hacker ∧ flag s a = some true ↔ OtherHacker db hacker a := by
  constructor
  · rintro ⟨hHacker, hFlag⟩
    have hNot : a ∉ pruned := by
      intro hIn
      rw [h.flags, if_pos hIn] at hFlag
      cases hFlag
    exact ⟨hHacker, by rwa [h.flag_eq hHacker hNot] at hFlag⟩
  · rintro ⟨hHacker, hFlag⟩
    have hNot : a ∉ pruned := by
      intro hIn
      rw [(hPruned a hIn).flag.2] at hFlag
      cases hFlag
    exact ⟨hHacker, by rwa [h.flag_eq hHacker hNot]⟩

theorem OtherHacker.notMem {a : Address} (h : OtherHacker db hacker a)
    (hPruned : ∀ b ∈ pruned, Exclusive db hacker b) : a ∉ hacker :: pruned := by
  rw [List.mem_cons, not_or]
  refine ⟨h.1, fun hIn => ?_⟩
  have hFlag := (hPruned a hIn).flag.2
  rw [h.2] at hFlag
  cases hFlag

/-- An edge that touches neither the hacker nor a pruned address is still there. -/
theorem Removed.lookup_iff (h : Removed db hacker pruned s) {k : EdgeKey} {row : EdgeRow} :
    s.edges.lookup k = some row ↔ db.edges.lookup k = some row ∧
      k.fromAddress ∉ hacker :: pruned ∧ k.toAddress ∉ hacker :: pruned := by
  rw [h.edges]
  by_cases hTouch : k.fromAddress ∈ hacker :: pruned ∨ k.toAddress ∈ hacker :: pruned
  · rw [if_pos hTouch]
    constructor
    · exact fun hNone => nomatch hNone
    · rintro ⟨-, hFrom, hTo⟩
      exact absurd hTouch (not_or.mpr ⟨hFrom, hTo⟩)
  · rw [if_neg hTouch]
    exact ⟨fun hRow => ⟨hRow, not_or.mp hTouch⟩, fun hRow => hRow.1⟩

theorem Removed.paysOther_iff (h : Removed db hacker pruned s)
    (hPruned : ∀ a ∈ pruned, Exclusive db hacker a) {victim : Address}
    (hVictim : victim ∉ hacker :: pruned) :
    0 < s.edges.entries.countP (fun e => e.1.fromAddress = victim && e.2.direction = .inToHacker &&
      isFlagged s e.1.toAddress && e.1.toAddress ≠ hacker) ↔ PaysOther db hacker victim := by
  rw [List.countP_pos_iff]
  simp only [Bool.and_eq_true, decide_eq_true_eq, isFlagged_iff]
  constructor
  · rintro ⟨e, he, ⟨⟨hFrom, hDirection⟩, hFlag⟩, hHacker⟩
    obtain ⟨hRow, _⟩ := h.lookup_iff.mp (Table.lookup_eq_some_iff.mpr he)
    exact ⟨e.1, e.2, hRow, hDirection, hFrom, (h.otherHacker_iff hPruned _).mp ⟨hHacker, hFlag⟩⟩
  · rintro ⟨k, row, hRow, hDirection, rfl, hOther⟩
    obtain ⟨hHacker, hFlag⟩ := (h.otherHacker_iff hPruned _).mpr hOther
    have hStill := h.lookup_iff.mpr ⟨hRow, hVictim, hOther.notMem hPruned⟩
    exact ⟨⟨k, row⟩, Table.lookup_eq_some_iff.mp hStill, ⟨⟨rfl, hDirection⟩, hFlag⟩, hHacker⟩

theorem mem_edgeKeys {edges : Table.Rows EdgeKey EdgeRow} {a : Address} {k : EdgeKey} :
    k ∈ edgeKeysFrom edges a ++ edgeKeysTo edges a ↔
      (∃ row, edges.lookup k = some row) ∧ (k.fromAddress = a ∨ k.toAddress = a) := by
  have hKey : k ∈ edges.entries.map (·.1) ↔ ∃ row, edges.lookup k = some row := by
    rw [List.mem_map]
    constructor
    · rintro ⟨e, he, rfl⟩
      exact ⟨e.2, Table.lookup_eq_some_iff.mpr he⟩
    · rintro ⟨row, hRow⟩
      exact ⟨⟨k, row⟩, Table.lookup_eq_some_iff.mp hRow, rfl⟩
  unfold edgeKeysFrom edgeKeysTo
  rw [List.mem_append, List.mem_filter, List.mem_filter, hKey, decide_eq_true_eq, decide_eq_true_eq]
  tauto

/-- The other end of an edge that touches an address is one of its ends. -/
theorem ends_of_touches {a : Address} {k : EdgeKey} (h : k.fromAddress = a ∨ k.toAddress = a) :
    (k.fromAddress = a ∧ k.toAddress = otherEnd a k) ∨
      (k.toAddress = a ∧ k.fromAddress = otherEnd a k) := by
  unfold otherEnd
  by_cases hFrom : k.fromAddress = a
  · exact Or.inl ⟨hFrom, (if_pos hFrom).symm⟩
  · exact Or.inr ⟨h.resolve_left hFrom, (if_neg hFrom).symm⟩

theorem Removed.linked_iff (h : Removed db hacker pruned s)
    (hPruned : ∀ a ∈ pruned, Exclusive db hacker a) {a : Address} (ha : a ∉ hacker :: pruned) :
    (∃ k ∈ edgeKeysFrom s.edges a ++ edgeKeysTo s.edges a, otherEnd a k ≠ hacker ∧
      otherEnd a k ≠ a ∧ flag s (otherEnd a k) = some true) ↔ LinkedToOther db hacker a := by
  constructor
  · rintro ⟨k, hk, hHacker, hSelf, hFlag⟩
    obtain ⟨⟨row, hRow⟩, hTouch⟩ := mem_edgeKeys.mp hk
    exact ⟨k, row, (h.lookup_iff.mp hRow).1, hTouch, hSelf,
      (h.otherHacker_iff hPruned _).mp ⟨hHacker, hFlag⟩⟩
  · rintro ⟨k, row, hRow, hTouch, hSelf, hOther⟩
    obtain ⟨hHacker, hFlag⟩ := (h.otherHacker_iff hPruned _).mpr hOther
    have hNot := hOther.notMem hPruned
    have hStill : s.edges.lookup k = some row := by
      rcases ends_of_touches hTouch with ⟨hFrom, hTo⟩ | ⟨hTo, hFrom⟩
      · exact h.lookup_iff.mpr ⟨hRow, by rwa [hFrom], by rwa [hTo]⟩
      · exact h.lookup_iff.mpr ⟨hRow, by rwa [hFrom], by rwa [hTo]⟩
    exact ⟨k, mem_edgeKeys.mpr ⟨⟨row, hStill⟩, hTouch⟩, hHacker, hSelf, hFlag⟩

/-- The pruned addresses are exclusive; the exclusive victims are pruned. -/
structure VictimsPruned (db : Db) (hacker : Address) (pruned : List Address) : Prop where
  exclusive : ∀ a ∈ pruned, Exclusive db hacker a
  victims : ∀ a, ExclusiveVictim db hacker a → a ∈ pruned

theorem Removed.outside_iff (h : Removed db hacker pruned s) (hPruned : VictimsPruned db hacker pruned)
    {candidates : List Address}
    (hCandidates : ∀ b, b ∈ candidates ↔ b ≠ hacker ∧ Reaches db.edges hacker b) {a : Address}
    (ha : a ∉ hacker :: pruned) :
    (s.edges.entries.any fun e => e.1.toAddress = a && e.2.direction = .outFromHacker &&
      e.1.fromAddress ≠ hacker && e.1.fromAddress ∉ candidates) = false ↔
      ∀ b, OutStep db.edges b a → Reaches db.edges hacker b ∨ ExclusiveVictim db hacker b := by
  rw [List.any_eq_false]
  simp only [Bool.and_eq_true, decide_eq_true_eq, hCandidates]
  constructor
  · rintro hAll b ⟨k, row, hRow, hDirection, rfl, rfl⟩
    by_contra hNot
    obtain ⟨hReach, hVictim⟩ := not_or.mp hNot
    have hHacker : k.fromAddress ≠ hacker := fun hEq => hReach (hEq ▸ .refl)
    have hFrom : k.fromAddress ∉ hacker :: pruned := by
      rw [List.mem_cons, not_or]
      refine ⟨hHacker, fun hIn => ?_⟩
      rcases hPruned.exclusive _ hIn with hV | hD
      · exact hVictim hV
      · exact hReach hD.2.2.1
    have hStill := Table.lookup_eq_some_iff.mp (h.lookup_iff.mpr ⟨hRow, hFrom, ha⟩)
    exact hAll ⟨k, row⟩ hStill ⟨⟨⟨rfl, hDirection⟩, hHacker⟩, fun hIn => hReach hIn.2⟩
  · rintro hAll e he ⟨⟨⟨hTo, hDirection⟩, hHacker⟩, hOutside⟩
    obtain ⟨hRow, hFrom, _⟩ := h.lookup_iff.mp (Table.lookup_eq_some_iff.mpr he)
    rcases hAll _ ⟨e.1, e.2, hRow, hDirection, rfl, hTo⟩ with hReach | hVictim
    · exact hOutside ⟨hHacker, hReach⟩
    · exact hFrom (List.mem_cons_of_mem _ (hPruned.victims _ hVictim))

end Decisions

/-! ## The loops -/

theorem triple_pruneVictims {victims pruned : List Address}
    (hVictims : ∀ a ∈ victims, IsVictim db hacker a)
    (hPruned : ∀ a ∈ pruned, ExclusiveVictim db hacker a) :
    Triple (Removed db hacker pruned) (pruneVictims hacker victims pruned)
      (fun out s => Removed db hacker out s ∧
        ∀ a, a ∈ out ↔ a ∈ pruned ∨ a ∈ victims ∧ ExclusiveVictim db hacker a) fun _ _ => True := by
  induction victims generalizing pruned with
  | nil => exact triple_pure _ fun s hs => ⟨hs, fun a => by simp⟩
  | cons v rest ih =>
    have hRest : ∀ a ∈ rest, IsVictim db hacker a := fun a ha => hVictims a (List.mem_cons_of_mem _ ha)
    have hExclusive : ∀ a ∈ pruned, Exclusive db hacker a := fun a ha => Or.inl (hPruned a ha)
    -- a victim that is left out is not exclusive, or has been pruned
    have hSkip : (ExclusiveVictim db hacker v → v ∈ pruned) →
        Triple (Removed db hacker pruned) (pruneVictims hacker rest pruned)
          (fun out s => Removed db hacker out s ∧
            ∀ a, a ∈ out ↔ a ∈ pruned ∨ a ∈ v :: rest ∧ ExclusiveVictim db hacker a)
          fun _ _ => True := by
      intro hIn
      refine (ih hRest hPruned).post fun out s h => ⟨h.1, fun a => (h.2 a).trans ?_⟩
      rw [List.mem_cons]
      constructor
      · rintro (h | h)
        · exact Or.inl h
        · exact Or.inr ⟨Or.inr h.1, h.2⟩
      · rintro (h | ⟨rfl | h, hE⟩)
        · exact Or.inl h
        · exact Or.inl (hIn hE)
        · exact Or.inr ⟨h, hE⟩
    unfold pruneVictims
    split
    · next hSame => exact hSkip fun hE => hSame.resolve_left hE.1
    · next hNew =>
      have hv : v ∉ hacker :: pruned := by rwa [List.mem_cons]
      refine Triple.bind (Q := fun n s => Removed db hacker pruned s ∧
        (0 < n ↔ PaysOther db hacker v)) (triple_query (fun s hs =>
          ⟨hs, hs.paysOther_iff hExclusive hv⟩) fun _ _ _ => trivial) fun n => ?_
      refine triple_of_fact fun hn => ?_
      split
      · next hPays => exact hSkip fun hE => absurd (hn.mp hPays) hE.2.2.2
      · next hNone =>
        refine Triple.bind (Q := fun row s => Removed db hacker pruned s ∧
          (row.all (·.isFlaggedHacker) = false ↔ flag db v = some false)) (triple_query (fun s hs =>
            ⟨hs, ?_⟩) fun _ _ _ => trivial) fun row => ?_
        · rw [all_isFlagged_iff, hs.flag_eq (not_or.mp hNew).1 (not_or.mp hNew).2]
        · refine triple_of_fact fun hRow => ?_
          split
          · next hFlagged =>
            refine hSkip fun hE => ?_
            rw [hRow.mpr hE.2.1] at hFlagged
            cases hFlagged
          · next hUnflagged =>
            have hE : ExclusiveVictim db hacker v :=
              ⟨(not_or.mp hNew).1, hRow.mp (Bool.eq_false_iff.mpr hUnflagged),
                hVictims v List.mem_cons_self, fun h => hNone (hn.mpr h)⟩
            refine (triple_prune v pruned).bind fun _ => ?_
            refine (ih hRest fun a ha => ?_).post fun out s h => ⟨h.1, fun a => (h.2 a).trans ?_⟩
            · rcases List.mem_cons.mp ha with rfl | ha
              · exact hE
              · exact hPruned a ha
            · rw [List.mem_cons, List.mem_cons]
              constructor
              · rintro ((rfl | h) | h)
                · exact Or.inr ⟨Or.inl rfl, hE⟩
                · exact Or.inl h
                · exact Or.inr ⟨Or.inr h.1, h.2⟩
              · rintro (h | ⟨rfl | h, hE'⟩)
                · exact Or.inl (Or.inr h)
                · exact Or.inl (Or.inl rfl)
                · exact Or.inr ⟨h, hE'⟩

theorem triple_anyOtherFlagged (a : Address) (keys : List EdgeKey) (s₀ : Db) :
    Triple (fun s => s = s₀) (anyOtherFlagged a hacker keys) (fun linked s => s = s₀ ∧
      (linked = true ↔ ∃ k ∈ keys, otherEnd a k ≠ hacker ∧ otherEnd a k ≠ a ∧
        flag s₀ (otherEnd a k) = some true)) fun _ _ => True := by
  induction keys with
  | nil => exact triple_pure _ fun s hs => ⟨hs, by simp⟩
  | cons k rest ih =>
    unfold anyOtherFlagged
    split
    · next hSkip =>
      refine ih.post fun linked s h => ⟨h.1, h.2.trans ?_⟩
      simp only [List.mem_cons, exists_eq_or_imp]
      tauto
    · next hOther =>
      refine Triple.bind (Q := fun row s => s = s₀ ∧ (row.any (·.isFlaggedHacker) = true ↔
        flag s₀ (otherEnd a k) = some true)) (triple_query (fun s hs => ⟨hs, ?_⟩) fun _ _ _ => trivial)
        fun row => triple_of_fact fun hRow => ?_
      · rw [hs, ← isFlagged_iff]
        rfl
      · split
        · next hFlagged =>
          refine triple_pure true fun s hs => ⟨hs, iff_of_true rfl ?_⟩
          exact ⟨k, List.mem_cons_self, (not_or.mp hOther).1, (not_or.mp hOther).2, hRow.mp hFlagged⟩
        · next hUnflagged =>
          refine ih.post fun linked s h => ⟨h.1, h.2.trans ?_⟩
          simp only [List.mem_cons, exists_eq_or_imp]
          have hNot : flag s₀ (otherEnd a k) ≠ some true := fun h => hUnflagged (hRow.mpr h)
          tauto

theorem triple_hasEdgeWithOtherFlaggedHacker {pruned : List Address}
    (hPruned : ∀ a ∈ pruned, Exclusive db hacker a) {a : Address} (ha : a ∉ hacker :: pruned) :
    Triple (Removed db hacker pruned) (hasEdgeWithOtherFlaggedHacker a hacker)
      (fun linked s => Removed db hacker pruned s ∧ (linked = true ↔ LinkedToOther db hacker a))
      fun _ _ => True := by
  refine triple_of_state fun s hs => ?_
  refine Triple.bind (Q := fun keys s' => s' = s ∧ keys = edgeKeysFrom s.edges a)
    (triple_query (fun s' h => ⟨h, by rw [h]⟩) fun _ _ _ => trivial) fun fromKeys => ?_
  refine triple_of_fact fun hFrom => ?_
  refine Triple.bind (Q := fun keys s' => s' = s ∧ keys = edgeKeysTo s.edges a)
    (triple_query (fun s' h => ⟨h, by rw [h]⟩) fun _ _ _ => trivial) fun toKeys => ?_
  refine triple_of_fact fun hTo => ?_
  subst hFrom hTo
  refine (triple_anyOtherFlagged a _ s).post fun linked s' h => ?_
  rw [h.1]
  exact ⟨hs, h.2.trans (hs.linked_iff hPruned ha)⟩

/-- The loop over the downstream addresses. -/
theorem triple_pruneDownstream {candidates : List Address}
    (hCandidates : ∀ b, b ∈ candidates ↔ b ≠ hacker ∧ Reaches db.edges hacker b)
    {rest pruned : List Address} (hRest : rest ⊆ candidates)
    (hPruned : VictimsPruned db hacker pruned) :
    Triple (Removed db hacker pruned) (pruneDownstream hacker candidates rest pruned)
      (fun out s => Removed db hacker out s ∧
        ∀ a, a ∈ out ↔ a ∈ pruned ∨ a ∈ rest ∧ ExclusiveDownstream db hacker a) fun _ _ => True := by
  induction rest generalizing pruned with
  | nil => exact triple_pure _ fun s hs => ⟨hs, fun a => by simp⟩
  | cons c rest ih =>
    have hTail : rest ⊆ candidates := fun a ha => hRest (List.mem_cons_of_mem _ ha)
    have hReach : Reaches db.edges hacker c := ((hCandidates c).mp (hRest List.mem_cons_self)).2
    -- a candidate that is left out is not exclusive, or has been pruned
    have hSkip : (ExclusiveDownstream db hacker c → c ∈ pruned) →
        Triple (Removed db hacker pruned) (pruneDownstream hacker candidates rest pruned)
          (fun out s => Removed db hacker out s ∧
            ∀ a, a ∈ out ↔ a ∈ pruned ∨ a ∈ c :: rest ∧ ExclusiveDownstream db hacker a)
          fun _ _ => True := by
      intro hIn
      refine (ih hTail hPruned).post fun out s h => ⟨h.1, fun a => (h.2 a).trans ?_⟩
      rw [List.mem_cons]
      constructor
      · rintro (h | h)
        · exact Or.inl h
        · exact Or.inr ⟨Or.inr h.1, h.2⟩
      · rintro (h | ⟨rfl | h, hE⟩)
        · exact Or.inl h
        · exact Or.inl (hIn hE)
        · exact Or.inr ⟨h, hE⟩
    unfold pruneDownstream
    split
    · next hSame => exact hSkip fun hE => hSame.resolve_left hE.1
    next hNew =>
    have hc : c ∉ hacker :: pruned := by rwa [List.mem_cons]
    refine Triple.bind (Q := fun row s => Removed db hacker pruned s ∧
      (row.all (·.isFlaggedHacker) = false ↔ flag db c = some false)) (triple_query (fun s hs =>
        ⟨hs, ?_⟩) fun _ _ _ => trivial) fun row => triple_of_fact fun hRow => ?_
    · rw [all_isFlagged_iff, hs.flag_eq (not_or.mp hNew).1 (not_or.mp hNew).2]
    split
    · next hFlagged =>
      refine hSkip fun hE => ?_
      rw [hRow.mpr hE.2.1] at hFlagged
      cases hFlagged
    next hUnflagged =>
    refine (triple_hasEdgeWithOtherFlaggedHacker hPruned.exclusive hc).bind fun linked =>
      triple_of_fact fun hLinked => ?_
    split
    · next hIs => exact hSkip fun hE => absurd (hLinked.mp hIs) hE.2.2.2.1
    next hNotLinked =>
    refine Triple.bind (Q := fun outside s => Removed db hacker pruned s ∧ (outside = false ↔
      ∀ b, OutStep db.edges b c → Reaches db.edges hacker b ∨ ExclusiveVictim db hacker b))
      (triple_query (fun s hs => ⟨hs, hs.outside_iff hPruned hCandidates hc⟩) fun _ _ _ => trivial)
      fun outside => triple_of_fact fun hOutside => ?_
    split
    · next hIs =>
      refine hSkip fun hE => ?_
      rw [hOutside.mpr hE.2.2.2.2] at hIs
      cases hIs
    · next hInside =>
      have hE : ExclusiveDownstream db hacker c :=
        ⟨(not_or.mp hNew).1, hRow.mp (Bool.eq_false_iff.mpr hUnflagged), hReach,
          fun h => hNotLinked (hLinked.mpr h), hOutside.mp (Bool.eq_false_iff.mpr hInside)⟩
      have hMore : VictimsPruned db hacker (c :: pruned) := by
        refine ⟨fun a ha => ?_, fun a ha => List.mem_cons_of_mem _ (hPruned.victims a ha)⟩
        rcases List.mem_cons.mp ha with rfl | ha
        · exact Or.inr hE
        · exact hPruned.exclusive a ha
      refine (triple_prune c pruned).bind fun _ => (ih hTail hMore).post fun out s h =>
        ⟨h.1, fun a => (h.2 a).trans ?_⟩
      rw [List.mem_cons, List.mem_cons]
      constructor
      · rintro ((rfl | h) | h)
        · exact Or.inr ⟨Or.inl rfl, hE⟩
        · exact Or.inl h
        · exact Or.inr ⟨Or.inr h.1, h.2⟩
      · rintro (h | ⟨rfl | h, hE'⟩)
        · exact Or.inl (Or.inr h)
        · exact Or.inl (Or.inl rfl)
        · exact Or.inr ⟨h, hE'⟩

/-! ## The removal -/

theorem triple_collectLoop (fuel : Nat) (queue seen : List Address) (db : Db) :
    Triple (fun s => s = db) (collectLoop fuel queue seen)
      (fun out s => s = db ∧ out = Search.search (outTargets db.edges) fuel queue seen)
      fun _ _ => True := by
  induction fuel generalizing queue seen with
  | zero => exact triple_pure _ fun s hs => ⟨hs, rfl⟩
  | succ fuel ih =>
    cases queue with
    | nil => exact triple_pure _ fun s hs => ⟨hs, rfl⟩
    | cons cur queue =>
      refine Triple.bind (Q := fun outs s => s = db ∧ outs = outTargets db.edges cur)
        (triple_query (fun s hs => ⟨hs, by rw [hs]⟩) fun _ _ _ => trivial) fun outs => ?_
      refine triple_of_fact fun hOuts => ?_
      subst hOuts
      exact ih _ _

/-- The search has enough rounds for what is reachable. -/
theorem triple_collectDownstreamAddresses (hacker : Address) (db : Db) :
    Triple (fun s => s = db) (collectDownstreamAddresses hacker)
      (fun out s => s = db ∧ ∀ a, a ∈ out ↔ a ≠ hacker ∧ Reaches db.edges hacker a)
      fun _ _ => True := by
  refine Triple.bind (Q := fun out s => s = db ∧ out = Search.search (outTargets db.edges)
    (db.edges.entries.length + 1) [hacker] [hacker]) (triple_bounded fun s hs => ?_) fun seen => ?_
  · subst hs
    exact triple_collectLoop _ _ _ s
  · refine triple_pure _ fun s h => ⟨h.1, fun a => ?_⟩
    have hAll : ∀ x, outTargets db.edges x ⊆ db.edges.entries.map (·.1.toAddress) := by
      intro x y hy
      obtain ⟨e, he, rfl⟩ := List.mem_map.mp hy
      exact List.mem_map.mpr ⟨e, List.mem_of_mem_filter he, rfl⟩
    rw [h.2, List.mem_filter, Search.mem_search hAll hacker (by rw [List.length_map]),
      step_outTargets, decide_eq_true_eq]
    exact and_comm

/-- The hacker is not flagged any more; all edges are there. -/
structure Unflagged (db : Db) (hacker : Address) (s : Db) : Prop where
  edges : s.edges = db.edges
  flags : ∀ a, flag s a = if a = hacker then some false else flag db a

theorem triple_unflag (hacker : Address) (db : Db) :
    Triple (fun s => s = db) (upsertAddress { address := hacker, isFlaggedHacker := some false })
      (fun _ => Unflagged db hacker) fun _ _ => True := by
  intro s c hs
  subst hs
  refine ⟨fun _ hOk => ?_, fun _ _ => trivial⟩
  have hCore := core_final (writes_upsertAddress _ s) hOk
  refine ⟨congrArg CoreView.edges hCore, fun a => ?_⟩
  have hAddresses : Db.addresses _ = _ := congrArg CoreView.addresses hCore
  have hUpserted : ∀ row : Option AddressRow,
      (row.elim (AddressUpsertData.inserted { address := hacker, isFlaggedHacker := some false })
        (AddressUpsertData.updated { address := hacker, isFlaggedHacker := some false })).isFlaggedHacker =
      false := by
    intro row
    cases row <;> rfl
  unfold flag
  rw [hAddresses]
  show (((s.addresses.insert hacker _).lookup a).map _) = _
  rw [Table.lookup_insert_if]
  split
  · exact congrArg some (hUpserted _)
  · rfl

theorem quiet_deleteActiveJobsForAddress (a : Address) :
    (deleteActiveJobsForAddress a : StoreM Unit).Emits Stmt.Quiet := by
  refine Emits.bind (emits_query _) fun rows => Emits.bind (emits_run rfl) fun _ => ?_
  refine Emits.bind (emits_when fun _ => emits_run rfl) fun _ => emits_storeForEach fun _ => ?_
  exact emits_when fun _ => emits_storeForEach fun _ => emits_run rfl

theorem triple_cancelJobs (hacker : Address) (db : Db) :
    Triple (Unflagged db hacker) (deleteActiveJobsForAddress hacker : StoreM Unit)
      (fun _ => Unflagged db hacker) fun _ _ => True := by
  refine (triple_of_emits (quiet_deleteActiveJobsForAddress hacker) fun i hi s hs => ?_).conseq
    (fun _ h => h) (fun _ _ h => h) fun _ _ _ => trivial
  have hCore : (exec i s).core = s.core := tracks_core.dropped i s hi
  have hAddresses : (exec i s).addresses = s.addresses := congrArg CoreView.addresses hCore
  refine ⟨(congrArg CoreView.edges hCore : (exec i s).edges = s.edges).trans hs.edges, fun a => ?_⟩
  rw [← hs.flags a]
  unfold flag
  rw [hAddresses]

theorem triple_deleteHackerEdges (hacker : Address) (db : Db) :
    Triple (Unflagged db hacker) (deleteEdgesTouchingAddress hacker) (fun _ => Removed db hacker [])
      fun _ _ => True := by
  refine triple_of_state fun s hs => ?_
  refine (triple_deleteEdgesTouchingAddress hacker s).post fun _ s' h => ⟨fun k => ?_, fun a => ?_⟩
  · rw [h.edges, Table.lookup_filter, hs.edges]
    by_cases hTouch : k.fromAddress = hacker ∨ k.toAddress = hacker
    · rw [if_pos (by simpa using hTouch)]
      refine Option.filter_eq_none_iff.mpr fun row _ => ?_
      simpa [apartFrom, or_iff_not_imp_left] using hTouch
    · rw [if_neg (by simpa using hTouch)]
      cases db.edges.lookup k with
      | none => rfl
      | some row =>
        refine Option.filter_some_pos ?_
        simpa [apartFrom] using hTouch
  · rw [flag_of_deletes h, hs.flags a, if_neg List.not_mem_nil]

/-- A removal deletes the exclusive addresses. -/
theorem triple_removeHacker {hacker : Address} {db : Db} (hFlagged : flag db hacker = some true) :
    Triple (fun s => s = db) (removeHacker hacker true)
      (fun _ s => ∃ pruned, Removed db hacker pruned s ∧
        ∀ a, a ∈ pruned ↔ Exclusive db hacker a) fun _ _ => True := by
  have hVictims : ∀ a, a ∈ ((db.edges.entries.filter fun e =>
      e.1.toAddress = hacker && e.2.direction = .inToHacker).map (·.1.fromAddress)).dedup ↔
      IsVictim db hacker a := by
    intro a
    rw [List.mem_dedup, List.mem_map]
    constructor
    · rintro ⟨e, he, rfl⟩
      rw [List.mem_filter] at he
      simp only [Bool.and_eq_true, decide_eq_true_eq] at he
      exact ⟨e.1, e.2, Table.lookup_eq_some_iff.mpr he.1, he.2.2, he.2.1, rfl⟩
    · rintro ⟨k, row, hRow, hDirection, rfl, rfl⟩
      refine ⟨⟨k, row⟩, List.mem_filter.mpr ⟨Table.lookup_eq_some_iff.mp hRow, ?_⟩, rfl⟩
      simp [hDirection]
  refine Triple.bind (Q := fun existing s => s = db ∧ existing.any (·.isFlaggedHacker) = true)
    (triple_query (fun s hs => ⟨hs, ?_⟩) fun _ _ _ => trivial) fun existing =>
    triple_of_fact fun hExisting => ?_
  · rw [hs]
    exact (isFlagged_iff db hacker).mpr hFlagged
  rw [if_pos hExisting]
  unfold removeFlagged
  simp only [if_true]
  refine Triple.bind (Q := fun victims s => s = db ∧ ∀ a, a ∈ victims ↔ IsVictim db hacker a)
    (triple_query (fun s hs => ⟨hs, by rw [hs]; exact hVictims⟩) fun _ _ _ => trivial)
    fun victims => triple_of_fact fun hIsVictim => ?_
  refine (triple_collectDownstreamAddresses hacker db).bind fun downstream =>
    triple_of_fact fun hDownstream => ?_
  refine (triple_unflag hacker db).bind fun _ => (triple_cancelJobs hacker db).bind fun _ =>
    (triple_deleteHackerEdges hacker db).bind fun _ => ?_
  refine (triple_pruneVictims (fun a ha => (hIsVictim a).mp ha) fun a ha => absurd ha List.not_mem_nil).bind
    fun prunedVictims => triple_of_fact fun hPrunedVictims => ?_
  have hAll : ∀ a, a ∈ prunedVictims ↔ ExclusiveVictim db hacker a := by
    intro a
    rw [hPrunedVictims a, hIsVictim a]
    constructor
    · rintro (h | h)
      · cases h
      · exact h.2
    · exact fun h => Or.inr ⟨h.2.2.1, h⟩
  refine (triple_pruneDownstream hDownstream (List.Subset.refl _)
    ⟨fun a ha => Or.inl ((hAll a).mp ha), fun a ha => (hAll a).mpr ha⟩).bind fun pruned => ?_
  refine triple_pure _ fun s hs => ⟨pruned, hs.1, fun a => ?_⟩
  rw [hs.2 a, hAll a, hDownstream a]
  constructor
  · rintro (h | h)
    · exact Or.inl h
    · exact Or.inr h.2
  · rintro (h | h)
    · exact Or.inl h
    · exact Or.inr ⟨⟨h.1, h.2.2.1⟩, h⟩

/-! ## What the other hackers reach -/

/-- No address and no edge on an out-edge path from another flagged hacker is deleted, and the
addresses that remain are reached as before. -/
structure KeepsOthers (db : Db) (hacker : Address) (s : Db) : Prop where
  addresses : ∀ g, OtherHacker db hacker g → ∀ a, Reaches db.edges g a →
    (db.addresses.lookup a).isSome → (s.addresses.lookup a).isSome
  edges : ∀ g, OtherHacker db hacker g → ∀ k row, Reaches db.edges g k.fromAddress →
    db.edges.lookup k = some row → row.direction = .outFromHacker → s.edges.lookup k = some row
  reach : ∀ g, OtherHacker db hacker g → ∀ a, (s.addresses.lookup a).isSome →
    (Reaches s.edges g a ↔ Reaches db.edges g a)

/-- No other flagged hacker reaches the hacker or an exclusive address. -/
def Apart (db : Db) (hacker : Address) : Prop :=
  ∀ g, OtherHacker db hacker g → ∀ a, Reaches db.edges g a → a ≠ hacker ∧ ¬ Exclusive db hacker a

section Keeps

variable {pruned : List Address} {s : Db}

theorem isSome_flag (s : Db) (a : Address) :
    (flag s a).isSome = (s.addresses.lookup a).isSome := Option.isSome_map

theorem Apart.keeps (h : Apart db hacker) (hs : Removed db hacker pruned s)
    (hPruned : ∀ a, a ∈ pruned ↔ Exclusive db hacker a) : KeepsOthers db hacker s := by
  have hNot : ∀ g, OtherHacker db hacker g → ∀ a, Reaches db.edges g a → a ∉ hacker :: pruned := by
    intro g hg a ha hIn
    rcases List.mem_cons.mp hIn with hEq | hIn
    · exact (h g hg a ha).1 hEq
    · exact (h g hg a ha).2 ((hPruned a).mp hIn)
  have hEdges : ∀ g, OtherHacker db hacker g → ∀ k row, Reaches db.edges g k.fromAddress →
      db.edges.lookup k = some row → row.direction = .outFromHacker →
      s.edges.lookup k = some row := by
    intro g hg k row hReach hRow hDirection
    have hTo : Reaches db.edges g k.toAddress :=
      hReach.tail ⟨k, row, hRow, hDirection, rfl, rfl⟩
    exact hs.lookup_iff.mpr ⟨hRow, hNot g hg _ hReach, hNot g hg _ hTo⟩
  refine ⟨fun g hg a hReach hRow => ?_, hEdges, fun g hg a _ => ⟨fun hReach => ?_, fun hReach => ?_⟩⟩
  · obtain ⟨hHacker, hKept⟩ := not_or.mp (mt List.mem_cons.mpr (hNot g hg a hReach))
    rw [← isSome_flag, hs.flag_eq hHacker hKept, isSome_flag]
    exact hRow
  · refine Relation.ReflTransGen.mono (fun x y hStep => ?_) g a hReach
    obtain ⟨k, row, hRow, hRest⟩ := hStep
    exact ⟨k, row, (hs.lookup_iff.mp hRow).1, hRest⟩
  · clear * - hReach hEdges hg
    induction hReach with
    | refl => exact .refl
    | tail hPath hStep ih =>
      obtain ⟨k, row, hRow, hDirection, rfl, rfl⟩ := hStep
      exact ih.tail ⟨k, row, hEdges g hg k row hPath hRow hDirection, hDirection, rfl, rfl⟩

theorem KeepsOthers.apart (h : KeepsOthers db hacker s) (hs : Removed db hacker pruned s)
    (hPruned : ∀ a, a ∈ pruned ↔ Exclusive db hacker a) : Apart db hacker := by
  refine fun g hg a hReach => ⟨fun hHacker => ?_, fun hExclusive => ?_⟩
  · -- the last edge of a path to the hacker touches it
    subst hHacker
    cases hReach with
    | refl => exact hg.1 rfl
    | tail hPath hStep =>
      obtain ⟨k, row, hRow, hDirection, rfl, hTo⟩ := hStep
      have hStill := h.edges g hg k row hPath hRow hDirection
      exact (hs.lookup_iff.mp hStill).2.2 (hTo ▸ List.mem_cons_self)
  · have hRow : (db.addresses.lookup a).isSome := by
      rw [← isSome_flag, hExclusive.flag.2]
      rfl
    have hStill := h.addresses g hg a hReach hRow
    rw [← isSome_flag, hs.flags, if_pos ((hPruned a).mpr hExclusive)] at hStill
    cases hStill

end Keeps

/-- A removal that prunes keeps what the other flagged hackers reach exactly when they reach neither
the hacker nor an address that is exclusive by its own edges. -/
theorem removeHacker_keeps_iff {db : Db} {hacker : Address} (hFlagged : flag db hacker = some true)
    {c : Ctl Mem Err} {result : RemoveHackerResult}
    (hOk : (removeHacker hacker true db c).res = .ok result) :
    KeepsOthers db hacker ((removeHacker hacker true).final db c) ↔ Apart db hacker := by
  obtain ⟨pruned, hRemoved, hPruned⟩ := (triple_removeHacker hFlagged).ok rfl hOk
  exact ⟨fun h => h.apart hRemoved hPruned, fun h => h.keeps hRemoved hPruned⟩

/-! ### A sink behind a shared address -/

def addressRow (role : Role) (isFlaggedHacker : Bool) : AddressRow where
  role := role
  hackId := "coldcard"
  isFlaggedHacker := isFlaggedHacker
  hopFromHacker := none
  expandStatus := .expanded
  expandProfile := none
  totalReceivedSats := 0
  inboundSats := 0

def outEdge (a b : Address) : Table.Rows EdgeKey EdgeRow → Table.Rows EdgeKey EdgeRow :=
  AList.insert ⟨a, b, name "t"⟩
    { amountSats := 100000, direction := .outFromHacker, blockTime := none, hopFromHacker := none,
      edgeKind := none, fanoutMeta := none }

/-- Two flagged hackers, and two addresses that are not. -/
def twoHackers (edges : Table.Rows EdgeKey EdgeRow) : Db :=
  { Db.initial with
    addresses := (((∅ : Table.Rows Address AddressRow).insert (name "sink")
      (addressRow .downstream false)).insert (name "shared") (addressRow .downstream false)).insert
      (name "other") (addressRow .hacker true) |>.insert (name "h") (addressRow .hacker true)
    edges := edges }

/-- Both hackers pay the shared address, and it pays the sink. -/
def sharedEdges : Table.Rows EdgeKey EdgeRow :=
  outEdge (name "h") (name "shared") (outEdge (name "other") (name "shared")
    (outEdge (name "shared") (name "sink") ∅))

/-- The removal deletes the sink, which the other hacker reaches. -/
theorem removeHacker_sinkDeleted : ¬ ∀ (db : Db) (hacker : Address) (c : Ctl Mem Err)
    (result : RemoveHackerResult), flag db hacker = some true →
    (removeHacker hacker true db c).res = .ok result →
    KeepsOthers db hacker ((removeHacker hacker true).final db c) := by
  intro h
  have hRun : ((removeHacker (name "h") true (twoHackers sharedEdges) ⟨{}, []⟩).res.toOption).map id =
      some { unflagged := true, victimsPruned := 0, downstreamPruned := 1 } := by decide +kernel
  obtain ⟨result, hOk, _⟩ := exists_ok hRun
  have hKeeps := h _ _ _ _ (by decide +kernel) hOk
  have hStep : ∀ a b, b ∈ outTargets (twoHackers sharedEdges).edges a →
      OutStep (twoHackers sharedEdges).edges a b := fun _ _ => mem_outTargets.mp
  have hReach : Reaches (twoHackers sharedEdges).edges (name "other") (name "sink") :=
    .tail (.single (hStep _ (name "shared") (by decide +kernel))) (hStep _ _ (by decide +kernel))
  have hSink := hKeeps.addresses (name "other") ⟨by decide, by decide +kernel⟩ (name "sink") hReach
    (by decide +kernel)
  have hGone : (((removeHacker (name "h") true).final (twoHackers sharedEdges) ⟨{}, []⟩).addresses.lookup
      (name "sink")).isSome = false := by decide +kernel
  rw [hGone] at hSink
  cases hSink

/-- Each hacker pays an address of its own. -/
def separateEdges : Table.Rows EdgeKey EdgeRow :=
  outEdge (name "h") (name "sink") (outEdge (name "other") (name "shared") ∅)

/-- A list that the out-edges do not leave holds all that its addresses reach. -/
theorem mem_of_reaches {edges : Table.Rows EdgeKey EdgeRow} {l : List Address}
    (hClosed : ∀ a ∈ l, ∀ b ∈ outTargets edges a, b ∈ l) {a b : Address} (ha : a ∈ l)
    (h : Reaches edges a b) : b ∈ l := by
  induction h with
  | refl => exact ha
  | tail _ hStep ih => exact hClosed _ ih _ (mem_outTargets.mpr hStep)

/-- Where the hackers have nothing in common, the removed one takes nothing from the other. -/
theorem removeHacker_keeps_other :
    KeepsOthers (twoHackers separateEdges) (name "h")
      ((removeHacker (name "h") true).final (twoHackers separateEdges) ⟨{}, []⟩) := by
  have hRun : ((removeHacker (name "h") true (twoHackers separateEdges) ⟨{}, []⟩).res.toOption).map id =
      some { unflagged := true, victimsPruned := 0, downstreamPruned := 1 } := by decide +kernel
  obtain ⟨result, hOk, _⟩ := exists_ok hRun
  refine (removeHacker_keeps_iff (by decide +kernel) hOk).mpr fun g hg a hReach => ?_
  have hOther : g = name "other" := by
    obtain ⟨hNot, hFlag⟩ := hg
    unfold flag twoHackers at hFlag
    simp only [Table.lookup_insert_if] at hFlag
    rw [if_neg hNot] at hFlag
    split at hFlag
    · next h => exact h
    · split at hFlag
      · cases hFlag
      · split at hFlag
        · cases hFlag
        · cases hFlag
  subst hOther
  have hMem : a ∈ [name "other", name "shared"] :=
    mem_of_reaches (by decide +kernel) (by decide) hReach
  have hOut : ∀ e ∈ separateEdges.entries, e.2.direction = .outFromHacker := by decide +kernel
  refine ⟨fun hEq => absurd (hEq ▸ hMem) (by decide), fun hExclusive => ?_⟩
  rcases hExclusive with ⟨_, _, ⟨k, row, hRow, hIn, _⟩, _⟩ | ⟨_, _, hFromRemoved, _⟩
  · have hDirection := hOut ⟨k, row⟩ (Table.lookup_eq_some_iff.mp hRow)
    rw [hIn] at hDirection
    cases hDirection
  · have hOwn : a ∈ [name "h", name "sink"] :=
      mem_of_reaches (by decide +kernel) (by decide) hFromRemoved
    have hApart : ∀ a ∈ [name "other", name "shared"], a ∉ [name "h", name "sink"] := by decide
    exact hApart a hMem hOwn

end Bloodhound.Ops
