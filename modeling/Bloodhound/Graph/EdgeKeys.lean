import Bloodhound.Graph.Computed

/-!
# Edge keys of a computed list

The edges table has one row for each sender, target and transaction, so two edges of a list
with the same sender and target share a row. Payments to hackers have distinct keys, since
their amounts are aggregated by sender and hacker; so have the outputs, since the spenders
are distinct and the amounts are aggregated by target. A key occurs twice only where the
traced address, an input outside the hackers, pays a hacker: the payment is listed from the
hacker's side and again among the outputs of the traced address.
-/

namespace Bloodhound.Graph

open Bloodhound.Chain Bloodhound.Store Bloodhound.Indexer

/-- The part of the key of the edges table that an edge of one transaction decides. -/
def edgeKeyOf (e : HackTraceEdgeDraft) : Address × Address := (e.fromAddress, e.toAddress)

/-- The hackers that get a positive share of what an address puts into a transaction. -/
def sharedHackers (tx : ChainTxDetail) (hackers : List Address) (a : Address) : List Address :=
  let hackerOut := (aggregateHackerOutputs tx hackers).filter (0 < ·.2)
  let value := Tally.total a (victimInputAmounts tx hackers)
  let shares :=
    if hackerOut.length = 1 then [value]
    else splitProportionally value (hackerOut.map Prod.snd)
  (((hackerOut.map Prod.fst).zip shares).filter (0 < ·.2)).map Prod.fst

def flaggedInputs (tx : ChainTxDetail) (hackers : List Address) : List Address :=
  ((inputAddresses tx).filter (· ∈ hackers)).eraseDups

/-- The addresses other than `a` that a transaction pays, in the order of its outputs. -/
def otherTargets (tx : ChainTxDetail) (a : Address) : List Address :=
  ((outputAddresses tx).filter fun e => e.1 ≠ a ∧ 0 < e.2).map Prod.fst

/-- The outputs that a limit leaves for the traced address: the shares of hackers and the outputs
of the flagged inputs come first. -/
def tracedTargets (tx : ChainTxDetail) (hackers : List Address) (maxEdges : Option Nat)
    (a : Address) : List Address :=
  let shares := (aggregateInputsByAddress tx hackers).map fun e => (sharedHackers tx hackers e.1).length
  let flagged := (flaggedInputs tx hackers).map fun h => (otherTargets tx h).length
  maxEdges.elim (otherTargets tx a) fun n => (otherTargets tx a).take (n - shares.sum - flagged.sum)

/-- The traced address is an input outside the hackers, and a hacker that gets a share of its
inputs is also among the outputs listed for it. -/
def ListsPaymentTwice (tx : ChainTxDetail) (hackers : List Address) (spending : Option Spender)
    (maxEdges : Option Nat) : Prop :=
  ∃ s, spending = some s ∧ s.address ∈ inputAddresses tx ∧ s.address ∉ hackers ∧
    ∃ h ∈ sharedHackers tx hackers s.address, h ∈ tracedTargets tx hackers maxEdges s.address

variable {tx : ChainTxDetail} {hackers : List Address} {spending : Option Spender}
  {maxEdges : Option Nat}

/-! ## Keys of the payments -/

theorem targets_inEdgesOf (hackerOut : List (Address × Int)) (victim : Address) (value : Int) :
    (inEdgesOf hackerOut victim value).map (·.toAddress) =
      (((hackerOut.map Prod.fst).zip
        (if hackerOut.length = 1 then [value]
          else splitProportionally value (hackerOut.map Prod.snd))).filter (0 < ·.2)).map Prod.fst := by
  unfold inEdgesOf
  dsimp only
  generalize (if hackerOut.length = 1 then [value]
    else splitProportionally value (hackerOut.map Prod.snd)) = shares
  induction hackerOut generalizing shares with
  | nil => rfl
  | cons e l ih =>
    cases shares with
    | nil => rfl
    | cons s shares =>
      rw [List.zip_cons_cons, List.map_cons, List.zip_cons_cons, List.filterMap_cons,
        List.filter_cons]
      by_cases h : 0 < s
      · simp only [h, if_true, decide_true, List.map_cons, ih]
      · simp only [h, if_false, decide_false, Bool.false_eq_true, ih]

theorem keys_inEdgesOf {a : Address} {value : Int}
    (h : (a, value) ∈ aggregateInputsByAddress tx hackers) :
    (inEdgesOf ((aggregateHackerOutputs tx hackers).filter (0 < ·.2)) a value).map edgeKeyOf =
      (sharedHackers tx hackers a).map (a, ·) := by
  have hKey : ∀ e ∈ inEdgesOf ((aggregateHackerOutputs tx hackers).filter (0 < ·.2)) a value,
      edgeKeyOf e = (a, e.toAddress) := fun e he => by
    unfold edgeKeyOf
    rw [(mem_inEdgesOf he).1]
  calc _ = ((inEdgesOf _ a value).map (·.toAddress)).map (a, ·) := by
        rw [List.map_congr_left hKey, List.map_map]
        rfl
    _ = _ := by
        rw [targets_inEdgesOf, Tally.eq_total_of_mem h]
        rfl

/-- The keys of the payments, sender by sender. -/
theorem keys_inToHacker :
    (computeHackTraceEdges tx hackers spending maxEdges).inToHacker.map edgeKeyOf =
      (aggregateInputsByAddress tx hackers).flatMap fun e =>
        (sharedHackers tx hackers e.1).map (e.1, ·) := by
  unfold computeHackTraceEdges
  rw [List.map_flatMap]
  refine List.flatMap_congr fun e he => ?_
  exact keys_inEdgesOf he

theorem length_inToHacker :
    (computeHackTraceEdges tx hackers spending maxEdges).inToHacker.length =
      ((aggregateInputsByAddress tx hackers).map fun e =>
        (sharedHackers tx hackers e.1).length).sum := by
  rw [← List.length_map (f := edgeKeyOf), keys_inToHacker, List.length_flatMap]
  simp only [List.length_map]

theorem nodup_sharedHackers (a : Address) : (sharedHackers tx hackers a).Nodup := by
  have hNodup : (((aggregateHackerOutputs tx hackers).filter (0 < ·.2)).map Prod.fst).Nodup :=
    (Tally.nodup_tally _).sublist (List.filter_sublist.map _)
  unfold sharedHackers
  rw [← targets_inEdgesOf _ a]
  exact nodup_inEdgesOf hNodup

theorem nodup_keys_inToHacker :
    ((computeHackTraceEdges tx hackers spending maxEdges).inToHacker.map edgeKeyOf).Nodup := by
  rw [keys_inToHacker, List.nodup_flatMap]
  constructor
  · exact fun e _ => (nodup_sharedHackers e.1).map fun _ _ h => (Prod.mk.inj h).2
  · have hPair : (aggregateInputsByAddress tx hackers).Pairwise fun e e' => e.1 ≠ e'.1 :=
      List.pairwise_map.mp (Tally.nodup_tally _)
    refine hPair.imp fun {e e'} hne k hk hk' => ?_
    obtain ⟨_, _, rfl⟩ := List.mem_map.mp hk
    obtain ⟨_, _, hEq⟩ := List.mem_map.mp hk'
    exact hne (Prod.mk.inj hEq).1.symm

/-- The payments of an address are its shares; an address that puts nothing in has none. -/
theorem mem_keys_inToHacker {a h : Address} :
    (a, h) ∈ (computeHackTraceEdges tx hackers spending maxEdges).inToHacker.map edgeKeyOf ↔
      h ∈ sharedHackers tx hackers a := by
  rw [keys_inToHacker, List.mem_flatMap]
  constructor
  · rintro ⟨e, _, hk⟩
    obtain ⟨_, hMem, hEq⟩ := List.mem_map.mp hk
    cases hEq
    exact hMem
  · intro hMem
    have hIn : a ∈ (aggregateInputsByAddress tx hackers).map Prod.fst := by
      by_contra hNot
      have hZero : Tally.total a (victimInputAmounts tx hackers) = 0 :=
        Tally.total_eq_zero fun h => hNot (Tally.mem_keys_tally.mpr h)
      unfold sharedHackers at hMem
      rw [hZero] at hMem
      obtain ⟨p, hp, -⟩ := List.mem_map.mp hMem
      obtain ⟨hZip, hPos⟩ := List.mem_filter.mp hp
      have hShare := (List.of_mem_zip hZip).2
      have : p.2 = 0 := by
        split at hShare
        · exact List.mem_singleton.mp hShare
        · unfold splitProportionally at hShare
          simp only [le_refl, or_true, if_true] at hShare
          obtain ⟨_, _, hEq⟩ := List.mem_map.mp hShare
          exact hEq.symm
      simp [this] at hPos
    obtain ⟨e, he, rfl⟩ := List.mem_map.mp hIn
    exact ⟨e, he, List.mem_map.mpr ⟨h, hMem, rfl⟩⟩

/-! ## Keys of the outputs -/

theorem keys_outEdgesOf (s : Spender) :
    (outEdgesOf (outputAddresses tx) s).map edgeKeyOf =
      (otherTargets tx s.address).map (s.address, ·) := by
  unfold outEdgesOf otherTargets
  rw [List.map_map, List.map_map]
  rfl

theorem nodup_otherTargets (a : Address) : (otherTargets tx a).Nodup :=
  (Tally.nodup_tally _).sublist (List.filter_sublist.map _)

theorem nodup_flaggedInputs : (flaggedInputs tx hackers).Nodup := Tally.nodup_eraseDups _

theorem mem_flaggedInputs {h : Address} (hMem : h ∈ flaggedInputs tx hackers) : h ∈ hackers :=
  of_decide_eq_true (List.mem_filter.mp (List.mem_eraseDups.mp hMem)).2

/-- The spenders: the flagged inputs, then the traced address where it is another input. -/
theorem collectSpenders_eq :
    collectSpenders (inputAddresses tx) hackers spending =
      (flaggedInputs tx hackers).map (⟨·, 0⟩) ++ spending.toList.filter fun s =>
        s.address ∈ inputAddresses tx ∧ s.address ∉ hackers := by
  unfold collectSpenders flaggedInputs
  cases spending with
  | none => simp
  | some s =>
    by_cases h : s.address ∈ inputAddresses tx ∧ s.address ∉ hackers
    · simp [h]
    · simp [h]

/-- The keys of all outputs, spender by spender. -/
theorem keys_spenders :
    ((collectSpenders (inputAddresses tx) hackers spending).flatMap
        (outEdgesOf (outputAddresses tx))).map edgeKeyOf =
      ((flaggedInputs tx hackers).flatMap fun h => (otherTargets tx h).map (h, ·)) ++
        (spending.toList.filter fun s => s.address ∈ inputAddresses tx ∧ s.address ∉ hackers).flatMap
          fun s => (otherTargets tx s.address).map (s.address, ·) := by
  rw [List.map_flatMap, collectSpenders_eq, List.flatMap_append, List.flatMap_map]
  simp only [keys_outEdgesOf]

theorem nodup_keys_spenders :
    (((collectSpenders (inputAddresses tx) hackers spending).flatMap
      (outEdgesOf (outputAddresses tx))).map edgeKeyOf).Nodup := by
  have hSpenders : ((collectSpenders (inputAddresses tx) hackers spending).map
      Spender.address).Nodup := by
    rw [collectSpenders_eq, List.map_append, List.map_map, List.nodup_append]
    refine ⟨?_, ?_, ?_⟩
    · exact List.Nodup.map (fun _ _ h => h) nodup_flaggedInputs
    · cases spending with
      | none => exact List.nodup_nil
      | some s => exact (List.nodup_singleton s.address).sublist (List.filter_sublist.map _)
    · rintro h hFlagged _ hTraced rfl
      obtain ⟨s, hs, hEq⟩ := List.mem_map.mp hTraced
      have hNot := (of_decide_eq_true (List.mem_filter.mp hs).2).2
      obtain ⟨h', hMem, hEq'⟩ := List.mem_map.mp hFlagged
      exact hNot (hEq ▸ hEq' ▸ mem_flaggedInputs hMem)
  rw [List.map_flatMap, List.nodup_flatMap]
  simp only [keys_outEdgesOf]
  constructor
  · exact fun s _ => (nodup_otherTargets s.address).map fun _ _ h => (Prod.mk.inj h).2
  · refine (List.pairwise_map.mp hSpenders).imp fun {s s'} hne k hk hk' => ?_
    obtain ⟨_, _, rfl⟩ := List.mem_map.mp hk
    obtain ⟨_, _, hEq⟩ := List.mem_map.mp hk'
    exact hne (Prod.mk.inj hEq).1.symm

theorem nodup_keys_outFromHacker :
    ((computeHackTraceEdges tx hackers spending maxEdges).outFromHacker.map edgeKeyOf).Nodup := by
  unfold computeHackTraceEdges
  dsimp only
  cases maxEdges with
  | none => exact nodup_keys_spenders
  | some n => exact nodup_keys_spenders.sublist ((List.take_sublist _ _).map _)

/-- The keys of the listed outputs: those of the flagged inputs first, up to the limit. -/
theorem keys_outFromHacker :
    (computeHackTraceEdges tx hackers spending maxEdges).outFromHacker.map edgeKeyOf =
      (let flagged := (flaggedInputs tx hackers).flatMap fun h => (otherTargets tx h).map (h, ·)
      let traced := spending.toList.filter fun s =>
        s.address ∈ inputAddresses tx ∧ s.address ∉ hackers
      maxEdges.elim flagged (fun n => flagged.take (n -
        ((aggregateInputsByAddress tx hackers).map fun e =>
          (sharedHackers tx hackers e.1).length).sum)) ++
      traced.flatMap fun s => (tracedTargets tx hackers maxEdges s.address).map (s.address, ·)) := by
  have hFlagged : ((flaggedInputs tx hackers).flatMap fun h =>
      (otherTargets tx h).map (h, ·)).length =
        ((flaggedInputs tx hackers).map fun h => (otherTargets tx h).length).sum := by
    rw [List.length_flatMap]
    simp only [List.length_map]
  cases maxEdges with
  | none => exact keys_spenders
  | some n =>
    have hIn := @length_inToHacker tx hackers spending (some n)
    unfold computeHackTraceEdges at hIn ⊢
    dsimp only [Option.elim_some] at hIn ⊢
    rw [hIn, List.map_take, keys_spenders, List.take_append, hFlagged]
    congr 1
    cases spending with
    | none => exact List.take_nil
    | some s =>
      by_cases h : s.address ∈ inputAddresses tx ∧ s.address ∉ hackers
      · simp only [Option.toList_some, h, not_false_eq_true, and_self, decide_true,
          List.filter_cons_of_pos, List.filter_nil, List.flatMap_cons, List.flatMap_nil,
          List.append_nil, tracedTargets, Option.elim_some, List.map_take]
      · rw [Option.toList_some, List.filter_cons_of_neg (by simpa using h)]
        exact List.take_nil

/-- The listed outputs of an input outside the hackers are those of the traced address. -/
theorem mem_keys_outFromHacker {a t : Address} (ha : a ∉ hackers) :
    (a, t) ∈ (computeHackTraceEdges tx hackers spending maxEdges).outFromHacker.map edgeKeyOf ↔
      ∃ s, spending = some s ∧ s.address = a ∧ a ∈ inputAddresses tx ∧
        t ∈ tracedTargets tx hackers maxEdges a := by
  have hFlagged : (a, t) ∉ (flaggedInputs tx hackers).flatMap fun h =>
      (otherTargets tx h).map (h, ·) := by
    intro h
    obtain ⟨h, hMem, hk⟩ := List.mem_flatMap.mp h
    obtain ⟨_, _, hEq⟩ := List.mem_map.mp hk
    cases hEq
    exact ha (mem_flaggedInputs hMem)
  rw [keys_outFromHacker]
  dsimp only
  rw [List.mem_append, or_iff_right (by
    cases maxEdges with
    | none => exact hFlagged
    | some n => exact fun h => hFlagged (List.mem_of_mem_take h)), List.mem_flatMap]
  constructor
  · rintro ⟨s, hs, hk⟩
    obtain ⟨hSome, hCond⟩ := List.mem_filter.mp hs
    obtain ⟨_, hMem, hEq⟩ := List.mem_map.mp hk
    cases hEq
    exact ⟨s, Option.mem_toList.mp hSome, rfl, (of_decide_eq_true hCond).1, hMem⟩
  · rintro ⟨s, rfl, rfl, hIn, hMem⟩
    exact ⟨s, List.mem_filter.mpr ⟨by simp, by simp [hIn, ha]⟩, List.mem_map.mpr ⟨t, hMem, rfl⟩⟩

/-! ## The flattened list -/

/-- The keys of a computed list are distinct exactly where the traced address pays no hacker
that is also listed among its outputs. -/
theorem nodup_edgeKeys_iff (tx : ChainTxDetail) (hackers : List Address) (spending : Option Spender)
    (maxEdges : Option Nat) :
    ((flattenHackTraceEdges (computeHackTraceEdges tx hackers spending maxEdges)).map
      edgeKeyOf).Nodup ↔ ¬ ListsPaymentTwice tx hackers spending maxEdges := by
  unfold flattenHackTraceEdges
  rw [List.map_append, List.nodup_append']
  constructor
  · rintro ⟨-, -, hDisjoint⟩ ⟨s, hs, hIn, hNot, h, hShared, hTarget⟩
    exact hDisjoint (mem_keys_inToHacker.mpr hShared)
      ((mem_keys_outFromHacker hNot).mpr ⟨s, hs, rfl, hIn, hTarget⟩)
  · intro hOnce
    refine ⟨nodup_keys_inToHacker, nodup_keys_outFromHacker, ?_⟩
    rintro ⟨a, h⟩ hIn hOut
    have hNot : a ∉ hackers := by
      obtain ⟨e, he, hEq⟩ := List.mem_map.mp hIn
      cases hEq
      exact from_notMem_hackers he
    obtain ⟨s, hs, rfl, hInput, hTarget⟩ := (mem_keys_outFromHacker hNot).mp hOut
    exact hOnce ⟨s, hs, hInput, hNot, h, mem_keys_inToHacker.mp hIn, hTarget⟩

/-- A downstream address pays a hacker: traced for that address, the transaction has the payment
as the share of the hacker and as an output of the address. -/
theorem listed_twice :
    (flattenHackTraceEdges (computeHackTraceEdges
      { txid := name "t"
        vin := [{ prevout := some { scriptpubkeyAddress := some (name "d"), value := some 500000 } }]
        vout := [{ scriptpubkeyAddress := some (name "h"), value := some 490000 }] }
      [name "h"] (some ⟨name "d", 1⟩) none)).map edgeKeyOf =
      [(name "d", name "h"), (name "d", name "h")] := by
  decide +kernel

-- the rounding decides whether `x` gets a share, and so whether the limit leaves the output `v → y`
example : ¬ ((flattenHackTraceEdges (computeHackTraceEdges
      { txid := name "t"
        vin := [{ prevout := some ⟨name "v", some 12⟩ }, { prevout := some ⟨name "w", some 26⟩ }]
        vout := [{ scriptpubkeyAddress := name "c", value := some 1 },
          { scriptpubkeyAddress := name "y", value := some 17 },
          { scriptpubkeyAddress := name "x", value := some 2 },
          { scriptpubkeyAddress := name "z", value := some 17 }] }
      [name "x", name "y", name "z"] (some ⟨name "v", 1⟩) (some 7))).map edgeKeyOf).Nodup := by
  decide +kernel

end Bloodhound.Graph
