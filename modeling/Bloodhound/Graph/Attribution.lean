import Mathlib.Data.Rat.Floor
import Bloodhound.Lib.Apportion
import Bloodhound.Graph.Computed

/-!
# Attribution of inputs

What a victim puts into a transaction is divided among its outputs to hackers. The shares
are whole, add up to the input, and each is the exact proportional share rounded down or
one more; so the payments listed for a sender add up to its inputs. Outputs of value zero
take no part: a transaction whose only outputs to hackers have value zero lists no
payments at all.

All of it rests on one fact about the arithmetic, that the integer part of a computed share
is that of the exact one. In exact arithmetic this is always so, and in that of the code
where the products of the total and the weights are below `2 ^ 53`.
-/

namespace Bloodhound.Graph

open Bloodhound.Chain Bloodhound.Store Bloodhound.Indexer

/-! ## Integer parts -/

variable {round : ℚ → ℚ} {total : Int} {weights : List Int}

/-- The integer parts of the computed shares are those of the exact ones. -/
def FloorsExact (round : ℚ → ℚ) (total : Int) (weights : List Int) : Prop :=
  ∀ w ∈ weights, ⌊shareOf round total weights.sum w⌋ = total * w / weights.sum

theorem floor_share (total w : Int) (hSum : 0 < weights.sum) :
    ⌊((total * w : Int) : ℚ) / ((weights.sum : Int) : ℚ)⌋ = total * w / weights.sum := by
  obtain ⟨d, hd⟩ := Int.eq_ofNat_of_zero_le hSum.le
  rw [hd]
  exact Rat.floor_intCast_div_natCast _ _

theorem floorsExact_id (hSum : 0 < weights.sum) : FloorsExact id total weights := by
  intro w _
  unfold shareOf
  rw [id_eq, id_eq, ← Int.cast_mul, floor_share total w hSum]

/-- Small products are exact, and small quotients have the right integer part. -/
theorem floorsExact_double (hTotal : 0 ≤ total) (hWeights : ∀ w ∈ weights, 0 ≤ w)
    (hSum : 0 < weights.sum) (hSmall : ∀ w ∈ weights, total * w < 2 ^ 53) :
    FloorsExact double total weights := by
  intro w hw
  have hNonneg : 0 ≤ total * w := mul_nonneg hTotal (hWeights w hw)
  have hProduct : double ((total : ℚ) * w) = ((total * w : Int) : ℚ) := by
    rw [← Int.cast_mul]
    apply Rounding.toDigits_intCast
    rw [abs_of_nonneg hNonneg]
    exact hSmall w hw
  unfold shareOf
  rw [hProduct]
  exact Rounding.floor_toDigits_div hNonneg (hSmall w hw) hSum

theorem floors_eq (hFloors : FloorsExact round total weights) :
    (weights.map fun w => ⌊shareOf round total weights.sum w⌋) =
      Apportion.floors total weights.sum weights :=
  List.map_congr_left hFloors

/-! ## Shares -/

theorem rankedIndices_perm (round : ℚ → ℚ) (total weightSum : Int) (weights : List Int) :
    (rankedIndices round total weightSum weights).Perm (List.range weights.length) := by
  have hSort := List.perm_insertionSort (fun a b : Nat × ℚ => b.2 ≤ a.2)
    (weights.mapIdx fun i w =>
      let share := shareOf round total weightSum w
      (i, round (share - ⌊share⌋)))
  have hIndices : (weights.mapIdx fun i w =>
      let share := shareOf round total weightSum w
      (i, round (share - ⌊share⌋))).map Prod.fst = List.range weights.length := by
    refine List.ext_getElem (by simp) fun i _ _ => ?_
    simp
  exact hIndices ▸ hSort.map Prod.fst

/-- The indices that get one of the units left over. -/
def raisedIndices (round : ℚ → ℚ) (total : Int) (weights : List Int) : List Nat :=
  (rankedIndices round total weights.sum weights).take
    (total - (Apportion.floors total weights.sum weights).sum).toNat

theorem nodup_raisedIndices : (raisedIndices round total weights).Nodup :=
  ((rankedIndices_perm round total weights.sum weights).nodup_iff.mpr List.nodup_range).sublist
    (List.take_sublist _ _)

theorem lt_of_mem_raisedIndices {i : Nat} (h : i ∈ raisedIndices round total weights) :
    i < weights.length :=
  List.mem_range.mp ((rankedIndices_perm round total weights.sum weights).mem_iff.mp
    (List.mem_of_mem_take h))

/-- The code walks the ranking cyclically, but never reaches its end. -/
theorem splitProportionally_eq_bump (hFloors : FloorsExact round total weights)
    (hSum : 0 < weights.sum) (hTotal : 0 < total) :
    splitProportionally total weights round =
      Apportion.bump (raisedIndices round total weights)
        (Apportion.floors total weights.sum weights) := by
  have hLength : (rankedIndices round total weights.sum weights).length = weights.length := by
    rw [(rankedIndices_perm _ _ _ _).length_eq, List.length_range]
  have hLeft := Apportion.leftover_lt total hSum
  have hIndices : raisedIndices round total weights =
      (List.range (total - (Apportion.floors total weights.sum weights).sum).toNat).map fun i =>
        (rankedIndices round total weights.sum weights).getD
          (i % (rankedIndices round total weights.sum weights).length) 0 := by
    unfold raisedIndices
    refine List.ext_getElem (by simp; omega) fun i h _ => ?_
    have hi : i < (rankedIndices round total weights.sum weights).length :=
      lt_of_lt_of_le h (List.length_take_le' _ _)
    rw [List.getElem_take, List.getElem_map, List.getElem_range, Nat.mod_eq_of_lt hi,
      List.getD_eq_getElem?_getD, List.getElem?_eq_getElem hi, Option.getD_some]
  unfold splitProportionally
  rw [if_neg (by omega), floors_eq hFloors, hIndices, Apportion.bump, List.foldl_map]

theorem length_splitProportionally (hFloors : FloorsExact round total weights)
    (hSum : 0 < weights.sum) (hTotal : 0 < total) :
    (splitProportionally total weights round).length = weights.length := by
  rw [splitProportionally_eq_bump hFloors hSum hTotal, Apportion.length_bump, Apportion.floors,
    List.length_map]

/-- The shares add up to the total. -/
theorem sum_splitProportionally (hFloors : FloorsExact round total weights)
    (hSum : 0 < weights.sum) (hTotal : 0 < total) :
    (splitProportionally total weights round).sum = total := by
  have hLe := Apportion.sum_floors_le total hSum
  have hLeft := Apportion.leftover_lt total hSum
  have hRanked := (rankedIndices_perm round total weights.sum weights).length_eq
  rw [List.length_range] at hRanked
  have hRaised : (raisedIndices round total weights).length =
      (total - (Apportion.floors total weights.sum weights).sum).toNat := by
    rw [raisedIndices, List.length_take]
    omega
  rw [splitProportionally_eq_bump hFloors hSum hTotal, Apportion.sum_bump, hRaised]
  · omega
  · intro i hi
    rw [Apportion.floors, List.length_map]
    exact lt_of_mem_raisedIndices hi

/-- Every share is the integer part of the exact one, or one more. -/
theorem share_eq_or (hFloors : FloorsExact round total weights) (hSum : 0 < weights.sum)
    (hTotal : 0 < total) {i : Nat} {w : Int} (hw : weights[i]? = some w) :
    (splitProportionally total weights round)[i]? = some (total * w / weights.sum) ∨
      (splitProportionally total weights round)[i]? = some (total * w / weights.sum + 1) := by
  have hFloor : (Apportion.floors total weights.sum weights)[i]? =
      some (total * w / weights.sum) := by
    rw [Apportion.floors, List.getElem?_map, hw, Option.map_some]
  rw [splitProportionally_eq_bump hFloors hSum hTotal]
  exact Apportion.bump_eq_or nodup_raisedIndices hFloor

theorem shares_nonneg (hFloors : FloorsExact round total weights) (hWeights : ∀ w ∈ weights, 0 ≤ w)
    (hSum : 0 < weights.sum) (hTotal : 0 < total) :
    ∀ s ∈ splitProportionally total weights round, 0 ≤ s := by
  intro s hs
  obtain ⟨i, hi, rfl⟩ := List.mem_iff_getElem.mp hs
  have hiw : i < weights.length := length_splitProportionally hFloors hSum hTotal ▸ hi
  have hw : weights[i]? = some weights[i] := List.getElem?_eq_getElem hiw
  have hDiv : 0 ≤ total * weights[i] / weights.sum :=
    Int.ediv_nonneg (mul_nonneg hTotal.le (hWeights _ (List.getElem_mem hiw))) hSum.le
  rcases share_eq_or hFloors hSum hTotal hw with h | h
  all_goals
    rw [List.getElem?_eq_getElem hi, Option.some.injEq] at h
    omega

/-! ## Payments of one sender -/

/-- The payments of one input add up to the shares, as the shares of zero are dropped. -/
theorem sum_inEdgesOf {hackerOut : List (Address × Int)} (hPos : ∀ e ∈ hackerOut, 0 < e.2)
    (hne : hackerOut ≠ []) (victim : Address) {value : Int} (hValue : 0 < value)
    (hFloors : FloorsExact round value (hackerOut.map Prod.snd)) :
    ((inEdgesOf hackerOut victim value round).map (·.amountSats)).sum = value := by
  have hDrop : ∀ (l : List (Address × Int)) (shares : List Int), shares.length = l.length →
      (∀ s ∈ shares, 0 ≤ s) →
      (((l.zip shares).filterMap fun (e : (Address × Int) × Int) =>
        if 0 < e.2 then some (⟨victim, e.1.1, e.2, 0, .inToHacker⟩ : HackTraceEdgeDraft)
        else none).map (·.amountSats)).sum = shares.sum := by
    intro l
    induction l with
    | nil => intro shares hLength _; simp [List.length_eq_zero_iff.mp hLength]
    | cons e l ih =>
      intro shares hLength hNonneg
      obtain _ | ⟨s, shares⟩ := shares
      · cases hLength
      · have hTail := ih shares (by simpa using hLength)
          fun s hs => hNonneg s (List.mem_cons_of_mem _ hs)
        have hs := hNonneg s List.mem_cons_self
        rw [List.zip_cons_cons, List.filterMap_cons, List.sum_cons]
        by_cases h : 0 < s
        · simp only [h, if_true, List.map_cons, List.sum_cons, hTail]
        · simp only [h, if_false, hTail]
          omega
  unfold inEdgesOf
  by_cases hOne : hackerOut.length = 1
  · simp only [hOne, if_true]
    rw [hDrop _ _ (by simp [hOne]) (by simpa using hValue.le), List.sum_singleton]
  · have hWeights : ∀ w ∈ hackerOut.map Prod.snd, 0 < w := fun w hw => by
      obtain ⟨e, he, rfl⟩ := List.mem_map.mp hw
      exact hPos e he
    have hSum : 0 < (hackerOut.map Prod.snd).sum :=
      List.sum_pos _ hWeights (by simpa using hne)
    simp only [hOne, if_false]
    rw [hDrop, sum_splitProportionally hFloors hSum hValue]
    · rw [length_splitProportionally hFloors hSum hValue, List.length_map]
    · exact shares_nonneg hFloors (fun w hw => (hWeights w hw).le) hSum hValue

variable {tx : ChainTxDetail} {hackers : List Address} {a : Address}

/-- An output to a hacker of positive value. -/
def PaysHacker (tx : ChainTxDetail) (hackers : List Address) : Prop :=
  ∃ o ∈ tx.vout, ∃ h ∈ hackers, o.scriptpubkeyAddress = some h ∧ 0 < o.value.getD 0

instance : Decidable (PaysHacker tx hackers) := by
  unfold PaysHacker
  infer_instance

/-- What an address puts into a transaction. -/
def inputValueOf (tx : ChainTxDetail) (a : Address) : Int :=
  (tx.vin.map fun i =>
    if i.isCoinbase = false ∧ i.prevout.bind (·.scriptpubkeyAddress) = some a then
      max 0 ((i.prevout.bind (·.value)).getD 0)
    else 0).sum

/-- The amounts that the payments of a sender add up to. -/
def paidBy (edges : List HackTraceEdgeDraft) (a : Address) : Int :=
  ((edges.filter (·.fromAddress = a)).map (·.amountSats)).sum

/-- The inputs of an address outside the hackers are all counted. -/
theorem total_victimInputAmounts (ha : a ∉ hackers) :
    Tally.total a (victimInputAmounts tx hackers) = inputValueOf tx a := by
  unfold victimInputAmounts inputValueOf
  induction tx.vin with
  | nil => rfl
  | cons i l ih =>
    rw [List.filterMap_cons, List.map_cons, List.sum_cons, ← ih]
    rcases hc : i.isCoinbase with _ | _
    · rcases hb : i.prevout.bind (·.scriptpubkeyAddress) with _ | b
      · simp
      · rcases hv : i.prevout.bind (·.value) with _ | v
        · simp
        · by_cases hab : b = a
          · subst hab
            by_cases hPos : 0 < v
            · simp [hPos, ha, Tally.total_cons, hPos.le]
            · simp [hPos, not_lt.mp hPos]
          · by_cases hMem : 0 < v ∧ b ∉ hackers
            · simp [hMem, hab, Tally.total_cons]
            · simp [hMem, hab]
    · simp

theorem pos_of_mem_aggregateInputs {e : Address × Int}
    (h : e ∈ aggregateInputsByAddress tx hackers) : 0 < e.2 := by
  refine Tally.pos_of_mem_tally (fun e he => ?_) h
  obtain ⟨i, _, hi⟩ := List.mem_filterMap.mp he
  split at hi
  · split at hi
    · next hc =>
      cases hi
      exact hc.1
    · cases hi
  · cases hi

/-- A payment to a hacker gives an output that takes part in the split. -/
theorem hackerOutputs_ne_nil (h : PaysHacker tx hackers) :
    (aggregateHackerOutputs tx hackers).filter (0 < ·.2) ≠ [] := by
  obtain ⟨o, ho, hacker, hMem, hAddr, hValue⟩ := h
  have hAmount : (hacker, o.value.getD 0) ∈ hackerOutputAmounts tx hackers :=
    List.mem_filterMap.mpr ⟨o, ho, by simp [hAddr, hValue, hMem]⟩
  have hAll : ∀ e ∈ hackerOutputAmounts tx hackers, 0 < e.2 := fun e he => by
    obtain ⟨o', _, ho'⟩ := List.mem_filterMap.mp he
    obtain ⟨b, _, hb⟩ := Option.bind_eq_some_iff.mp ho'
    split at hb
    · next hc =>
      cases hb
      exact hc.1
    · cases hb
  obtain ⟨e, he, -⟩ := List.mem_map.mp
    (Tally.mem_keys_tally.mpr (List.mem_map.mpr ⟨_, hAmount, rfl⟩))
  exact List.ne_nil_of_mem
    (List.mem_filter.mpr ⟨he, decide_eq_true (Tally.pos_of_mem_tally hAll he)⟩)

theorem paidBy_append (l l' : List HackTraceEdgeDraft) (a : Address) :
    paidBy (l ++ l') a = paidBy l a + paidBy l' a := by
  simp [paidBy]

/-- The arithmetic splits every input of a transaction with the right integer parts. -/
def SplitsExactly (round : ℚ → ℚ) (tx : ChainTxDetail) (hackers : List Address) : Prop :=
  ∀ e ∈ aggregateInputsByAddress tx hackers,
    FloorsExact round e.2 (((aggregateHackerOutputs tx hackers).filter (0 < ·.2)).map Prod.snd)

theorem pos_of_mem_hackerOutputs {w : Int}
    (h : w ∈ ((aggregateHackerOutputs tx hackers).filter (0 < ·.2)).map Prod.snd) : 0 < w := by
  obtain ⟨e, he, rfl⟩ := List.mem_map.mp h
  exact of_decide_eq_true (List.mem_filter.mp he).2

theorem sum_hackerOutputs_pos (h : PaysHacker tx hackers) :
    0 < (((aggregateHackerOutputs tx hackers).filter (0 < ·.2)).map Prod.snd).sum :=
  List.sum_pos _ (fun _ => pos_of_mem_hackerOutputs) (by simpa using hackerOutputs_ne_nil h)

theorem splitsExactly_id (h : PaysHacker tx hackers) : SplitsExactly id tx hackers :=
  fun _ _ => floorsExact_id (sum_hackerOutputs_pos h)

/-- The arithmetic of the code is good enough where the products of inputs and outputs are small. -/
theorem splitsExactly_double (h : PaysHacker tx hackers)
    (hSmall : ∀ e ∈ aggregateInputsByAddress tx hackers,
      ∀ w ∈ ((aggregateHackerOutputs tx hackers).filter (0 < ·.2)).map Prod.snd, e.2 * w < 2 ^ 53) :
    SplitsExactly double tx hackers := fun e he =>
  floorsExact_double (pos_of_mem_aggregateInputs he).le (fun _ hw => (pos_of_mem_hackerOutputs hw).le)
    (sum_hackerOutputs_pos h) (hSmall e he)

/-- The payments of a sender add up to its inputs. -/
theorem paidBy_inToHacker (spending : Option Spender) (maxEdges : Option Nat)
    (h : PaysHacker tx hackers) (hSplits : SplitsExactly round tx hackers) (ha : a ∉ hackers) :
    paidBy (computeHackTraceEdges tx hackers spending maxEdges round).inToHacker a =
      inputValueOf tx a := by
  have hne := hackerOutputs_ne_nil h
  have hOut : ∀ e ∈ (aggregateHackerOutputs tx hackers).filter (0 < ·.2), 0 < e.2 :=
    fun e he => of_decide_eq_true (List.mem_filter.mp he).2
  have hPay : ∀ victims : List (Address × Int),
      (∀ e ∈ victims, e ∈ aggregateInputsByAddress tx hackers) →
      paidBy (victims.flatMap fun e =>
        inEdgesOf ((aggregateHackerOutputs tx hackers).filter (0 < ·.2)) e.1 e.2 round) a =
      Tally.total a victims := by
    intro victims hVictims
    induction victims with
    | nil => rfl
    | cons e victims ih =>
      have he := hVictims e List.mem_cons_self
      have hFrom : ∀ d ∈ inEdgesOf ((aggregateHackerOutputs tx hackers).filter (0 < ·.2)) e.1 e.2
          round, d.fromAddress = e.1 := fun d hd => (mem_inEdgesOf hd).1
      have hHead := sum_inEdgesOf hOut hne e.1 (pos_of_mem_aggregateInputs he) (hSplits e he)
      rw [List.flatMap_cons, paidBy_append, Tally.total_cons,
        ih fun e' he' => hVictims e' (List.mem_cons_of_mem _ he')]
      congr 1
      by_cases hea : e.1 = a
      · rw [if_pos hea, paidBy, List.filter_eq_self.mpr fun d hd =>
          decide_eq_true ((hFrom d hd).trans hea), hHead]
      · rw [if_neg hea, paidBy, List.filter_eq_nil_iff.mpr fun d hd hda =>
          hea ((hFrom d hd).symm.trans (of_decide_eq_true hda))]
        rfl
  calc paidBy (computeHackTraceEdges tx hackers spending maxEdges round).inToHacker a
      = Tally.total a (aggregateInputsByAddress tx hackers) := hPay _ fun _ he => he
    _ = Tally.total a (victimInputAmounts tx hackers) := Tally.total_tally _ _
    _ = inputValueOf tx a := total_victimInputAmounts ha

/-- In the arithmetic of the code the payments of a sender add up to its inputs where the products of
inputs and outputs are small. -/
theorem paidBy_inToHacker_of_small (spending : Option Spender) (maxEdges : Option Nat)
    (h : PaysHacker tx hackers)
    (hSmall : ∀ e ∈ aggregateInputsByAddress tx hackers,
      ∀ w ∈ ((aggregateHackerOutputs tx hackers).filter (0 < ·.2)).map Prod.snd, e.2 * w < 2 ^ 53)
    (ha : a ∉ hackers) :
    paidBy (computeHackTraceEdges tx hackers spending maxEdges).inToHacker a = inputValueOf tx a :=
  paidBy_inToHacker spending maxEdges h (splitsExactly_double h hSmall) ha

theorem exists_payment_of_pos {edges : List HackTraceEdgeDraft} (h : 0 < paidBy edges a) :
    ∃ e ∈ edges, e.fromAddress = a := by
  by_contra hNone
  have hEmpty : edges.filter (·.fromAddress = a) = [] := by
    rw [List.filter_eq_nil_iff]
    exact fun e he hea => hNone ⟨e, he, of_decide_eq_true hea⟩
  rw [paidBy, hEmpty] at h
  simp at h

/-- Attribution conserves value in exact arithmetic: the shares of a split are whole, not negative,
add up to the total and differ from the exact ones by rounding, and the payments of a sender add up
to its inputs. -/
theorem attribution_conserves :
    (∀ (total : Int) (weights : List Int), 0 < total → (∀ w ∈ weights, 0 ≤ w) →
      0 < weights.sum →
      (splitProportionally total weights id).length = weights.length ∧
      (splitProportionally total weights id).sum = total ∧
      ∀ (i : Nat) (w : Int), weights[i]? = some w →
        ∃ share, (splitProportionally total weights id)[i]? = some share ∧ 0 ≤ share ∧
          (share = ⌊((total * w : Int) : ℚ) / ((weights.sum : Int) : ℚ)⌋ ∨
            share = ⌊((total * w : Int) : ℚ) / ((weights.sum : Int) : ℚ)⌋ + 1)) ∧
    ∀ (tx : ChainTxDetail) (hackers : List Address) (spending : Option Spender)
      (maxEdges : Option Nat), PaysHacker tx hackers → ∀ a ∉ hackers,
      paidBy (computeHackTraceEdges tx hackers spending maxEdges id).inToHacker a =
        inputValueOf tx a ∧
      (0 < inputValueOf tx a →
        ∃ e ∈ (computeHackTraceEdges tx hackers spending maxEdges id).inToHacker,
          e.fromAddress = a) := by
  constructor
  · intro total weights hTotal hWeights hSum
    have hFloors : FloorsExact id total weights := floorsExact_id hSum
    refine ⟨length_splitProportionally hFloors hSum hTotal,
      sum_splitProportionally hFloors hSum hTotal, ?_⟩
    intro i w hw
    have hNonneg := shares_nonneg hFloors hWeights hSum hTotal
    rw [floor_share total w hSum]
    rcases share_eq_or hFloors hSum hTotal hw with h | h
    · exact ⟨_, h, hNonneg _ (List.mem_of_getElem? h), Or.inl rfl⟩
    · exact ⟨_, h, hNonneg _ (List.mem_of_getElem? h), Or.inr rfl⟩
  · intro tx hackers spending maxEdges hPays a ha
    have hSum := paidBy_inToHacker spending maxEdges hPays (splitsExactly_id hPays) ha
    exact ⟨hSum, fun hPos => exists_payment_of_pos (hSum ▸ hPos)⟩

/-- Two victims pay two hackers, with outputs that do not divide the inputs. -/
def sharedPayment : ChainTxDetail where
  txid := name "t"
  vin := [{ prevout := some ⟨name "v", some 10⟩ }, { prevout := some ⟨name "w", some 5⟩ },
    { prevout := some ⟨name "v", some 1⟩ }]
  vout := [{ scriptpubkeyAddress := name "h", value := some 7 },
    { scriptpubkeyAddress := name "g", value := some 8 }]

theorem attribution_conserves_shared :
    (splitProportionally 11 [7, 8] id).sum = 11 ∧
    paidBy (computeHackTraceEdges sharedPayment [name "h", name "g"] none none id).inToHacker
      (name "v") = 11 := by
  have hSplit := (attribution_conserves.1 11 [7, 8] (by decide) (by decide) (by decide)).2.1
  have hPaid := (attribution_conserves.2 sharedPayment [name "h", name "g"] none none
    (by decide) (name "v") (by decide)).1
  exact ⟨hSplit, hPaid.trans (by decide)⟩

/-- A victim pays a hacker's output of value zero. -/
def worthlessPayment : ChainTxDetail where
  txid := name "t"
  vin := [{ prevout := some ⟨name "v", some 10⟩ }]
  vout := [{ scriptpubkeyAddress := name "h", value := some 0 },
    { scriptpubkeyAddress := name "c", value := some 9 }]

/-- An output to a hacker is not enough: one of value zero takes no share, and the victim has no
payment. -/
theorem attribution_loses_worthless :
    ¬ ∀ (tx : ChainTxDetail) (hackers : List Address),
      (∃ o ∈ tx.vout, ∃ h ∈ hackers, o.scriptpubkeyAddress = some h) → ∀ a ∉ hackers,
      paidBy (computeHackTraceEdges tx hackers none none id).inToHacker a = inputValueOf tx a ∧
      (0 < inputValueOf tx a →
        ∃ e ∈ (computeHackTraceEdges tx hackers none none id).inToHacker, e.fromAddress = a) := by
  intro h
  have hPaid := (h worthlessPayment [name "h"] (by decide) (name "v") (by decide)).1
  exact absurd hPaid (by decide)

end Bloodhound.Graph
