import Mathlib.Data.Finset.Card
import Bloodhound.Lib.Ranking

/-!
# The latest of a log under a cap

Reports come in batches, each one a key with a stamp. A list that keeps a stamp for each of a limited number
of keys, and forgets the keys with the least stamps, still lists the latest keys of the whole log
(`Keeps.step`): a key that was forgotten comes back only with a stamp that no kept one exceeds.
-/

namespace KeptLatest

variable {κ : Type} {cap : Nat} {reports batch kept merged : List (κ × Int)} {k : κ} {t : Int}

/-- The stamp is the largest one that was reported of the key. -/
def Newest (reports : List (κ × Int)) (k : κ) (t : Int) : Prop :=
  (k, t) ∈ reports ∧ ∀ t', (k, t') ∈ reports → t' ≤ t

theorem Newest.unique {t' : Int} (h : Newest reports k t) (h' : Newest reports k t') : t = t' :=
  le_antisymm (h'.2 t h.1) (h.2 t' h'.1)

theorem exists_newest (h : (k, t) ∈ reports) : ∃ t', Newest reports k t' ∧ t ≤ t' := by
  induction reports generalizing t with
  | nil => cases h
  | cons r rest ih =>
    -- the largest stamp of the rest, if the key is there, against that of the head
    by_cases hRest : ∃ s, (k, s) ∈ rest
    · obtain ⟨s, hs⟩ := hRest
      obtain ⟨m, hNewest, -⟩ := ih hs
      by_cases hHead : r.1 = k ∧ m < r.2
      · obtain ⟨rfl, hLess⟩ := hHead
        refine ⟨r.2, ⟨List.mem_cons_self, fun t' ht' => ?_⟩, ?_⟩
        · rcases List.mem_cons.mp ht' with hEq | hMem
          · exact (congrArg Prod.snd hEq).le
          · exact (hNewest.2 t' hMem).trans hLess.le
        · rcases List.mem_cons.mp h with hEq | hMem
          · exact (congrArg Prod.snd hEq).le
          · exact (hNewest.2 t hMem).trans hLess.le
      · have hUpper : ∀ t', (k, t') ∈ r :: rest → t' ≤ m := by
          intro t' ht'
          rcases List.mem_cons.mp ht' with hEq | hMem
          · rw [← hEq] at hHead
            exact not_lt.mp fun hLess => hHead ⟨rfl, hLess⟩
          · exact hNewest.2 t' hMem
        exact ⟨m, ⟨List.mem_cons_of_mem r hNewest.1, hUpper⟩, hUpper t h⟩
    · have hOnly : ∀ t', (k, t') ∈ r :: rest → (k, t') = r := fun t' ht' =>
        (List.mem_cons.mp ht').resolve_right fun hMem => hRest ⟨t', hMem⟩
      refine ⟨t, ⟨h, fun t' ht' => ?_⟩, le_rfl⟩
      have hSame : (k, t') = (k, t) := (hOnly t' ht').trans (hOnly t h).symm
      exact (congrArg Prod.snd hSame).le

/-- The newest stamp of a key, where there is one. -/
def NewestOf (reports : List (κ × Int)) (k : κ) : Option Int → Prop
  | none => k ∉ reports.map Prod.fst
  | some t => Newest reports k t

/-- The later of two stamps, where there is one. -/
def laterOf : Option Int → Option Int → Option Int
  | some a, some b => some (if a < b then b else a)
  | some a, none => some a
  | none, b => b

theorem not_mem_of_notMem_keys (h : k ∉ reports.map Prod.fst) : (k, t) ∉ reports := fun hMem =>
  h (List.mem_map.mpr ⟨(k, t), hMem, rfl⟩)

/-- A later log adds nothing where it has no larger stamp of the key. -/
theorem Newest.append (h : Newest reports k t) (hLater : ∀ t', (k, t') ∈ batch → t' ≤ t) :
    Newest (reports ++ batch) k t :=
  ⟨List.mem_append_left batch h.1, fun t' ht' => (List.mem_append.mp ht').elim (h.2 t') (hLater t')⟩

theorem Newest.append_left (h : Newest batch k t) (hEarlier : ∀ t', (k, t') ∈ reports → t' ≤ t) :
    Newest (reports ++ batch) k t :=
  ⟨List.mem_append_right reports h.1, fun t' ht' => (List.mem_append.mp ht').elim (hEarlier t') (h.2 t')⟩

theorem NewestOf.append {a b : Option Int} (ha : NewestOf reports k a) (hb : NewestOf batch k b) :
    NewestOf (reports ++ batch) k (laterOf a b) := by
  cases a with
  | none =>
    have hNone : ∀ t', (k, t') ∉ reports := fun t' => not_mem_of_notMem_keys ha
    cases b with
    | none =>
      have hBoth : k ∉ (reports ++ batch).map Prod.fst := by
        rw [List.map_append]
        exact List.not_mem_append ha hb
      exact hBoth
    | some b => exact Newest.append_left hb fun t' ht' => absurd ht' (hNone t')
  | some a =>
    cases b with
    | none => exact Newest.append ha fun t' ht' => absurd ht' (not_mem_of_notMem_keys hb)
    | some b =>
      show Newest (reports ++ batch) k (if a < b then b else a)
      split
      · next hLess => exact Newest.append_left hb fun t' ht' => (ha.2 t' ht').trans hLess.le
      · next hLess => exact Newest.append ha fun t' ht' => (hb.2 t' ht').trans (not_lt.mp hLess)

/-! ## The first entries of a ranking -/

theorem map_top {α : Type} {f : α → κ × Int} {weight : α → Int} (h : ∀ a, (f a).2 = weight a) (k : Nat)
    (l : List α) : (Ranking.top weight k l).map f = Ranking.top Prod.snd k (l.map f) := by
  unfold Ranking.top Ranking.ranked
  rw [List.map_take]
  refine congrArg (List.take k) (List.map_insertionSort _ _ f l fun a _ b _ => ?_)
  rw [h a, h b]

/-- An entry that is not among the first has no larger stamp than any of these. -/
theorem top_left {e : κ × Int} (hMem : e ∈ merged) (hOut : e ∉ Ranking.top Prod.snd cap merged) :
    (Ranking.top Prod.snd cap merged).length = cap ∧
      ∀ e' ∈ Ranking.top Prod.snd cap merged, e.2 ≤ e'.2 := by
  unfold Ranking.top at hOut ⊢
  have hRanked : e ∈ Ranking.ranked Prod.snd merged := Ranking.mem_ranked.mpr hMem
  have hSorted := @Ranking.pairwise_ranked (κ × Int) Prod.snd merged
  rw [← List.take_append_drop cap (Ranking.ranked Prod.snd merged)] at hRanked hSorted
  have hDrop := (List.mem_append.mp hRanked).resolve_left hOut
  constructor
  · have hLong := List.length_pos_of_mem hDrop
    rw [List.length_drop] at hLong
    rw [List.length_take]
    omega
  · intro e' he'
    exact (List.pairwise_append.mp hSorted).2.2 e' he' e hDrop

/-- Where as many keys as fit have a stamp that is as large, all of the first entries do. -/
theorem le_top {full : List κ} (hKeys : (merged.map Prod.fst).Nodup) (hNodup : full.Nodup)
    (hLength : full.length = cap) (hFull : ∀ k ∈ full, ∃ t', (k, t') ∈ merged ∧ t ≤ t') :
    ∀ e ∈ Ranking.top Prod.snd cap merged, t ≤ e.2 := by
  intro e he
  by_contra hLess
  have hListed : ∀ k ∈ full, k ∈ (Ranking.top Prod.snd cap merged).map Prod.fst := by
    intro k hk
    obtain ⟨t', hMem, hLarge⟩ := hFull k hk
    refine List.mem_map.mpr ⟨(k, t'), ?_, rfl⟩
    by_contra hOut
    have hLe := (top_left hMem hOut).2 e he
    simp only at hLe
    omega
  have hNew : e.1 ∉ full := by
    intro hMem
    obtain ⟨t', hEntry, hLarge⟩ := hFull e.1 hMem
    have hSame := List.inj_on_of_nodup_map hKeys hEntry (Ranking.mem_of_mem_top he) rfl
    rw [← hSame] at hLess
    exact hLess hLarge
  have hSub : (e.1 :: full) ⊆ (Ranking.top Prod.snd cap merged).map Prod.fst :=
    List.cons_subset.mpr ⟨List.mem_map_of_mem he, hListed⟩
  have hCount := (List.subperm_of_subset (List.nodup_cons.mpr ⟨hNew, hNodup⟩) hSub).length_le
  have hTake : (Ranking.top Prod.snd cap merged).length ≤ cap := List.length_take_le _ _
  rw [List.length_cons, List.length_map] at hCount
  omega

/-! ## The list that is kept -/

/-- The list has the latest keys of the reports, each with its newest stamp. -/
structure Keeps (cap : Nat) (reports kept : List (κ × Int)) : Prop where
  nodup : (kept.map Prod.fst).Nodup
  short : kept.length ≤ cap
  newest : ∀ e ∈ kept, Newest reports e.1 e.2
  left : ∀ r ∈ reports, r.1 ∉ kept.map Prod.fst → kept.length = cap ∧ ∀ e ∈ kept, r.2 ≤ e.2

theorem keeps_nil (cap : Nat) : Keeps cap ([] : List (κ × Int)) [] where
  nodup := List.nodup_nil
  short := Nat.zero_le cap
  newest _ h := absurd h List.not_mem_nil
  left _ h := absurd h List.not_mem_nil

/-- The batch is merged into what was kept. -/
structure Merges (kept batch merged : List (κ × Int)) : Prop where
  nodup : (merged.map Prod.fst).Nodup
  newest : ∀ k t, (k, t) ∈ merged ↔ Newest (kept ++ batch) k t

/-- It is enough that every key has a stamp, and that the stamps are the newest ones. -/
theorem merges_of_values (hNodup : (merged.map Prod.fst).Nodup)
    (hNewest : ∀ e ∈ merged, Newest (kept ++ batch) e.1 e.2)
    (hKeys : ∀ e ∈ kept ++ batch, e.1 ∈ merged.map Prod.fst) : Merges kept batch merged where
  nodup := hNodup
  newest k t := by
    refine ⟨fun h => hNewest (k, t) h, fun h => ?_⟩
    obtain ⟨e, he, hKey⟩ := List.mem_map.mp (hKeys (k, t) h.1)
    have hStamp := hNewest e he
    rw [hKey] at hStamp
    have hSame : e = (k, t) := Prod.ext hKey (hStamp.unique h)
    rw [← hSame]
    exact he

theorem Merges.of_mem (hMerge : Merges kept batch merged) {e : κ × Int} (h : e ∈ kept ++ batch) :
    ∃ t, (e.1, t) ∈ merged ∧ e.2 ≤ t := by
  obtain ⟨t, hNewest, hLe⟩ := exists_newest h
  exact ⟨t, (hMerge.newest e.1 t).mpr hNewest, hLe⟩

theorem Merges.of_kept (hMerge : Merges kept batch merged) (hk : k ∈ kept.map Prod.fst) :
    ∃ e ∈ kept, e.1 = k ∧ ∃ t, (k, t) ∈ merged ∧ e.2 ≤ t := by
  obtain ⟨e, he, rfl⟩ := List.mem_map.mp hk
  exact ⟨e, he, rfl, hMerge.of_mem (List.mem_append_left batch he)⟩

theorem Merges.length_le (hMerge : Merges kept batch merged) (hNodup : (kept.map Prod.fst).Nodup) :
    kept.length ≤ merged.length := by
  have hSub : kept.map Prod.fst ⊆ merged.map Prod.fst := fun k hk => by
    obtain ⟨-, -, -, t, hMem, -⟩ := hMerge.of_kept hk
    exact List.mem_map.mpr ⟨(k, t), hMem, rfl⟩
  have hCount := (List.subperm_of_subset hNodup hSub).length_le
  rwa [List.length_map, List.length_map] at hCount

/-- After a merge there are as many large stamps as there were. -/
theorem Merges.le_top (hMerge : Merges kept batch merged) (hNodup : (kept.map Prod.fst).Nodup)
    (hLength : kept.length = cap) (hKept : ∀ e ∈ kept, t ≤ e.2) :
    ∀ e ∈ Ranking.top Prod.snd cap merged, t ≤ e.2 := by
  refine KeptLatest.le_top hMerge.nodup hNodup (by rw [List.length_map, hLength]) fun k hk => ?_
  obtain ⟨e, he, -, t', hMem, hLe⟩ := hMerge.of_kept hk
  exact ⟨t', hMem, (hKept e he).trans hLe⟩

/-- The stamp of a merged key is at least the one that was kept. -/
theorem Keeps.le_merged (h : Keeps cap reports kept) (hMerge : Merges kept batch merged) {r : κ × Int}
    (hr : r ∈ reports) (hk : r.1 ∈ kept.map Prod.fst) (hMem : (r.1, t) ∈ merged) : r.2 ≤ t := by
  obtain ⟨e, he, hSame⟩ := List.mem_map.mp hk
  have hNewest := h.newest e he
  rw [hSame] at hNewest
  have hStamp : (r.1, e.2) ∈ kept ++ batch := by
    rw [← hSame]
    exact List.mem_append_left batch he
  exact (hNewest.2 r.2 hr).trans (((hMerge.newest r.1 t).mp hMem).2 e.2 hStamp)

/-- One batch: the merge, cut down to the cap. -/
theorem Keeps.step (h : Keeps cap reports kept) (hMerge : Merges kept batch merged) :
    Keeps cap (reports ++ batch) (Ranking.top Prod.snd cap merged) := by
  have hTopSub : ∀ e ∈ Ranking.top Prod.snd cap merged, e ∈ merged := fun e he => Ranking.mem_of_mem_top he
  have hNodup : ((Ranking.top Prod.snd cap merged).map Prod.fst).Nodup := by
    have hPerm : ((Ranking.ranked Prod.snd merged).map Prod.fst).Perm (merged.map Prod.fst) :=
      (List.perm_insertionSort _ merged).map _
    exact (hPerm.nodup_iff.mpr hMerge.nodup).sublist ((List.take_sublist _ _).map _)
  -- a key that was forgotten has no larger stamp than anything that is listed now
  have hForgotten : ∀ r ∈ reports, r.1 ∉ kept.map Prod.fst →
      ∀ e ∈ Ranking.top Prod.snd cap merged, r.2 ≤ e.2 := fun r hr hOut =>
    hMerge.le_top h.nodup (h.left r hr hOut).1 (h.left r hr hOut).2
  refine ⟨hNodup, List.length_take_le _ _, fun e he => ?_, fun r hr hOut => ?_⟩
  · have hNewest := (hMerge.newest e.1 e.2).mp (hTopSub e he)
    constructor
    · rcases List.mem_append.mp hNewest.1 with hKept | hBatch
      · exact List.mem_append_left batch (h.newest e hKept).1
      · exact List.mem_append_right reports hBatch
    · intro t' ht'
      rcases List.mem_append.mp ht' with hOld | hBatch
      · by_cases hMem : e.1 ∈ kept.map Prod.fst
        · exact h.le_merged hMerge (r := (e.1, t')) hOld hMem (hTopSub e he)
        · exact hForgotten (e.1, t') hOld hMem e he
      · exact hNewest.2 t' (List.mem_append_right kept hBatch)
  · by_cases hMerged : ∃ t, (r.1, t) ∈ merged
    · obtain ⟨t, hMem⟩ := hMerged
      have hLeft : (r.1, t) ∉ Ranking.top Prod.snd cap merged := fun hIn =>
        hOut (List.mem_map.mpr ⟨(r.1, t), hIn, rfl⟩)
      obtain ⟨hLength, hLe⟩ := top_left hMem hLeft
      refine ⟨hLength, fun e he => ?_⟩
      rcases List.mem_append.mp hr with hOld | hBatch
      · by_cases hKept : r.1 ∈ kept.map Prod.fst
        · exact (h.le_merged hMerge hOld hKept hMem).trans (hLe e he)
        · exact hForgotten r hOld hKept e he
      · have hStamp := ((hMerge.newest r.1 t).mp hMem).2 r.2 (List.mem_append_right kept hBatch)
        exact hStamp.trans (hLe e he)
    · -- the key was forgotten before, and the batch does not name it
      have hOld : r ∈ reports := (List.mem_append.mp hr).resolve_right fun hBatch => by
        obtain ⟨t', hMem, -⟩ := hMerge.of_mem (List.mem_append_right kept hBatch)
        exact hMerged ⟨t', hMem⟩
      have hKept : r.1 ∉ kept.map Prod.fst := fun hIn => by
        obtain ⟨-, -, -, t', hMem, -⟩ := hMerge.of_kept hIn
        exact hMerged ⟨t', hMem⟩
      refine ⟨?_, hForgotten r hOld hKept⟩
      have hFull := (h.left r hOld hKept).1
      have hMany := hMerge.length_le h.nodup
      unfold Ranking.top Ranking.ranked
      rw [List.length_take, List.length_insertionSort]
      omega

/-- Nothing is forgotten while all keys fit. -/
theorem Keeps.mem_of_fits [DecidableEq κ] (h : Keeps cap reports kept)
    (hFits : (reports.map Prod.fst).toFinset.card ≤ cap) (hk : k ∈ reports.map Prod.fst) :
    k ∈ kept.map Prod.fst := by
  by_contra hOut
  obtain ⟨r, hr, rfl⟩ := List.mem_map.mp hk
  have hSub : (r.1 :: kept.map Prod.fst).toFinset ⊆ (reports.map Prod.fst).toFinset := by
    intro k' hk'
    rw [List.mem_toFinset] at hk' ⊢
    rcases List.mem_cons.mp hk' with rfl | hKept
    · exact hk
    · obtain ⟨e, he, rfl⟩ := List.mem_map.mp hKept
      exact List.mem_map.mpr ⟨(e.1, e.2), (h.newest e he).1, rfl⟩
  have hCount := Finset.card_le_card hSub
  rw [List.toFinset_card_of_nodup (List.nodup_cons.mpr ⟨hOut, h.nodup⟩), List.length_cons, List.length_map,
    (h.left r hr hOut).1] at hCount
  omega

end KeptLatest
