import Mathlib.Data.List.Nodup
import Mathlib.Data.List.Sublists

/-!
# Gates

Requests that come to a gate one after the other. Whether one is let through may depend on the keys of
those that were let through before it (`admitted`). A gate that is open for fresh requests while there
is room admits a prefix of them (`admitted_eq_take`).
-/

namespace Gate

variable {ρ κ : Type}

/-- The keys of the requests that are let through, after the given keys. -/
def admitted (opens : List κ → ρ → Bool) (key : ρ → κ) : List κ → List ρ → List κ
  | _, [] => []
  | before, r :: rs =>
    if opens before r then key r :: admitted opens key (before ++ [key r]) rs
    else admitted opens key before rs

section Admitted

variable {opens : List κ → ρ → Bool} {key : ρ → κ} {before : List κ}

theorem admitted_cons (r : ρ) (rs : List ρ) : admitted opens key before (r :: rs) =
    admitted opens key before [r] ++ admitted opens key (before ++ admitted opens key before [r]) rs := by
  simp only [admitted]
  by_cases h : opens before r
  · simp [h]
  · simp [h]

/-- The requests of two groups, one after the other. -/
theorem admitted_append (rs rs' : List ρ) : admitted opens key before (rs ++ rs') =
    admitted opens key before rs ++ admitted opens key (before ++ admitted opens key before rs) rs' := by
  induction rs generalizing before with
  | nil => simp [admitted]
  | cons r rs ih =>
    rw [List.cons_append, admitted_cons, ih, admitted_cons r rs]
    simp only [List.append_assoc]

/-- One request. -/
theorem admitted_singleton (r : ρ) :
    admitted opens key before [r] = if opens before r then [key r] else [] := by
  simp only [admitted]

theorem exists_of_mem_admitted {rs : List ρ} {k : κ} (h : k ∈ admitted opens key before rs) :
    ∃ r ∈ rs, key r = k := by
  induction rs generalizing before with
  | nil => cases h
  | cons r rs ih =>
    have hRest : ∀ {before : List κ}, k ∈ admitted opens key before rs → ∃ r' ∈ r :: rs, key r' = k :=
      fun hk => (ih hk).imp fun r' hr' => ⟨List.mem_cons_of_mem r hr'.1, hr'.2⟩
    unfold admitted at h
    split at h
    · rcases List.mem_cons.mp h with rfl | hk
      · exact ⟨r, List.mem_cons_self, rfl⟩
      · exact hRest hk
    · exact hRest h

theorem length_admitted_le (rs : List ρ) : (admitted opens key before rs).length ≤ rs.length := by
  induction rs generalizing before with
  | nil => exact Nat.le_refl 0
  | cons r rs ih =>
    unfold admitted
    split
    · exact Nat.succ_le_succ ih
    · exact Nat.le_succ_of_le ih

/-- Different requests, to a gate that is open for the fresh ones while there is room. -/
theorem admitted_eq_take {fresh : ρ → Bool} {room : Nat} {rs : List ρ} (hNodup : (rs.map key).Nodup)
    (h : ∀ ks r, r ∈ rs → ks ⊆ rs.map key → key r ∉ ks →
      opens (before ++ ks) r = (fresh r && decide (ks.length < room))) :
    admitted opens key before rs = ((rs.filter fresh).take room).map key := by
  induction rs generalizing before room with
  | nil => simp [admitted]
  | cons r rs ih =>
    rw [List.map_cons, List.nodup_cons] at hNodup
    have hHead : opens before r = (fresh r && decide (0 < room)) := by
      simpa using h [] r List.mem_cons_self (List.nil_subset _) List.not_mem_nil
    by_cases hTaken : opens before r = true
    · obtain ⟨hFresh, hRoom⟩ : fresh r = true ∧ 0 < room := by
        simpa [hTaken] using hHead.symm
      obtain ⟨room, rfl⟩ := Nat.exists_eq_succ_of_ne_zero hRoom.ne'
      have hTail : admitted opens key (before ++ [key r]) rs = ((rs.filter fresh).take room).map key := by
        refine ih hNodup.2 fun ks r' hr' hks hNew => ?_
        have hNe : key r' ≠ key r := fun hEq => hNodup.1 (hEq ▸ List.mem_map_of_mem hr')
        have hRest := h (key r :: ks) r' (List.mem_cons_of_mem r hr')
          (List.cons_subset_cons _ hks) (by simp [hNe, hNew])
        rw [List.append_assoc, List.singleton_append, hRest, List.length_cons]
        simp
      simp [admitted, hTaken, hFresh, hTail]
    · have hTail : admitted opens key before rs = ((rs.filter fresh).take room).map key :=
        ih hNodup.2 fun ks r' hr' hks hNew =>
          h ks r' (List.mem_cons_of_mem r hr') (List.subset_cons_of_subset _ hks) hNew
      have hNot : (fresh r && decide (0 < room)) = false := by
        rw [← hHead]
        simpa using hTaken
      rw [admitted, if_neg hTaken, hTail]
      cases hFresh : fresh r with
      | false => rw [List.filter_cons_of_neg (by simp [hFresh])]
      | true =>
        obtain rfl : room = 0 := by simpa [hFresh] using hNot
        simp

end Admitted

end Gate
