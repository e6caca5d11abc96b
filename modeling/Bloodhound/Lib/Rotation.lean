import Mathlib.Data.ZMod.Basic

/-!
# Two users of one rotation

A rotation over `N` places is a position that advances by one with every claim; a claim gets
the position modulo `N`. Two users share it: the second claims in every round, and the first
claims before it in every round whose number is a multiple of `k`.

The claims of the first user are `k + 1` apart, so it reaches every place exactly when
`k + 1` and `N` are coprime, and then with any `N` of its claims (`rare_iff`). The second
user gets all other positions, and reaches every place as well if they are coprime
(`mem_common`).
-/

namespace Rotation

/-- What the two users get in one round. -/
structure Round where
  rare : Option Nat
  common : Nat

/-- The round after round `c`, from the position `q`, and the position after it. -/
def round (k N q c : Nat) : Round × Nat :=
  if k ∣ c + 1 then (⟨some (q % N), (q + 1) % N⟩, q + 2) else (⟨none, q % N⟩, q + 1)

def rounds (k N : Nat) : Nat → Nat → Nat → List Round
  | 0, _, _ => []
  | n + 1, q, c => (round k N q c).1 :: rounds k N n (round k N q c).2 (c + 1)

variable {k N : Nat}

/-- The rounds depend on the position modulo `N` only. -/
theorem rounds_mod (n q c : Nat) : rounds k N n (q % N) c = rounds k N n q c := by
  have hCongr : ∀ {q q' : Nat} (c : Nat), q ≡ q' [MOD N] → rounds k N n q c = rounds k N n q' c := by
    induction n with
    | zero => exact fun _ _ => rfl
    | succ n ih =>
      intro q q' c h
      have hOne : q + 1 ≡ q' + 1 [MOD N] := h.add_right 1
      have hPlace : q % N = q' % N := h
      have hNext : (q + 1) % N = (q' + 1) % N := hOne
      unfold rounds round
      split
      · rw [hPlace, hNext, ih (c + 1) (h.add_right 2)]
      · rw [hPlace, ih (c + 1) hOne]
  exact hCongr c (Nat.mod_modEq q N)

/-! ## The first user -/

/-- The position of the first claim of the first user. -/
def firstRare (k q c : Nat) : Nat := q + (k - 1 - c % k)

theorem mod_succ_of_dvd {c : Nat} (hk : 0 < k) (h : k ∣ c + 1) : c % k = k - 1 ∧ (c + 1) % k = 0 := by
  have hZero : (c + 1) % k = 0 := Nat.mod_eq_zero_of_dvd h
  refine ⟨?_, hZero⟩
  rw [Nat.add_mod_eq_ite] at hZero
  have hLt := Nat.mod_lt c hk
  rcases Nat.lt_or_ge 1 k with hBig | hSmall
  · rw [Nat.mod_eq_of_lt hBig] at hZero
    split at hZero <;> omega
  · have hOne : k = 1 := by omega
    subst hOne
    exact Nat.mod_one c

theorem mod_succ_of_not_dvd {c : Nat} (hk : 0 < k) (h : ¬ k ∣ c + 1) :
    (c + 1) % k = c % k + 1 ∧ c % k < k - 1 := by
  have hZero : (c + 1) % k ≠ 0 := fun h0 => h (Nat.dvd_of_mod_eq_zero h0)
  have hLt := Nat.mod_lt c hk
  rcases Nat.lt_or_ge 1 k with hBig | hSmall
  · rw [Nat.add_mod_eq_ite, Nat.mod_eq_of_lt hBig] at hZero ⊢
    split at hZero
    · omega
    · next hNot =>
      rw [if_neg hNot]
      exact ⟨rfl, by omega⟩
  · have hOne : k = 1 := by omega
    exact absurd (hOne ▸ one_dvd (c + 1)) h

theorem firstRare_claimed {q c : Nat} (hk : 0 < k) (h : k ∣ c + 1) :
    firstRare k q c = q ∧ firstRare k (q + 2) (c + 1) = q + (k + 1) := by
  obtain ⟨hOld, hNew⟩ := mod_succ_of_dvd hk h
  unfold firstRare
  omega

theorem firstRare_waiting {q c : Nat} (hk : 0 < k) (h : ¬ k ∣ c + 1) :
    firstRare k (q + 1) (c + 1) = firstRare k q c := by
  obtain ⟨hNew, hOld⟩ := mod_succ_of_not_dvd hk h
  unfold firstRare
  omega

/-- The first user claims once in `k` rounds, and its claims are `k + 1` positions apart. -/
theorem filterMap_rare (hk : 0 < k) (n q c : Nat) :
    (rounds k N n q c).filterMap (·.rare) =
      (List.range ((c + n) / k - c / k)).map fun j => (firstRare k q c + j * (k + 1)) % N := by
  induction n generalizing q c with
  | zero => simp [rounds]
  | succ n ih =>
    have hShift : c + (n + 1) = c + 1 + n := by omega
    unfold rounds round
    rw [hShift]
    split
    · next hClaim =>
      obtain ⟨hFirst, hNext⟩ := firstRare_claimed (q := q) hk hClaim
      have hCount : (c + 1 + n) / k - c / k = (c + 1 + n) / k - (c + 1) / k + 1 := by
        have hDiv := Nat.succ_div_of_dvd hClaim
        have hMono : (c + 1) / k ≤ (c + 1 + n) / k := Nat.div_le_div_right (Nat.le_add_right _ n)
        omega
      rw [List.filterMap_cons, ih, hNext, hFirst, hCount, List.range_succ_eq_map, List.map_cons,
        List.map_map, Nat.zero_mul, Nat.add_zero]
      refine congrArg _ (List.map_congr_left fun j _ => ?_)
      show (q + (k + 1) + j * (k + 1)) % N = (q + (j + 1) * (k + 1)) % N
      rw [Nat.add_mul, Nat.one_mul, Nat.add_assoc, Nat.add_comm (k + 1)]
    · next hWait =>
      rw [List.filterMap_cons_none rfl, ih, firstRare_waiting hk hWait, Nat.succ_div_of_not_dvd hWait]

/-- In `k * N` rounds the first user claims `N` times. -/
theorem le_length_rare (hk : 0 < k) {n : Nat} (hMany : k * N ≤ n) (q c : Nat) :
    N ≤ ((rounds k N n q c).filterMap (·.rare)).length := by
  rw [filterMap_rare hk, List.length_map, List.length_range]
  have hDiv : (c + k * N) / k = c / k + N := Nat.add_mul_div_left c N hk
  have hMono : (c + k * N) / k ≤ (c + n) / k := Nat.div_le_div_right (by omega)
  omega

/-- A progression with a step that is coprime to `N` reaches every place in `N` steps. -/
theorem exists_step (hN : 0 < N) {s : Nat} (h : s.Coprime N) (a : Nat) {i : Nat} (hi : i < N) :
    ∃ j < N, (a + j * s) % N = i := by
  have : NeZero N := ⟨hN.ne'⟩
  refine ⟨(((i : ZMod N) - a) * (s : ZMod N)⁻¹).val, ZMod.val_lt _, ?_⟩
  have hUnit : (s : ZMod N) * (s : ZMod N)⁻¹ = 1 := ZMod.coe_mul_inv_eq_one s h
  have hEq : ((a + (((i : ZMod N) - a) * (s : ZMod N)⁻¹).val * s : Nat) : ZMod N) = (i : ZMod N) := by
    rw [Nat.cast_add, Nat.cast_mul, ZMod.natCast_val, ZMod.cast_id, mul_assoc,
      mul_comm (s : ZMod N)⁻¹, hUnit, mul_one, add_sub_cancel]
  exact Nat.ModEq.eq_of_lt_of_lt ((Nat.mod_modEq _ _).trans ((ZMod.natCast_eq_natCast_iff _ _ _).mp hEq))
    (Nat.mod_lt _ hN) hi

/-- With another step it stays in one class of a divisor of `N`. -/
theorem exists_missed {s : Nat} (hN : 0 < N) (h : ¬ s.Coprime N) (a : Nat) :
    ∃ i < N, ∀ j, (a + j * s) % N ≠ i := by
  have hGcd : 1 < s.gcd N := by
    have hPos : 0 < s.gcd N := Nat.gcd_pos_of_pos_right s hN
    have hNe : s.gcd N ≠ 1 := h
    omega
  have hLe : s.gcd N ≤ N := Nat.le_of_dvd hN (Nat.gcd_dvd_right s N)
  refine ⟨(a + 1) % s.gcd N, (Nat.mod_lt _ (by omega)).trans_le hLe, fun j hj => ?_⟩
  have hClass : a ≡ a + 1 [MOD s.gcd N] := calc
    a ≡ a + j * s [MOD s.gcd N] :=
      (Nat.modEq_zero_iff_dvd.mpr (dvd_mul_of_dvd_right (Nat.gcd_dvd_left s N) j)).symm.add_left a
    _ ≡ (a + j * s) % N [MOD s.gcd N] :=
      ((Nat.mod_modEq _ _).symm).of_dvd (Nat.gcd_dvd_right s N)
    _ ≡ a + 1 [MOD s.gcd N] := by
      rw [hj]
      exact Nat.mod_modEq _ _
  have hDvd : s.gcd N ∣ 1 := by
    have hSub := (Nat.modEq_iff_dvd' (Nat.le_succ a)).mp hClass
    rwa [Nat.succ_eq_add_one, Nat.add_sub_cancel_left] at hSub
  exact absurd (Nat.le_of_dvd one_pos hDvd) (by omega)

/-- Any `N` claims of the first user reach every place exactly when its step is coprime to `N`. -/
theorem rare_iff (hk : 0 < k) (hN : 0 < N) {n q c : Nat}
    (hMany : N ≤ ((rounds k N n q c).filterMap (·.rare)).length) :
    (∀ i < N, i ∈ (rounds k N n q c).filterMap (·.rare)) ↔ (k + 1).Coprime N := by
  rw [filterMap_rare hk] at hMany ⊢
  rw [List.length_map, List.length_range] at hMany
  constructor
  · intro hAll
    by_contra hNot
    obtain ⟨i, hi, hMissed⟩ := exists_missed hN hNot (firstRare k q c)
    obtain ⟨j, _, hj⟩ := List.mem_map.mp (hAll i hi)
    exact hMissed j hj
  · intro hCoprime i hi
    obtain ⟨j, hj, hReached⟩ := exists_step hN hCoprime (firstRare k q c) hi
    exact List.mem_map.mpr ⟨j, List.mem_range.mpr (hj.trans_le hMany), hReached⟩

/-! ## The second user -/

/-- The second user gets the positions that are not the first user's. -/
theorem mem_common_of_position (hk : 0 < k) {n q c x : Nat} (hFrom : q ≤ x) (hTo : x < q + n)
    (hOther : ¬ x ≡ firstRare k q c [MOD k + 1]) :
    x % N ∈ (rounds k N n q c).map (·.common) := by
  induction n generalizing q c with
  | zero => omega
  | succ n ih =>
    unfold rounds round
    split
    · next hClaim =>
      obtain ⟨hFirst, hNext⟩ := firstRare_claimed (q := q) hk hClaim
      have hNot : x ≠ q := fun h => hOther (by rw [hFirst, h])
      rcases Nat.lt_or_ge x (q + 2) with hHead | hTail
      · have hx : x = q + 1 := by omega
        rw [hx]
        exact List.mem_cons_self
      · refine List.mem_cons_of_mem _ (ih hTail (by omega) fun h => hOther (h.trans ?_))
        rw [hNext, hFirst]
        exact Nat.add_modEq_right
    · next hWait =>
      rcases hFrom.eq_or_lt with hx | hTail
      · rw [hx]
        exact List.mem_cons_self
      · refine List.mem_cons_of_mem _ (ih hTail (by omega) fun h => hOther ?_)
        rwa [firstRare_waiting hk hWait] at h

/-- Among `N` positions one is at a given place. -/
theorem exists_position (hN : 0 < N) (q : Nat) {i : Nat} (hi : i < N) :
    ∃ x, q ≤ x ∧ x < q + N ∧ x % N = i := by
  obtain ⟨j, hj, hReached⟩ := exists_step hN (Nat.coprime_one_left N) q hi
  exact ⟨q + j, by omega, by omega, by rwa [Nat.mul_one] at hReached⟩

/-- In `2 * N` rounds the second user reaches every place, where `k + 1` and `N` are coprime. -/
theorem mem_common (hk : 0 < k) (hN : 0 < N) (h : (k + 1).Coprime N) {n q c i : Nat}
    (hMany : 2 * N ≤ n) (hi : i < N) : i ∈ (rounds k N n q c).map (·.common) := by
  obtain ⟨x, hFrom, hTo, rfl⟩ := exists_position hN q hi
  by_cases hFirst : x ≡ firstRare k q c [MOD k + 1]
  · -- the same place one turn later is not the first user's
    have hLater : ¬ x + N ≡ firstRare k q c [MOD k + 1] := by
      intro hBoth
      have hZero : x + N ≡ x + 0 [MOD k + 1] := hBoth.trans hFirst.symm
      have hDvd : k + 1 ∣ N := Nat.modEq_zero_iff_dvd.mp (Nat.ModEq.add_left_cancel' x hZero)
      have hOne : k + 1 = 1 := Nat.Coprime.eq_one_of_dvd h hDvd
      omega
    have hMem := mem_common_of_position (N := N) (n := n) hk (by omega : q ≤ x + N) (by omega) hLater
    rwa [Nat.add_mod_right] at hMem
  · exact mem_common_of_position hk hFrom (by omega) hFirst

end Rotation
