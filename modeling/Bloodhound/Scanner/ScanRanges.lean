import Bloodhound.Scanner.Config

/-!
# The ranges of a scan

`build_derivation_paths` in `bitcoin_derive.cpp`, the session loop of `orchestrator.cpp` and the pads of
`pad_enumerator.cpp`, for any bounds of 32 bits.

The loops include their last value, so a loop up to the largest value of 32 bits does not end. The pads have a
high word of 16 bits only, so a range that reaches beyond is not enumerated (`ranges_exact_iff`).
-/

namespace Bloodhound.Scanner

open CountedLoop

/-- `for (uint32_t i = first; i <= last; i++)` over a list that the body adds to; `fuel` bounds every loop. -/
def collect {α : Type} (fuel : Nat) (first last : UInt32) (body : UInt32 → List α → Option (List α))
    (out : List α) : Option (List α) :=
  upTo (2 ^ 32) (fun i s => body (UInt32.ofNat i) s) last.toNat fuel first.toNat out

section Paths

variable {δ : Type} (cfg : FileConfig δ)

def buildDerivationPaths (fuel : Nat) : Option (List DerivationPath) :=
  let push (path : UInt32 → DerivationPath) (i : UInt32) (paths : List DerivationPath) :=
    some (paths ++ [path i])
  (collect fuel cfg.bip84AccountsMin cfg.bip84AccountsMax (fun acct paths =>
    (collect fuel cfg.bip84ReceiveMin cfg.bip84ReceiveMax
      (push fun i => ⟨"bip84".toList, acct, 0, i⟩) paths).bind fun paths =>
    collect fuel cfg.bip84ChangeMin cfg.bip84ChangeMax
      (push fun i => ⟨"bip84".toList, acct, 1, i⟩) paths) []).bind fun paths =>
  (collect fuel 0 0 (fun acct paths =>
    collect fuel cfg.bip49ReceiveMin cfg.bip49ReceiveMax
      (push fun i => ⟨"bip49".toList, acct, 0, i⟩) paths) paths).bind fun paths =>
  collect fuel cfg.bip44ReceiveMin cfg.bip44ReceiveMax
    (push fun i => ⟨"bip44".toList, 0, 0, i⟩) paths

/-- The sessions that the loop of a pad visits. -/
def scanSessions (fuel : Nat) : Option (List UInt32) :=
  collect fuel cfg.scanSessionMin cfg.scanSessionMax (fun s sessions => some (sessions ++ [s])) []

/-- The pads that the loop of a scan asks for. -/
def enumeratedPads (pads : PadEnumerator) : List UInt32 :=
  (List.range pads.total.toNat).map fun i => pads.at (UInt64.ofNat i)

/-! ## What the ranges are -/

def InRange (first last i : UInt32) : Prop := first ≤ i ∧ i ≤ last

/-- A path that the configuration asks for. -/
inductive Configured : DerivationPath → Prop
  | receive84 {acct i : UInt32} (hAcct : InRange cfg.bip84AccountsMin cfg.bip84AccountsMax acct)
      (hIndex : InRange cfg.bip84ReceiveMin cfg.bip84ReceiveMax i) : Configured ⟨"bip84".toList, acct, 0, i⟩
  | change84 {acct i : UInt32} (hAcct : InRange cfg.bip84AccountsMin cfg.bip84AccountsMax acct)
      (hIndex : InRange cfg.bip84ChangeMin cfg.bip84ChangeMax i) : Configured ⟨"bip84".toList, acct, 1, i⟩
  | receive49 {i : UInt32} (hIndex : InRange cfg.bip49ReceiveMin cfg.bip49ReceiveMax i) :
      Configured ⟨"bip49".toList, 0, 0, i⟩
  | receive44 {i : UInt32} (hIndex : InRange cfg.bip44ReceiveMin cfg.bip44ReceiveMax i) :
      Configured ⟨"bip44".toList, 0, 0, i⟩

/-- The construction of the paths ends, with each path once. -/
def PathsExact : Prop :=
  ∃ fuel paths, buildDerivationPaths cfg fuel = some paths ∧ paths.Nodup ∧ ∀ p, p ∈ paths ↔ Configured cfg p

/-- The session loop ends, with each session once. -/
def SessionsExact : Prop :=
  ∃ fuel sessions, scanSessions cfg fuel = some sessions ∧ sessions.Nodup ∧
    ∀ s, s ∈ sessions ↔ InRange cfg.scanSessionMin cfg.scanSessionMax s

/-- Each pad of the range is enumerated once. -/
def PadsExact (pads : PadEnumerator) : Prop :=
  (enumeratedPads pads).Nodup ∧
    ∀ pad, pad ∈ enumeratedPads pads ↔ InRange pads.highMin pads.highMax (PadEnumerator.highWord pad)

/-- The largest value of a counter. -/
def topU32 : UInt32 := 4294967295

/-- The bounds below the largest value that the loops over the paths need; the inner loops of accounts count
only where there is an account. -/
def PathsEnd : Prop :=
  (cfg.bip84AccountsMin ≤ cfg.bip84AccountsMax → cfg.bip84AccountsMax ≠ topU32 ∧ cfg.bip84ReceiveMax ≠ topU32 ∧
    cfg.bip84ChangeMax ≠ topU32) ∧ cfg.bip49ReceiveMax ≠ topU32 ∧ cfg.bip44ReceiveMax ≠ topU32

end Paths

/-! ## Loops -/

theorem lt_of_ne_top {n : UInt32} (h : n ≠ topU32) : n.toNat + 1 < 2 ^ 32 := by
  have hLess := n.toNat_lt
  have hNe : n.toNat ≠ 4294967295 := fun hSame => h (UInt32.toNat_inj.mp hSame)
  omega

/-- The values of a range. -/
def range (first last : UInt32) : List UInt32 := (values first.toNat last.toNat).map UInt32.ofNat

theorem mem_range {first last i : UInt32} : i ∈ range first last ↔ InRange first last i := by
  unfold range InRange
  rw [List.mem_map, UInt32.le_iff_toNat_le, UInt32.le_iff_toNat_le]
  constructor
  · rintro ⟨n, hn, rfl⟩
    obtain ⟨hFirst, hLast⟩ := mem_values.mp hn
    rw [UInt32.toNat_ofNat_of_lt' (hLast.trans_lt last.toNat_lt)]
    exact ⟨hFirst, hLast⟩
  · intro h
    exact ⟨i.toNat, mem_values.mpr h, UInt32.ofNat_toNat⟩

theorem nodup_range (first last : UInt32) : (range first last).Nodup := by
  apply List.Nodup.map_on _ (nodup_values _ _)
  intro m hm n hn hSame
  have hToNat := congrArg UInt32.toNat hSame
  rwa [UInt32.toNat_ofNat_of_lt' ((mem_values.mp hm).2.trans_lt last.toNat_lt),
    UInt32.toNat_ofNat_of_lt' ((mem_values.mp hn).2.trans_lt last.toNat_lt)] at hToNat

theorem length_range (first last : UInt32) : (range first last).length = last.toNat + 1 - first.toNat := by
  simp [range, values]

/-- More steps than a loop over 32 bits has rounds. -/
def enoughFuel : Nat := 2 ^ 32 + 1

section Loops

variable {α : Type} {first last : UInt32} {body : UInt32 → List α → Option (List α)}

theorem collect_eq (hLast : last ≠ topU32) (f : UInt32 → List α)
    (hBody : ∀ i s, InRange first last i → body i s = some (s ++ f i)) (out : List α) :
    collect enoughFuel first last body out = some (out ++ (range first last).flatMap f) := by
  have hRounds : last.toNat + 1 - first.toNat < enoughFuel := by
    have := last.toNat_lt
    unfold enoughFuel
    omega
  have hAppend := @foldlM_append _ _ (fun i s => body (UInt32.ofNat i) s) (fun i => f (UInt32.ofNat i))
    (values first.toNat last.toNat) (fun i hi s => hBody _ s (mem_range.mp (List.mem_map_of_mem hi))) out
  rw [collect, upTo_eq (lt_of_ne_top hLast) first.toNat_lt hRounds, hAppend, range, List.flatMap_map]

theorem collect_top (fuel : Nat) (out : List α) : collect fuel first topU32 body out = none :=
  upTo_endless (by decide) (by decide) first.toNat_lt out

theorem collect_none {fuel : Nat} (h : first ≤ last) {out : List α} (hBody : body first out = none) :
    collect fuel first last body out = none := by
  apply upTo_none (UInt32.le_iff_toNat_le.mp h)
  rw [UInt32.ofNat_toNat]
  exact hBody

theorem collect_empty (h : last < first) (out : List α) :
    collect enoughFuel first last body out = some out := by
  have hNe : last ≠ topU32 := by
    intro hTop
    have := UInt32.lt_iff_toNat_lt.mp h
    have := first.toNat_lt
    have hValue : last.toNat = 4294967295 := congrArg UInt32.toNat hTop
    omega
  have hNone : range first last = [] := by
    unfold range
    rw [values_eq_nil (UInt32.lt_iff_toNat_lt.mp h)]
    rfl
  have hEmpty : ∀ i s, InRange first last i → body i s = some (s ++ ([] : List α)) := by
    intro i s hi
    have := mem_range.mpr hi
    rw [hNone] at this
    cases this
  rw [collect_eq hNe (fun _ => []) hEmpty, hNone, List.flatMap_nil, List.append_nil]

end Loops

/-! ## Paths -/

section Paths

variable {δ : Type} (cfg : FileConfig δ)

/-- The paths in the order of the loops. -/
def configuredPaths : List DerivationPath :=
  ((range cfg.bip84AccountsMin cfg.bip84AccountsMax).flatMap fun acct =>
    (range cfg.bip84ReceiveMin cfg.bip84ReceiveMax).map (fun i => ⟨"bip84".toList, acct, 0, i⟩) ++
      (range cfg.bip84ChangeMin cfg.bip84ChangeMax).map fun i => ⟨"bip84".toList, acct, 1, i⟩) ++
  (range cfg.bip49ReceiveMin cfg.bip49ReceiveMax).map (fun i => ⟨"bip49".toList, 0, 0, i⟩) ++
  (range cfg.bip44ReceiveMin cfg.bip44ReceiveMax).map fun i => ⟨"bip44".toList, 0, 0, i⟩

theorem mem_configuredPaths (p : DerivationPath) : p ∈ configuredPaths cfg ↔ Configured cfg p := by
  unfold configuredPaths
  simp only [List.mem_append, List.mem_flatMap, List.mem_map, mem_range]
  constructor
  · rintro ((⟨acct, hAcct, ⟨i, hi, rfl⟩ | ⟨i, hi, rfl⟩⟩ | ⟨i, hi, rfl⟩) | ⟨i, hi, rfl⟩)
    · exact .receive84 hAcct hi
    · exact .change84 hAcct hi
    · exact .receive49 hi
    · exact .receive44 hi
  · rintro (⟨hAcct, hi⟩ | ⟨hAcct, hi⟩ | hi | hi)
    · exact .inl (.inl ⟨_, hAcct, .inl ⟨_, hi, rfl⟩⟩)
    · exact .inl (.inl ⟨_, hAcct, .inr ⟨_, hi, rfl⟩⟩)
    · exact .inl (.inr ⟨_, hi, rfl⟩)
    · exact .inr ⟨_, hi, rfl⟩

theorem nodup_configuredPaths : (configuredPaths cfg).Nodup := by
  have hIndex : ∀ (script : Text) (acct branch first last : UInt32),
      ((range first last).map fun i => (⟨script, acct, branch, i⟩ : DerivationPath)).Nodup :=
    fun script acct branch first last =>
      (nodup_range first last).map fun i j hSame => (DerivationPath.mk.inj hSame).2.2.2
  unfold configuredPaths
  rw [List.nodup_append, List.nodup_append, List.nodup_flatMap]
  refine ⟨⟨⟨fun acct _ => ?_, ?_⟩, hIndex .., ?_⟩, hIndex .., ?_⟩
  · rw [List.nodup_append]
    refine ⟨hIndex .., hIndex .., ?_⟩
    rintro p hp q hq rfl
    obtain ⟨i, -, rfl⟩ := List.mem_map.mp hp
    obtain ⟨j, -, hSame⟩ := List.mem_map.mp hq
    cases hSame
  · apply (nodup_range _ _).imp
    rintro acct acct' hNe p hp hq
    apply hNe
    have hAccount : ∀ {a : UInt32}, p ∈ (range cfg.bip84ReceiveMin cfg.bip84ReceiveMax).map
        (fun i => (⟨"bip84".toList, a, 0, i⟩ : DerivationPath)) ++
          (range cfg.bip84ChangeMin cfg.bip84ChangeMax).map (fun i => ⟨"bip84".toList, a, 1, i⟩) →
        p.account = a := by
      intro a h
      rcases List.mem_append.mp h with h | h <;> obtain ⟨i, -, rfl⟩ := List.mem_map.mp h <;> rfl
    exact (hAccount hp).symm.trans (hAccount hq)
  · rintro p hp q hq rfl
    obtain ⟨i, -, rfl⟩ := List.mem_map.mp hq
    obtain ⟨acct, -, hIn⟩ := List.mem_flatMap.mp hp
    rcases List.mem_append.mp hIn with h | h <;> obtain ⟨j, -, hSame⟩ := List.mem_map.mp h <;> cases hSame
  · rintro p hp q hq rfl
    obtain ⟨i, -, rfl⟩ := List.mem_map.mp hq
    rcases List.mem_append.mp hp with hIn | hIn
    · obtain ⟨acct, -, hIn⟩ := List.mem_flatMap.mp hIn
      rcases List.mem_append.mp hIn with h | h <;> obtain ⟨j, -, hSame⟩ := List.mem_map.mp h <;> cases hSame
    · obtain ⟨j, -, hSame⟩ := List.mem_map.mp hIn
      cases hSame

variable {cfg}

theorem collect_push {last : UInt32} (hLast : last ≠ topU32) (first : UInt32) (path : UInt32 → DerivationPath)
    (paths : List DerivationPath) :
    collect enoughFuel first last (fun i paths => some (paths ++ [path i])) paths =
      some (paths ++ (range first last).map path) := by
  rw [collect_eq hLast (fun i => [path i]) (fun _ _ _ => rfl), ← List.map_eq_flatMap]

theorem buildDerivationPaths_eq (h : PathsEnd cfg) :
    buildDerivationPaths cfg enoughFuel = some (configuredPaths cfg) := by
  obtain ⟨hAccounts, h49, h44⟩ := h
  let bip84 (acct : UInt32) : List DerivationPath :=
    (range cfg.bip84ReceiveMin cfg.bip84ReceiveMax).map (fun i => ⟨"bip84".toList, acct, 0, i⟩) ++
      (range cfg.bip84ChangeMin cfg.bip84ChangeMax).map fun i => ⟨"bip84".toList, acct, 1, i⟩
  have hFirst : collect enoughFuel cfg.bip84AccountsMin cfg.bip84AccountsMax (fun acct paths =>
      (collect enoughFuel cfg.bip84ReceiveMin cfg.bip84ReceiveMax
        (fun i paths => some (paths ++ [⟨"bip84".toList, acct, 0, i⟩])) paths).bind fun paths =>
      collect enoughFuel cfg.bip84ChangeMin cfg.bip84ChangeMax
        (fun i paths => some (paths ++ [⟨"bip84".toList, acct, 1, i⟩])) paths) [] =
      some ((range cfg.bip84AccountsMin cfg.bip84AccountsMax).flatMap bip84) := by
    rcases UInt32.lt_or_le cfg.bip84AccountsMax cfg.bip84AccountsMin with hEmpty | hLe
    · have hNone : range cfg.bip84AccountsMin cfg.bip84AccountsMax = [] := by
        unfold range
        rw [values_eq_nil (UInt32.lt_iff_toNat_lt.mp hEmpty)]
        rfl
      rw [collect_empty hEmpty, hNone, List.flatMap_nil]
    · obtain ⟨hAcct, hReceive, hChange⟩ := hAccounts hLe
      rw [collect_eq hAcct bip84, List.nil_append]
      intro acct paths _
      rw [collect_push hReceive, Option.bind_some, collect_push hChange, List.append_assoc]
  have hSecond : ∀ paths : List DerivationPath, collect enoughFuel 0 0 (fun acct paths =>
      collect enoughFuel cfg.bip49ReceiveMin cfg.bip49ReceiveMax
        (fun i paths => some (paths ++ [⟨"bip49".toList, acct, 0, i⟩])) paths) paths =
      some (paths ++ (range cfg.bip49ReceiveMin cfg.bip49ReceiveMax).map fun i => ⟨"bip49".toList, 0, 0, i⟩) := by
    intro paths
    have hOne : range 0 0 = [0] := by decide
    rw [collect_eq (by decide) (fun acct => (range cfg.bip49ReceiveMin cfg.bip49ReceiveMax).map fun i =>
      (⟨"bip49".toList, acct, 0, i⟩ : DerivationPath)) (fun acct paths _ => collect_push h49 _ _ _), hOne,
      List.flatMap_singleton]
  unfold buildDerivationPaths
  dsimp only
  rw [hFirst, Option.bind_some, hSecond, Option.bind_some, collect_push h44]
  rfl

theorem buildDerivationPaths_none (h : ¬ PathsEnd cfg) (fuel : Nat) : buildDerivationPaths cfg fuel = none := by
  unfold buildDerivationPaths
  dsimp only
  by_cases h44 : cfg.bip44ReceiveMax = topU32
  · rw [h44]
    simp only [collect_top, Option.bind_fun_none]
  by_cases h49 : cfg.bip49ReceiveMax = topU32
  · rw [h49]
    simp only [collect_top, collect_none (UInt32.le_refl 0), Option.bind_none, Option.bind_fun_none]
  · have hAccounts : cfg.bip84AccountsMin ≤ cfg.bip84AccountsMax ∧ (cfg.bip84AccountsMax = topU32 ∨
        cfg.bip84ReceiveMax = topU32 ∨ cfg.bip84ChangeMax = topU32) := by
      unfold PathsEnd at h
      tauto
    obtain ⟨hLe, hTop | hTop | hTop⟩ := hAccounts
    · rw [hTop, collect_top, Option.bind_none]
    · rw [collect_none hLe, Option.bind_none]
      rw [hTop, collect_top, Option.bind_none]
    · rw [collect_none hLe, Option.bind_none]
      rw [hTop]
      simp only [collect_top, Option.bind_fun_none]

theorem pathsExact_iff : PathsExact cfg ↔ PathsEnd cfg := by
  constructor
  · rintro ⟨fuel, paths, hBuild, -⟩
    by_contra hEnd
    rw [buildDerivationPaths_none hEnd] at hBuild
    cases hBuild
  · intro hEnd
    exact ⟨enoughFuel, _, buildDerivationPaths_eq hEnd, nodup_configuredPaths cfg, mem_configuredPaths cfg⟩

theorem sessionsExact_iff : SessionsExact cfg ↔ cfg.scanSessionMax ≠ topU32 := by
  constructor
  · rintro ⟨fuel, sessions, hLoop, -⟩ hTop
    rw [scanSessions, hTop, collect_top] at hLoop
    cases hLoop
  · intro hTop
    have hLoop : scanSessions cfg enoughFuel = some (range cfg.scanSessionMin cfg.scanSessionMax) := by
      rw [scanSessions, collect_eq hTop (fun s => [s]) (fun _ _ _ => rfl), ← List.map_eq_flatMap, List.map_id',
        List.nil_append]
    exact ⟨enoughFuel, _, hLoop, nodup_range _ _, fun s => mem_range⟩

end Paths

/-! ## Pads -/

section Pads

variable {pads : PadEnumerator}

theorem total_toNat (h : pads.highMin ≤ pads.highMax) :
    pads.total.toNat = (pads.highMax.toNat - pads.highMin.toNat + 1) % 2 ^ 32 * 65536 := by
  have hNot : ¬ pads.highMax < pads.highMin := UInt32.not_lt.mpr h
  have hSpan : (pads.highMax - pads.highMin + 1).toNat =
      (pads.highMax.toNat - pads.highMin.toNat + 1) % 2 ^ 32 := by
    rw [UInt32.toNat_add, UInt32.toNat_sub_of_le _ _ h]
    rfl
  have hLess := Nat.mod_lt (pads.highMax.toNat - pads.highMin.toNat + 1) (show 0 < 2 ^ 32 by decide)
  rw [PadEnumerator.total, if_neg hNot, UInt64.toNat_mul, UInt32.toNat_toUInt64, hSpan]
  exact Nat.mod_eq_of_lt (by change _ * 65536 < _; omega)

/-- The word that a pad is made of loses all but its lowest 16 bits. -/
theorem at_toNat (h : pads.highMin ≤ pads.highMax) {i : Nat} (hi : i < pads.total.toNat) :
    (pads.at (UInt64.ofNat i)).toNat = (pads.highMin.toNat + i / 65536) % 65536 * 65536 + i % 65536 := by
  have hTotal := total_toNat h
  have hMin := pads.highMin.toNat_lt
  have hMax := pads.highMax.toNat_lt
  have hSpan : (pads.highMax - pads.highMin + 1).toNat =
      (pads.highMax.toNat - pads.highMin.toNat + 1) % 2 ^ 32 := by
    rw [UInt32.toNat_add, UInt32.toNat_sub_of_le _ _ h]
    rfl
  have hLess := Nat.mod_lt (pads.highMax.toNat - pads.highMin.toNat + 1) (show 0 < 2 ^ 32 by decide)
  have hIndex : (UInt64.ofNat i).toNat = i := UInt64.toNat_ofNat_of_lt' (by change i < 2 ^ 64; omega)
  have hOffset : (UInt64.ofNat i / 65536 % (pads.highMax - pads.highMin + 1).toUInt64).toNat = i / 65536 := by
    rw [UInt64.toNat_mod, UInt64.toNat_div, hIndex, UInt32.toNat_toUInt64, hSpan]
    exact Nat.mod_eq_of_lt (by change i / 65536 < _; omega)
  have hHigh : ((pads.highMin + (UInt64.ofNat i / 65536 %
      (pads.highMax - pads.highMin + 1).toUInt64).toUInt32) <<< 16).toNat =
      (pads.highMin.toNat + i / 65536) % 65536 * 65536 := by
    rw [UInt32.toNat_shiftLeft, UInt32.toNat_add, UInt64.toNat_toUInt32, hOffset, Nat.shiftLeft_eq]
    change _ % 2 ^ 32 * 2 ^ 16 % 2 ^ 32 = _
    omega
  have hLow : (UInt64.ofNat i % 65536).toUInt32.toNat = i % 65536 := by
    rw [UInt64.toNat_toUInt32, UInt64.toNat_mod, hIndex]
    change i % 65536 % 2 ^ 32 = _
    omega
  unfold PadEnumerator.at
  dsimp only
  rw [UInt32.toNat_or, hHigh, hLow]
  have hOr := Nat.shiftLeft_add_eq_or_of_lt (i := 16) (b := i % 65536) (Nat.mod_lt _ (by decide))
    ((pads.highMin.toNat + i / 65536) % 65536)
  rw [Nat.shiftLeft_eq] at hOr
  exact hOr.symm

theorem mem_enumeratedPads {pad : UInt32} :
    pad ∈ enumeratedPads pads ↔ ∃ i < pads.total.toNat, pads.at (UInt64.ofNat i) = pad := by
  unfold enumeratedPads
  rw [List.mem_map]
  exact ⟨fun ⟨i, hi, h⟩ => ⟨i, List.mem_range.mp hi, h⟩, fun ⟨i, hi, h⟩ => ⟨i, List.mem_range.mpr hi, h⟩⟩

theorem highWord_toNat (pad : UInt32) : (PadEnumerator.highWord pad).toNat = pad.toNat / 65536 := by
  rw [PadEnumerator.highWord, UInt32.toNat_shiftRight, Nat.shiftRight_eq_div_pow]
  rfl

theorem padsExact_of_words (h : pads.highMin ≤ pads.highMax) (hMax : pads.highMax < 65536) : PadsExact pads := by
  have hLess : pads.highMax.toNat < 65536 := UInt32.lt_iff_toNat_lt.mp hMax
  have hLe := UInt32.le_iff_toNat_le.mp h
  have hTotal := total_toNat h
  rw [Nat.mod_eq_of_lt (show pads.highMax.toNat - pads.highMin.toNat + 1 < 2 ^ 32 by omega)] at hTotal
  -- the pads are consecutive numbers
  have hAt : ∀ {i : Nat}, i < pads.total.toNat →
      (pads.at (UInt64.ofNat i)).toNat = pads.highMin.toNat * 65536 + i := by
    intro i hi
    rw [at_toNat h hi]
    omega
  constructor
  · apply List.Nodup.map_on _ List.nodup_range
    intro i hi j hj hSame
    have hToNat := congrArg UInt32.toNat hSame
    rw [hAt (List.mem_range.mp hi), hAt (List.mem_range.mp hj)] at hToNat
    omega
  · intro pad
    rw [mem_enumeratedPads, InRange, UInt32.le_iff_toNat_le, UInt32.le_iff_toNat_le, highWord_toNat]
    constructor
    · rintro ⟨i, hi, rfl⟩
      rw [hAt hi]
      omega
    · rintro ⟨hFirst, hLast⟩
      refine ⟨pad.toNat - pads.highMin.toNat * 65536, by omega, ?_⟩
      apply UInt32.toNat_inj.mp
      rw [hAt (by omega)]
      omega

theorem padsExact_of_empty (h : pads.highMax < pads.highMin) : PadsExact pads := by
  have hNone : enumeratedPads pads = [] := by
    rw [enumeratedPads, PadEnumerator.total, if_pos h]
    rfl
  rw [PadsExact, hNone]
  refine ⟨List.nodup_nil, fun pad => ⟨fun hMem => (nomatch hMem), fun hRange => ?_⟩⟩
  exact absurd (UInt32.le_trans hRange.1 hRange.2) (UInt32.not_le.mpr h)

/-- A range beyond 16 bits yields a pad outside of it, or a pad twice. -/
theorem not_padsExact (h : pads.highMin ≤ pads.highMax) (hMax : 65536 ≤ pads.highMax) : ¬ PadsExact pads := by
  rintro ⟨hNodup, hMem⟩
  have hBeyond : 65536 ≤ pads.highMax.toNat := UInt32.le_iff_toNat_le.mp hMax
  have hLe := UInt32.le_iff_toNat_le.mp h
  have hMin := pads.highMin.toNat_lt
  have hTop := pads.highMax.toNat_lt
  have hTotal := total_toNat h
  by_cases hWhole : pads.highMax.toNat - pads.highMin.toNat + 1 = 2 ^ 32
  · -- the size of the whole range is zero
    rw [hWhole, Nat.mod_self, Nat.zero_mul] at hTotal
    have hZero : (0 : UInt32) ∈ enumeratedPads pads := by
      apply (hMem 0).mpr
      rw [InRange, UInt32.le_iff_toNat_le, UInt32.le_iff_toNat_le, highWord_toNat, UInt32.toNat_zero]
      omega
    obtain ⟨i, hi, -⟩ := mem_enumeratedPads.mp hZero
    omega
  · rw [Nat.mod_eq_of_lt (show pads.highMax.toNat - pads.highMin.toNat + 1 < 2 ^ 32 by omega)] at hTotal
    have hOut : ∀ {i : Nat}, i < pads.total.toNat →
        pads.highMin.toNat ≤ (pads.at (UInt64.ofNat i)).toNat / 65536 := by
      intro i hi
      have hRange := ((hMem _).mp (mem_enumeratedPads.mpr ⟨i, hi, rfl⟩)).1
      rwa [UInt32.le_iff_toNat_le, highWord_toNat] at hRange
    rcases Nat.lt_or_ge pads.highMin.toNat 65536 with hLow | hHigh
    · -- the pad behind the last word of 16 bits is pad zero again
      have hWrap : (65536 - pads.highMin.toNat) * 65536 < pads.total.toNat := by omega
      have hPad := at_toNat h hWrap
      have hBack := hOut hWrap
      have hMinZero : pads.highMin.toNat = 0 := by omega
      rw [hMinZero] at hPad hWrap
      have hFirst := at_toNat h (show 0 < pads.total.toNat by omega)
      rw [hMinZero] at hFirst
      have hSame : pads.at (UInt64.ofNat ((65536 - 0) * 65536)) = pads.at (UInt64.ofNat 0) := by
        apply UInt32.toNat_inj.mp
        rw [hPad, hFirst]
      have hIndex := List.inj_on_of_nodup_map hNodup (List.mem_range.mpr hWrap)
        (List.mem_range.mpr (show 0 < pads.total.toNat by omega)) hSame
      omega
    · have hFirst := hOut (show 0 < pads.total.toNat by omega)
      rw [at_toNat h (show 0 < pads.total.toNat by omega)] at hFirst
      omega

theorem padsExact_iff : PadsExact pads ↔ pads.highMax < pads.highMin ∨ pads.highMax < 65536 := by
  rcases UInt32.lt_or_le pads.highMax pads.highMin with hEmpty | hLe
  · exact ⟨fun _ => .inl hEmpty, fun _ => padsExact_of_empty hEmpty⟩
  · rcases UInt32.lt_or_le pads.highMax 65536 with hWords | hBeyond
    · exact ⟨fun _ => .inr hWords, fun _ => padsExact_of_words hLe hWords⟩
    · constructor
      · exact fun hExact => absurd hExact (not_padsExact hLe hBeyond)
      · rintro (hLess | hLess)
        · exact absurd hLess (UInt32.not_lt.mpr hLe)
        · exact absurd hLess (UInt32.not_lt.mpr hBeyond)

end Pads

/-! ## Accepted configurations -/

theorem ranges_exact_iff {δ : Type} {stod : Text → Option δ} {file : Option Text} {start cfg : FileConfig δ}
    (_ : loadScanConfig stod file start = some cfg) :
    (PathsExact cfg ↔ PathsEnd cfg) ∧ (SessionsExact cfg ↔ cfg.scanSessionMax ≠ topU32) ∧
      (PadsExact cfg.pads ↔ cfg.padHighMax < cfg.padHighMin ∨ cfg.padHighMax < 65536) :=
  ⟨pathsExact_iff, sessionsExact_iff, padsExact_iff⟩

/-- A configuration with a bound of all ones. -/
def topFile : Text := "[bip44]\nreceive_max = 4294967295".toList

theorem ranges_top : ∃ cfg : FileConfig Unit,
    loadScanConfig (fun _ => none) (some topFile) { etaSmoothingAlpha := () } = some cfg ∧
      ∀ fuel, buildDerivationPaths cfg fuel = none := by
  have hTop : ∀ cfg, loadScanConfig (fun _ => none) (some topFile) { etaSmoothingAlpha := () } = some cfg →
      cfg.bip44ReceiveMax = topU32 := by
    rintro cfg h
    cases h
    decide +kernel
  refine ⟨_, rfl, fun fuel => buildDerivationPaths_none (fun hEnd => ?_) fuel⟩
  exact hEnd.2.2 (hTop _ rfl)

theorem ranges_default : ∃ cfg : FileConfig Unit,
    loadScanConfig (fun _ => none) (some "[scan]".toList) { etaSmoothingAlpha := () } = some cfg ∧
      PathsExact cfg ∧ SessionsExact cfg ∧ PadsExact cfg.pads := by
  obtain ⟨hPaths, hSessions, hPads⟩ := @ranges_exact_iff Unit (fun _ => none) (some "[scan]".toList)
    { etaSmoothingAlpha := () } _ rfl
  refine ⟨_, rfl, hPaths.mpr ?_, hSessions.mpr ?_, hPads.mpr ?_⟩
  · unfold PathsEnd
    decide +kernel
  · decide +kernel
  · decide +kernel

end Bloodhound.Scanner
