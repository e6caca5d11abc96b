import Mathlib.Data.List.Nodup
import Mathlib.Data.List.Dedup
import Mathlib.Data.List.Perm.Subperm
import Mathlib.Data.Set.Card
import Mathlib.Logic.Relation

/-!
# Walks and recursive queries

A recursive query that keeps duplicates (`UNION ALL`) takes a row off its queue, adds it to
the result and queues the successors of the row. It ends if and only if some level of the
recursion is empty, and then its result are the levels before it (`unionAll_iff`).

Over a graph given by a list of arrows, the rows of a level are the ends of the walks of
that length. The levels die out if and only if the start reaches no cycle
(`exists_walksFrom_eq_nil`), and then the ends are counted once each if and only if no two
walks share an end (`length_ends_iff`).
-/

namespace Walks

/-! ## Recursive queries -/

section Queries

variable {ρ : Type} (next : ρ → List ρ)

/-- `WITH RECURSIVE … UNION ALL …`: the queue of the rows to be expanded and the result so far. -/
def unionAll : Nat → List ρ → List ρ → Option (List ρ)
  | _, [], rows => some rows
  | 0, _ :: _, _ => none
  | fuel + 1, r :: queue, rows => unionAll fuel (queue ++ next r) (rows ++ [r])

/-- The rows after `n` steps of the recursion. -/
def level : Nat → List ρ → List ρ
  | 0, queue => queue
  | n + 1, queue => (level n queue).flatMap next

theorem level_succ (n : Nat) (queue : List ρ) :
    level next (n + 1) queue = level next n (queue.flatMap next) := by
  induction n with
  | zero => rfl
  | succ n ih => rw [level, ih, level]

theorem level_append (n : Nat) (l l' : List ρ) :
    level next n (l ++ l') = level next n l ++ level next n l' := by
  induction n with
  | zero => rfl
  | succ n ih => rw [level, ih, List.flatMap_append, level, level]

theorem level_flatMap (n : Nat) (l : List ρ) :
    level next n l = l.flatMap fun r => level next n [r] := by
  induction l with
  | nil =>
    induction n with
    | zero => rfl
    | succ n ih => rw [level, ih, List.flatMap_nil]; rfl
  | cons r l ih => rw [List.flatMap_cons, ← ih, ← level_append, List.singleton_append]

/-- The levels before `n + 1`: the queue, and the levels of its successors. -/
theorem levels_succ (n : Nat) (queue : List ρ) :
    ((List.range (n + 1)).flatMap fun i => level next i queue) =
      queue ++ (List.range n).flatMap fun i => level next i (queue.flatMap next) := by
  rw [List.range_succ_eq_map, List.flatMap_cons, List.flatMap_map]
  simp only [level_succ]
  rfl

variable {next}

/-- The rows of the queue are expanded before the rows they add. -/
theorem unionAll_queue (fuel : Nat) (queue later rows : List ρ) :
    unionAll next (fuel + queue.length) (queue ++ later) rows =
      unionAll next fuel (later ++ queue.flatMap next) (rows ++ queue) := by
  induction queue generalizing later rows with
  | nil => simp
  | cons r queue ih =>
    rw [List.length_cons, ← Nat.add_assoc, List.cons_append, unionAll, List.append_assoc, ih,
      List.append_assoc, List.append_assoc, List.flatMap_cons, List.singleton_append]

theorem unionAll_level (fuel : Nat) (queue rows : List ρ) :
    unionAll next (fuel + queue.length) queue rows =
      unionAll next fuel (queue.flatMap next) (rows ++ queue) := by
  simpa using unionAll_queue fuel queue [] rows

/-- More fuel changes nothing for a query that ends. -/
theorem unionAll_mono {fuel fuel' : Nat} (hLe : fuel ≤ fuel') {queue rows result : List ρ}
    (h : unionAll next fuel queue rows = some result) :
    unionAll next fuel' queue rows = some result := by
  induction fuel generalizing fuel' queue rows with
  | zero =>
    obtain _ | ⟨r, queue⟩ := queue
    · rw [unionAll] at h ⊢
      exact h
    · cases h
  | succ fuel ih =>
    obtain ⟨fuel', rfl⟩ := Nat.exists_eq_succ_of_ne_zero (show fuel' ≠ 0 by omega)
    obtain _ | ⟨r, queue⟩ := queue
    · rw [unionAll] at h ⊢
      exact h
    · rw [unionAll] at h ⊢
      exact ih (Nat.le_of_succ_le_succ hLe) h

theorem unionAll_of_lt {fuel : Nat} {queue rows : List ρ} (h : fuel < queue.length) :
    unionAll next fuel queue rows = none := by
  induction fuel generalizing queue rows with
  | zero =>
    obtain _ | ⟨r, queue⟩ := queue
    · cases h
    · rfl
  | succ fuel ih =>
    obtain _ | ⟨r, queue⟩ := queue
    · cases h
    · rw [unionAll]
      refine ih ?_
      rw [List.length_append]
      rw [List.length_cons] at h
      omega

/-- Where a level is empty, the query ends with the levels before it. -/
theorem unionAll_of_level {n : Nat} {queue : List ρ} (h : level next n queue = []) (rows : List ρ) :
    ∃ fuel, unionAll next fuel queue rows =
      some (rows ++ (List.range n).flatMap fun i => level next i queue) := by
  induction n generalizing queue rows with
  | zero =>
    obtain rfl : queue = [] := h
    exact ⟨0, by simp [unionAll]⟩
  | succ n ih =>
    obtain ⟨fuel, hRun⟩ := ih ((level_succ next n queue).symm.trans h) (rows ++ queue)
    refine ⟨fuel + queue.length, ?_⟩
    rw [unionAll_level, hRun, levels_succ, List.append_assoc]

/-- A query that ends has an empty level. -/
theorem level_of_unionAll {fuel : Nat} {queue rows result : List ρ}
    (h : unionAll next fuel queue rows = some result) :
    ∃ n, level next n queue = [] ∧
      result = rows ++ (List.range n).flatMap fun i => level next i queue := by
  induction fuel using Nat.strong_induction_on generalizing queue rows with
  | _ fuel ih =>
    obtain _ | ⟨r, queue⟩ := queue
    · rw [unionAll, Option.some.injEq] at h
      exact ⟨0, rfl, by simp [h]⟩
    · have hFuel : (r :: queue).length ≤ fuel := by
        by_contra hLt
        rw [unionAll_of_lt (not_le.mp hLt)] at h
        cases h
      obtain ⟨rest, rfl⟩ := Nat.exists_eq_add_of_le' hFuel
      rw [unionAll_level] at h
      obtain ⟨n, hNil, hResult⟩ := ih rest (by rw [List.length_cons]; omega) h
      refine ⟨n + 1, (level_succ next n _).trans hNil, ?_⟩
      rw [hResult, levels_succ, List.append_assoc]

/-- A query ends if and only if a level is empty, with the levels before it. -/
theorem unionAll_iff {queue result : List ρ} :
    (∃ fuel, unionAll next fuel queue [] = some result) ↔
      ∃ n, level next n queue = [] ∧
        result = (List.range n).flatMap fun i => level next i queue := by
  constructor
  · rintro ⟨fuel, h⟩
    simpa using level_of_unionAll h
  · rintro ⟨n, hNil, rfl⟩
    simpa using unionAll_of_level hNil []

end Queries

/-! ## Walks -/

variable {α ε : Type} {source target : ε → α} {arrows : List ε}

/-- The arrows of a walk from `a`, the last one first. -/
inductive IsWalk (source target : ε → α) (arrows : List ε) (a : α) : List ε → α → Prop where
  | nil : IsWalk source target arrows a [] a
  | cons {w : List ε} {e : ε} (hWalk : IsWalk source target arrows a w (source e))
      (he : e ∈ arrows) : IsWalk source target arrows a (e :: w) (target e)

def Step (source target : ε → α) (arrows : List ε) (a b : α) : Prop :=
  ∃ e ∈ arrows, source e = a ∧ target e = b

theorem IsWalk.end_unique {a b b' : α} {w : List ε} (h : IsWalk source target arrows a w b)
    (h' : IsWalk source target arrows a w b') : b = b' := by
  cases h with
  | nil => cases h'; rfl
  | cons _ _ => cases h'; rfl

theorem exists_walk_iff {a b : α} :
    (∃ w, IsWalk source target arrows a w b) ↔
      Relation.ReflTransGen (Step source target arrows) a b := by
  constructor
  · rintro ⟨w, hWalk⟩
    induction hWalk with
    | nil => exact Relation.ReflTransGen.refl
    | cons _ he ih => exact ih.tail ⟨_, he, rfl, rfl⟩
  · intro hReach
    induction hReach with
    | refl => exact ⟨[], .nil⟩
    | tail _ hStep ih =>
      obtain ⟨w, hWalk⟩ := ih
      obtain ⟨e, he, rfl, rfl⟩ := hStep
      exact ⟨e :: w, .cons hWalk he⟩

/-! ## Cycles -/

/-- No cycle is reached from `a`. -/
def Acyclic (source target : ε → α) (arrows : List ε) (a : α) : Prop :=
  ∀ b, Relation.ReflTransGen (Step source target arrows) a b →
    ¬ Relation.TransGen (Step source target arrows) b b

/-- A walk goes on from the source of each of its arrows to its end. -/
theorem IsWalk.transGen {a b : α} {w : List ε} (h : IsWalk source target arrows a w b) :
    ∀ e ∈ w, Relation.TransGen (Step source target arrows) (source e) b := by
  induction h with
  | nil => exact fun _ he => absurd he List.not_mem_nil
  | @cons w e _ hArrow ih =>
    intro e' he'
    have hLast : Step source target arrows (source e) (target e) := ⟨e, hArrow, rfl, rfl⟩
    rcases List.mem_cons.mp he' with rfl | he'
    · exact Relation.TransGen.single hLast
    · exact (ih e' he').tail hLast

theorem IsWalk.subset {a b : α} {w : List ε} (h : IsWalk source target arrows a w b) : w ⊆ arrows := by
  induction h with
  | nil => exact List.nil_subset _
  | cons _ he ih => exact List.cons_subset.mpr ⟨he, ih⟩

/-- Without a cycle no arrow is walked twice. -/
theorem IsWalk.nodup_sources {a b : α} {w : List ε} (hAcyclic : Acyclic source target arrows a)
    (h : IsWalk source target arrows a w b) : (w.map source).Nodup := by
  induction h with
  | nil => exact List.nodup_nil
  | @cons w e hWalk hArrow ih =>
    rw [List.map_cons, List.nodup_cons]
    refine ⟨fun hMem => ?_, ih⟩
    obtain ⟨e', he', hEq⟩ := List.mem_map.mp hMem
    exact hAcyclic _ (exists_walk_iff.mp ⟨w, hWalk⟩) (hEq ▸ hWalk.transGen e' he')

theorem IsWalk.length_le {a b : α} {w : List ε} (hAcyclic : Acyclic source target arrows a)
    (h : IsWalk source target arrows a w b) : w.length ≤ arrows.length :=
  (List.subperm_of_subset (List.Nodup.of_map source (h.nodup_sources hAcyclic)) h.subset).length_le

/-- On a cycle a walk can be extended forever. -/
theorem exists_walk_of_cycle {a b : α} (hReach : Relation.ReflTransGen (Step source target arrows) a b)
    (hCycle : Relation.TransGen (Step source target arrows) b b) (n : Nat) :
    ∃ w c, IsWalk source target arrows a w c ∧ n ≤ w.length ∧
      Relation.TransGen (Step source target arrows) c c := by
  induction n with
  | zero =>
    obtain ⟨w, hWalk⟩ := exists_walk_iff.mpr hReach
    exact ⟨w, b, hWalk, Nat.zero_le _, hCycle⟩
  | succ n ih =>
    obtain ⟨w, c, hWalk, hLength, hAgain⟩ := ih
    obtain ⟨d, hStep, hBack⟩ := Relation.TransGen.head'_iff.mp hAgain
    obtain ⟨e, he, rfl, rfl⟩ := hStep
    refine ⟨e :: w, target e, .cons hWalk he, by rw [List.length_cons]; omega, ?_⟩
    exact Relation.TransGen.tail'_iff.mpr ⟨_, hBack, ⟨e, he, rfl, rfl⟩⟩

/-! ## Lists of walks -/

variable [DecidableEq α]

/-- The walks of length `n` from `a`, with their ends. -/
def walksFrom (source target : ε → α) (arrows : List ε) (a : α) : Nat → List (List ε × α)
  | 0 => [([], a)]
  | n + 1 => (walksFrom source target arrows a n).flatMap fun w =>
      (arrows.filter (source · = w.2)).map fun e => (e :: w.1, target e)

theorem mem_walksFrom {a b : α} {n : Nat} {w : List ε} :
    (w, b) ∈ walksFrom source target arrows a n ↔
      IsWalk source target arrows a w b ∧ w.length = n := by
  induction n generalizing w b with
  | zero =>
    rw [walksFrom, List.mem_singleton, Prod.mk.injEq]
    constructor
    · rintro ⟨rfl, rfl⟩
      exact ⟨.nil, rfl⟩
    · rintro ⟨hWalk, hLength⟩
      cases hWalk with
      | nil => exact ⟨rfl, rfl⟩
      | cons _ _ => cases hLength
  | succ n ih =>
    rw [walksFrom, List.mem_flatMap]
    constructor
    · rintro ⟨⟨w', b'⟩, hMem, hNext⟩
      obtain ⟨e, he, hEq⟩ := List.mem_map.mp hNext
      obtain ⟨hArrow, hSource⟩ := List.mem_filter.mp he
      obtain ⟨rfl, rfl⟩ := Prod.mk.inj hEq
      obtain ⟨hWalk, hLength⟩ := ih.mp hMem
      obtain rfl : source e = b' := of_decide_eq_true hSource
      exact ⟨.cons hWalk hArrow, by rw [List.length_cons, hLength]⟩
    · rintro ⟨hWalk, hLength⟩
      cases hWalk with
      | nil => cases hLength
      | cons hWalk he =>
        refine ⟨_, ih.mpr ⟨hWalk, Nat.succ.inj hLength⟩, List.mem_map.mpr ⟨_, ?_, rfl⟩⟩
        exact List.mem_filter.mpr ⟨he, decide_eq_true rfl⟩

theorem nodup_walksFrom (hArrows : arrows.Nodup) (a : α) (n : Nat) :
    (walksFrom source target arrows a n).Nodup := by
  induction n with
  | zero => exact List.nodup_singleton _
  | succ n ih =>
    rw [walksFrom, List.nodup_flatMap]
    refine ⟨fun w _ => ?_, ?_⟩
    · exact (hArrows.filter _).map fun e e' h => (List.cons.inj (Prod.mk.inj h).1).1
    · refine List.Pairwise.imp_of_mem (fun {w w'} hMem hMem' hne => ?_) ih
      intro v hv hv'
      obtain ⟨e, he, rfl⟩ := List.mem_map.mp hv
      obtain ⟨e', he', hEq⟩ := List.mem_map.mp hv'
      obtain ⟨hHead, hTail⟩ := List.cons.inj (Prod.mk.inj hEq).1
      have hEnd := (mem_walksFrom.mp hMem).1.end_unique (hTail ▸ (mem_walksFrom.mp hMem').1)
      exact hne (Prod.ext hTail.symm hEnd)

/-- The walks of fewer than `n` arrows. -/
def walksBelow (source target : ε → α) (arrows : List ε) (a : α) (n : Nat) : List (List ε × α) :=
  (List.range n).flatMap (walksFrom source target arrows a)

theorem mem_walksBelow {a b : α} {n : Nat} {w : List ε} :
    (w, b) ∈ walksBelow source target arrows a n ↔
      IsWalk source target arrows a w b ∧ w.length < n := by
  unfold walksBelow
  rw [List.mem_flatMap]
  constructor
  · rintro ⟨i, hi, hMem⟩
    obtain ⟨hWalk, hLength⟩ := mem_walksFrom.mp hMem
    exact ⟨hWalk, hLength ▸ List.mem_range.mp hi⟩
  · rintro ⟨hWalk, hLength⟩
    exact ⟨w.length, List.mem_range.mpr hLength, mem_walksFrom.mpr ⟨hWalk, rfl⟩⟩

theorem nodup_walksBelow (hArrows : arrows.Nodup) (a : α) (n : Nat) :
    (walksBelow source target arrows a n).Nodup := by
  unfold walksBelow
  rw [List.nodup_flatMap]
  refine ⟨fun i _ => nodup_walksFrom hArrows a i, ?_⟩
  refine List.nodup_range.imp fun {i j} hne => ?_
  rintro ⟨w, b⟩ hi hj
  exact hne ((mem_walksFrom.mp hi).2.symm.trans (mem_walksFrom.mp hj).2)

theorem walksFrom_eq_nil_of_le {a : α} {n m : Nat} (hLe : n ≤ m)
    (h : walksFrom source target arrows a n = []) : walksFrom source target arrows a m = [] := by
  induction m, hLe using Nat.le_induction with
  | base => exact h
  | succ m _ ih => rw [walksFrom, ih, List.flatMap_nil]

/-- The walks die out if and only if no cycle is reached. -/
theorem exists_walksFrom_eq_nil {a : α} :
    (∃ n, walksFrom source target arrows a n = []) ↔ Acyclic source target arrows a := by
  constructor
  · rintro ⟨n, hNil⟩ b hReach hCycle
    obtain ⟨w, c, hWalk, hLength, _⟩ := exists_walk_of_cycle hReach hCycle n
    have hLonger := walksFrom_eq_nil_of_le hLength hNil
    exact absurd (mem_walksFrom.mpr ⟨hWalk, rfl⟩) (hLonger ▸ List.not_mem_nil)
  · intro hAcyclic
    refine ⟨arrows.length + 1, List.eq_nil_iff_forall_not_mem.mpr ?_⟩
    rintro ⟨w, b⟩ hMem
    obtain ⟨hWalk, hLength⟩ := mem_walksFrom.mp hMem
    have hShort := hWalk.length_le hAcyclic
    omega

theorem IsWalk.lt_of_walksFrom_eq_nil {a b : α} {n : Nat} {w : List ε}
    (hNil : walksFrom source target arrows a n = []) (h : IsWalk source target arrows a w b) :
    w.length < n := by
  by_contra hNot
  have hLonger := walksFrom_eq_nil_of_le (not_lt.mp hNot) hNil
  exact absurd (mem_walksFrom.mpr ⟨h, rfl⟩) (hLonger ▸ List.not_mem_nil)

/-- Where the walks die out, longer limits list no more of them. -/
theorem walksBelow_eq_of_le {a : α} {n m : Nat} (hLe : n ≤ m)
    (hNil : walksFrom source target arrows a n = []) :
    walksBelow source target arrows a m = walksBelow source target arrows a n := by
  induction m, hLe using Nat.le_induction with
  | base => rfl
  | succ m hLe ih =>
    have hLast := walksFrom_eq_nil_of_le hLe hNil
    rw [← ih]
    simp [walksBelow, List.range_succ, hLast]

/-! ## Counting ends -/

theorem length_eq_ncard_iff {β : Type} [DecidableEq β] {l : List β} {s : Set β} (hs : ∀ b, b ∈ s ↔ b ∈ l) :
    l.length = s.ncard ↔ l.Nodup := by
  have hSet : s = (l.toFinset : Set β) := Set.ext fun b => by rw [hs, Finset.mem_coe, List.mem_toFinset]
  rw [hSet, Set.ncard_coe_finset, List.card_toFinset]
  constructor
  · intro h
    rw [← (List.dedup_sublist l).eq_of_length h.symm]
    exact List.nodup_dedup l
  · intro h
    rw [h.dedup]

/-- Where the walks die out, the ends with a property are counted once each if and only if each of
them is the end of one walk. -/
theorem length_ends_iff (hArrows : arrows.Nodup) {a : α} {n : Nat}
    (hNil : walksFrom source target arrows a n = []) (p : α → Bool) :
    ((walksBelow source target arrows a n).filter (p ·.2)).length =
        Set.ncard {b | Relation.ReflTransGen (Step source target arrows) a b ∧ p b = true} ↔
      ∀ b, p b = true → ∀ w w', IsWalk source target arrows a w b →
        IsWalk source target arrows a w' b → w = w' := by
  have hMem : ∀ w b, (w, b) ∈ (walksBelow source target arrows a n).filter (p ·.2) ↔
      IsWalk source target arrows a w b ∧ p b = true := fun w b => by
    rw [List.mem_filter, mem_walksBelow]
    constructor
    · exact fun h => ⟨h.1.1, h.2⟩
    · exact fun h => ⟨⟨h.1, h.1.lt_of_walksFrom_eq_nil hNil⟩, h.2⟩
  have hNodup : ((walksBelow source target arrows a n).filter (p ·.2)).Nodup :=
    (nodup_walksBelow hArrows a n).filter _
  rw [← List.length_map (f := Prod.snd), length_eq_ncard_iff]
  · constructor
    · intro h b hb w w' hw hw'
      have hEq := List.inj_on_of_nodup_map h ((hMem w b).mpr ⟨hw, hb⟩) ((hMem w' b).mpr ⟨hw', hb⟩) rfl
      exact (Prod.mk.inj hEq).1
    · intro h
      refine hNodup.map_on ?_
      rintro ⟨w, b⟩ hw ⟨w', b'⟩ hw' (rfl : b = b')
      obtain ⟨hWalk, hb⟩ := (hMem w b).mp hw
      rw [h b hb w w' hWalk ((hMem w' b).mp hw').1]
  · intro b
    rw [Set.mem_ofPred_eq, ← exists_walk_iff, List.mem_map]
    constructor
    · rintro ⟨⟨w, hw⟩, hb⟩
      exact ⟨(w, b), (hMem w b).mpr ⟨hw, hb⟩, rfl⟩
    · rintro ⟨⟨w, b'⟩, hw, rfl⟩
      obtain ⟨hWalk, hb⟩ := (hMem w b').mp hw
      exact ⟨⟨w, hWalk⟩, hb⟩

end Walks
