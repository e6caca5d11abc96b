import Mathlib.Data.Finset.Card
import Bloodhound.Lib.OrderedMap

/-!
# Caches that forget the least recently used key

A cache lists its entries by their last use, and drops the first ones when it holds too many. Whatever is
done with other keys, an entry stays as long as fewer of them were used since its own last use than the cache
has places for (`get?_of_recent`), and what is found under a key is what was put there last (`put_of_get?`).
-/

namespace RecentlyUsed

variable {κ ν : Type} [DecidableEq κ] {cap : Nat} {m : OrderedMap κ ν} {k k' : κ} {v v' : ν}

/-- The entry is the last one to be dropped. -/
def touch (m : OrderedMap κ ν) (k : κ) (v : ν) : OrderedMap κ ν := (m.erase k).set k v

def evict (cap : Nat) (m : OrderedMap κ ν) : OrderedMap κ ν := m.dropFirst (m.entries.length - cap)

def put (cap : Nat) (m : OrderedMap κ ν) (k : κ) (v : ν) : OrderedMap κ ν := evict cap (touch m k v)

/-- A key that is found has been used. -/
def hit (m : OrderedMap κ ν) (k : κ) : OrderedMap κ ν := (m.get? k).elim m (touch m k)

omit [DecidableEq κ] in
theorem length_evict_le (cap : Nat) (m : OrderedMap κ ν) : (evict cap m).entries.length ≤ cap := by
  show (m.entries.drop (m.entries.length - cap)).length ≤ cap
  rw [List.length_drop]
  omega

theorem length_touch_le (h : m.get? k = some v) : (touch m k v').entries.length ≤ m.entries.length := by
  unfold touch
  rw [OrderedMap.entries_erase_set, List.length_append, List.length_singleton]
  have hMem := OrderedMap.get?_eq_some_iff.mp h
  have hLess : (m.entries.filter fun e => e.1 ≠ k).length < m.entries.length :=
    List.length_filter_lt_length_iff_exists.mpr ⟨(k, v), hMem, by simp⟩
  omega

theorem get?_touch (m : OrderedMap κ ν) (k k' : κ) (v : ν) :
    (touch m k v).get? k' = if k' = k then some v else m.get? k' := by
  unfold touch
  rw [OrderedMap.get?_set, OrderedMap.get?_erase]
  split <;> rfl

/-! ## Operations -/

inductive Op (κ ν : Type) where
  | put (k : κ) (v : ν)
  | hit (k : κ)
  | forget (k : κ)

def Op.apply (cap : Nat) (m : OrderedMap κ ν) : Op κ ν → OrderedMap κ ν
  | .put k v => RecentlyUsed.put cap m k v
  | .hit k => RecentlyUsed.hit m k
  | .forget k => m.erase k

def run (cap : Nat) (ops : List (Op κ ν)) (m : OrderedMap κ ν) : OrderedMap κ ν := ops.foldl (Op.apply cap) m

/-- The key that an operation uses. -/
def Op.used : Op κ ν → Option κ
  | .put k _ => some k
  | .hit k => some k
  | .forget _ => none

/-- The operation leaves the value of the key alone. -/
def Op.Keeps (k : κ) : Op κ ν → Prop
  | .put k' _ => k' ≠ k
  | .hit _ => True
  | .forget k' => k' ≠ k

/-- The value that was put last under a key and was not forgotten. -/
def lastPut (k : κ) (ops : List (Op κ ν)) (o : Option ν) : Option ν :=
  ops.foldl (fun o op => match op with
    | .put k' v => if k' = k then some v else o
    | .hit _ => o
    | .forget k' => if k' = k then none else o) o

/-- What is found is what was put last. -/
theorem put_of_get? {o : Option ν} (h : ∀ v, m.get? k = some v → o = some v) (ops : List (Op κ ν))
    (hGet : (run cap ops m).get? k = some v) : lastPut k ops o = some v := by
  induction ops generalizing m o with
  | nil => exact h v hGet
  | cons op rest ih =>
    refine @ih (op.apply cap m) _ (fun v hv => ?_) hGet
    cases op with
    | put k' v' =>
      have hTouched := OrderedMap.get?_of_get?_dropFirst hv
      rw [get?_touch] at hTouched
      by_cases hSame : k = k'
      · subst hSame
        rw [if_pos rfl] at hTouched
        show (if k = k then some v' else o) = some v
        rw [if_pos rfl, hTouched]
      · rw [if_neg hSame] at hTouched
        show (if k' = k then some v' else o) = some v
        rw [if_neg (Ne.symm hSame)]
        exact h v hTouched
    | hit k' =>
      change ((m.get? k').elim m (touch m k')).get? k = some v at hv
      show o = some v
      apply h v
      cases hFound : m.get? k' with
      | none =>
        rw [hFound] at hv
        exact hv
      | some v' =>
        rw [hFound, Option.elim_some, get?_touch] at hv
        by_cases hSame : k = k'
        · rw [if_pos hSame] at hv
          rw [hSame, hFound, hv]
        · rwa [if_neg hSame] at hv
    | forget k' =>
      change (m.erase k').get? k = some v at hv
      rw [OrderedMap.get?_erase] at hv
      show (if k' = k then none else o) = some v
      by_cases hSame : k = k'
      · rw [if_pos hSame] at hv
        cases hv
      · rw [if_neg hSame] at hv
        rw [if_neg (Ne.symm hSame)]
        exact h v hv

/-! ## What stays -/

/-- The entry is in the cache, and only keys of the set were used after it. -/
def Stays (m : OrderedMap κ ν) (k : κ) (v : ν) (others : Finset κ) : Prop :=
  ∃ front back, m.entries = front ++ (k, v) :: back ∧ ∀ e ∈ back, e.1 ∈ others

theorem Stays.get? {others : Finset κ} (h : Stays m k v others) : m.get? k = some v := by
  obtain ⟨front, back, hEntries, -⟩ := h
  rw [OrderedMap.get?_eq_some_iff, hEntries]
  exact List.mem_append_right front List.mem_cons_self

/-- An entry that was used just now stays behind all others. -/
theorem stays_touch (m : OrderedMap κ ν) (k : κ) (v : ν) : Stays (touch m k v) k v ∅ :=
  ⟨_, [], OrderedMap.entries_erase_set m k v, fun _ h => absurd h List.not_mem_nil⟩

theorem Stays.erase {others : Finset κ} (h : Stays m k v others) (hOther : k' ≠ k) :
    Stays (m.erase k') k v others := by
  obtain ⟨front, back, hEntries, hBack⟩ := h
  refine ⟨front.filter fun e => e.1 ≠ k', back.filter fun e => e.1 ≠ k', ?_,
    fun e he => hBack e (List.mem_of_mem_filter he)⟩
  show m.entries.filter (fun e => e.1 ≠ k') = _
  rw [hEntries, List.filter_append, List.filter_cons, if_pos (by simpa using Ne.symm hOther)]

theorem Stays.touch {others : Finset κ} (h : Stays m k v others) (hOther : k' ≠ k) (v' : ν) :
    Stays (touch m k' v') k v (insert k' others) := by
  obtain ⟨front, back, hEntries, hBack⟩ := h.erase hOther
  refine ⟨front, back ++ [(k', v')], ?_, fun e he => ?_⟩
  · unfold RecentlyUsed.touch
    rw [OrderedMap.entries_erase_set]
    change (m.erase k').entries ++ [(k', v')] = _
    rw [hEntries, List.append_assoc, List.cons_append]
  · rcases List.mem_append.mp he with hIn | hIn
    · exact Finset.mem_insert_of_mem (hBack e hIn)
    · rw [List.mem_singleton.mp hIn]
      exact Finset.mem_insert_self k' others

omit [DecidableEq κ] in
theorem Stays.mono {others others' : Finset κ} (h : Stays m k v others) (hSub : others ⊆ others') :
    Stays m k v others' := by
  obtain ⟨front, back, hEntries, hBack⟩ := h
  exact ⟨front, back, hEntries, fun e he => hSub (hBack e he)⟩

/-- Where fewer keys were used later than there are places, the entry is not dropped. -/
theorem Stays.evict {others : Finset κ} (h : Stays m k v others) (hFew : others.card < cap) :
    Stays (evict cap m) k v others := by
  obtain ⟨front, back, hEntries, hBack⟩ := h
  have hNodup : (back.map Prod.fst).Nodup := by
    have hAll := m.nodup
    rw [hEntries, List.map_append, List.map_cons] at hAll
    exact (List.nodup_cons.mp (List.nodup_append.mp hAll).2.1).2
  have hLength : back.length ≤ others.card := by
    have hSub : (back.map Prod.fst).toFinset ⊆ others := by
      intro k' hk'
      obtain ⟨e, he, rfl⟩ := List.mem_map.mp (List.mem_toFinset.mp hk')
      exact hBack e he
    have hCard := Finset.card_le_card hSub
    rwa [List.toFinset_card_of_nodup hNodup, List.length_map] at hCard
  have hAll : m.entries.length = front.length + (back.length + 1) := by
    rw [hEntries, List.length_append, List.length_cons]
  have hFront : m.entries.length - cap ≤ front.length := by omega
  refine ⟨front.drop (m.entries.length - cap), back, ?_, hBack⟩
  rw [← List.drop_append_of_le_length hFront, ← hEntries]
  rfl

/-- The keys that operations use. -/
def usedKeys (ops : List (Op κ ν)) : Finset κ := (ops.filterMap Op.used).toFinset

/-- An entry that was used just now is found as long as fewer other keys are used than there are places. -/
theorem get?_of_recent (h : Stays m k v ∅) (ops : List (Op κ ν)) (hKeeps : ∀ op ∈ ops, op.Keeps k)
    (hFew : ((usedKeys ops).erase k).card < cap) : (run cap ops m).get? k = some v := by
  have hRun : ∀ (later : List (Op κ ν)) (m : OrderedMap κ ν), Stays m k v ((usedKeys ops).erase k) →
      (∀ op ∈ later, op.Keeps k ∧ op ∈ ops) → Stays (run cap later m) k v ((usedKeys ops).erase k) := by
    intro later
    induction later with
    | nil => exact fun m hm _ => hm
    | cons op rest ih =>
      intro m hm hLater
      obtain ⟨⟨hKeep, hIn⟩, hRest⟩ := List.forall_mem_cons.mp hLater
      refine ih _ ?_ hRest
      have hUsed : ∀ k', op.used = some k' → k' ≠ k →
          insert k' ((usedKeys ops).erase k) = (usedKeys ops).erase k := by
        intro k' hOp hOther
        apply Finset.insert_eq_of_mem
        rw [Finset.mem_erase]
        exact ⟨hOther, List.mem_toFinset.mpr (List.mem_filterMap.mpr ⟨op, hIn, hOp⟩)⟩
      cases op with
      | put k' v' =>
        have hTouched := hm.touch hKeep v'
        rw [hUsed k' rfl hKeep] at hTouched
        exact hTouched.evict hFew
      | hit k' =>
        show Stays ((m.get? k').elim m (RecentlyUsed.touch m k')) k v _
        by_cases hSame : k' = k
        · subst hSame
          rw [hm.get?]
          exact (stays_touch m k' v).mono (Finset.empty_subset _)
        · cases hFound : m.get? k' with
          | none => exact hm
          | some v' =>
            have hTouched := hm.touch hSame v'
            rw [hUsed k' rfl hSame] at hTouched
            exact hTouched
      | forget k' => exact hm.erase hKeep
  exact (hRun ops m (h.mono (Finset.empty_subset _)) fun op hop => ⟨hKeeps op hop, hop⟩).get?

end RecentlyUsed
