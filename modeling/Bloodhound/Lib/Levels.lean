import Bloodhound.Lib.Search

/-!
# Depths of a breadth-first search

A search from several nodes that gives each node a depth. A node leaves the queue with the depth of the node that
pushed it plus one, and keeps the depth that it gets first. The search ends, since the arrows of a node are pushed
once, and it gives a depth to exactly what it reaches from its starts (`mem_levels`).
-/

namespace Search

variable {α : Type} [DecidableEq α]

def seenOf (hops : List (α × Nat)) : List α := hops.map Prod.fst

/-- What a node of a depth pushes. -/
def pushed (arrows : List (α × α)) (hops : List (α × Nat)) (x : α) (hop : Nat) : List (α × Nat) :=
  ((targetsOf arrows x).filter (· ∉ x :: seenOf hops)).map fun y => (y, hop + 1)

/-- The search from a queue; `hops` has the nodes that left the queue with their depths. -/
def levels (arrows : List (α × α)) (queue hops : List (α × Nat)) : List (α × Nat) :=
  match queue with
  | [] => hops
  | (x, hop) :: queue =>
    if x ∈ seenOf hops then levels arrows queue hops
    else levels arrows (queue ++ pushed arrows hops x hop) ((x, hop) :: hops)
termination_by queue.length + (arrowsLeft arrows (seenOf hops)).length
decreasing_by
  · rw [List.length_cons]
    omega
  · next hNew =>
    have hLeft : (arrowsLeft arrows (seenOf ((x, hop) :: hops))).length + (targetsOf arrows x).length =
      (arrowsLeft arrows (seenOf hops)).length := length_arrowsLeft_cons arrows hNew
    have hPushed : (pushed arrows hops x hop).length ≤ (targetsOf arrows x).length := by
      rw [pushed, List.length_map]
      exact List.length_filter_le _ _
    rw [List.length_append, List.length_cons]
    omega

variable {arrows : List (α × α)} {starts : List α}

/-- Some start reaches the node. -/
def ReachedFrom (arrows : List (α × α)) (starts : List α) (x : α) : Prop :=
  ∃ start ∈ starts, Relation.ReflTransGen (fun a b => (a, b) ∈ arrows) start x

/-- What holds of the queue and of the nodes with a depth. -/
structure LevelsInv (arrows : List (α × α)) (starts queue seen : List α) : Prop where
  started : ∀ x ∈ starts, x ∈ seen ∨ x ∈ queue
  reach : ∀ x ∈ seen ++ queue, ReachedFrom arrows starts x
  closed : ∀ x ∈ seen, ∀ y, (x, y) ∈ arrows → y ∈ seen ∨ y ∈ queue

omit [DecidableEq α] in
theorem LevelsInv.skipped {x : α} {queue seen : List α} (h : LevelsInv arrows starts (x :: queue) seen)
    (hx : x ∈ seen) : LevelsInv arrows starts queue seen where
  started y hy := (h.started y hy).elim Or.inl fun hq =>
    (List.mem_cons.mp hq).elim (fun he => Or.inl (he ▸ hx)) Or.inr
  reach y hy := h.reach y (by
    rcases List.mem_append.mp hy with hy | hy
    · exact List.mem_append_left _ hy
    · exact List.mem_append_right _ (List.mem_cons_of_mem _ hy))
  closed y hy z hz := (h.closed y hy z hz).elim Or.inl fun hq =>
    (List.mem_cons.mp hq).elim (fun he => Or.inl (he ▸ hx)) Or.inr

theorem LevelsInv.expanded {x : α} {queue seen : List α} (h : LevelsInv arrows starts (x :: queue) seen) :
    LevelsInv arrows starts (queue ++ (targetsOf arrows x).filter (· ∉ x :: seen)) (x :: seen) where
  started y hy := (h.started y hy).elim (fun hs => Or.inl (List.mem_cons_of_mem _ hs)) fun hq =>
    (List.mem_cons.mp hq).elim (fun he => Or.inl (he ▸ List.mem_cons_self))
      fun hq => Or.inr (List.mem_append_left _ hq)
  reach y hy := by
    have hx := h.reach x (List.mem_append_right _ List.mem_cons_self)
    rcases List.mem_append.mp hy with hy | hy
    · rcases List.mem_cons.mp hy with rfl | hy
      · exact hx
      · exact h.reach y (List.mem_append_left _ hy)
    · rcases List.mem_append.mp hy with hy | hy
      · exact h.reach y (List.mem_append_right _ (List.mem_cons_of_mem _ hy))
      · obtain ⟨start, hStart, hPath⟩ := hx
        exact ⟨start, hStart, hPath.tail (mem_targetsOf.mp (List.mem_of_mem_filter hy))⟩
  closed y hy z hz := by
    by_cases hMem : z ∈ x :: seen
    · exact Or.inl hMem
    · rcases List.mem_cons.mp hy with rfl | hy
      · exact Or.inr (List.mem_append_right _
          (List.mem_filter.mpr ⟨mem_targetsOf.mpr hz, decide_eq_true hMem⟩))
      · rcases h.closed y hy z hz with hSeen | hQueue
        · exact Or.inl (List.mem_cons_of_mem _ hSeen)
        · rcases List.mem_cons.mp hQueue with rfl | hQueue
          · exact absurd List.mem_cons_self hMem
          · exact Or.inr (List.mem_append_left _ hQueue)

/-- The search gives a depth to what its starts reach. -/
theorem mem_levels_of_inv {queue hops : List (α × Nat)}
    (h : LevelsInv arrows starts (queue.map Prod.fst) (seenOf hops)) (x : α) :
    x ∈ seenOf (levels arrows queue hops) ↔ ReachedFrom arrows starts x := by
  induction queue, hops using levels.induct arrows with
  | case1 hops =>
    rw [levels]
    constructor
    · exact fun hx => h.reach x (List.mem_append_left _ hx)
    · rintro ⟨start, hStart, hPath⟩
      induction hPath with
      | refl => exact (h.started start hStart).resolve_right List.not_mem_nil
      | tail _ hStep ih => exact (h.closed _ ih _ hStep).resolve_right List.not_mem_nil
  | case2 hops y hop queue hSeen ih =>
    rw [levels, if_pos hSeen]
    exact ih (h.skipped hSeen)
  | case3 hops y hop queue hNew ih =>
    rw [levels, if_neg hNew]
    refine ih ?_
    have hNext : (pushed arrows hops y hop).map Prod.fst = (targetsOf arrows y).filter (· ∉ y :: seenOf hops) :=
      (List.map_map).trans (List.map_id _)
    rw [List.map_append, hNext]
    exact h.expanded

/-- The search gives a depth to exactly what its starts reach. -/
theorem mem_levels (arrows : List (α × α)) (starts : List (α × Nat)) (x : α) :
    x ∈ seenOf (levels arrows starts []) ↔ ReachedFrom arrows (starts.map Prod.fst) x :=
  mem_levels_of_inv
    { started := fun _ hy => Or.inr hy
      reach := fun y hy => ⟨y, by simpa [seenOf] using hy, .refl⟩
      closed := fun _ hy => absurd hy List.not_mem_nil } x

end Search
