import Mathlib.Data.List.Nodup
import Mathlib.Data.List.Dedup
import Mathlib.Logic.Relation
import Mathlib.Data.Finset.Card

/-!
# Breadth-first search

A search with a queue and a list of the nodes seen, over a successor function. With enough fuel
for a list of nodes that holds all successors, it returns the nodes that are reachable from its
start, each once (`mem_search`).

A second search marks a node when it leaves the queue, and does not pass the nodes that it
looks for. Over the successors of a list of arrows it ends, since every arrow enters the queue
once, and it finds what is reachable through other nodes (`stopSearch_found`).
-/

namespace Search

variable {α : Type} [DecidableEq α]

/-- The nodes that have not been seen, each once, in the order of their first occurrence. -/
def fresh (seen : List α) : List α → List α
  | [] => []
  | x :: xs => if x ∈ seen then fresh seen xs else x :: fresh (x :: seen) xs

theorem mem_fresh {seen xs : List α} {x : α} : x ∈ fresh seen xs ↔ x ∈ xs ∧ x ∉ seen := by
  induction xs generalizing seen with
  | nil => simp [fresh]
  | cons y ys ih =>
    unfold fresh
    split
    · next hSeen =>
      rw [ih, List.mem_cons]
      constructor
      · exact fun h => ⟨Or.inr h.1, h.2⟩
      · rintro ⟨rfl | h, hNot⟩
        · exact absurd hSeen hNot
        · exact ⟨h, hNot⟩
    · next hNew =>
      rw [List.mem_cons, ih, List.mem_cons, List.mem_cons, not_or]
      by_cases hx : x = y
      · simp [hx, hNew]
      · simp [hx]

theorem nodup_fresh (seen xs : List α) : (fresh seen xs).Nodup := by
  induction xs generalizing seen with
  | nil => exact List.nodup_nil
  | cons y ys ih =>
    unfold fresh
    split
    · exact ih seen
    · exact List.nodup_cons.mpr ⟨fun h => (mem_fresh.mp h).2 List.mem_cons_self, ih (y :: seen)⟩

variable (next : α → List α)

/-- The search from a queue; `seen` holds the nodes of the queue and the nodes before them. -/
def search : Nat → List α → List α → List α
  | 0, _, seen => seen
  | _ + 1, [], seen => seen
  | fuel + 1, x :: queue, seen =>
    search fuel (queue ++ fresh seen (next x)) (seen ++ fresh seen (next x))

def Step (a b : α) : Prop := b ∈ next a

variable {next}

/-- Everything that the search returns is reachable from what it starts with. -/
theorem search_sound {fuel : Nat} {queue seen : List α} {start : α} (hQueue : queue ⊆ seen)
    (hSeen : ∀ x ∈ seen, Relation.ReflTransGen (Step next) start x) :
    ∀ x ∈ search next fuel queue seen, Relation.ReflTransGen (Step next) start x := by
  induction fuel generalizing queue seen with
  | zero => exact hSeen
  | succ fuel ih =>
    cases queue with
    | nil => exact hSeen
    | cons y queue =>
      have hy : y ∈ seen := hQueue List.mem_cons_self
      refine ih (fun x hx => ?_) fun x hx => ?_
      · rcases List.mem_append.mp hx with hx | hx
        · exact List.mem_append_left _ (hQueue (List.mem_cons_of_mem _ hx))
        · exact List.mem_append_right _ hx
      · rcases List.mem_append.mp hx with hx | hx
        · exact hSeen x hx
        · exact (hSeen y hy).tail (mem_fresh.mp hx).1

/-- The nodes outside the queue have all their successors among the seen. -/
def Closed (next : α → List α) (queue seen : List α) : Prop :=
  ∀ x ∈ seen, x ∉ queue → ∀ y ∈ next x, y ∈ seen

/-- With enough fuel the search ends with all successors of what it has seen. -/
theorem search_closed {all : List α} (hAll : ∀ x, next x ⊆ all) {fuel : Nat} {queue seen : List α}
    (hClosed : Closed next queue seen)
    (hFuel : (all.toFinset \ seen.toFinset).card + queue.length ≤ fuel) :
    seen ⊆ search next fuel queue seen ∧ Closed next [] (search next fuel queue seen) := by
  induction fuel generalizing queue seen with
  | zero =>
    have hNil : queue = [] := List.eq_nil_of_length_eq_zero (by omega)
    subst hNil
    exact ⟨List.Subset.refl _, hClosed⟩
  | succ fuel ih =>
    cases queue with
    | nil => exact ⟨List.Subset.refl _, hClosed⟩
    | cons x queue =>
      have hStill : Closed next (queue ++ fresh seen (next x)) (seen ++ fresh seen (next x)) := by
        intro y hy hNot z hz
        have hNotFresh : y ∉ fresh seen (next x) := fun h => hNot (List.mem_append_right _ h)
        have hSeen : y ∈ seen := (List.mem_append.mp hy).resolve_right hNotFresh
        by_cases hx : y = x
        · subst hx
          by_cases hz' : z ∈ seen
          · exact List.mem_append_left _ hz'
          · exact List.mem_append_right _ (mem_fresh.mpr ⟨hz, hz'⟩)
        · have hOut : y ∉ x :: queue := by
            rw [List.mem_cons, not_or]
            exact ⟨hx, fun h => hNot (List.mem_append_left _ h)⟩
          exact List.mem_append_left _ (hClosed y hSeen hOut z hz)
      -- each new node leaves the nodes that were not seen and enters the queue
      have hCard : (all.toFinset \ (seen ++ fresh seen (next x)).toFinset).card +
          (fresh seen (next x)).length = (all.toFinset \ seen.toFinset).card := by
        have hSub : (fresh seen (next x)).toFinset ⊆ all.toFinset \ seen.toFinset := by
          intro y hy
          obtain ⟨hNext, hNot⟩ := mem_fresh.mp (List.mem_toFinset.mp hy)
          rw [Finset.mem_sdiff, List.mem_toFinset, List.mem_toFinset]
          exact ⟨hAll x hNext, hNot⟩
        rw [List.toFinset_append, ← Finset.sup_eq_union, ← sdiff_sdiff_left, ← List.toFinset_card_of_nodup
          (nodup_fresh seen (next x)), Finset.card_sdiff_add_card_eq_card hSub]
      have hLess : (all.toFinset \ (seen ++ fresh seen (next x)).toFinset).card +
          (queue ++ fresh seen (next x)).length ≤ fuel := by
        rw [List.length_append]
        rw [List.length_cons] at hFuel
        omega
      obtain ⟨hSub, hEnd⟩ := ih hStill hLess
      exact ⟨fun y hy => hSub (List.mem_append_left _ hy), hEnd⟩

/-- The search from one node returns what is reachable from it. -/
theorem mem_search {all : List α} (hAll : ∀ x, next x ⊆ all) {fuel : Nat} (start : α)
    (hFuel : all.length + 1 ≤ fuel) {x : α} :
    x ∈ search next fuel [start] [start] ↔ Relation.ReflTransGen (Step next) start x := by
  constructor
  · refine search_sound (List.Subset.refl _) (fun y hy => ?_) x
    rw [List.mem_singleton.mp hy]
  · intro hReach
    have hClosed : Closed next [start] [start] := fun y hy hNot => absurd hy hNot
    have hCard : (all.toFinset \ [start].toFinset).card ≤ all.length :=
      (Finset.card_le_card Finset.sdiff_subset).trans (List.toFinset_card_le all)
    have hEnough : (all.toFinset \ [start].toFinset).card + [start].length ≤ fuel := by
      rw [List.length_singleton]
      omega
    obtain ⟨hSub, hEnd⟩ := search_closed hAll hClosed hEnough
    induction hReach with
    | refl => exact hSub List.mem_cons_self
    | tail _ hStep ih => exact hEnd _ ih List.not_mem_nil _ hStep

/-! ## A search that stops at what it finds -/

/-- The arrows are pairs of a node and a successor. -/
def targetsOf (arrows : List (α × α)) (x : α) : List α :=
  (arrows.filter (·.1 = x)).map Prod.snd

/-- The search from a queue; `seen` holds the nodes that left it. -/
def stopSearch (arrows : List (α × α)) (stop : α → Bool) :
    Nat → List α → List α → List α → Option (List α)
  | _, [], _, found => some found
  | 0, _ :: _, _, _ => none
  | fuel + 1, x :: queue, seen, found =>
    if x ∈ seen then stopSearch arrows stop fuel queue seen found
    else if stop x then stopSearch arrows stop fuel queue (x :: seen) (found ++ [x])
    else
      stopSearch arrows stop fuel (queue ++ (targetsOf arrows x).filter (· ∉ x :: seen)) (x :: seen)
        found

variable {arrows : List (α × α)} {stop : α → Bool} {start : α}

/-- A step from a node at which the search does not stop. -/
def StopStep (arrows : List (α × α)) (stop : α → Bool) (a b : α) : Prop :=
  stop a = false ∧ (a, b) ∈ arrows

theorem mem_targetsOf {x y : α} : y ∈ targetsOf arrows x ↔ (x, y) ∈ arrows := by
  unfold targetsOf
  rw [List.mem_map]
  constructor
  · rintro ⟨⟨a, b⟩, hMem, rfl⟩
    obtain ⟨hArrow, ha⟩ := List.mem_filter.mp hMem
    rwa [← of_decide_eq_true ha]
  · exact fun h => ⟨(x, y), List.mem_filter.mpr ⟨h, decide_eq_true rfl⟩, rfl⟩

/-- What holds of the queue, the nodes seen and the nodes found. -/
structure StopInv (arrows : List (α × α)) (stop : α → Bool) (start : α)
    (queue seen found : List α) : Prop where
  started : start ∈ seen ∨ start ∈ queue
  reach : ∀ x ∈ seen ++ queue, Relation.ReflTransGen (StopStep arrows stop) start x
  closed : ∀ x ∈ seen, stop x = false → ∀ y, (x, y) ∈ arrows → y ∈ seen ∨ y ∈ queue
  stops : ∀ x, x ∈ found ↔ x ∈ seen ∧ stop x = true
  nodup : found.Nodup

omit [DecidableEq α] in
theorem StopInv.skipped {x : α} {queue seen found : List α}
    (h : StopInv arrows stop start (x :: queue) seen found) (hx : x ∈ seen) :
    StopInv arrows stop start queue seen found where
  started := h.started.elim Or.inl fun hs => (List.mem_cons.mp hs).elim (fun he => Or.inl (he ▸ hx)) Or.inr
  reach y hy := h.reach y (by
    rcases List.mem_append.mp hy with hy | hy
    · exact List.mem_append_left _ hy
    · exact List.mem_append_right _ (List.mem_cons_of_mem _ hy))
  closed y hy hStop z hz := (h.closed y hy hStop z hz).elim Or.inl fun hq =>
    (List.mem_cons.mp hq).elim (fun he => Or.inl (he ▸ hx)) Or.inr
  stops := h.stops
  nodup := h.nodup

omit [DecidableEq α] in
theorem StopInv.stopped {x : α} {queue seen found : List α}
    (h : StopInv arrows stop start (x :: queue) seen found) (hx : x ∉ seen) (hStop : stop x = true) :
    StopInv arrows stop start queue (x :: seen) (found ++ [x]) where
  started := h.started.elim (fun hs => Or.inl (List.mem_cons_of_mem _ hs)) fun hs =>
    (List.mem_cons.mp hs).elim (fun he => Or.inl (he ▸ List.mem_cons_self)) Or.inr
  reach y hy := h.reach y (by
    rcases List.mem_append.mp hy with hy | hy
    · rcases List.mem_cons.mp hy with rfl | hy
      · exact List.mem_append_right _ List.mem_cons_self
      · exact List.mem_append_left _ hy
    · exact List.mem_append_right _ (List.mem_cons_of_mem _ hy))
  closed y hy hNot z hz := by
    rcases List.mem_cons.mp hy with rfl | hy
    · rw [hStop] at hNot
      cases hNot
    · rcases h.closed y hy hNot z hz with hSeen | hQueue
      · exact Or.inl (List.mem_cons_of_mem _ hSeen)
      · exact (List.mem_cons.mp hQueue).elim (fun he => Or.inl (he ▸ List.mem_cons_self)) Or.inr
  stops y := by
    rw [List.mem_append, List.mem_singleton, h.stops, List.mem_cons]
    constructor
    · rintro (⟨hy, hs⟩ | rfl)
      · exact ⟨Or.inr hy, hs⟩
      · exact ⟨Or.inl rfl, hStop⟩
    · rintro ⟨rfl | hy, hs⟩
      · exact Or.inr rfl
      · exact Or.inl ⟨hy, hs⟩
  nodup := List.nodup_append.mpr ⟨h.nodup, List.nodup_singleton x, by
    rintro y hy _ hz rfl
    rw [List.mem_singleton.mp hz] at hy
    exact hx ((h.stops _).mp hy).1⟩

theorem StopInv.expanded {x : α} {queue seen found : List α}
    (h : StopInv arrows stop start (x :: queue) seen found) (hStop : stop x = false) :
    StopInv arrows stop start (queue ++ (targetsOf arrows x).filter (· ∉ x :: seen)) (x :: seen)
      found where
  started := h.started.elim (fun hs => Or.inl (List.mem_cons_of_mem _ hs)) fun hs =>
    (List.mem_cons.mp hs).elim (fun he => Or.inl (he ▸ List.mem_cons_self))
      fun hq => Or.inr (List.mem_append_left _ hq)
  reach y hy := by
    have hx := h.reach x (List.mem_append_right _ List.mem_cons_self)
    rcases List.mem_append.mp hy with hy | hy
    · rcases List.mem_cons.mp hy with rfl | hy
      · exact hx
      · exact h.reach y (List.mem_append_left _ hy)
    · rcases List.mem_append.mp hy with hy | hy
      · exact h.reach y (List.mem_append_right _ (List.mem_cons_of_mem _ hy))
      · exact hx.tail ⟨hStop, mem_targetsOf.mp (List.mem_of_mem_filter hy)⟩
  closed y hy hNot z hz := by
    by_cases hMem : z ∈ x :: seen
    · exact Or.inl hMem
    · rcases List.mem_cons.mp hy with rfl | hy
      · exact Or.inr (List.mem_append_right _
          (List.mem_filter.mpr ⟨mem_targetsOf.mpr hz, decide_eq_true hMem⟩))
      · rcases h.closed y hy hNot z hz with hSeen | hQueue
        · exact Or.inl (List.mem_cons_of_mem _ hSeen)
        · rcases List.mem_cons.mp hQueue with rfl | hQueue
          · exact absurd List.mem_cons_self hMem
          · exact Or.inr (List.mem_append_left _ hQueue)
  stops y := by
    rw [h.stops, List.mem_cons]
    constructor
    · exact fun hy => ⟨Or.inr hy.1, hy.2⟩
    · rintro ⟨rfl | hy, hs⟩
      · rw [hStop] at hs
        cases hs
      · exact ⟨hy, hs⟩
  nodup := h.nodup

/-- The arrows from nodes that have not been seen. -/
def arrowsLeft (arrows : List (α × α)) (seen : List α) : List (α × α) :=
  arrows.filter (·.1 ∉ seen)

theorem length_arrowsLeft_cons (arrows : List (α × α)) {x : α} {seen : List α} (hx : x ∉ seen) :
    (arrowsLeft arrows (x :: seen)).length + (targetsOf arrows x).length =
      (arrowsLeft arrows seen).length := by
  unfold arrowsLeft targetsOf
  rw [List.length_map]
  induction arrows with
  | nil => rfl
  | cons e arrows ih =>
    simp only [List.filter_cons, List.mem_cons, not_or]
    by_cases he : e.1 = x
    · simp only [he, hx, not_true_eq_false, false_and, not_false_eq_true, decide_true,
        decide_false, if_true, Bool.false_eq_true, if_false, List.length_cons]
      simp only [List.mem_cons, not_or] at ih
      omega
    · by_cases hs : e.1 ∈ seen
      · simpa [he, hs] using ih
      · simp only [he, hs, not_false_eq_true, and_self, decide_true, decide_false, if_true,
          Bool.false_eq_true, if_false, List.length_cons]
        simp only [List.mem_cons, not_or] at ih
        omega

/-- With an empty queue all that the start reaches has been seen. -/
theorem stopSearch_end {fuel : Nat} {seen found : List α}
    (h : StopInv arrows stop start [] seen found) :
    ∃ result, stopSearch arrows stop fuel [] seen found = some result ∧ result.Nodup ∧
      ∀ x, x ∈ result ↔
        stop x = true ∧ Relation.ReflTransGen (StopStep arrows stop) start x := by
  refine ⟨found, by unfold stopSearch; rfl, h.nodup, fun x => ?_⟩
  rw [h.stops]
  constructor
  · rintro ⟨hx, hStop⟩
    exact ⟨hStop, h.reach x (List.mem_append_left _ hx)⟩
  · rintro ⟨hStop, hReach⟩
    refine ⟨?_, hStop⟩
    clear hStop
    induction hReach with
    | refl => exact h.started.resolve_right List.not_mem_nil
    | tail _ hStep ih =>
      exact (h.closed _ ih hStep.1 _ hStep.2).resolve_right List.not_mem_nil

/-- With fuel for the queue and for the arrows left, the search ends, and what it has found is all
that its start reaches. -/
theorem stopSearch_of_inv {fuel : Nat} {queue seen found : List α}
    (h : StopInv arrows stop start queue seen found)
    (hFuel : queue.length + (arrowsLeft arrows seen).length ≤ fuel) :
    ∃ result, stopSearch arrows stop fuel queue seen found = some result ∧ result.Nodup ∧
      ∀ x, x ∈ result ↔
        stop x = true ∧ Relation.ReflTransGen (StopStep arrows stop) start x := by
  induction fuel generalizing queue seen found with
  | zero =>
    obtain rfl : queue = [] := List.eq_nil_of_length_eq_zero (by omega)
    exact stopSearch_end h
  | succ fuel ih =>
    cases queue with
    | nil => exact stopSearch_end h
    | cons x queue =>
      rw [List.length_cons] at hFuel
      unfold stopSearch
      by_cases hx : x ∈ seen
      · rw [if_pos hx]
        exact ih (h.skipped hx) (by omega)
      · have hLeft := length_arrowsLeft_cons arrows hx
        rw [if_neg hx]
        by_cases hStop : stop x = true
        · rw [if_pos hStop]
          exact ih (h.stopped hx hStop) (by omega)
        · rw [if_neg hStop]
          have hPushed : ((targetsOf arrows x).filter (· ∉ x :: seen)).length ≤
              (targetsOf arrows x).length := List.length_filter_le _ _
          exact ih (h.expanded (Bool.eq_false_iff.mpr hStop)) (by rw [List.length_append]; omega)

/-- A search from one node finds the stops that it reaches through other nodes. -/
theorem stopSearch_found (arrows : List (α × α)) (stop : α → Bool) (start : α) {fuel : Nat}
    (hFuel : arrows.length + 1 ≤ fuel) :
    ∃ result, stopSearch arrows stop fuel [start] [] [] = some result ∧ result.Nodup ∧
      ∀ x, x ∈ result ↔
        stop x = true ∧ Relation.ReflTransGen (StopStep arrows stop) start x := by
  have hInv : StopInv arrows stop start [start] [] [] :=
    { started := Or.inr List.mem_cons_self
      reach := fun x hx => by rw [List.mem_singleton.mp hx]
      closed := fun _ hx => absurd hx List.not_mem_nil
      stops := fun _ => by simp
      nodup := List.nodup_nil }
  have hLeft : (arrowsLeft arrows []).length ≤ arrows.length := List.length_filter_le _ _
  exact stopSearch_of_inv hInv (by rw [List.length_singleton]; omega)

end Search
