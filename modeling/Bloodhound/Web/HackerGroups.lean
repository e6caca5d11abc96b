import Mathlib.Data.List.Nodup
import Bloodhound.Lib.Buckets

/-!
# The hacker menu

`hackerGroups.ts` of the web client: the menu of hackers starts with those of the recent activity, has then a
section for each known hack with a group for each source, and ends with the addresses of the source `x`. The
keyboard walks the menu in this order.

* `flattenHackersForNav_perm`: what the menu lists, group by group.
* `each_once_iff`: when it lists each hacker once. The section of a hack that is not in the table of hacks is not
  shown, and an address that is twice in the recent activity is shown twice.
-/

namespace Bloodhound.Web.HackerGroups

/-- `Hacker`, as far as the groups read it; `source` is compared against `undefined` as well. -/
structure Hacker where
  address : String
  source : Option String
  hackId : Option String := none
  totalReceivedSats : Int
  deriving DecidableEq

structure RecentHackerEntry where
  address : String
  «at» : String

structure HackerGroup where
  source : String
  label : String
  totalReceivedSats : Int
  items : List Hacker

structure HackerDropdownGroup where
  source : String
  label : String
  items : List Hacker

structure HackerDropdownHackSection where
  hackId : String
  label : String
  sourceGroups : List HackerDropdownGroup

structure HackerDropdownSections where
  recent : Option HackerDropdownGroup
  hackSections : List HackerDropdownHackSection
  xGroup : Option HackerDropdownGroup

structure Hack where
  id : String
  label : String

def HACK_ORDER : List Hack :=
  [⟨"coldcard", "Coldcard"⟩, ⟨"liquid", "Liquid"⟩, ⟨"ledger", "Ledger"⟩, ⟨"binance", "Binance"⟩]

def X_SOURCE : String := "x"

def SOURCE_LABELS : List (String × String) :=
  [("coldcardwatch", "coldcardwatch.com"), ("coldcard_sweep_watch", "Coldcard Sweep Watch"),
    ("coldcard_hack_tracker", "Coldcard Hack Tracker"), ("bitquery_coldcard", "Bitquery Coldcard Hack"),
    ("public_seed", "Public seed list"), ("local_config", "Local config"), ("admin", "Manual"), ("ops", "Ops CLI"),
    ("x", "X")]

def RECENT_GROUP_SOURCE : String := "__recent__"

/-- The label of a source, if the table has one. `SOURCE_LABELS[source]` of the code also finds the members of
`Object.prototype`, and for a source of such a name (`constructor`, `toString`, …) returns a function in place of
a text. These names are left out: no part of the program writes them as a source. -/
def formatSourceLabel (source : String) : String := (SOURCE_LABELS.lookup source).getD source

/-! ## The groups -/

/-- The stable `sort` by a comparison function. -/
def sortBy {α : Type} (compare : α → α → Int) (l : List α) : List α := l.mergeSort fun a b => compare a b ≤ 0

section Groups

variable (localeCompare : String → String → Int)

def toGroup (source : String) (items : List Hacker) : HackerGroup :=
  let sorted := sortBy (fun a b => b.totalReceivedSats - a.totalReceivedSats) items
  { source := source
    label := formatSourceLabel source
    totalReceivedSats := sorted.foldl (fun sum h => sum + h.totalReceivedSats) 0
    items := sorted }

def compareGroups (a b : HackerGroup) : Int :=
  if b.totalReceivedSats ≠ a.totalReceivedSats then b.totalReceivedSats - a.totalReceivedSats
  else localeCompare a.label b.label

def sourceOf (h : Hacker) : String := h.source.getD "unknown"

/-- The groups of buckets, without the empty ones. -/
def toGroups (bySource : List (String × List Hacker)) : List HackerGroup :=
  bySource.filterMap fun b => if b.2 = [] then none else some (toGroup b.1 b.2)

def groupHackersBySource (hackers : List Hacker) : List HackerGroup :=
  sortBy (compareGroups localeCompare) (toGroups (Buckets.buckets sourceOf hackers))

def HackerGroup.toDropdown (group : HackerGroup) : HackerDropdownGroup := ⟨group.source, group.label, group.items⟩

/-- The hackers that a section of a hack can have. -/
def keptForHacks (excludeAddresses : List String) (hackers : List Hacker) : List Hacker :=
  hackers.filter fun h => h.address ∉ excludeAddresses ∧ h.source.getD "" ≠ X_SOURCE

def hackOf (h : Hacker) : String := h.hackId.getD "coldcard"

/-- The section of a hack, when it has a group. -/
def hackSection (byHack : List (String × List Hacker)) (hack : Hack) : Option HackerDropdownHackSection :=
  match Buckets.get byHack hack.id with
  | none => none
  | some items =>
    let sourceGroups := ((groupHackersBySource localeCompare items).filter (·.items ≠ [])).map (·.toDropdown)
    if items = [] ∨ sourceGroups = [] then none else some ⟨hack.id, hack.label, sourceGroups⟩

def groupHackersByHackAndSource (hackers : List Hacker) (excludeAddresses : List String) :
    List HackerDropdownHackSection :=
  let byHack := Buckets.buckets hackOf (keptForHacks excludeAddresses hackers)
  HACK_ORDER.filterMap (hackSection localeCompare byHack)

/-- The entries of the recent activity, the last activity first. -/
def recentSorted (recentHackers : List RecentHackerEntry) : List RecentHackerEntry :=
  sortBy (fun a b => localeCompare b.«at» a.«at») recentHackers

def recentItems (hackers : List Hacker) (recentHackers : List RecentHackerEntry) : List Hacker :=
  (recentSorted localeCompare recentHackers).filterMap fun entry => hackers.find? (·.address = entry.address)

def xItems (hackers : List Hacker) (recentAddresses : List String) : List Hacker :=
  hackers.filter fun h => h.source.getD "" = X_SOURCE ∧ h.address ∉ recentAddresses

def groupHackersForDropdown (hackers : List Hacker) (recentHackers : List RecentHackerEntry) :
    HackerDropdownSections :=
  let recentAddresses := (recentSorted localeCompare recentHackers).map (·.address)
  let items := recentItems localeCompare hackers recentHackers
  { recent := if items = [] then none else some ⟨RECENT_GROUP_SOURCE, "Last activity", items⟩
    hackSections := groupHackersByHackAndSource localeCompare hackers recentAddresses
    xGroup := (groupHackersBySource localeCompare (xItems hackers recentAddresses)).head?.map (·.toDropdown) }

end Groups

/-- The order of the keyboard. -/
def flattenHackersForNav (sections : HackerDropdownSections) : List Hacker :=
  (sections.recent.map (·.items)).getD [] ++
    sections.hackSections.flatMap (fun hack => hack.sourceGroups.flatMap (·.items)) ++
    (sections.xGroup.map (·.items)).getD []

/-! ## What the groups have -/

section Contents

variable {localeCompare : String → String → Int} {hackers : List Hacker} {recentHackers : List RecentHackerEntry}
  {excludeAddresses : List String}

theorem sortBy_perm {α : Type} (compare : α → α → Int) (l : List α) : (sortBy compare l).Perm l :=
  List.mergeSort_perm l _

theorem items_toGroup (source : String) (items : List Hacker) : (toGroup source items).items.Perm items :=
  sortBy_perm _ items

theorem items_toGroups (bySource : List (String × List Hacker)) :
    ((toGroups bySource).flatMap (·.items)).Perm (bySource.flatMap (·.2)) := by
  unfold toGroups
  induction bySource with
  | nil => exact List.Perm.refl _
  | cons b bySource ih =>
    rw [List.flatMap_cons]
    by_cases hItems : b.2 = []
    · rw [List.filterMap_cons_none (by simp [hItems]), hItems]
      exact ih
    · rw [List.filterMap_cons_some (b := toGroup b.1 b.2) (by simp [hItems]), List.flatMap_cons]
      exact (items_toGroup _ _).append ih

/-- The groups of the sources have all hackers. -/
theorem items_groupHackersBySource :
    ((groupHackersBySource localeCompare hackers).flatMap (·.items)).Perm hackers :=
  ((sortBy_perm _ _).flatMap_right _).trans ((items_toGroups _).trans (Buckets.flatMap_buckets_perm hackers))

/-- A group without items adds none. -/
theorem items_toDropdown (groups : List HackerGroup) :
    ((groups.filter (·.items ≠ [])).map (·.toDropdown)).flatMap (·.items) = groups.flatMap (·.items) := by
  induction groups with
  | nil => rfl
  | cons group groups ih =>
    by_cases hItems : group.items = []
    · rw [List.filter_cons_of_neg (by simp [hItems]), ih, List.flatMap_cons, hItems, List.nil_append]
    · rw [List.filter_cons_of_pos (by simp [hItems]), List.map_cons, List.flatMap_cons, ih]
      rfl

/-- The section of a hack has the hackers of the hack. -/
theorem items_hackSection (kept : List Hacker) (hack : Hack) :
    (((hackSection localeCompare (Buckets.buckets hackOf kept) hack).map
      fun s => s.sourceGroups.flatMap (·.items)).getD []).Perm (kept.filter (hackOf · = hack.id)) := by
  unfold hackSection
  rw [Buckets.get_buckets]
  by_cases hNone : kept.filter (hackOf · = hack.id) = []
  · rw [if_pos hNone, hNone]
    exact List.Perm.refl _
  · rw [if_neg hNone]
    have hAll := @items_groupHackersBySource localeCompare (kept.filter (hackOf · = hack.id))
    rw [← items_toDropdown] at hAll
    by_cases hGroups : ((groupHackersBySource localeCompare (kept.filter (hackOf · = hack.id))).filter
        (·.items ≠ [])).map (·.toDropdown) = []
    · rw [hGroups] at hAll
      exact absurd hAll.nil_eq.symm hNone
    · dsimp only
      rw [if_neg (by simp only [hNone, hGroups, or_self, not_false_eq_true])]
      exact hAll

theorem items_hackSections :
    ((groupHackersByHackAndSource localeCompare hackers excludeAddresses).flatMap fun hack =>
      hack.sourceGroups.flatMap (·.items)).Perm
      ((HACK_ORDER.map (·.id)).flatMap fun id =>
        (keptForHacks excludeAddresses hackers).filter (hackOf · = id)) := by
  unfold groupHackersByHackAndSource
  induction HACK_ORDER with
  | nil => exact List.Perm.refl _
  | cons hack order ih =>
    have hSection := @items_hackSection localeCompare (keptForHacks excludeAddresses hackers) hack
    rw [List.map_cons, List.flatMap_cons]
    cases hShown : hackSection localeCompare
        (Buckets.buckets hackOf (keptForHacks excludeAddresses hackers)) hack with
    | none =>
      rw [hShown] at hSection
      rw [List.filterMap_cons_none hShown, ← hSection.nil_eq]
      exact ih
    | some s =>
      rw [hShown] at hSection
      rw [List.filterMap_cons_some hShown, List.flatMap_cons]
      exact hSection.append ih

/-- Hackers of one source are in one group. -/
theorem groupHackersBySource_of_source {source : String} (hSource : ∀ h ∈ hackers, sourceOf h = source)
    (hSome : hackers ≠ []) : groupHackersBySource localeCompare hackers = [toGroup source hackers] := by
  have hOne : toGroups (Buckets.buckets sourceOf hackers) = [toGroup source hackers] := by
    rw [Buckets.buckets_of_key hSource hSome]
    unfold toGroups
    rw [List.filterMap_cons_some (b := toGroup source hackers) (by simp [hSome]), List.filterMap_nil]
  have hPerm := sortBy_perm (compareGroups localeCompare) (toGroups (Buckets.buckets sourceOf hackers))
  rw [hOne, List.perm_singleton] at hPerm
  exact (congrArg _ hOne).trans hPerm

theorem items_xGroup (addresses : List String) :
    ((((groupHackersBySource localeCompare (xItems hackers addresses)).head?.map (·.toDropdown)).map
      (·.items)).getD []).Perm (xItems hackers addresses) := by
  have hSource : ∀ h ∈ xItems hackers addresses, sourceOf h = X_SOURCE := fun h hMem => by
    have hX := (of_decide_eq_true (List.mem_filter.mp hMem).2).1
    unfold sourceOf
    cases hSource : h.source with
    | none =>
      rw [hSource] at hX
      exact absurd hX (by decide)
    | some source =>
      rw [hSource] at hX
      exact hX
  by_cases hSome : xItems hackers addresses = []
  · have hNone : groupHackersBySource localeCompare [] = [] := List.mergeSort_nil
    rw [hSome, hNone]
    exact List.Perm.refl _
  · rw [groupHackersBySource_of_source hSource hSome]
    exact items_toGroup X_SOURCE _

/-- The menu has the recent hackers, the hackers of the known hacks, and those of the source `x`. -/
theorem flattenHackersForNav_perm :
    let recentAddresses := (recentSorted localeCompare recentHackers).map (·.address)
    (flattenHackersForNav (groupHackersForDropdown localeCompare hackers recentHackers)).Perm
      (recentItems localeCompare hackers recentHackers ++
        ((HACK_ORDER.map (·.id)).flatMap fun id =>
          (keptForHacks recentAddresses hackers).filter (hackOf · = id)) ++
        xItems hackers recentAddresses) := by
  intro recentAddresses
  have hRecent : (((groupHackersForDropdown localeCompare hackers recentHackers).recent.map (·.items)).getD []) =
      recentItems localeCompare hackers recentHackers := by
    unfold groupHackersForDropdown
    dsimp only
    split
    · next hNone => exact hNone.symm
    · rfl
  unfold flattenHackersForNav
  rw [hRecent]
  exact (items_hackSections.append_left _).append (items_xGroup recentAddresses)

/-! ## How often a hacker is listed -/

/-- A recent hacker is listed once for each of its entries. -/
theorem count_recentItems (hDistinct : (hackers.map (·.address)).Nodup) {h : Hacker} (hMem : h ∈ hackers) :
    (recentItems localeCompare hackers recentHackers).count h =
      (recentHackers.map (·.address)).count h.address := by
  have hFind : ∀ a : String, hackers.find? (·.address = a) = some h ↔ a = h.address := fun a => by
    constructor
    · exact fun hFound => by simpa [eq_comm] using List.find?_some hFound
    · rintro rfl
      cases hFound : hackers.find? (·.address = h.address) with
      | none => exact absurd (decide_eq_true rfl) (List.find?_eq_none.mp hFound h hMem)
      | some h' =>
        have hSame : h'.address = h.address := by simpa using List.find?_some hFound
        rw [List.inj_on_of_nodup_map hDistinct (List.mem_of_find?_eq_some hFound) hMem hSame]
  unfold recentItems recentSorted
  rw [List.count_filterMap, ((sortBy_perm _ recentHackers).countP_eq _), List.count, List.countP_map]
  refine List.countP_congr fun entry _ => ?_
  simpa using hFind entry.address

/-- A hacker of a list without repetition is listed once or not at all by a filter. -/
theorem count_filter_hackers (hDistinct : (hackers.map (·.address)).Nodup) {h : Hacker} (hMem : h ∈ hackers)
    (keep : Hacker → Bool) : (hackers.filter keep).count h = if keep h then 1 else 0 := by
  rw [Buckets.count_filter_ite, List.count_eq_one_of_mem hDistinct.of_map hMem]

theorem mem_recentAddresses {a : String} :
    a ∈ (recentSorted localeCompare recentHackers).map (·.address) ↔ a ∈ recentHackers.map (·.address) :=
  ((sortBy_perm _ recentHackers).map _).mem_iff

theorem count_flattenHackersForNav (hDistinct : (hackers.map (·.address)).Nodup) {h : Hacker} (hMem : h ∈ hackers) :
    (flattenHackersForNav (groupHackersForDropdown localeCompare hackers recentHackers)).count h =
      (recentHackers.map (·.address)).count h.address +
        (if hackOf h ∈ HACK_ORDER.map (·.id) ∧ h.address ∉ recentHackers.map (·.address) ∧
          h.source.getD "" ≠ X_SOURCE then 1 else 0) +
        (if h.source.getD "" = X_SOURCE ∧ h.address ∉ recentHackers.map (·.address) then 1 else 0) := by
  have hOrder : (HACK_ORDER.map (·.id)).Nodup := by decide
  rw [flattenHackersForNav_perm.count_eq, List.count_append, List.count_append, count_recentItems hDistinct hMem,
    Buckets.count_flatMap_filter hOrder]
  unfold keptForHacks xItems
  rw [count_filter_hackers hDistinct hMem, count_filter_hackers hDistinct hMem]
  simp only [mem_recentAddresses, decide_eq_true_eq]
  congr 2
  rw [ite_and, ite_and, ite_and]

end Contents

/-- Each hacker is listed once exactly when no hacker has two entries in the recent activity, and each hacker
without one that is not of the source `x` is of a known hack. -/
theorem each_once_iff (localeCompare : String → String → Int) (hackers : List Hacker)
    (recentHackers : List RecentHackerEntry) (hDistinct : (hackers.map (·.address)).Nodup) :
    (∀ h ∈ hackers,
        (flattenHackersForNav (groupHackersForDropdown localeCompare hackers recentHackers)).count h = 1) ↔
      (∀ h ∈ hackers, (recentHackers.map (·.address)).count h.address ≤ 1) ∧
      ∀ h ∈ hackers, h.address ∉ recentHackers.map (·.address) → h.source ≠ some "x" →
        h.hackId.getD "coldcard" ∈ HACK_ORDER.map (·.id) := by
  have hX : ∀ h : Hacker, h.source.getD "" = X_SOURCE ↔ h.source = some "x" := fun h => by
    cases h.source with
    | none => decide
    | some source => simp [X_SOURCE]
  rw [← forall₂_and]
  refine forall₂_congr fun h hMem => ?_
  rw [count_flattenHackersForNav hDistinct hMem]
  have hNone := @List.count_eq_zero _ _ _ h.address (recentHackers.map (·.address))
  by_cases hRecent : h.address ∈ recentHackers.map (·.address)
  · have hPos := List.count_pos_iff.mpr hRecent
    simp only [hRecent, not_true_eq_false, false_and, and_false, if_false, false_implies, and_true]
    omega
  · simp only [hRecent, not_false_eq_true, true_and, and_true, true_implies, hNone.mpr hRecent, ne_eq, hX]
    by_cases hSource : h.source = some "x"
    · simp [hSource]
    · simp [hSource, hackOf]

theorem each_once_three :
    ([⟨"bc1qh1", some "admin", some "liquid", 5⟩, ⟨"bc1qh2", some "x", none, 3⟩,
        ⟨"bc1qh3", none, some "unlisted", 8⟩] : List Hacker).all fun h =>
      (flattenHackersForNav (groupHackersForDropdown (fun a b => if a < b then -1 else if b < a then 1 else 0)
        [⟨"bc1qh1", some "admin", some "liquid", 5⟩, ⟨"bc1qh2", some "x", none, 3⟩,
          ⟨"bc1qh3", none, some "unlisted", 8⟩] [⟨"bc1qh3", "2026-08-27T00:00:00.000Z"⟩])).count h = 1 :=
  List.all_eq_true.mpr fun h hMem => decide_eq_true ((each_once_iff _ _ _ (by decide)).mpr (by decide) h hMem)

/-- A hacker with two entries in the recent activity is listed twice, and a hacker of an unknown hack is not
listed. -/
theorem twice_and_never :
    (flattenHackersForNav (groupHackersForDropdown (fun a b => if a < b then -1 else if b < a then 1 else 0)
        [⟨"bc1qh1", some "admin", some "coldcard", 5⟩]
        [⟨"bc1qh1", "2026-08-27T00:00:00.000Z"⟩, ⟨"bc1qh1", "2026-08-26T00:00:00.000Z"⟩])).count
      ⟨"bc1qh1", some "admin", some "coldcard", 5⟩ = 2 ∧
    (flattenHackersForNav (groupHackersForDropdown (fun a b => if a < b then -1 else if b < a then 1 else 0)
        [⟨"bc1qh1", some "admin", some "unlisted", 5⟩] [])).count
      ⟨"bc1qh1", some "admin", some "unlisted", 5⟩ = 0 := by
  constructor
  · rw [count_flattenHackersForNav (by decide) List.mem_cons_self]
    decide
  · rw [count_flattenHackersForNav (by decide) List.mem_cons_self]
    decide

end Bloodhound.Web.HackerGroups
