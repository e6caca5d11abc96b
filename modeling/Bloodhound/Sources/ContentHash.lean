import Bloodhound.Lib.Text
import Bloodhound.Sources.BatchSync

/-!
# Pages of a source and their hash

`util/address.ts` and the fetches of `sources/coldcardwatch.ts` and
`sources/coldcardSweepWatch.ts`: the address-like words of a page, their normalisation, and the
list of collectors and victims that the pages of a source amount to. A page is a text as the
response decodes it; lengths count UTF-16 code units. Whether a text is an address of the
main net is a parameter, which stands for `toOutputScript` of bitcoinjs.

The hash is taken over the combined list before the collectors are taken out of the victims. It
tells two contents apart unless they list the same addresses as often and differ in which of
them are collectors (`hash_exact_iff`).
-/

namespace Bloodhound.Sources

abbrev Page := List Char

/-! ## Texts -/

/-- The UTF-16 code units of a character. -/
def codeUnits (c : Char) : Nat := if 0x10000 ≤ c.toNat then 2 else 1

/-- The characters that fit into a number of code units. -/
def takeUnits : Nat → Page → Page
  | _, [] => []
  | n, c :: rest => if n < codeUnits c then [] else c :: takeUnits (n - codeUnits c) rest

/-- White space and line ends, as `trim` has them. -/
def isTrimmed (c : Char) : Bool :=
  c.toNat ∈ [0x9, 0xa, 0xb, 0xc, 0xd, 0x20, 0xa0, 0x1680, 0x2028, 0x2029, 0x202f, 0x205f, 0x3000, 0xfeff] ||
    (0x2000 ≤ c.toNat && c.toNat ≤ 0x200a)

def trim (raw : Page) : Page :=
  ((raw.dropWhile isTrimmed).reverse.dropWhile isTrimmed).reverse

/-- A match of `bc1[a-z0-9]{25,87}`, in either case, at the front of a text. -/
def bc1At : Page → Option Page
  | b :: c :: d :: rest =>
    let run := (rest.take 87).takeWhile Char.isAlphanum
    if b.toLower = 'b' ∧ c.toLower = 'c' ∧ d = '1' ∧ 25 ≤ run.length then some (b :: c :: d :: run)
    else none
  | _ => none

/-- The matches in a text after its first `skip` characters; a match starts where the last one
ends. -/
def bc1MatchesFrom : Nat → Page → List Page
  | _, [] => []
  | skip + 1, _ :: rest => bc1MatchesFrom skip rest
  | 0, c :: rest =>
    match bc1At (c :: rest) with
    | some word => word :: bc1MatchesFrom (word.length - 1) rest
    | none => bc1MatchesFrom 0 rest

/-- `match(bc1Regex)`. -/
def bc1Matches (page : Page) : List Page := bc1MatchesFrom 0 page

def heading : Page := "where the money is".toList

/-- `collectorSection`: the heading, in any case, with 8000 units after it, or the first 12000 units
of the page. -/
def collectorSection (page : Page) : Page :=
  match page.tails.find? fun t => (t.take heading.length).map Char.toLower = heading with
  | some t => takeUnits (heading.length + 8000) t
  | none => takeUnits 12000 page

/-! ## Addresses -/

/-- The address that a text spells. -/
def toAddress? (a : Page) : Option Address :=
  if h : String.ofList a ≠ "" then some ⟨String.ofList a, h⟩ else none

section Fetch

variable (isAddress : Page → Bool)

def normalizeBitcoinAddress (raw : Page) : Option Page :=
  let a := trim raw
  if a = [] ∨ 90 < (a.map codeUnits).sum then none
  else if isAddress a then
    some (if a.take 3 = ['b', 'c', '1'] ∨ a.take 3 = ['B', 'C', '1'] then a.map Char.toLower else a)
  else none

def dedupeNormalized (raw : List Page) : List Page :=
  (raw.filterMap (normalizeBitcoinAddress isAddress)).eraseDups

/-- What the pages of a source hold: the home page and, where that request succeeds, the page that
lists the addresses; or the vaults of the script and the home page. -/
inductive Contents where
  | coldcardwatch (home : Page) (list : Option Page)
  | coldcardSweepWatch (vaults : List Page) (home : Page)

/-- The collectors of a home page. -/
def collectorsOf (home : Page) : List Page :=
  dedupeNormalized isAddress (bc1Matches (collectorSection home))

/-- The victims of `fetchColdcardWatch`: the listed ones or, where there are none, the other
addresses of the home page. -/
def watchVictims (home : Page) (list : Option Page) : List Page :=
  let listed := list.elim [] fun page => dedupeNormalized isAddress (bc1Matches page)
  if listed = [] then
    (dedupeNormalized isAddress (bc1Matches home)).filter (· ∉ collectorsOf isAddress home)
  else listed

/-- The collectors and victims that the pages of a source amount to. -/
def Contents.list : Contents → SourceList
  | .coldcardwatch home list =>
    { source := .coldcardwatch
      collectors := (collectorsOf isAddress home).filterMap toAddress?
      victims := (watchVictims isAddress home list).filterMap toAddress? }
  | .coldcardSweepWatch vaults home =>
    { source := .coldcardSweepWatch
      collectors := (collectorsOf isAddress home).filterMap toAddress?
      victims := (dedupeNormalized isAddress vaults).filterMap toAddress? }

end Fetch

/-- The text that is hashed: the sorted addresses, one on a line. -/
def hashedText (l : List Address) : String := "\n".intercalate (l.map (·.1))

/-- `fetchColdcardWatch` and `fetchColdcardSweepWatch`. -/
def Contents.fetched (isAddress : Page → Bool) (sha256Hex : String → String) (c : Contents) :
    SourceData :=
  (c.list isAddress).fetched fun l => sha256Hex (hashedText l)

/-! ## The hashed text -/

/-- The characters of an address are letters and digits. -/
def Alphanumeric (a : Address) : Prop := ∀ c ∈ a.1.toList, c.isAlphanum = true

theorem isAlphanum_toLower {c : Char} (h : c.isAlphanum = true) : c.toLower.isAlphanum = true := by
  unfold Char.toLower
  split
  · next hUpper =>
    obtain ⟨hLow, hHigh⟩ := hUpper
    have hLow' : 65 ≤ c.val.toNat := UInt32.le_iff_toNat_le.mp hLow
    have hHigh' : c.val.toNat ≤ 90 := UInt32.le_iff_toNat_le.mp hHigh
    have hVal : (c.val + ('a'.val - 'A'.val)).toNat = c.val.toNat + 32 := by
      rw [UInt32.toNat_add]
      exact Nat.mod_eq_of_lt (show c.val.toNat + 32 < 2 ^ 32 by omega)
    have hA : 'a'.val ≤ c.val + ('a'.val - 'A'.val) := by
      rw [UInt32.le_iff_toNat_le, hVal]
      exact Nat.add_le_add_right hLow' 32
    have hZ : c.val + ('a'.val - 'A'.val) ≤ 'z'.val := by
      rw [UInt32.le_iff_toNat_le, hVal]
      exact Nat.add_le_add_right hHigh' 32
    unfold Char.isAlphanum Char.isAlpha Char.isLower
    rw [decide_eq_true hA, decide_eq_true hZ]
    simp only [Bool.and_self, Bool.or_true, Bool.true_or]
  · exact h

theorem hashedText_inj {l l' : List Address} (hl : ∀ a ∈ l, Alphanumeric a)
    (hl' : ∀ a ∈ l', Alphanumeric a) (h : hashedText l = hashedText l') : l = l' := by
  have hLine : ∀ {l : List Address}, (∀ a ∈ l, Alphanumeric a) →
      ∀ s ∈ l.map (fun a => a.1.toList), s ≠ [] ∧ '\n' ∉ s := by
    intro l hl s hs
    obtain ⟨a, ha, rfl⟩ := List.mem_map.mp hs
    refine ⟨fun hNil => a.2 (String.toList_eq_nil_iff.mp hNil), fun hMem => ?_⟩
    exact absurd (hl a ha _ hMem) (by decide)
  have hLists : ['\n'].intercalate (l.map fun a => a.1.toList) =
      ['\n'].intercalate (l'.map fun a => a.1.toList) := by
    have hText := congrArg String.toList h
    unfold hashedText at hText
    rwa [String.toList_intercalate, String.toList_intercalate, List.map_map, List.map_map] at hText
  refine List.map_injective_iff.mpr (fun a b hab => ?_) (Text.lines_inj (hLine hl) (hLine hl') hLists)
  exact Subtype.ext (String.toList_injective hab)

theorem sorted_eq_iff {l l' : SourceList} :
    l.sorted = l'.sorted ↔ l.addresses.Perm l'.addresses := by
  have hPerm : ∀ l : SourceList, l.sorted.Perm l.addresses := fun l => List.mergeSort_perm _ _
  have hSorted : ∀ l : SourceList, l.sorted.Pairwise fun a b => a.1 ≤ b.1 := fun l =>
    (@List.pairwise_mergeSort _ (fun a b : Address => decide (a.1 ≤ b.1))
      (fun _ _ _ h h' => decide_eq_true
        (String.le_trans (of_decide_eq_true h) (of_decide_eq_true h')))
      (fun a b => by simpa using String.le_total a.1 b.1) l.addresses).imp of_decide_eq_true
  constructor
  · intro h
    exact (hPerm l).symm.trans (h ▸ hPerm l')
  · intro h
    refine ((hPerm l).trans (h.trans (hPerm l').symm)).eq_of_pairwise ?_ (hSorted l) (hSorted l')
    exact fun a b _ _ hab hba => Subtype.ext (String.le_antisymm hab hba)

/-! ## Addresses of the lists -/

section Lists

variable {isAddress : Page → Bool}

theorem toAddress?_eq {a : Page} {b : Address} (h : toAddress? a = some b) : b.1.toList = a := by
  unfold toAddress? at h
  split at h
  · cases h
    exact String.toList_ofList
  · cases h

theorem isAlphanum_normalizeBitcoinAddress
    (hAlphabet : ∀ a, isAddress a = true → ∀ c ∈ a, c.isAlphanum = true) {raw a : Page}
    (h : normalizeBitcoinAddress isAddress raw = some a) : ∀ c ∈ a, c.isAlphanum = true := by
  unfold normalizeBitcoinAddress at h
  dsimp only at h
  split at h
  · cases h
  · split at h
    · next hAddress =>
      cases h
      intro c hc
      split at hc
      · obtain ⟨d, hd, rfl⟩ := List.mem_map.mp hc
        exact isAlphanum_toLower (hAlphabet _ hAddress d hd)
      · exact hAlphabet _ hAddress c hc
    · cases h

/-- The words of a list of addresses: distinct, and of the alphabet of addresses. -/
def IsWords (l : List Page) : Prop := l.Nodup ∧ ∀ a ∈ l, ∀ c ∈ a, c.isAlphanum = true

theorem isWords_dedupeNormalized
    (hAlphabet : ∀ a, isAddress a = true → ∀ c ∈ a, c.isAlphanum = true) (raw : List Page) :
    IsWords (dedupeNormalized isAddress raw) := by
  refine ⟨Tally.nodup_eraseDups _, fun a ha => ?_⟩
  obtain ⟨_, _, h⟩ := List.mem_filterMap.mp (List.mem_eraseDups.mp ha)
  exact isAlphanum_normalizeBitcoinAddress hAlphabet h

theorem isWords_watchVictims
    (hAlphabet : ∀ a, isAddress a = true → ∀ c ∈ a, c.isAlphanum = true) (home : Page)
    (list : Option Page) : IsWords (watchVictims isAddress home list) := by
  unfold watchVictims
  dsimp only
  split
  · have hWords := isWords_dedupeNormalized hAlphabet (bc1Matches home)
    exact ⟨hWords.1.filter _, fun a ha => hWords.2 a (List.mem_of_mem_filter ha)⟩
  · cases list with
    | none => exact ⟨List.nodup_nil, fun _ h => by cases h⟩
    | some page => exact isWords_dedupeNormalized hAlphabet (bc1Matches page)

theorem IsWords.alphanumeric {l : List Page} (h : IsWords l) :
    ∀ a ∈ l.filterMap toAddress?, Alphanumeric a := by
  intro b hb c hc
  obtain ⟨a, ha, hEq⟩ := List.mem_filterMap.mp hb
  rw [toAddress?_eq hEq] at hc
  exact h.2 a ha c hc

theorem IsWords.nodup {l : List Page} (h : IsWords l) : (l.filterMap toAddress?).Nodup := by
  refine h.1.filterMap fun a a' b hb hb' => ?_
  rw [← toAddress?_eq hb, ← toAddress?_eq hb']

variable {c c' : Contents}

theorem isWords_collectors
    (hAlphabet : ∀ a, isAddress a = true → ∀ c ∈ a, c.isAlphanum = true) (c : Contents) :
    ∃ words, IsWords words ∧ (c.list isAddress).collectors = words.filterMap toAddress? := by
  cases c with
  | coldcardwatch home list => exact ⟨_, isWords_dedupeNormalized hAlphabet _, rfl⟩
  | coldcardSweepWatch vaults home => exact ⟨_, isWords_dedupeNormalized hAlphabet _, rfl⟩

theorem isWords_victims
    (hAlphabet : ∀ a, isAddress a = true → ∀ c ∈ a, c.isAlphanum = true) (c : Contents) :
    ∃ words, IsWords words ∧ (c.list isAddress).victims = words.filterMap toAddress? := by
  cases c with
  | coldcardwatch home list => exact ⟨_, isWords_watchVictims hAlphabet home list, rfl⟩
  | coldcardSweepWatch vaults home => exact ⟨_, isWords_dedupeNormalized hAlphabet _, rfl⟩

theorem alphanumeric_sorted
    (hAlphabet : ∀ a, isAddress a = true → ∀ c ∈ a, c.isAlphanum = true) (c : Contents) :
    ∀ a ∈ (c.list isAddress).sorted, Alphanumeric a := by
  obtain ⟨_, hCollectors, hEq⟩ := isWords_collectors hAlphabet c
  obtain ⟨_, hVictims, hEq'⟩ := isWords_victims hAlphabet c
  intro a ha
  rcases List.mem_append.mp ((List.mergeSort_perm _ _).mem_iff.mp ha) with h | h
  · exact hCollectors.alphanumeric a (hEq ▸ h)
  · exact hVictims.alphanumeric a (hEq' ▸ h)

end Lists

/-! ## What the hash tells -/

/-- The same collectors and the same victims. -/
def SourceData.SameSets (d d' : SourceData) : Prop :=
  (∀ a, a ∈ d.collectors ↔ a ∈ d'.collectors) ∧ ∀ a, a ∈ d.victims ↔ a ∈ d'.victims

section Hash

variable {isAddress : Page → Bool} {sha256Hex : String → String}

/-- The text of a content. -/
def Contents.text (isAddress : Page → Bool) (c : Contents) : String :=
  hashedText (c.list isAddress).sorted

theorem contentHash_fetched (c : Contents) :
    (c.fetched isAddress sha256Hex).contentHash = sha256Hex (c.text isAddress) := rfl

theorem text_eq_iff (hAlphabet : ∀ a, isAddress a = true → ∀ c ∈ a, c.isAlphanum = true)
    {c c' : Contents} : c.text isAddress = c'.text isAddress ↔
      (c.list isAddress).addresses.Perm (c'.list isAddress).addresses := by
  rw [← sorted_eq_iff]
  constructor
  · exact hashedText_inj (alphanumeric_sorted hAlphabet c) (alphanumeric_sorted hAlphabet c')
  · exact congrArg hashedText

/-- Once the collectors are known, the combined list tells the victims. -/
theorem sameSets_of_perm (hAlphabet : ∀ a, isAddress a = true → ∀ c ∈ a, c.isAlphanum = true)
    {c c' : Contents}
    (hPerm : (c.list isAddress).addresses.Perm (c'.list isAddress).addresses)
    (hSame : ∀ a, a ∈ (c.list isAddress).collectors ↔ a ∈ (c'.list isAddress).collectors) :
    (c.fetched isAddress sha256Hex).SameSets (c'.fetched isAddress sha256Hex) := by
  refine ⟨hSame, fun a => ?_⟩
  obtain ⟨_, hWords, hEq⟩ := isWords_collectors hAlphabet c
  obtain ⟨_, hWords', hEq'⟩ := isWords_collectors hAlphabet c'
  have hCollectors : (c.list isAddress).collectors.Perm (c'.list isAddress).collectors := by
    rw [List.perm_ext_iff_of_nodup (hEq ▸ hWords.nodup) (hEq' ▸ hWords'.nodup)]
    exact hSame
  have hVictims : (c.list isAddress).victims.Perm (c'.list isAddress).victims :=
    (List.perm_append_left_iff _).mp (hPerm.trans (hCollectors.symm.append_right _))
  show a ∈ List.filter _ _ ↔ a ∈ List.filter _ _
  rw [List.mem_filter, List.mem_filter, hVictims.mem_iff, decide_eq_true_iff, decide_eq_true_iff,
    hSame a]

/-- The hash tells two contents of a source apart unless the same addresses are listed as often in
both, and some of them are collectors in one of them only. -/
theorem hash_exact_iff (c c' : Contents)
    (hAlphabet : ∀ a, isAddress a = true → ∀ c ∈ a, c.isAlphanum = true)
    (hSha : sha256Hex (c.text isAddress) = sha256Hex (c'.text isAddress) →
      c.text isAddress = c'.text isAddress) :
    ((c.fetched isAddress sha256Hex).contentHash = (c'.fetched isAddress sha256Hex).contentHash →
        (c.fetched isAddress sha256Hex).SameSets (c'.fetched isAddress sha256Hex)) ↔
      ((c.list isAddress).addresses.Perm (c'.list isAddress).addresses →
        ∀ a, a ∈ (c.list isAddress).collectors ↔ a ∈ (c'.list isAddress).collectors) := by
  rw [contentHash_fetched, contentHash_fetched]
  constructor
  · intro hExact hPerm
    exact (hExact (congrArg sha256Hex ((text_eq_iff hAlphabet).mpr hPerm))).1
  · intro hSplit hHash
    have hPerm := (text_eq_iff hAlphabet).mp (hSha hHash)
    exact sameSets_of_perm hAlphabet hPerm (hSplit hPerm)

end Hash

def keptWord : Page :=
  ['b', 'c', '1', 'q', 'a', 'r', '0', 's', 'r', 'r', 'r', '7', 'x', 'f', 'k', 'v', 'y', '5', 'l', '6',
    '4', '3', 'l', 'y', 'd', 'n', 'w', '9', 'r', 'e', '5', '9', 'g', 't', 'z', 'z', 'w', 'f', '5', 'm',
    'd', 'q']

def promotedWord : Page :=
  ['b', 'c', '1', 'q', 'w', '5', '0', '8', 'd', '6', 'q', 'e', 'j', 'x', 't', 'd', 'g', '4', 'y', '5',
    'r', '3', 'z', 'a', 'r', 'v', 'a', 'r', 'y', '0', 'c', '5', 'x', 'w', '7', 'k', 'v', '8', 'f', '3',
    't', '4']

/-- A page that has one address as the collector, and a list with another address. -/
def listedPages : Contents :=
  .coldcardwatch ("Where the money is ".toList ++ keptWord) (some promotedWord)

/-- The same addresses after the listed one has become a collector. -/
def promotedPages : Contents :=
  .coldcardwatch ("Where the money is ".toList ++ keptWord ++ ' ' :: promotedWord) (some [])

def onlyThese : Page → Bool := (· ∈ [keptWord, promotedWord])

theorem onlyThese_alphabet : ∀ a, onlyThese a = true → ∀ c ∈ a, c.isAlphanum = true := by
  intro a ha
  have hAll : ([keptWord, promotedWord].all fun w => w.all (·.isAlphanum)) = true := by decide +kernel
  exact List.all_eq_true.mp (List.all_eq_true.mp hAll a (of_decide_eq_true ha))

theorem words_listed : collectorsOf onlyThese ("Where the money is ".toList ++ keptWord) = [keptWord] ∧
    watchVictims onlyThese ("Where the money is ".toList ++ keptWord) (some promotedWord) =
      [promotedWord] := by
  decide +kernel

theorem words_promoted :
    collectorsOf onlyThese ("Where the money is ".toList ++ keptWord ++ ' ' :: promotedWord) =
        [keptWord, promotedWord] ∧
      watchVictims onlyThese ("Where the money is ".toList ++ keptWord ++ ' ' :: promotedWord)
        (some []) = [] := by
  decide +kernel

theorem addresses_promoted :
    (listedPages.list onlyThese).addresses = (promotedPages.list onlyThese).addresses := by
  unfold listedPages promotedPages Contents.list SourceList.addresses
  dsimp only
  rw [words_listed.1, words_listed.2, words_promoted.1, words_promoted.2, ← List.filterMap_append]
  exact (List.append_nil _).symm

theorem text_promoted : listedPages.text onlyThese = promotedPages.text onlyThese := by
  unfold Contents.text SourceList.sorted
  rw [addresses_promoted]

theorem hash_exact_promoted :
    ((listedPages.fetched onlyThese fun _ => "9253a77ec690ec506513d07cc2193da1cf0432856c25f19b66f7bd36a70cfd0f").contentHash =
        (promotedPages.fetched onlyThese fun _ => "9253a77ec690ec506513d07cc2193da1cf0432856c25f19b66f7bd36a70cfd0f").contentHash →
      (listedPages.fetched onlyThese fun _ => "9253a77ec690ec506513d07cc2193da1cf0432856c25f19b66f7bd36a70cfd0f").SameSets
        (promotedPages.fetched onlyThese fun _ => "9253a77ec690ec506513d07cc2193da1cf0432856c25f19b66f7bd36a70cfd0f")) ↔
      ((listedPages.list onlyThese).addresses.Perm (promotedPages.list onlyThese).addresses →
        ∀ a, a ∈ (listedPages.list onlyThese).collectors ↔
          a ∈ (promotedPages.list onlyThese).collectors) :=
  hash_exact_iff listedPages promotedPages onlyThese_alphabet fun _ => text_promoted

/-- An address that is promoted to a collector leaves the hash as it was. -/
theorem promoted_unseen :
    (listedPages.fetched onlyThese id).contentHash = (promotedPages.fetched onlyThese id).contentHash ∧
      ¬ (listedPages.fetched onlyThese id).SameSets (promotedPages.fetched onlyThese id) := by
  refine ⟨text_promoted, fun h => ?_⟩
  obtain ⟨b, hb⟩ : ∃ b, toAddress? promotedWord = some b := by
    unfold toAddress?
    rw [dif_pos (by decide +kernel)]
    exact ⟨_, rfl⟩
  have hIn : b ∈ (promotedPages.list onlyThese).collectors := by
    unfold promotedPages Contents.list
    dsimp only
    rw [words_promoted.1]
    exact List.mem_filterMap.mpr ⟨promotedWord, by simp, hb⟩
  have hOut : b ∈ (listedPages.list onlyThese).collectors := (h.1 b).mpr hIn
  unfold listedPages Contents.list at hOut
  dsimp only at hOut
  rw [words_listed.1] at hOut
  obtain ⟨w, hw, hEq⟩ := List.mem_filterMap.mp hOut
  have hWord : promotedWord = keptWord := by
    rw [← toAddress?_eq hb, toAddress?_eq hEq, List.mem_singleton.mp hw]
  exact absurd hWord (by decide +kernel)

end Bloodhound.Sources
