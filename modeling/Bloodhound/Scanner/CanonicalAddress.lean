import Bloodhound.Scanner.AddressRoundTrip

/-!
# Addresses that are accepted

What `address_to_lookup_key` accepts is the address of the key it returns. The decoder looks at the letters behind
the prefix of a Bech32 address without their case, so that such an address is canonical up to case
(`accepted_canonical`). The theorem is about texts without a zero byte and about Bech32 addresses of the usual 42
characters.
-/

namespace Bloodhound.Scanner

open Radix

/-! ## Base58 -/

theorem base58Index_some {c : UInt8} (hc : c ≠ 0) {d : Nat} (h : base58Index c = some d) :
    d < 58 ∧ base58Alphabet.getD d 0 = c := by
  have hAll : ∀ n < 256, UInt8.ofNat n ≠ 0 → ∀ d, base58Index (UInt8.ofNat n) = some d →
      d < 58 ∧ base58Alphabet.getD d 0 = UInt8.ofNat n := by
    have hTable : ∀ n < 256, UInt8.ofNat n ≠ 0 →
        (base58Index (UInt8.ofNat n)).all fun d => d < 58 ∧ base58Alphabet.getD d 0 = UInt8.ofNat n := by
      decide +kernel
    intro n hn hne d hd
    have hEntry := hTable n hn hne
    rw [hd] at hEntry
    simpa using hEntry
  have hByte := hAll c.toNat c.toNat_lt
  rw [UInt8.ofNat_toNat] at hByte
  exact hByte hc d h

/-- Symbols that were found are those of the text. -/
theorem map_of_mapM {α β : Type} {f : α → Option β} {g : β → α} {m : α → α} {P : β → Prop} {l : List α}
    (hf : ∀ a ∈ l, ∀ b, f a = some b → P b ∧ g b = m a) {found : List β} (h : l.mapM f = some found) :
    (∀ b ∈ found, P b) ∧ found.map g = l.map m := by
  induction l generalizing found with
  | nil =>
    cases h
    exact ⟨fun b hb => absurd hb List.not_mem_nil, rfl⟩
  | cons a l ih =>
    rw [List.mapM_cons] at h
    obtain ⟨b, hb, hRest⟩ := Option.bind_eq_some_iff.mp h
    obtain ⟨rest, hTail, hEnd⟩ := Option.bind_eq_some_iff.mp hRest
    cases hEnd
    obtain ⟨hSymbol, hText⟩ := hf a List.mem_cons_self b hb
    obtain ⟨hSymbols, hTexts⟩ := ih (fun c hc => hf c (List.mem_cons_of_mem a hc)) hTail
    refine ⟨fun c hc => ?_, by rw [List.map_cons, List.map_cons, hText, hTexts]⟩
    rcases List.mem_cons.mp hc with rfl | hMem
    · exact hSymbol
    · exact hSymbols c hMem

theorem base58Encode_of_decode {s raw : Bytes} (hNul : 0 ∉ s) (h : base58Decode s = some raw)
    (hNumber : number 256 (raw.map UInt8.toNat) ≠ 0) : base58Encode raw = s := by
  obtain ⟨digits, hDigits, rfl⟩ := Option.map_eq_some_iff.mp h
  obtain ⟨hLess, hText⟩ := map_of_mapM (g := fun d => base58Alphabet.getD d 0) (m := id) (P := (· < 58))
    (fun c hc d hd => base58Index_some (fun hZero => hNul (hZero ▸ hc)) hd) hDigits
  have hBytes : ((toRadix 256 58 digits).map UInt8.ofNat).map UInt8.toNat = toRadix 256 58 digits := by
    rw [List.map_map]
    apply (List.map_congr_left fun d hd => ?_).trans (List.map_id _)
    exact UInt8.toNat_ofNat_of_lt (lt_of_mem_toRadix (by decide) (by decide) hd)
  rw [hBytes, number_toRadix (by decide) (by decide)] at hNumber
  rw [base58Encode, hBytes, toRadix_toRadix_of_ne (by decide) (by decide) hLess hNumber, hText, List.map_id]

theorem base58checkEncode_of_decode {s : Bytes} {version : UInt8} {key : Bytes} (hNul : 0 ∉ s)
    (hKey : key.length = 20) (h : base58checkDecode s = some (version :: key)) :
    base58checkEncode (version :: key) = s := by
  obtain ⟨raw, hRaw, hCheck⟩ := Option.bind_eq_some_iff.mp h
  dsimp only at hCheck
  split at hCheck
  · cases hCheck
  · next hSum =>
    obtain ⟨-, hSame⟩ := not_or.mp hSum
    have hPayload := Option.some.inj hCheck
    have hSplit : raw = version :: key ++ (sha256d (version :: key)).take 4 := by
      rw [← hPayload, ← not_not.mp hSame, List.take_append_drop]
    rw [base58checkEncode, ← hSplit]
    apply base58Encode_of_decode hNul hRaw
    intro hZero
    have hAll := all_zero_of_number hZero
    rw [hSplit] at hAll
    -- only zeros would be left, whose checksum is not zero
    have hRest : version :: key = List.replicate 21 0 :=
      List.eq_replicate_iff.mpr ⟨by rw [List.length_cons, hKey], fun c hc => hAll c (List.mem_append_left _ hc)⟩
    have hCheckBytes : (sha256d (List.replicate 21 0)).take 4 = List.replicate 4 0 := by
      rw [← hRest]
      apply List.eq_replicate_iff.mpr
      exact ⟨by rw [List.length_take, length_sha256d]; rfl, fun c hc => hAll c (List.mem_append_right _ hc)⟩
    exact absurd hCheckBytes sha256d_zeros

/-! ## Bech32 -/

theorem bech32CharsetIndex_some {c : UInt8} {d : Nat} (h : bech32CharsetIndex c = some d) :
    d < 32 ∧ bech32Charset.getD d 0 = toLower c := by
  have hTable : ∀ n < 256, (bech32CharsetIndex (UInt8.ofNat n)).all fun d =>
      d < 32 ∧ bech32Charset.getD d 0 = toLower (UInt8.ofNat n) := by
    decide +kernel
  have hEntry := hTable c.toNat c.toNat_lt
  rw [UInt8.ofNat_toNat, h] at hEntry
  simpa using hEntry

theorem eq_of_afterLastOne {s behind : Bytes} (h : afterLastOne s = some behind) :
    s = s.take (s.length - behind.length - 1) ++ 49 :: behind := by
  unfold afterLastOne at h
  split at h
  · next hOne =>
    have hBehind := Option.some.inj h
    obtain ⟨c, rest, hRest⟩ : ∃ c rest, s.reverse.dropWhile (· ≠ 49) = c :: rest := by
      apply List.exists_cons_of_ne_nil
      intro hNil
      have hNone := List.dropWhile_eq_nil_iff.mp hNil 49 (List.mem_reverse.mpr hOne)
      exact absurd hNone (by decide)
    have hFirst : c = 49 := by
      have hStop := List.head?_dropWhile_not (· ≠ 49) s.reverse
      rw [hRest] at hStop
      simpa using hStop
    have hWhole : s = rest.reverse ++ 49 :: behind := by
      have hSplit := List.takeWhile_append_dropWhile (p := (· ≠ 49)) (l := s.reverse)
      rw [hRest, hFirst] at hSplit
      have hReverse := congrArg List.reverse hSplit
      rw [List.reverse_append, List.reverse_cons, hBehind, List.reverse_reverse, List.append_assoc] at hReverse
      exact hReverse.symm
    have hTake : s.take (s.length - behind.length - 1) = rest.reverse := by
      have hLength : s.length = rest.reverse.length + (behind.length + 1) := by
        conv_lhs => rw [hWhole]
        rw [List.length_append, List.length_cons]
      rw [hLength]
      conv_lhs => rw [hWhole]
      rw [show rest.reverse.length + (behind.length + 1) - behind.length - 1 = rest.reverse.length by omega,
        List.take_left]
    rw [hTake]
    exact hWhole
  · cases h

/-- A text that is read is the text of what was read, but for the case of its letters. -/
theorem bech32Encode_of_decode {s hrp : Bytes} {data : List Nat} (h : bech32Decode s = some (hrp, data)) :
    (∀ d ∈ data, d < 32) ∧ s.length = hrp.length + 1 + data.length + 6 ∧
      ∃ behind, s = hrp ++ 49 :: behind ∧ hrp ++ 49 :: behind.map toLower = bech32Encode hrp data := by
  obtain ⟨behind, hBehind, hRest⟩ := Option.bind_eq_some_iff.mp h
  have hText := eq_of_afterLastOne hBehind
  split at hRest
  · cases hRest
  · obtain ⟨symbols, hSymbols, hEnd⟩ := Option.bind_eq_some_iff.mp hRest
    dsimp only at hEnd
    split at hEnd
    · cases hEnd
    · next hChecks =>
      obtain ⟨hSize, hSum⟩ := not_or.mp hChecks
      obtain ⟨hHrp, hData⟩ := Prod.mk.inj (Option.some.inj hEnd)
      obtain ⟨hLess, hLower⟩ := map_of_mapM (g := fun d => bech32Charset.getD d 0) (m := toLower) (P := (· < 32))
        (fun c _ d hd => bech32CharsetIndex_some hd) hSymbols
      have hCount : symbols.length = behind.length := length_of_mapM hSymbols
      have hDataLength : data.length = symbols.length - 6 := by
        rw [← hData, List.length_take]
        omega
      have hSums : symbols.drop (symbols.length - 6) = bech32Sums hrp data := by
        apply (bech32Polymod_eq_one_iff (bech32HrpValues hrp ++ data) ?_ ?_).mp
        · rw [List.append_assoc, ← hData, List.take_append_drop, ← hHrp]
          exact not_not.mp hSum
        · rw [List.length_drop]
          omega
        · exact fun d hd => hLess d (List.mem_of_mem_drop hd)
      refine ⟨fun d hd => hLess d (List.mem_of_mem_take (hData ▸ hd)), ?_, behind, ?_, ?_⟩
      · have hLength := congrArg List.length hText
        rw [List.length_append, hHrp, List.length_cons] at hLength
        omega
      · rw [← hHrp]
        exact hText
      · rw [bech32Encode_eq, ← hSums, ← hData, List.take_append_drop, hLower]

/-- Thirty-two symbols are those of the twenty bytes that are read from them. -/
theorem convertBits_of_read {symbols : List Nat} (hSymbols : ∀ d ∈ symbols, d < 32) (hLength : symbols.length = 32) :
    convertBits (((convertBitsChecked symbols 5 8 false).map UInt8.ofNat).map UInt8.toNat) 8 5 true = symbols := by
  have hAll : symbols.all fun value => value >>> 5 = 0 := by
    apply List.all_eq_true.mpr
    intro d hd
    have : d / 32 = 0 := Nat.div_eq_of_lt (hSymbols d hd)
    simpa [Nat.shiftRight_eq_div_pow] using this
  obtain ⟨hValue, hBytes, hLess⟩ := convertBits_whole (f := 5) (t := 8) (by decide) hSymbols
    (by rw [hLength]; decide) false
  have hBack : ((convertBits symbols 5 8 false).map UInt8.ofNat).map UInt8.toNat =
      convertBits symbols 5 8 false := by
    rw [List.map_map]
    apply (List.map_congr_left fun d hd => ?_).trans (List.map_id _)
    exact UInt8.toNat_ofNat_of_lt (hLess d hd)
  obtain ⟨hValue', hGroups, hLess'⟩ := convertBits_whole (f := 8) (t := 5) (by decide) hLess
    (by rw [hBytes, hLength]; decide) true
  rw [convertBitsChecked, if_pos hAll, hBack]
  apply number_inj (b := 2 ^ 5) (by decide) (by omega) hLess' hSymbols
  rw [hValue', hValue]

/-! ## Keys -/

/-- The letters of a Bech32 address in lower case. -/
def lowered (family : ScriptFamily) (s : Bytes) : Bytes := if family = .bip84 then s.map toLower else s

theorem canonical_of_bech32 {s key : Bytes} {family : ScriptFamily}
    (hPre : (ascii "bc1").isPrefixOf s = true) (h : addressToLookupKey s = some (family, key))
    (hLength : family = .bip84 → s.length = 42) : family = .bip84 ∧ s.map toLower = encodeKey family key := by
  unfold addressToLookupKey at h
  rw [if_pos hPre] at h
  obtain ⟨⟨hrp, data⟩, hDecode, hKey⟩ := Option.bind_eq_some_iff.mp h
  obtain ⟨hSymbols, hSize, behind, hText, hCode⟩ := bech32Encode_of_decode hDecode
  split at hKey
  · cases hKey
  · next hChecks =>
    obtain ⟨hHrp, hZero⟩ := not_or.mp hChecks
    obtain rfl : hrp = ascii "bc" := not_not.mp hHrp
    obtain ⟨symbols, rfl⟩ : ∃ symbols, data = 0 :: symbols :=
      List.head?_eq_some_iff.mp (not_not.mp hZero)
    dsimp only [List.tail_cons] at hKey
    split at hKey
    · cases hKey
    · obtain ⟨rfl, rfl⟩ := Prod.mk.inj (Option.some.inj hKey)
      refine ⟨rfl, ?_⟩
      have hCount : symbols.length = 32 := by
        have hTwo : (ascii "bc").length = 2 := by decide
        rw [hLength rfl, hTwo, List.length_cons] at hSize
        omega
      have hLower : (ascii "bc" ++ 49 :: behind).map toLower = ascii "bc" ++ 49 :: behind.map toLower := by
        rw [List.map_append, List.map_cons]
        congr 1
      rw [hText, hLower, hCode, encodeKey,
        convertBits_of_read (fun d hd => hSymbols d (List.mem_cons_of_mem 0 hd)) hCount]

theorem canonical_of_base58 {s key : Bytes} {family : ScriptFamily} (hNul : 0 ∉ s)
    (hPre : (ascii "bc1").isPrefixOf s = false) (h : addressToLookupKey s = some (family, key)) :
    family ≠ .bip84 ∧ s = encodeKey family key := by
  unfold addressToLookupKey at h
  rw [hPre, if_neg Bool.false_ne_true] at h
  obtain ⟨payload, hPayload, hEnd⟩ := Option.bind_eq_some_iff.mp h
  split at hEnd
  · cases hEnd
  · next hSize =>
    obtain ⟨version, rest, rfl⟩ := List.exists_cons_of_length_eq_add_one (not_not.mp hSize)
    have hRest : rest.length = 20 := by
      have := not_not.mp hSize
      rw [List.length_cons] at this
      omega
    have hText := base58checkEncode_of_decode hNul hRest hPayload
    rw [List.head?_cons, List.tail_cons] at hEnd
    split at hEnd
    · next hVersion =>
      cases hEnd
      cases hVersion
      exact ⟨by decide, hText.symm⟩
    · split at hEnd
      · next hVersion =>
        cases hEnd
        cases hVersion
        exact ⟨by decide, hText.symm⟩
      · cases hEnd

theorem canonical_of_accepted {s key : Bytes} {family : ScriptFamily} (h : addressToLookupKey s = some (family, key))
    (hNul : 0 ∉ s) (hLength : family = .bip84 → s.length = 42) : lowered family s = encodeKey family key := by
  cases hPre : (ascii "bc1").isPrefixOf s with
  | false =>
    obtain ⟨hFamily, hText⟩ := canonical_of_base58 hNul hPre h
    rw [lowered, if_neg hFamily]
    exact hText
  | true =>
    obtain ⟨hFamily, hText⟩ := canonical_of_bech32 hPre h hLength
    rw [lowered, if_pos hFamily]
    exact hText

/-- An accepted address is the one address of its key, but for the case of the letters of a Bech32 address. -/
theorem accepted_canonical {s key : Bytes} {family : ScriptFamily} (h : addressToLookupKey s = some (family, key))
    (hNul : 0 ∉ s) (hLength : family = .bip84 → s.length = 42) :
    lowered family s = encodeKey family key ∧
      ∀ s', addressToLookupKey s' = some (family, key) → 0 ∉ s' → (family = .bip84 → s'.length = 42) →
        lowered family s' = lowered family s := by
  have hText := canonical_of_accepted h hNul hLength
  exact ⟨hText, fun s' h' hNul' hLength' => (canonical_of_accepted h' hNul' hLength').trans hText.symm⟩

/-- The address of twenty zeros with a letter in upper case. -/
theorem accepted_canonical_upper :
    lowered .bip84 (ascii "bc1Qqqqqqqqqqqqqqqqqqqqqqqqqqqqqqqqq9e75rs") = encodeKey .bip84 (List.replicate 20 0) :=
  (accepted_canonical (by decide +kernel) (by decide) fun _ => by decide).1

theorem accepted_twice : ∃ s s' key : Bytes, s ≠ s' ∧ addressToLookupKey s = some (.bip84, key) ∧
    addressToLookupKey s' = some (.bip84, key) ∧ s' ≠ encodeKey .bip84 key :=
  ⟨ascii "bc1qqqqqqqqqqqqqqqqqqqqqqqqqqqqqqqqq9e75rs", ascii "bc1Qqqqqqqqqqqqqqqqqqqqqqqqqqqqqqqqq9e75rs",
    List.replicate 20 0, by decide, by decide +kernel, by decide +kernel, by decide⟩

end Bloodhound.Scanner
