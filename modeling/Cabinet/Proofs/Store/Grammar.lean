import Cabinet.Proofs.Store.Key

/-!
# Which texts are keys

* `Key.Writes` : how keys are written, as a grammar: a plain character for its own byte, and `%` with
  two upper-case digits for any other byte;
* `Key.IsKey` : the texts in the grammar whose bytes are valid UTF-8, taken together;
* `Key.writes_iff` : bytes are written in one way only, which is the way in which escaping writes them;
* `Key.isKey_iff` : the texts that are keys are the keys of identifiers;
* `Key.escape_bijective` : escaping is a bijection from identifiers to these texts, unescaping is its
  inverse, and refuses all other texts.
-/

namespace Cabinet.Key

/-! ## The grammar -/

/-- The characters that stand for themselves. -/
def IsPlainChar (c : Char) : Prop :=
  'A' ≤ c ∧ c ≤ 'Z' ∨ 'a' ≤ c ∧ c ≤ 'z' ∨ '0' ≤ c ∧ c ≤ '9' ∨ c = '_' ∨ c = '-'

instance (c : Char) : Decidable (IsPlainChar c) :=
  inferInstanceAs (Decidable (_ ∨ _))

/-- The digits behind `%`, by their values. -/
def hexDigits : List Char := "0123456789ABCDEF".toList

/-- A text in which each byte of a sequence is written, one after another. -/
inductive Writes : Text → List UInt8 → Prop where
  | nil : Writes [] []
  | plain {c : Char} {key : Text} {bytes : List UInt8} (hc : IsPlainChar c)
    (rest : Writes key bytes) : Writes (.char c :: key) (c.toNat.toUInt8 :: bytes)
  | escaped {high low : Char} {b : UInt8} {key : Text} {bytes : List UInt8}
    (hb : ¬ IsPlainChar (Char.ofNat b.toNat)) (hhigh : hexDigits[b.toNat / 16]? = some high)
    (hlow : hexDigits[b.toNat % 16]? = some low) (rest : Writes key bytes) :
    Writes (.char '%' :: .char high :: .char low :: key) (b :: bytes)

/-- A text in the grammar that stands for some bytes, which as a whole are UTF-8. -/
def IsKey (key : Text) : Prop :=
  key ≠ [] ∧ ∃ bytes, Writes key bytes ∧ bytes.toByteArray.IsValidUTF8

/-! ## One byte -/

theorem isPlain_iff_toUInt8 : ∀ n < 256,
    isPlain n.toUInt8 = true ↔ IsPlainChar (Char.ofNat n) := by
  decide +kernel

theorem digit_eq : ∀ n < 16, (hexDigits[n]?).map CodePoint.char = some (digit n) := by
  decide

/-- A byte stands for itself if it is that of a plain character. -/
theorem isPlain_iff (b : UInt8) : isPlain b = true ↔ IsPlainChar (Char.ofNat b.toNat) := by
  have h := isPlain_iff_toUInt8 b.toNat b.toNat_lt
  rwa [Nat.toUInt8_eq, UInt8.ofNat_toNat] at h

theorem IsPlainChar.toNat_lt {c : Char} (hc : IsPlainChar c) : c.toNat < 256 := by
  have hupper : ∀ last : Char, c ≤ last → c.toNat ≤ last.toNat := fun _ h => h
  rcases hc with ⟨-, h⟩ | ⟨-, h⟩ | ⟨-, h⟩ | rfl | rfl
  · exact Nat.lt_of_le_of_lt (hupper _ h) (by decide)
  · exact Nat.lt_of_le_of_lt (hupper _ h) (by decide)
  · exact Nat.lt_of_le_of_lt (hupper _ h) (by decide)
  · decide
  · decide

theorem escapeByte_plainChar {c : Char} (hc : IsPlainChar c) :
    escapeByte c.toNat.toUInt8 = [.char c] := by
  have hb : c.toNat.toUInt8.toNat = c.toNat := by
    rw [Nat.toUInt8_eq, UInt8.toNat_ofNat']
    exact Nat.mod_eq_of_lt hc.toNat_lt
  have hplain : isPlain c.toNat.toUInt8 = true := by rwa [isPlain_iff, hb, Char.ofNat_toNat]
  rw [escapeByte, if_pos hplain, hb, Char.ofNat_toNat]

theorem escapeByte_escaped {b : UInt8} (hb : ¬ IsPlainChar (Char.ofNat b.toNat)) :
    escapeByte b = [.char '%', digit (b.toNat / 16), digit (b.toNat % 16)] := by
  rw [escapeByte, if_neg (mt (isPlain_iff b).mp hb)]

theorem char_of_hexDigits {n : Nat} {c : Char} (hn : n < 16) (h : hexDigits[n]? = some c) :
    digit n = .char c := by
  have hdigit := digit_eq n hn
  rw [h] at hdigit
  exact (Option.some.inj hdigit).symm

/-! ## Whole keys -/

/-- What is written for bytes is what escaping writes. -/
theorem Writes.eq_flatMap {key : Text} {bytes : List UInt8} (h : Writes key bytes) :
    key = bytes.flatMap escapeByte := by
  induction h with
  | nil => rfl
  | plain hc rest ih => rw [List.flatMap_cons, escapeByte_plainChar hc, ← ih, List.singleton_append]
  | @escaped high low b key bytes hb hhigh hlow rest ih =>
    have hlt := b.toNat_lt
    rw [List.flatMap_cons, escapeByte_escaped hb, ← ih, char_of_hexDigits (by omega) hhigh,
      char_of_hexDigits (by omega) hlow]
    rfl

theorem writes_flatMap : ∀ bytes : List UInt8, Writes (bytes.flatMap escapeByte) bytes
  | [] => .nil
  | b :: bytes => by
    have hlt := b.toNat_lt
    rw [List.flatMap_cons]
    by_cases hb : IsPlainChar (Char.ofNat b.toNat)
    · have hplain := (isPlain_iff b).mpr hb
      have hchar : (Char.ofNat b.toNat).toNat.toUInt8 = b := by
        rw [(isPlain_spec hplain).1, Nat.toUInt8_eq, UInt8.ofNat_toNat]
      have hwrites := Writes.plain hb (writes_flatMap bytes)
      rwa [hchar, ← List.singleton_append, ← escapeByte_plainChar hb, hchar] at hwrites
    · obtain ⟨high, hhigh, hhigh'⟩ := Option.map_eq_some_iff.mp (digit_eq (b.toNat / 16) (by omega))
      obtain ⟨low, hlow, hlow'⟩ := Option.map_eq_some_iff.mp (digit_eq (b.toNat % 16) (by omega))
      rw [escapeByte_escaped hb, ← hhigh', ← hlow']
      exact .escaped hb hhigh hlow (writes_flatMap bytes)

theorem writes_iff {key : Text} {bytes : List UInt8} :
    Writes key bytes ↔ key = bytes.flatMap escapeByte :=
  ⟨Writes.eq_flatMap, fun h => h ▸ writes_flatMap bytes⟩

/-- The texts that are keys are the keys of identifiers. -/
theorem isKey_iff {key : Text} : IsKey key ↔ ∃ id, escape id = .ok key := by
  constructor
  · rintro ⟨hkey, bytes, hwrites, hvalid⟩
    obtain ⟨id, hid⟩ := Text.isValidUTF8_iff.mp hvalid
    have hne : id ≠ [] := by
      rintro rfl
      obtain rfl : [] = bytes := Except.ok.inj hid
      exact hkey hwrites.eq_flatMap
    refine ⟨id, ?_⟩
    rw [escape, if_neg (by simpa using hne), hid, hwrites.eq_flatMap]
  · rintro ⟨id, hid⟩
    obtain ⟨-, bytes, hbytes, hkey⟩ := escape_ok hid
    obtain ⟨p, rest, hhead, -⟩ := escape_head hid
    refine ⟨by simp [hhead], bytes, writes_iff.mpr hkey.symm, ?_⟩
    exact Text.isValidUTF8_iff.mpr ⟨id, hbytes⟩

/-- Unescaping gives an identifier or refuses the key. -/
theorem unescape_cases (key : Text) :
    (∃ id, unescape key = .ok id) ∨ unescape key = .error (.badKey key) := by
  unfold unescape
  split
  · exact .inr rfl
  · next id _ =>
    cases escape id with
    | error e => exact .inr rfl
    | ok written =>
      by_cases hwritten : written = key
      · exact .inl ⟨id, if_pos hwritten⟩
      · exact .inr (if_neg hwritten)

/-- Every identifier of characters that is not empty has a key, from which it is read back, so
different identifiers have different keys. Each text in the grammar of keys is read as the one
identifier whose key it is, and every other text is refused as no key. -/
theorem escape_bijective :
    (∀ id : Text, id ≠ [] → id.Encodable →
      ∃ key, escape id = .ok key ∧ unescape key = .ok id) ∧
    (∀ id id' key : Text, escape id = .ok key → escape id' = .ok key → id = id') ∧
    ∀ key : Text,
      (IsKey key → ∃ id, unescape key = .ok id ∧ escape id = .ok key ∧
        ∀ id', escape id' = .ok key → id' = id) ∧
      (¬ IsKey key → unescape key = .error (.badKey key)) := by
  refine ⟨fun id hid hchars => ?_, fun _ _ _ => escape_injective, fun key => ⟨fun hkey => ?_, ?_⟩⟩
  · obtain ⟨key, hkey⟩ := escape_encodable hid hchars
    exact ⟨key, hkey, unescape_of_escape hkey⟩
  · obtain ⟨id, hid⟩ := isKey_iff.mp hkey
    exact ⟨id, unescape_of_escape hid, hid, fun id' hid' => escape_injective hid' hid⟩
  · intro hkey
    refine (unescape_cases key).resolve_left ?_
    rintro ⟨id, hid⟩
    exact hkey (isKey_iff.mpr ⟨id, escape_of_unescape hid⟩)

theorem escape_bijective_accent :
    (∃ key, escape "é/a".toText = .ok key ∧ unescape key = .ok "é/a".toText) ∧
    (escape "é/a".toText = .ok "%C3%A9%2Fa".toText → ∀ id,
      escape id = .ok "%C3%A9%2Fa".toText → id = "é/a".toText) ∧
    (∃ id, unescape "%C3%A9%2Fa".toText = .ok id ∧ escape id = .ok "%C3%A9%2Fa".toText) ∧
    unescape "%2fa".toText = .error (.badKey "%2fa".toText) := by
  have hchars := Text.encodable_toText "é/a"
  have hvalid : IsKey "%C3%A9%2Fa".toText := by
    refine ⟨by decide, [0xC3, 0xA9, 0x2F, 0x61], ?_, ?_⟩
    · exact .escaped (by decide) rfl rfl <| .escaped (by decide) rfl rfl <|
        .escaped (by decide) rfl rfl <| .plain (c := 'a') (by decide) .nil
    · exact Text.isValidUTF8_iff.mpr ⟨"é/a".toText, by decide⟩
  -- The digits behind a `%` are in upper case.
  have hinvalid : ¬ IsKey "%2fa".toText := by
    rintro ⟨-, bytes, hwrites, -⟩
    cases hwrites with
    | plain hc => exact absurd hc (by decide)
    | escaped hb hhigh hlow rest => exact absurd (List.mem_of_getElem? hlow) (by decide)
  obtain ⟨hroundtrip, hdistinct, hkeys⟩ := escape_bijective
  obtain ⟨id, hid, hkey, -⟩ := (hkeys _).1 hvalid
  exact ⟨hroundtrip _ (by decide) hchars, fun h id' h' => hdistinct _ _ _ h' h,
    ⟨id, hid, hkey⟩, (hkeys _).2 hinvalid⟩

end Cabinet.Key
