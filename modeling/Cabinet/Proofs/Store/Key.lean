import Cabinet.Store.Key
import Cabinet.Proofs.Text.Utf8

/-!
# Keys stand for their identifiers

* `Key.bytes?_flatMap` : the bytes that a key was written for can be read off it;
* `Key.escape_encodable` : an identifier of characters has a key;
* `Key.escape_injective` : different identifiers have different keys;
* `Key.escape_head` : no key starts with a point;
* `Key.escape_of_unescape`, `Key.unescape_of_escape` : the key of the identifier of a key is that
  key, and the identifier of the key of an identifier that identifier.
-/

namespace Cabinet.Key

/-! ## One byte -/

theorem isPlain_toUInt8 : ∀ n < 256, isPlain n.toUInt8 = true →
    (Char.ofNat n).toNat = n ∧ n < 0x80 ∧ Char.ofNat n ≠ '%' ∧ Char.ofNat n ≠ '.' := by
  decide +kernel

theorem hexDigit?_digit : ∀ n < 16, (digit n).hexDigit? = some n := by decide

theorem isPlain_spec {b : UInt8} (h : isPlain b = true) :
    (Char.ofNat b.toNat).toNat = b.toNat ∧ b.toNat < 0x80 ∧ Char.ofNat b.toNat ≠ '%' ∧
      Char.ofNat b.toNat ≠ '.' :=
  isPlain_toUInt8 b.toNat b.toNat_lt (by rwa [Nat.toUInt8_eq, UInt8.ofNat_toNat])

/-- What is written for a byte reads back as that byte. -/
theorem bytes?_escapeByte (b : UInt8) (rest : Text) :
    bytes? (escapeByte b ++ rest) = (bytes? rest).map (b :: ·) := by
  rw [escapeByte]
  split
  · next h =>
    obtain ⟨hchar, hlow, hpercent, -⟩ := isPlain_spec h
    have hne : CodePoint.char (Char.ofNat b.toNat) ≠ .char '%' := by simpa using hpercent
    have hnat : (CodePoint.char (Char.ofNat b.toNat)).toNat = b.toNat := hchar
    rw [List.singleton_append, bytes?, hnat, Nat.toUInt8_eq, UInt8.ofNat_toNat]
    · rw [if_neg (by simp [hpercent]; omega)]
    · exact fun _ _ _ h => absurd h hne
  · have hb := b.toNat_lt
    have hhigh := hexDigit?_digit (b.toNat / 16) (by omega)
    have hlow := hexDigit?_digit (b.toNat % 16) (by omega)
    have hall : b.toNat / 16 * 16 + b.toNat % 16 = b.toNat := by omega
    simp only [List.cons_append, List.nil_append, bytes?, hhigh, hlow, Option.bind_eq_bind,
      Option.bind_some, hall, Nat.toUInt8_eq, UInt8.ofNat_toNat]
    cases bytes? rest <;> rfl

/-! ## Whole keys -/

theorem bytes?_flatMap : ∀ bytes : List UInt8, bytes? (bytes.flatMap escapeByte) = some bytes
  | [] => rfl
  | b :: bytes => by
    rw [List.flatMap_cons, bytes?_escapeByte, bytes?_flatMap bytes]
    rfl

theorem escape_ok {id key : Text} (h : escape id = .ok key) :
    id ≠ [] ∧ ∃ bytes, id.toUtf8 = .ok bytes ∧ bytes.flatMap escapeByte = key := by
  rw [escape] at h
  split at h
  · cases h
  · next hid =>
    split at h
    · next bytes hbytes => exact ⟨by simpa using hid, bytes, hbytes, Except.ok.inj h⟩
    · cases h

theorem escape_encodable {id : Text} (hid : id ≠ []) (h : id.Encodable) :
    ∃ key, escape id = .ok key := by
  obtain ⟨bytes, hbytes⟩ := Text.toUtf8_ok h
  refine ⟨bytes.flatMap escapeByte, ?_⟩
  rw [escape, if_neg (by simpa using hid), hbytes]

/-- Different identifiers have different keys. -/
theorem escape_injective {id id' key : Text} (h : escape id = .ok key)
    (h' : escape id' = .ok key) : id = id' := by
  obtain ⟨-, bytes, hbytes, hkey⟩ := escape_ok h
  obtain ⟨-, bytes', hbytes', hkey'⟩ := escape_ok h'
  have hsame : some bytes = some bytes' := by
    rw [← bytes?_flatMap, ← bytes?_flatMap, hkey, hkey']
  rw [Option.some.inj hsame] at hbytes
  exact Except.ok.inj ((Text.ofUtf8_toUtf8 hbytes).symm.trans (Text.ofUtf8_toUtf8 hbytes'))

theorem escapeByte_head (b : UInt8) : ∃ p rest, escapeByte b = p :: rest ∧ p ≠ .char '.' := by
  rw [escapeByte]
  split
  · next h =>
    obtain ⟨-, -, -, hpoint⟩ := isPlain_spec h
    exact ⟨_, [], rfl, by simpa using hpoint⟩
  · exact ⟨_, _, rfl, by decide⟩

/-- No key is empty or starts with a point. -/
theorem escape_head {id key : Text} (h : escape id = .ok key) :
    ∃ p rest, key = p :: rest ∧ p ≠ .char '.' := by
  obtain ⟨hid, bytes, hbytes, rfl⟩ := escape_ok h
  cases bytes with
  | nil => exact absurd (Except.ok.inj (Text.ofUtf8_toUtf8 hbytes)).symm hid
  | cons b bytes =>
    obtain ⟨p, rest, hb, hp⟩ := escapeByte_head b
    exact ⟨p, rest ++ bytes.flatMap escapeByte, by rw [List.flatMap_cons, hb]; rfl, hp⟩

theorem unescape_of_escape {id key : Text} (h : escape id = .ok key) : unescape key = .ok id := by
  obtain ⟨-, bytes, hbytes, hkey⟩ := escape_ok h
  have hread : (bytes? key).bind (fun bytes => (Text.ofUtf8 bytes).toOption) = some id := by
    rw [← hkey, bytes?_flatMap, Option.bind_some, Text.ofUtf8_toUtf8 hbytes]
    rfl
  unfold unescape
  simp only [hread, h, if_true]

theorem escape_of_unescape {id key : Text} (h : unescape key = .ok id) : escape id = .ok key := by
  rw [unescape] at h
  split at h
  · cases h
  · next id' hid =>
    split at h
    · next written hwritten =>
      split at h
      · next hkey => rw [← Except.ok.inj h, hwritten, hkey]
      · cases h
    · cases h

end Cabinet.Key
