import Cabinet.Text.Utf8
import Cabinet.Proofs.Store.Action

/-!
# Reading back UTF-8

* `Text.Encodable`, `Text.toUtf8_ok` : a text without lone surrogates has bytes;
* `Text.ofUtf8_toUtf8`, `Text.toUtf8_ofUtf8` : the bytes of a text stand for that text, and bytes that
  stand for a text are its bytes;
* `Text.toUtf8_ok_iff`, `Text.isValidUTF8_iff`, `Text.ofUtf8_ok_iff` : the bytes of texts, which are the
  bytes that can be read, are the byte sequences that are valid UTF-8 by the library's own definition;
* `Text.withLineFeeds_eq` : a text without carriage returns has its lines ended as they should be.
-/

namespace Cabinet

namespace Utf8

/-! ## Sequences of each length -/

theorem toNat_toUInt8 {n : Nat} (h : n < 256) : n.toUInt8.toNat = n := by
  rw [Nat.toUInt8_eq, UInt8.toNat_ofNat', Nat.mod_eq_of_lt h]

theorem toUInt8_lt {n : Nat} (h : n < 256) (b : UInt8) : n.toUInt8 < b ↔ n < b.toNat := by
  rw [UInt8.lt_iff_toNat_lt, toNat_toUInt8 h]

theorem le_toUInt8 {n : Nat} (h : n < 256) (b : UInt8) : b ≤ n.toUInt8 ↔ b.toNat ≤ n := by
  rw [UInt8.le_iff_toNat_le, toNat_toUInt8 h]

theorem toUInt8_beq {n : Nat} (h : n < 256) (b : UInt8) :
    (n.toUInt8 == b) = decide (n = b.toNat) := by
  rw [Bool.eq_iff_iff, beq_iff_eq, decide_eq_true_eq, ← UInt8.toNat_inj, toNat_toUInt8 h]

variable {a b c d : UInt8} {rest : List UInt8} {position : Nat}

theorem decodeFrom_one (ha : a < 0x80) :
    decodeFrom position (a :: rest) =
      (decodeFrom (position + 1) rest).map (.char (Char.ofNat a.toNat) :: ·) := by
  rw [decodeFrom.eq_def]
  simp only [if_pos ha]
  rfl

theorem decodeFrom_two (h1 : ¬ a < 0xC2) (h2 : a < 0xE0) (hb : isTail b = true) :
    decodeFrom position (a :: b :: rest) =
      (decodeFrom (position + 2) rest).map (two a b :: ·) := by
  have h0 : ¬ a < 0x80 := fun h => h1 (UInt8.lt_trans h (by decide))
  rw [decodeFrom.eq_def]
  simp only [if_neg h0, if_neg h1, if_pos h2, if_pos hb]
  rfl

theorem decodeFrom_three (h1 : ¬ a < 0xE0) (h2 : a < 0xF0) (hb : mayFollow a b = true)
    (hc : isTail c = true) : decodeFrom position (a :: b :: c :: rest) =
      (decodeFrom (position + 3) rest).map (three a b c :: ·) := by
  have h0 : ¬ a < 0xC2 := fun h => h1 (UInt8.lt_trans h (by decide))
  have h0' : ¬ a < 0x80 := fun h => h0 (UInt8.lt_trans h (by decide))
  rw [decodeFrom.eq_def]
  simp only [if_neg h0', if_neg h0, if_neg h1, if_pos h2, hb, hc, Bool.not_true,
    Bool.false_eq_true, if_false]
  rfl

theorem decodeFrom_four (h1 : ¬ a < 0xF0) (h2 : a < 0xF5) (hb : mayFollow a b = true)
    (hc : isTail c = true) (hd : isTail d = true) :
    decodeFrom position (a :: b :: c :: d :: rest) =
      (decodeFrom (position + 4) rest).map (four a b c d :: ·) := by
  have h0 : ¬ a < 0xE0 := fun h => h1 (UInt8.lt_trans h (by decide))
  have h0' : ¬ a < 0xC2 := fun h => h0 (UInt8.lt_trans h (by decide))
  have h0'' : ¬ a < 0x80 := fun h => h0' (UInt8.lt_trans h (by decide))
  rw [decodeFrom.eq_def]
  simp only [if_neg h0'', if_neg h0', if_neg h0, if_neg h1, if_pos h2, hb, hc, hd, Bool.not_true,
    Bool.false_eq_true, if_false]
  rfl

/-! ## One character -/

/-- A continuing byte. -/
theorem isTail_toUInt8 (k : Nat) : isTail (0x80 + k % 0x40).toUInt8 = true := by
  have hk : 0x80 + k % 0x40 < 256 := by omega
  rw [isTail, Bool.and_eq_true, decide_eq_true_eq, decide_eq_true_eq, le_toUInt8 hk, toUInt8_lt hk]
  exact ⟨by simp, by change _ < 0xC0; omega⟩

theorem tailBits_toUInt8 (k : Nat) : tailBits (0x80 + k % 0x40).toUInt8 = k % 0x40 := by
  rw [tailBits, toNat_toUInt8 (by omega)]
  omega

/-- What may follow the first byte of a longer character, by the number of that byte. -/
theorem mayFollow_toUInt8 {m : Nat} (hm : m < 256) (k : Nat) (hE0 : m = 0xE0 → 0x20 ≤ k % 0x40)
    (hED : m = 0xED → k % 0x40 < 0x20) (hF0 : m = 0xF0 → 0x10 ≤ k % 0x40)
    (hF4 : m = 0xF4 → k % 0x40 < 0x10) :
    mayFollow m.toUInt8 (0x80 + k % 0x40).toUInt8 = true := by
  have hk : 0x80 + k % 0x40 < 256 := by omega
  simp only [mayFollow, isTail_toUInt8, toUInt8_beq hm, toUInt8_lt hk, le_toUInt8 hk,
    Bool.true_and, decide_eq_true_eq]
  change (if m = 0xE0 then decide (0xA0 ≤ _) else if m = 0xED then decide (_ < 0xA0)
    else if m = 0xF0 then decide (0x90 ≤ _) else if m = 0xF4 then decide (_ < 0x90) else true) = true
  split
  · next h => have := hE0 h; simpa using (by omega : 0xA0 ≤ 0x80 + k % 0x40)
  split
  · next h => have := hED h; simpa using (by omega : 0x80 + k % 0x40 < 0xA0)
  split
  · next h => have := hF0 h; simpa using (by omega : 0x90 ≤ 0x80 + k % 0x40)
  split
  · next h => have := hF4 h; simpa using (by omega : 0x80 + k % 0x40 < 0x90)
  · rfl

/-- The bytes of a character stand for it, whatever follows them. -/
theorem decodeFrom_encodeChar (c : Char) (rest : List UInt8) (position : Nat) :
    ∃ next, decodeFrom position (encodeChar c ++ rest) =
      (decodeFrom next rest).map (.char c :: ·) := by
  have hvalid : c.toNat < 0xD800 ∨ 0xDFFF < c.toNat ∧ c.toNat < 0x110000 := c.valid
  have hc : Char.ofNat c.toNat = c := Char.ofNat_toNat c
  generalize hn : c.toNat = n at hvalid hc
  simp only [encodeChar, hn]
  by_cases h1 : n < 0x80
  · refine ⟨position + 1, ?_⟩
    rw [if_pos h1, List.singleton_append, decodeFrom_one ((toUInt8_lt (by omega) _).mpr h1),
      toNat_toUInt8 (by omega), hc]
  by_cases h2 : n < 0x800
  · refine ⟨position + 2, ?_⟩
    have ha : 0xC0 + n / 0x40 < 256 := by omega
    rw [if_neg h1, if_pos h2]
    have htwo : two (0xC0 + n / 0x40).toUInt8 (0x80 + n % 0x40).toUInt8 = .char c := by
      rw [two, tailBits_toUInt8, toNat_toUInt8 ha, ← hc]
      congr 2
      omega
    refine (decodeFrom_two ?_ ?_ (isTail_toUInt8 n)).trans (by rw [htwo]; rfl)
    · rw [toUInt8_lt ha]
      change ¬ _ < 0xC2
      omega
    · rw [toUInt8_lt ha]
      change _ < 0xE0
      omega
  by_cases h3 : n < 0x10000
  · refine ⟨position + 3, ?_⟩
    have ha : 0xE0 + n / 0x1000 < 256 := by omega
    have hb : 0x80 + n / 0x40 % 0x40 < 256 := by omega
    rw [if_neg h1, if_neg h2, if_pos h3]
    have hthree : three (0xE0 + n / 0x1000).toUInt8 (0x80 + n / 0x40 % 0x40).toUInt8
        (0x80 + n % 0x40).toUInt8 = .char c := by
      rw [three, tailBits_toUInt8, tailBits_toUInt8, toNat_toUInt8 ha, ← hc]
      congr 2
      omega
    have hfollow : mayFollow (0xE0 + n / 0x1000).toUInt8 (0x80 + n / 0x40 % 0x40).toUInt8 =
        true := by
      refine mayFollow_toUInt8 ha (n / 0x40) (fun h => ?_) (fun h => ?_) ?_ ?_ <;> omega
    refine (decodeFrom_three ?_ ?_ hfollow (isTail_toUInt8 n)).trans (by rw [hthree]; rfl)
    · rw [toUInt8_lt ha]
      change ¬ _ < 0xE0
      omega
    · rw [toUInt8_lt ha]
      change _ < 0xF0
      omega
  · refine ⟨position + 4, ?_⟩
    have ha : 0xF0 + n / 0x40000 < 256 := by omega
    rw [if_neg h1, if_neg h2, if_neg h3]
    have hfour : four (0xF0 + n / 0x40000).toUInt8 (0x80 + n / 0x1000 % 0x40).toUInt8
        (0x80 + n / 0x40 % 0x40).toUInt8 (0x80 + n % 0x40).toUInt8 = .char c := by
      rw [four, tailBits_toUInt8, tailBits_toUInt8, tailBits_toUInt8, toNat_toUInt8 ha, ← hc]
      congr 2
      omega
    have hfollow : mayFollow (0xF0 + n / 0x40000).toUInt8 (0x80 + n / 0x1000 % 0x40).toUInt8 =
        true := by
      refine mayFollow_toUInt8 ha (n / 0x1000) ?_ ?_ (fun h => ?_) (fun h => ?_) <;> omega
    refine (decodeFrom_four ?_ ?_ hfollow (isTail_toUInt8 _) (isTail_toUInt8 n)).trans
      (by rw [hfour]; rfl)
    · rw [toUInt8_lt ha]
      change ¬ _ < 0xF0
      omega
    · rw [toUInt8_lt ha]
      change _ < 0xF5
      omega

/-- The bytes of a character are those that the library has for it. -/
theorem encodeChar_eq (c : Char) : encodeChar c = String.utf8EncodeChar c := by
  have hvalid : c.toNat < 0xD800 ∨ 0xDFFF < c.toNat ∧ c.toNat < 0x110000 := c.valid
  have hval : c.val.toNat = c.toNat := rfl
  simp only [encodeChar, String.utf8EncodeChar, hval]
  generalize c.toNat = n at hvalid
  have htail (k : Nat) : (0x80 + k % 0x40).toUInt8 = UInt8.ofNat (k % 64 + 128) := by
    rw [Nat.add_comm]
  have hlead {a b : Nat} (h : a = b) : a.toUInt8 = UInt8.ofNat b := by
    rw [h]
  by_cases h1 : n < 0x80
  · rw [if_pos h1, if_pos (by omega)]
  by_cases h2 : n < 0x800
  · rw [if_neg h1, if_pos h2, if_neg (by omega), if_pos (by omega), htail,
      hlead (by omega : 0xC0 + n / 0x40 = n / 64 % 32 + 192)]
  by_cases h3 : n < 0x10000
  · rw [if_neg h1, if_neg h2, if_pos h3, if_neg (by omega), if_neg (by omega), if_pos (by omega),
      htail, htail, hlead (by omega : 0xE0 + n / 0x1000 = n / 4096 % 16 + 224)]
  · rw [if_neg h1, if_neg h2, if_neg h3, if_neg (by omega), if_neg (by omega), if_neg (by omega),
      htail, htail, htail, hlead (by omega : 0xF0 + n / 0x40000 = n / 262144 % 8 + 240)]

/-- A text that has bytes is one of characters, and its bytes are theirs. -/
theorem encodeFrom_ok_iff : ∀ {t : Text} {position : Nat} {bytes : List UInt8},
    encodeFrom position t = .ok bytes ↔
      ∃ cs : List Char, t = cs.map .char ∧ bytes = cs.flatMap String.utf8EncodeChar
  | [], position, bytes => by
    constructor
    · intro h
      exact ⟨[], rfl, (Except.ok.inj h).symm⟩
    · rintro ⟨cs, ht, rfl⟩
      rw [List.map_eq_nil_iff.mp ht.symm]
      rfl
  | .char c :: t, position, bytes => by
    constructor
    · intro h
      obtain ⟨rest, hrest, hbytes⟩ := ok_of_bind h
      obtain ⟨cs, rfl, rfl⟩ := encodeFrom_ok_iff.mp hrest
      refine ⟨c :: cs, rfl, ?_⟩
      rw [List.flatMap_cons, ← encodeChar_eq]
      exact (Except.ok.inj hbytes).symm
    · rintro ⟨cs, ht, rfl⟩
      cases cs with
      | nil => cases ht
      | cons c' cs =>
        obtain ⟨hc, hcs⟩ := List.cons.inj ht
        obtain rfl := CodePoint.char.inj hc
        have hrest : encodeFrom (position + 1) t = _ := encodeFrom_ok_iff.mpr ⟨cs, hcs, rfl⟩
        rw [encodeFrom, hrest, List.flatMap_cons, ← encodeChar_eq]
        rfl
  | .surrogate u :: t, position, bytes => by
    constructor
    · intro h
      cases h
    · rintro ⟨cs, ht, -⟩
      cases cs with
      | nil => cases ht
      | cons c cs => cases (List.cons.inj ht).1

/-- A text of characters has bytes. -/
theorem encodeFrom_ok : ∀ (t : Text) (position : Nat), (∀ p ∈ t, ∃ c, p = .char c) →
    ∃ bytes, encodeFrom position t = .ok bytes
  | [], _, _ => ⟨[], rfl⟩
  | p :: t, position, h => by
    obtain ⟨⟨c, rfl⟩, ht⟩ := List.forall_mem_cons.mp h
    obtain ⟨bytes, hbytes⟩ := encodeFrom_ok t (position + 1) ht
    exact ⟨encodeChar c ++ bytes, by rw [encodeFrom, hbytes]; rfl⟩

/-- The bytes of a text stand for it. -/
theorem decodeFrom_encodeFrom : ∀ (t : Text) (p q : Nat) {bytes : List UInt8},
    encodeFrom p t = .ok bytes → decodeFrom q bytes = .ok t
  | [], p, q, bytes, h => by
    obtain rfl := Except.ok.inj h
    rfl
  | .char c :: t, p, q, bytes, h => by
    obtain ⟨rest, hrest, hbytes⟩ := ok_of_bind h
    obtain rfl := Except.ok.inj hbytes
    obtain ⟨next, hnext⟩ := decodeFrom_encodeChar c rest q
    rw [hnext, decodeFrom_encodeFrom t (p + 1) next hrest]
    rfl

/-! ## Bytes that are read -/

theorem toUInt8_eq {n : Nat} {b : UInt8} (h : n = b.toNat) : n.toUInt8 = b := by
  rw [h, Nat.toUInt8_eq, UInt8.ofNat_toNat]

theorem toNat_ofNat {n : Nat} (h : n < 0xD800 ∨ 0xDFFF < n ∧ n < 0x110000) :
    (Char.ofNat n).toNat = n := by
  rw [Char.toNat_ofNat, if_pos h]

theorem isTail_iff : isTail b = true ↔ 0x80 ≤ b.toNat ∧ b.toNat < 0xC0 := by
  rw [isTail, Bool.and_eq_true, decide_eq_true_eq, decide_eq_true_eq, UInt8.le_iff_toNat_le,
    UInt8.lt_iff_toNat_lt]
  rfl

/-- What may follow a byte, by the numbers of both. -/
theorem bounds_of_mayFollow (h : mayFollow a b = true) : (0x80 ≤ b.toNat ∧ b.toNat < 0xC0) ∧
    (a.toNat = 0xE0 → 0xA0 ≤ b.toNat) ∧ (a.toNat = 0xED → b.toNat < 0xA0) ∧
    (a.toNat = 0xF0 → 0x90 ≤ b.toNat) ∧ (a.toNat = 0xF4 → b.toNat < 0x90) := by
  rw [mayFollow, Bool.and_eq_true, isTail_iff] at h
  obtain ⟨htail, h⟩ := h
  refine ⟨htail, fun ha => ?_, fun ha => ?_, fun ha => ?_, fun ha => ?_⟩
  · obtain rfl : a = 0xE0 := UInt8.toNat_inj.mp ha
    exact of_decide_eq_true h
  · obtain rfl : a = 0xED := UInt8.toNat_inj.mp ha
    exact of_decide_eq_true h
  · obtain rfl : a = 0xF0 := UInt8.toNat_inj.mp ha
    exact of_decide_eq_true h
  · obtain rfl : a = 0xF4 := UInt8.toNat_inj.mp ha
    exact of_decide_eq_true h

theorem encodeChar_one (ha : a < 0x80) : encodeChar (Char.ofNat a.toNat) = [a] := by
  have hlt : a.toNat < 0x80 := UInt8.lt_iff_toNat_lt.mp ha
  rw [encodeChar, toNat_ofNat (.inl (by omega)), if_pos hlt, toUInt8_eq rfl]

theorem encodeChar_two (h1 : ¬ a < 0xC2) (h2 : a < 0xE0) (hb : isTail b = true) :
    ∃ c, two a b = .char c ∧ encodeChar c = [a, b] := by
  refine ⟨_, rfl, ?_⟩
  rw [UInt8.lt_iff_toNat_lt] at h1 h2
  change ¬ _ < 0xC2 at h1
  change _ < 0xE0 at h2
  have hb' := isTail_iff.mp hb
  rw [encodeChar, tailBits, toNat_ofNat (.inl (by omega))]
  rw [if_neg (by omega), if_pos (by omega), toUInt8_eq (b := a) (by omega),
    toUInt8_eq (b := b) (by omega)]

theorem encodeChar_three (h1 : ¬ a < 0xE0) (h2 : a < 0xF0) (hb : mayFollow a b = true)
    (hc : isTail c = true) : ∃ x, three a b c = .char x ∧ encodeChar x = [a, b, c] := by
  refine ⟨_, rfl, ?_⟩
  rw [UInt8.lt_iff_toNat_lt] at h1 h2
  change ¬ _ < 0xE0 at h1
  change _ < 0xF0 at h2
  obtain ⟨hb', hE0, hED, -, -⟩ := bounds_of_mayFollow hb
  have hc' := isTail_iff.mp hc
  rw [encodeChar, tailBits, tailBits, toNat_ofNat (by omega)]
  rw [if_neg (by omega), if_neg (by omega), if_pos (by omega), toUInt8_eq (b := a) (by omega),
    toUInt8_eq (b := b) (by omega), toUInt8_eq (b := c) (by omega)]

theorem encodeChar_four (h1 : ¬ a < 0xF0) (h2 : a < 0xF5) (hb : mayFollow a b = true)
    (hc : isTail c = true) (hd : isTail d = true) :
    ∃ x, four a b c d = .char x ∧ encodeChar x = [a, b, c, d] := by
  refine ⟨_, rfl, ?_⟩
  rw [UInt8.lt_iff_toNat_lt] at h1 h2
  change ¬ _ < 0xF0 at h1
  change _ < 0xF5 at h2
  obtain ⟨hb', -, -, hF0, hF4⟩ := bounds_of_mayFollow hb
  have hc' := isTail_iff.mp hc
  have hd' := isTail_iff.mp hd
  rw [encodeChar, tailBits, tailBits, tailBits, toNat_ofNat (by omega)]
  rw [if_neg (by omega), if_neg (by omega), if_neg (by omega), toUInt8_eq (b := a) (by omega),
    toUInt8_eq (b := b) (by omega), toUInt8_eq (b := c) (by omega), toUInt8_eq (b := d) (by omega)]

/-- Bytes that stand for a text start with the bytes of a character, and those behind it stand for the rest
of the text. -/
theorem decodeFrom_ok {t : Text} (h : decodeFrom position (a :: rest) = .ok t) :
    ∃ c more next t', a :: rest = encodeChar c ++ more ∧ t = .char c :: t' ∧
      decodeFrom next more = .ok t' := by
  rw [decodeFrom.eq_def] at h
  simp only at h
  split at h
  · next ha =>
    obtain ⟨t', ht', ht⟩ := ok_of_bind h
    exact ⟨_, rest, _, t', by rw [encodeChar_one ha]; rfl, (Except.ok.inj ht).symm, ht'⟩
  split at h
  · cases h
  next hC2 =>
  split at h
  · next hE0 =>
    split at h
    · cases h
    next b more =>
    split at h
    · next hb =>
      obtain ⟨c, hc, hbytes⟩ := encodeChar_two hC2 hE0 hb
      obtain ⟨t', ht', ht⟩ := ok_of_bind h
      exact ⟨c, more, _, t', by rw [hbytes]; rfl, by rw [← hc]; exact (Except.ok.inj ht).symm, ht'⟩
    · cases h
  next hE0 =>
  split at h
  · next hF0 =>
    split at h
    · cases h
    · split at h <;> cases h
    next b c more =>
    split at h
    · cases h
    next hb =>
    split at h
    · cases h
    next hc =>
    rw [Bool.not_eq_true', Bool.not_eq_false] at hb hc
    obtain ⟨x, hx, hbytes⟩ := encodeChar_three hE0 hF0 hb hc
    obtain ⟨t', ht', ht⟩ := ok_of_bind h
    exact ⟨x, more, _, t', by rw [hbytes]; rfl, by rw [← hx]; exact (Except.ok.inj ht).symm, ht'⟩
  next hF0 =>
  split at h
  · next hF5 =>
    split at h
    · cases h
    · split at h <;> cases h
    · split at h
      · cases h
      · split at h <;> cases h
    next b c d more =>
    split at h
    · cases h
    next hb =>
    split at h
    · cases h
    next hc =>
    split at h
    · cases h
    next hd =>
    rw [Bool.not_eq_true', Bool.not_eq_false] at hb hc hd
    obtain ⟨x, hx, hbytes⟩ := encodeChar_four hF0 hF5 hb hc hd
    obtain ⟨t', ht', ht⟩ := ok_of_bind h
    exact ⟨x, more, _, t', by rw [hbytes]; rfl, by rw [← hx]; exact (Except.ok.inj ht).symm, ht'⟩
  · cases h

theorem length_encodeChar_pos (c : Char) : 0 < (encodeChar c).length := by
  rw [encodeChar]
  split
  · exact Nat.succ_pos _
  · split
    · exact Nat.succ_pos _
    · split <;> exact Nat.succ_pos _

/-- Bytes that stand for a text are its bytes. By induction on their number, character by character. -/
theorem encodeFrom_decodeFrom (n : Nat) : ∀ {bytes : List UInt8}, bytes.length ≤ n →
    ∀ {p q : Nat} {t : Text}, decodeFrom q bytes = .ok t → encodeFrom p t = .ok bytes := by
  induction n with
  | zero =>
    intro bytes hlength p q t h
    obtain rfl := List.length_eq_zero_iff.mp (Nat.le_zero.mp hlength)
    obtain rfl := Except.ok.inj h
    rfl
  | succ n ih =>
    intro bytes hlength p q t h
    cases bytes with
    | nil =>
      obtain rfl := Except.ok.inj h
      rfl
    | cons a rest =>
      obtain ⟨c, more, next, t', hbytes, rfl, hmore⟩ := decodeFrom_ok h
      have hshorter : more.length ≤ n := by
        have hlong := congrArg List.length hbytes
        rw [List.length_append] at hlong
        have hpos := length_encodeChar_pos c
        omega
      rw [encodeFrom, ih hshorter hmore, hbytes]
      rfl

end Utf8

namespace Text

/-- A text without lone surrogates. -/
def Encodable (t : Text) : Prop := ∀ p ∈ t, ∃ c, p = .char c

theorem encodable_toText (s : String) : Encodable s.toText := fun _ hp =>
  (List.mem_map.mp hp).imp fun _ hc => hc.2.symm

theorem Encodable.append {t u : Text} (ht : t.Encodable) (hu : u.Encodable) : (t ++ u).Encodable :=
  List.forall_mem_append.mpr ⟨ht, hu⟩

theorem toUtf8_ok {t : Text} (h : t.Encodable) : ∃ bytes, t.toUtf8 = .ok bytes :=
  Utf8.encodeFrom_ok t 0 h

theorem toUtf8_ok_iff {t : Text} {bytes : List UInt8} : t.toUtf8 = .ok bytes ↔
    ∃ cs : List Char, t = cs.map .char ∧ bytes = cs.flatMap String.utf8EncodeChar :=
  Utf8.encodeFrom_ok_iff

/-- A byte sequence is valid UTF-8 if it is what some text is encoded as. -/
theorem isValidUTF8_iff {bytes : List UInt8} :
    bytes.toByteArray.IsValidUTF8 ↔ ∃ t : Text, t.toUtf8 = .ok bytes := by
  constructor
  · rintro ⟨cs, hcs⟩
    exact ⟨cs.map .char, toUtf8_ok_iff.mpr ⟨cs, rfl, List.toByteArray_inj.mp hcs⟩⟩
  · rintro ⟨t, ht⟩
    obtain ⟨cs, -, rfl⟩ := toUtf8_ok_iff.mp ht
    exact ⟨cs, rfl⟩

theorem ofUtf8_toUtf8 {t : Text} {bytes : List UInt8} (h : t.toUtf8 = .ok bytes) :
    ofUtf8 bytes = .ok t :=
  Utf8.decodeFrom_encodeFrom t 0 0 h

theorem toUtf8_ofUtf8 {bytes : List UInt8} {t : Text} (h : ofUtf8 bytes = .ok t) :
    t.toUtf8 = .ok bytes :=
  Utf8.encodeFrom_decodeFrom _ le_rfl h

/-- The byte sequences that are read as a text are those that are valid UTF-8. -/
theorem ofUtf8_ok_iff {bytes : List UInt8} :
    (∃ t, ofUtf8 bytes = .ok t) ↔ bytes.toByteArray.IsValidUTF8 := by
  rw [isValidUTF8_iff]
  exact ⟨fun ⟨t, h⟩ => ⟨t, toUtf8_ofUtf8 h⟩, fun ⟨t, h⟩ => ⟨t, ofUtf8_toUtf8 h⟩⟩

theorem withLineFeeds_eq : ∀ {t : Text}, .char '\r' ∉ t → t.withLineFeeds = t
  | [], _ => rfl
  | p :: t, h => by
    obtain ⟨hp, ht⟩ := not_or.mp (mt List.mem_cons.mpr h)
    rw [withLineFeeds, withLineFeeds_eq ht]
    · rintro rest rfl
      exact absurd rfl hp
    · rintro rfl
      exact absurd rfl hp

end Text

end Cabinet
