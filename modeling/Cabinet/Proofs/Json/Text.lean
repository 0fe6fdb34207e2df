import Mathlib
import Cabinet.Json.Reader
import Cabinet.Json.Writer

/-!
# Reading text back

* `Json.readText_number`, `Json.readText_pair` : an escape by four digits, and two that make up a character;
* `Json.escape_cases`, `Json.readText_escape` : one code point is read from its own escape;
* `Json.readText_flatMap` : a whole text is read up to the closing quote.
-/

namespace Cabinet.Json

variable (opening : Nat)

/-- An escape of two characters. -/
theorem readText_simple {p q : CodePoint} (t : Text) (h : simpleEscape? p = some q) :
    readText opening (.char '\\' :: p :: t) = push q (readText opening t) := by
  have hu : p ≠ .char 'u' := by
    rintro rfl
    cases h
  rw [readText.eq_def]
  split
  · next heq => cases heq
  · next heq => cases heq
  · next heq => cases heq
  · next heq =>
    cases heq
    exact absurd rfl hu
  · next heq =>
    cases heq
    exact absurd rfl hu
  · next heq =>
    obtain ⟨-, htail⟩ := List.cons.inj heq
    obtain ⟨rfl, rfl⟩ := List.cons.inj htail
    simp only [h]
  · next hother heq =>
    cases heq
    exact absurd rfl (hother p t rfl)

/-- A code point that stands for itself. -/
theorem readText_plain {p : CodePoint} (t : Text) (hquote : p ≠ .char '"')
    (hbackslash : p ≠ .char '\\') (hcontrol : 0x20 ≤ p.toNat) :
    readText opening (p :: t) = push p (readText opening t) := by
  rw [readText.eq_def]
  split
  · next heq => cases heq
  · next heq =>
    cases heq
    exact absurd rfl hquote
  · next heq =>
    cases heq
    exact absurd rfl hbackslash
  · next heq =>
    cases heq
    exact absurd rfl hbackslash
  · next heq =>
    cases heq
    exact absurd rfl hbackslash
  · next heq =>
    cases heq
    exact absurd rfl hbackslash
  · next heq =>
    cases heq
    rw [if_neg (by omega)]

/-- What follows does not begin with an escape that makes up a character together with one before it. -/
def Alone (n : Nat) (t : Text) : Prop :=
  ∀ e f g h next after, t = .char '\\' :: .char 'u' :: e :: f :: g :: h :: next :: after →
    ∃ m, hexNumber? e f g h = some m ∧ Text.joinSurrogates? n m = none

/-- An escape of four hexadecimal digits. Only the first half of a surrogate pair may belong to what
follows. -/
theorem readText_number {a b c d : CodePoint} {n : Nat} {t : Text} (h : hexNumber? a b c d = some n)
    (hn : 0xD800 ≤ n → n < 0xDC00 → Alone n t) (ht : t ≠ []) :
    readText opening (.char '\\' :: .char 'u' :: a :: b :: c :: d :: t) =
      push (.ofNat n) (readText opening t) := by
  rw [readText.eq_def]
  simp only [h]
  split
  · exact absurd rfl ht
  · split
    · next hhigh =>
      simp only [Bool.and_eq_true, decide_eq_true_eq] at hhigh
      obtain ⟨m, hm, hjoin⟩ := hn hhigh.1 hhigh.2 _ _ _ _ _ _ rfl
      rw [hm]
      simp only [hjoin]
    · rfl
  · rfl

/-- Two escapes that make up a character. -/
theorem readText_pair {a b c d e f g h : CodePoint} {n m : Nat} {joined : Char} {t : Text}
    (hn : hexNumber? a b c d = some n) (hm : hexNumber? e f g h = some m)
    (hjoin : Text.joinSurrogates? n m = some joined) (ht : t ≠ []) :
    readText opening (.char '\\' :: .char 'u' :: a :: b :: c :: d :: .char '\\' :: .char 'u' :: e :: f ::
      g :: h :: t) = push (.char joined) (readText opening t) := by
  obtain ⟨next, after, rfl⟩ := List.exists_cons_of_ne_nil ht
  have hhigh : (decide (0xD800 ≤ n) && decide (n < 0xDC00)) = true := by
    unfold Text.joinSurrogates? at hjoin
    split at hjoin
    · next hrange => simp [hrange.1, hrange.2.1]
    · cases hjoin
  rw [readText.eq_def]
  simp only [hn, hm, hhigh, hjoin, if_true]

/-! ## One code point -/

theorem hexDigit?_digitChar : ∀ k < 16, (CodePoint.char k.digitChar).hexDigit? = some k := by decide

theorem hexNumber?_hex {n : Nat} (hn : n < 0x10000) :
    hexNumber? (.char (n / 16 / 16 / 16 % 16).digitChar) (.char (n / 16 / 16 % 16).digitChar)
      (.char (n / 16 % 16).digitChar) (.char (n % 16).digitChar) = some n := by
  have hdigit (k : Nat) : (CodePoint.char (k % 16).digitChar).hexDigit? = some (k % 16) :=
    hexDigit?_digitChar _ (Nat.mod_lt k (by decide))
  simp only [hexNumber?, hdigit]
  refine congrArg some ?_
  show ((n / 16 / 16 / 16 % 16 * 16 + n / 16 / 16 % 16) * 16 + n / 16 % 16) * 16 + n % 16 = n
  omega

theorem ofNat_toNat (p : CodePoint) : CodePoint.ofNat p.toNat = p := by
  cases p with
  | char c =>
    have hc : c.toNat < 0xD800 ∨ 0xDFFF < c.toNat ∧ c.toNat < 0x110000 := c.valid
    show CodePoint.ofNat c.toNat = _
    unfold CodePoint.ofNat
    rw [dif_neg (by omega), if_pos (by omega), Char.ofNat_toNat]
  | surrogate unit =>
    have hu := unit.isLt
    show CodePoint.ofNat (0xD800 + unit.val) = _
    unfold CodePoint.ofNat
    rw [dif_pos ⟨by omega, by omega⟩]
    simp

/-- A number of the first plane is escaped by its four digits. -/
theorem escapeNumber_small {n : Nat} (hn : n < 0x10000) : ∃ a b c d,
    escapeNumber n = [.char '\\', .char 'u', a, b, c, d] ∧ hexNumber? a b c d = some n :=
  ⟨_, _, _, _, by rw [escapeNumber, if_pos hn]; rfl, hexNumber?_hex hn⟩

/-- How a code point is escaped: by one more character, by its number, or not at all. -/
theorem escape_cases (asciiOnly : Bool) (p : CodePoint) :
    (∃ q, escape asciiOnly p = [.char '\\', q] ∧ simpleEscape? q = some p) ∨
    (escape asciiOnly p = escapeNumber p.toNat ∧ (p.toNat < 0x20 ∨ asciiOnly = true)) ∨
    (escape asciiOnly p = [p] ∧ p ≠ .char '"' ∧ p ≠ .char '\\' ∧ 0x20 ≤ p.toNat) := by
  unfold escape
  split
  · exact .inl ⟨_, rfl, rfl⟩
  · exact .inl ⟨_, rfl, rfl⟩
  · exact .inl ⟨_, rfl, rfl⟩
  · exact .inl ⟨_, rfl, rfl⟩
  · exact .inl ⟨_, rfl, rfl⟩
  next hquote hbackslash _ _ _ =>
  simp only
  split
  · next hn => exact .inl ⟨_, rfl, by rw [← ofNat_toNat p, hn]; rfl⟩
  split
  · next hn => exact .inl ⟨_, rfl, by rw [← ofNat_toNat p, hn]; rfl⟩
  split
  · next hcontrol =>
    refine .inr (.inl ⟨rfl, ?_⟩)
    simp only [Bool.or_eq_true, Bool.and_eq_true, decide_eq_true_eq] at hcontrol
    exact hcontrol.imp_right And.left
  · next hcontrol =>
    refine .inr (.inr ⟨rfl, hquote, hbackslash, ?_⟩)
    simp only [Bool.or_eq_true, decide_eq_true_eq, not_or] at hcontrol
    omega

/-- A code point is read from its own escape. -/
theorem readText_escape (p : CodePoint) {t : Text} (ht : t ≠ []) :
    readText opening (escape false p ++ t) = push p (readText opening t) := by
  obtain ⟨q, hescape, hq⟩ | ⟨hescape, hn⟩ | ⟨hescape, hquote, hbackslash, hn⟩ := escape_cases false p
  · rw [hescape]
    exact readText_simple opening t hq
  · have hn : p.toNat < 0x20 := hn.resolve_right Bool.false_ne_true
    obtain ⟨a, b, c, d, hnumber, hdigits⟩ := escapeNumber_small (n := p.toNat) (by omega)
    have hread := readText_number opening hdigits (by omega) ht
    rw [ofNat_toNat] at hread
    rw [hescape, hnumber]
    exact hread
  · rw [hescape]
    exact readText_plain opening t hquote hbackslash hn

/-! ## Whole texts -/

/-- What stands between the quotes of a text is read as another text, up to the closing quote. -/
def TextReadsAs (asciiOnly : Bool) (t u : Text) : Prop :=
  ∀ opening rest, readText opening (t.flatMap (escape asciiOnly) ++ .char '"' :: rest) = .ok (u, rest)

/-- A text is read up to the closing quote. -/
theorem readText_flatMap (t rest : Text) :
    readText opening (t.flatMap (escape false) ++ .char '"' :: rest) = .ok (t, rest) := by
  induction t with
  | nil =>
    show readText opening (.char '"' :: rest) = _
    rw [readText.eq_def]
    rfl
  | cons p t ih =>
    have hne : t.flatMap (escape false) ++ .char '"' :: rest ≠ [] := by simp
    rw [List.flatMap_cons, List.append_assoc, readText_escape opening p hne, ih]
    rfl

end Cabinet.Json
