import Cabinet.Number.Numeral
import Cabinet.Proofs.Json.Number

/-!
# Reading numbers that were written

* `Number.readInt?_ofNat` : a natural number in decimal digits is read as itself.
-/

namespace Cabinet

variable {c : Char} {ds : List Char}

theorem CodePoint.digit?_char (h : c.isDigit = true) :
    (CodePoint.char c).digit? = some (c.toNat - '0'.toNat) := by
  have hrange : c.toNat ≤ 57 := (Char.isDigit_iff_toNat.mp h).2
  have hascii : (CodePoint.char c).toNat < 0x80 := Nat.lt_of_le_of_lt hrange (by decide)
  rw [CodePoint.digit?, if_pos hascii, Json.asciiDigit?_char h]

theorem CodePoint.isBlank_char (h : c.isDigit = true) : (CodePoint.char c).isBlank = false := by
  obtain ⟨hlow, hhigh⟩ : 48 ≤ c.toNat ∧ c.toNat ≤ 57 := Char.isDigit_iff_toNat.mp h
  have hn : (CodePoint.char c).toNat = c.toNat := rfl
  simp only [isBlank, hn, Bool.and_eq_false_iff, Bool.or_eq_false_iff, decide_eq_false_iff_not,
    beq_eq_false_iff_ne]
  omega

theorem CodePoint.isPadding_char (h : c.isDigit = true) : (CodePoint.char c).isPadding = false := by
  rw [isPadding, isBlank_char h, Bool.false_and]

/-- Digits have no padding around them. -/
theorem trim_digits (hds : ∀ c ∈ ds, c.isDigit = true) :
    Text.trim CodePoint.isPadding (ds.map .char) = ds.map .char := by
  have hnone : ∀ ds : List Char, (∀ c ∈ ds, c.isDigit = true) →
      (ds.map CodePoint.char).dropWhile CodePoint.isPadding = ds.map .char := by
    intro ds hds
    cases ds with
    | nil => rfl
    | cons c ds =>
      rw [List.map_cons, List.dropWhile_cons_of_neg]
      rw [CodePoint.isPadding_char (hds c List.mem_cons_self)]
      exact Bool.false_ne_true
  rw [Text.trim, hnone ds hds, ← List.map_reverse, hnone _ fun c hc => hds c (List.mem_reverse.mp hc),
    List.map_reverse, List.reverse_reverse]

namespace Numeral

theorem takeSign_digits (hds : ∀ c ∈ ds, c.isDigit = true) :
    takeSign (ds.map .char) = (false, ds.map .char) := by
  cases ds with
  | nil => rfl
  | cons c ds =>
    have hc := hds c List.mem_cons_self
    have hsign : ∀ sign : Char, sign.isDigit = false → ∀ rest,
        CodePoint.char c :: ds.map .char ≠ .char sign :: rest := by
      rintro sign hsign rest h
      obtain rfl : c = sign := CodePoint.char.inj (List.cons.inj h).1
      rw [hsign] at hc
      cases hc
    rw [List.map_cons, takeSign]
    · exact hsign '-' rfl
    · exact hsign '+' rfl

theorem takeGroups_digits (hds : ∀ c ∈ ds, c.isDigit = true) (inside : Bool) :
    takeGroups inside (ds.map .char) = (ds.map fun c => c.toNat - '0'.toNat, []) := by
  induction ds generalizing inside with
  | nil => rfl
  | cons c ds ih =>
    obtain ⟨hc, hds⟩ := List.forall_mem_cons.mp hds
    simp only [List.map_cons, takeGroups, CodePoint.digit?_char hc, ih hds]

theorem ofDigits_map (ds : List Char) :
    ofDigits (ds.map fun c => c.toNat - '0'.toNat) = Nat.ofDigitChars 10 ds 0 := by
  show (ds.map fun c => c.toNat - '0'.toNat).foldl (fun n d => n * 10 + d) 0 = _
  suffices h : ∀ n, (ds.map fun c => c.toNat - '0'.toNat).foldl (fun n d => n * 10 + d) n =
      Nat.ofDigitChars 10 ds n from h 0
  intro n
  induction ds generalizing n with
  | nil => rfl
  | cons c ds ih =>
    rw [List.map_cons, List.foldl_cons, Nat.ofDigitChars_cons, Nat.mul_comm n]
    exact ih _

end Numeral

/-- A number of decimal digits is read as what they make up. -/
theorem Number.readInt?_ofNat (n : Nat) : Number.readInt? (Text.ofNat n) = some (n : Int) := by
  have hds : ∀ c ∈ Nat.toDigits 10 n, c.isDigit = true := (Digits.isWhole_toDigits n).isDigit
  have hne : (Nat.toDigits 10 n).map (fun c => c.toNat - '0'.toNat) ≠ [] := by
    simp
  rw [readInt?, Text.ofNat, trim_digits hds, Numeral.takeSign_digits hds]
  dsimp only
  rw [Numeral.takeGroups_digits hds]
  have hvalue : Numeral.ofDigits ((Nat.toDigits 10 n).map fun c => c.toNat - '0'.toNat) = n := by
    rw [Numeral.ofDigits_map, Nat.ofDigitChars_ten_toDigits]
  generalize (Nat.toDigits 10 n).map (fun c => c.toNat - '0'.toNat) = values at hne hvalue ⊢
  cases values with
  | nil => exact absurd rfl hne
  | cons d values =>
    simp only [hvalue]
    rfl

end Cabinet
