import Mathlib

/-!
# Decimal digits

* `Digits.IsNumeral` : digits that do not begin with a zero, `Digits.IsWhole` : or zero alone;
* `Digits.isWhole_toDigits` : the digits of a natural number;
* `Digits.dropLastZeros` : zeros at the end of digits.
-/

namespace Cabinet.Digits

/-! ## Zeros -/

theorem isDigit_zeros (n : Nat) : ∀ c ∈ List.replicate n '0', c.isDigit = true := by
  intro c hc
  rw [List.eq_of_mem_replicate hc]
  decide

theorem ofDigitChars_zeros (n : Nat) (ds : List Char) :
    Nat.ofDigitChars 10 (List.replicate n '0' ++ ds) 0 = Nat.ofDigitChars 10 ds 0 := by
  rw [Nat.ofDigitChars_append, Nat.ofDigitChars_replicate_zero, Nat.mul_zero]

theorem dropWhile_zeros : ∀ l : List Char, ∃ j, l = List.replicate j '0' ++ l.dropWhile (· == '0')
  | [] => ⟨0, rfl⟩
  | c :: l => by
    by_cases hc : c = '0'
    · obtain ⟨j, hj⟩ := dropWhile_zeros l
      refine ⟨j + 1, ?_⟩
      rw [hc, List.dropWhile_cons_of_pos rfl, List.replicate_succ, List.cons_append, ← hj]
    · refine ⟨0, ?_⟩
      rw [List.dropWhile_cons_of_neg (by simpa using hc)]
      rfl

/-- Digits are those that remain without the zeros at the end, and those zeros. -/
theorem dropLastZeros (l : List Char) :
    ∃ j, l = (l.reverse.dropWhile (· == '0')).reverse ++ List.replicate j '0' := by
  obtain ⟨j, hj⟩ := dropWhile_zeros l.reverse
  refine ⟨j, ?_⟩
  have h := congrArg List.reverse hj
  rwa [List.reverse_reverse, List.reverse_append, List.reverse_replicate] at h

/-! ## Numerals -/

theorem isDigit_append {ds es : List Char} (hds : ∀ c ∈ ds, c.isDigit = true)
    (hes : ∀ c ∈ es, c.isDigit = true) : ∀ c ∈ ds ++ es, c.isDigit = true := by
  intro c hc
  exact (List.mem_append.mp hc).elim (hds c) (hes c)

/-- Digits, at least one, of which the first is not zero. -/
structure IsNumeral (ds : List Char) : Prop where
  isDigit : ∀ c ∈ ds, c.isDigit = true
  ne_nil : ds ≠ []
  head_ne : ds.head? ≠ some '0'

/-- More digits after the first do not put a zero in front. -/
theorem IsNumeral.append {ds es : List Char} (h : IsNumeral ds) (hes : ∀ c ∈ es, c.isDigit = true) :
    IsNumeral (ds ++ es) := by
  refine ⟨isDigit_append h.isDigit hes, fun hnil => h.ne_nil (List.append_eq_nil_iff.mp hnil).1, ?_⟩
  rw [List.head?_append_of_ne_nil _ h.ne_nil]
  exact h.head_ne

theorem IsNumeral.take {ds : List Char} {n : Nat} (h : IsNumeral ds) (hn : 0 < n) :
    IsNumeral (ds.take n) := by
  refine ⟨fun c hc => h.isDigit c (List.mem_of_mem_take hc), ?_, ?_⟩
  · intro hnil
    rcases List.take_eq_nil_iff.mp hnil with hn | hds
    · omega
    · exact h.ne_nil hds
  · rw [List.head?_take, if_neg (by omega)]
    exact h.head_ne

/-- The first digit of a number above zero is not zero. -/
theorem head_toDigits (n : Nat) (h : 0 < n) : (Nat.toDigits 10 n).head? ≠ some '0' := by
  induction n using Nat.strongRecOn with
  | ind n ih =>
    by_cases hn : n < 10
    · rw [Nat.toDigits_of_lt_base hn]
      intro hzero
      have := Nat.digitChar_eq_zero.mp (Option.some.inj hzero)
      omega
    · rw [Nat.toDigits_of_base_le (by decide) (Nat.not_lt.mp hn),
        List.head?_append_of_ne_nil _ Nat.toDigits_ne_nil]
      exact ih (n / 10) (by omega) (by omega)

/-- The digits of a whole number: zero, or digits that do not begin with it. -/
def IsWhole (ds : List Char) : Prop := ds = ['0'] ∨ IsNumeral ds

theorem IsWhole.isDigit {ds : List Char} (h : IsWhole ds) : ∀ c ∈ ds, c.isDigit = true := by
  rcases h with rfl | h
  · exact isDigit_zeros 1
  · exact h.isDigit

theorem isWhole_toDigits (n : Nat) : IsWhole (Nat.toDigits 10 n) := by
  rcases Nat.eq_zero_or_pos n with rfl | hpos
  · exact .inl rfl
  · exact .inr ⟨fun c => Nat.isDigit_of_mem_toDigits (by decide) (by decide), Nat.toDigits_ne_nil,
      head_toDigits n hpos⟩

end Cabinet.Digits
