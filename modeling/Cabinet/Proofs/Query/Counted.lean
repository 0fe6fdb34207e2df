import Cabinet.Proofs.Number.Decimal
import Cabinet.Proofs.Number.Leading
import Cabinet.Query.Update

/-!
# The number that a text counts as

A text counts as the longest numeral that it begins with after its blanks: as an integer of any size,
or as the nearest double, and as zero where that is infinite.

* `Numeral.magnitude` : what a numeral stands for without its sign;
* `Numeral.value_whole`, `Numeral.value_rounded` : what a numeral of digits alone and any other one
  are read as;
* `Update.CountsAs` : the number that a numeral counts as;
* `Update.toNumber_leading` : a text counts as its longest numeral does, and the text of an integer as
  that integer.
-/

namespace Cabinet

namespace Numeral

/-! ## Values -/

/-- What a numeral stands for without its sign: the whole part and the fraction, moved by the
exponent. -/
def magnitude (n : Numeral) : ℚ :=
  let places := n.fraction.getD []
  (Nat.ofDigits 10 n.whole.reverse + Nat.ofDigits 10 places.reverse / 10 ^ places.length)
    * 10 ^ n.exponent.getD 0

theorem value_whole {n : Numeral} (h : n.IsWhole) :
    n.value = .int (Double.signed n.negative (Nat.ofDigits 10 n.whole.reverse)) := by
  obtain ⟨hfraction, hexponent⟩ := h
  rw [← ofDigits_eq, value, hfraction, hexponent]

/-- The whole part and the fraction as one number, with the point moved to its end. -/
theorem magnitude_eq (n : Numeral) :
    n.magnitude = ofDigits (n.whole ++ n.fraction.getD []) *
      10 ^ (n.exponent.getD 0 - (n.fraction.getD []).length : Int) := by
  have hten : (10 : ℚ) ≠ 0 := by norm_num
  rw [magnitude, ofDigits_eq, List.reverse_append, Nat.ofDigits_append, List.length_reverse,
    zpow_sub₀ hten, zpow_natCast]
  push_cast
  field_simp
  ring

/-- A numeral with a point or an exponent is read as the nearest double. -/
theorem value_rounded {n : Numeral} (h : ¬ n.IsWhole) :
    ∃ x, n.value = .float x ∧ Double.Rounded n.negative n.magnitude x := by
  rw [magnitude_eq]
  unfold value
  split
  · next hfraction hexponent => exact absurd ⟨hfraction, hexponent⟩ h
  · exact ⟨_, rfl, Double.ofDecimal_rounded _ _ _⟩

end Numeral

namespace Update
open Numeral (Leads Spells)

/-! ## Texts -/

/-- The number that a numeral counts as. -/
inductive CountsAs (n : Numeral) : Number → Prop
  | int (h : n.IsWhole) : CountsAs n (.int (Double.signed n.negative (Nat.ofDigits 10 n.whole.reverse)))
  | float {x : Double} (h : ¬ n.IsWhole) (hx : Double.Rounded n.negative n.magnitude x) :
      CountsAs n (if x.isFinite then .float x else .int 0)

theorem toNumber_text {t : Text} {n : Numeral} (h : Numeral.leading? t = some n) :
    CountsAs n (toNumber (.text t)) := by
  rw [toNumber, h, Option.map_some]
  by_cases hwhole : n.IsWhole
  · rw [Numeral.value_whole hwhole]
    exact .int hwhole
  · obtain ⟨x, hx, hrounded⟩ := Numeral.value_rounded hwhole
    rw [hx]
    exact .float hwhole hrounded

theorem toNumber_cases (t : Text) :
    (∀ p n, p <+: t.dropWhile CodePoint.isBlank → ¬ Spells p n) ∧ toNumber (.text t) = .int 0 ∨
      ∃ p n, Leads p n (t.dropWhile CodePoint.isBlank) ∧ CountsAs n (toNumber (.text t)) := by
  obtain ⟨hnone, hall⟩ | ⟨p, n, r, hsome, hleads⟩ := Numeral.take?_cases (t.dropWhile CodePoint.isBlank)
  · refine .inl ⟨hall, ?_⟩
    rw [toNumber, Numeral.leading?, hnone]
    rfl
  · refine .inr ⟨p, n, hleads, toNumber_text ?_⟩
    rw [Numeral.leading?, hsome]
    rfl

/-- The text of an integer counts as that integer, if what follows does not continue it. -/
theorem toNumber_ofInt (k : Int) {r : Text}
    (hstops : ∀ q, q ≠ [] → q <+: r → ∀ n, ¬ Spells (Text.ofInt k ++ q) n) :
    toNumber (.text (Text.ofInt k ++ r)) = .int k := by
  obtain ⟨n, hspells, hwhole, hvalue⟩ := Numeral.exists_spells_ofInt k
  have hcases := toNumber_cases (Text.ofInt k ++ r)
  rw [Numeral.dropWhile_ofInt] at hcases
  obtain ⟨hnone, -⟩ | ⟨p, m, hleads, hcounts⟩ := hcases
  · exact absurd hspells (hnone _ n (List.prefix_append _ r))
  · have hlength := hleads.longest _ n (List.prefix_append _ r) hspells
    obtain ⟨q, rfl⟩ := List.prefix_of_prefix_length_le (List.prefix_append _ r) hleads.starts hlength
    have hq : q <+: r := (List.prefix_append_right_inj _).mp hleads.starts
    obtain rfl : q = [] := by
      by_contra hne
      exact hstops q hne hq m hleads.spells
    rw [List.append_nil] at hleads
    obtain rfl : n = m := hleads.unique n hspells
    generalize toNumber (.text (Text.ofInt k ++ r)) = number at hcounts ⊢
    cases hcounts with
    | int => rw [hvalue]
    | float h => exact absurd hwhole h

/-- After its blanks, a text counts as the longest numeral that it begins with, and as zero if there
is none. The text of an integer counts as that integer, whatever follows that does not continue it. -/
theorem toNumber_leading (t : Text) :
    ((∀ p n, p <+: t.dropWhile CodePoint.isBlank → ¬ Spells p n) ∧ toNumber (.text t) = .int 0 ∨
      ∃ p n, Leads p n (t.dropWhile CodePoint.isBlank) ∧ CountsAs n (toNumber (.text t))) ∧
    ∀ (k : Int) (r : Text), (∀ q, q ≠ [] → q <+: r → ∀ n, ¬ Spells (Text.ofInt k ++ q) n) →
      toNumber (.text (Text.ofInt k ++ r)) = .int k :=
  ⟨toNumber_cases t, fun k _ => toNumber_ofInt k⟩

theorem toNumber_leading_dose : toNumber (.text (Text.ofInt (-12) ++ " mg".toText)) = .int (-12) := by
  refine (toNumber_leading []).2 (-12) _ fun q hne hq n hn => ?_
  obtain ⟨p, u, rfl⟩ := List.exists_cons_of_ne_nil hne
  obtain ⟨rfl, -⟩ := List.cons_prefix_cons.mp hq
  have hstop : Numeral.take? Numeral.takeDigits (Text.ofInt (-12) ++ .char ' ' :: u)
      = some (⟨true, [1, 2], none, none⟩, .char ' ' :: u) := rfl
  exact absurd (hstop.symm.trans hn.take?) (by simp)

end Update

end Cabinet
