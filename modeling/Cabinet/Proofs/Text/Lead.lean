import Mathlib
import Cabinet.Text.Basic

/-!
# The beginning and the end of a text

* `Text.dropLead?_eq_some` : what remains after a beginning;
* `Text.startsWith_eq_false` : another first code point is another beginning;
* `Text.endsWith_append` : a text ends in what was put behind it.
-/

namespace Cabinet.Text

theorem dropLead?_eq_some : ∀ {lead t rest : Text}, dropLead? lead t = some rest ↔ t = lead ++ rest
  | [], t, rest => by
    rw [dropLead?, List.nil_append, Option.some.injEq]
  | p :: lead, [], rest => by
    rw [dropLead?, List.cons_append]
    constructor <;> intro h <;> cases h
  | p :: lead, q :: t, rest => by
    rw [dropLead?, List.cons_append, List.cons.injEq]
    split
    · next hpq => rw [dropLead?_eq_some, eq_comm (a := q), and_iff_right hpq]
    · next hpq =>
      constructor
      · intro h
        cases h
      · rintro ⟨rfl, -⟩
        exact absurd rfl hpq

theorem dropLead?_append (lead t : Text) : dropLead? lead (lead ++ t) = some t :=
  dropLead?_eq_some.mpr rfl

theorem startsWith_eq_false {p q : CodePoint} (t lead : Text) (hpq : p ≠ q) :
    startsWith (p :: t) (q :: lead) = false := by
  rw [startsWith, dropLead?, if_neg (Ne.symm hpq)]
  rfl

theorem endsWith_append (t tail : Text) : (t ++ tail).endsWith tail = true := by
  rw [endsWith, List.reverse_append, startsWith, dropLead?_append]
  rfl

end Cabinet.Text
