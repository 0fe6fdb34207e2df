import Mathlib
import Cabinet.Query.Condition

/-!
# Conditions compose

A condition for one field asks whether two values are the same, and a condition for more gives up at the
first value that differs. Both come to the same because values differ exactly if they are not the same,
not-a-number and numbers of different kinds included.

* `Value.differs_eq` : values differ if they are not the same;
* `Condition.meets_eq_meetsAll` : the predicates for no field and for one are cases of the one for more;
* `Condition.meets_eq_all` : a document meets a condition if it has every value asked for, and whether it
  does can always be told;
* `Condition.compile_union` : a condition for the fields of two others is met where both of these are.
-/

namespace Cabinet

/-! ## Difference -/

theorem Number.differs_eq (x y : Number) : x.differs y = !x.same y := by
  rw [differs, same]
  cases x.compare y with
  | none => rfl
  | some o => cases o <;> rfl

theorem Scalar.differs_eq (s t : Scalar) : s.differs t = !s.same t := by
  unfold differs same
  cases hs : s.number? with
  | some x =>
    cases ht : t.number? with
    | some y => exact Number.differs_eq x y
    | none => rfl
  | none =>
    cases ht : t.number? with
    | some y => rfl
    | none =>
      cases s with
      | timestamp m => cases t <;> rfl
      | _ => rfl

theorem Value.differs_eq (v w : Value) : v.differs w = !v.same w := by
  cases v with
  | scalar s =>
    cases w with
    | scalar t => exact Scalar.differs_eq s t
    | list ys => rfl
    | object gs => rfl
  | list xs => cases w <;> rfl
  | object fs =>
    cases w with
    | scalar t => rfl
    | list ys => rfl
    | object gs => rw [differs, same, Bool.not_and, bne]

namespace Condition

/-! ## The three predicates -/

variable {A B C : Document}

theorem meetsAll_cons (key : Scalar) (x : Value) (rest : Document) (v : Value) :
    meetsAll ((key, x) :: rest) v = do
      if (← v.field key).same x then meetsAll rest v else return false := by
  rw [meetsAll]
  cases v.field key with
  | error e => rfl
  | ok y =>
    simp only [bind, Except.bind, Value.differs_eq]
    cases y.same x <;> rfl

/-- Which predicate the number of fields selects makes no difference. -/
theorem meets_eq_meetsAll : ∀ expected : Document, meets expected = meetsAll expected
  | [] => rfl
  | [(key, x)] => by
    funext v
    rw [meetsAll_cons, meets, meetsOne]
    cases v.field key with
    | error e => rfl
    | ok y =>
      simp only [bind, Except.bind, meetsAll]
      cases y.same x <;> rfl
  | _ :: _ :: _ => rfl

theorem meets_cons (key : Scalar) (x : Value) (rest : Document) (v : Value) :
    meets ((key, x) :: rest) v = do
      if (← v.field key).same x then meets rest v else return false := by
  rw [meets_eq_meetsAll, meets_eq_meetsAll, meetsAll_cons]

/-- A document meets a condition if it has every value asked for. -/
theorem meets_eq_all (d : Document) : ∀ expected : Document,
    meets expected (.object d) = .ok (expected.all fun f => (d.getD f.1).same f.2)
  | [] => rfl
  | (key, x) :: rest => by
    have hfield : Value.field (.object d) key = .ok (d.getD key) := rfl
    rw [meets_cons, hfield, List.all_cons]
    simp only [bind, Except.bind]
    cases (d.getD key).same x with
    | false => rfl
    | true => exact meets_eq_all d rest

/-! ## The fields of two conditions -/

/-- Three conditions of which the third asks for what the first two ask for, in any order, are compiled,
and no document makes them fail: each of the first two is met by the documents that have all the values it
asks for, and the third by the documents that meet both. -/
theorem compile_union (hC : C.Perm (A ++ B)) :
    ∃ a b c, compile (.value (.object A)) = .ok a ∧ compile (.value (.object B)) = .ok b ∧
      compile (.value (.object C)) = .ok c ∧ ∀ d : Document, ∃ x y,
        a (.object d) = .ok x ∧ b (.object d) = .ok y ∧ c (.object d) = .ok (x && y) ∧
        (x = true ↔ ∀ f ∈ A, (d.getD f.1).same f.2 = true) ∧
        (y = true ↔ ∀ f ∈ B, (d.getD f.1).same f.2 = true) := by
  refine ⟨_, _, _, rfl, rfl, rfl, fun d =>
    ⟨_, _, meets_eq_all d A, meets_eq_all d B, ?_, List.all_eq_true, List.all_eq_true⟩⟩
  rw [meets_eq_all, hC.all_eq, List.all_append]

/-! ## Boxes -/

/-- One, as a double. -/
def single : Document := [(.text "n".toText, .float (.ofRatio false 1 1))]

/-- A size, and no lid. -/
def openBox : Document :=
  [(.text "size".toText, .object [(.text "w".toText, .int 1), (.text "h".toText, .list [.null])]),
    (.text "lid".toText, .null)]

/-- A box of that size, with its numbers of other kinds and its fields in another order. -/
def box : Document :=
  [(.text "size".toText, .object [(.text "h".toText, .list [.null]), (.text "w".toText, .bool true)]),
    (.text "n".toText, .int 1)]

theorem compile_union_box : ∃ a b c, compile (.value (.object single)) = .ok a ∧
    compile (.value (.object openBox)) = .ok b ∧
    compile (.value (.object (openBox.reverse ++ single))) = .ok c ∧
    a (.object box) = .ok true ∧ b (.object box) = .ok true ∧ c (.object box) = .ok true ∧
    a (.object (box.set (.text "n".toText) (.float .nan))) = .ok false ∧
    c (.object (box.set (.text "n".toText) (.float .nan))) = .ok false := by
  obtain ⟨a, b, c, ha, hb, hc, h⟩ := compile_union (A := single) (B := openBox)
    (C := openBox.reverse ++ single) (List.perm_append_comm.trans ((List.reverse_perm _).append_left _))
  obtain ⟨x, y, hx, hy, hxy, hA, hB⟩ := h box
  obtain rfl := hA.mpr (List.all_eq_true.mp (by decide +kernel))
  obtain rfl := hB.mpr (List.all_eq_true.mp (by cbv))
  obtain ⟨x, y, hx', -, hxy', hA, -⟩ := h (box.set (.text "n".toText) (.float .nan))
  obtain rfl : x = false := Bool.eq_false_iff.mpr fun hx =>
    absurd (hA.mp hx _ List.mem_cons_self) (by decide +kernel)
  exact ⟨a, b, c, ha, hb, hc, hx, hy, hxy, hx', hxy'⟩

end Condition

end Cabinet
