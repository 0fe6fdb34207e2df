import Cabinet.Proofs.Query.Ordering
import Cabinet.Proofs.Value.Same

/-!
# Comparing is a total preorder

Values from JSON text without not-a-number have places in an order, and comparing them compares their
places. So it never fails, and whatever is nested in whatever, three values are never in a circle.

* `Comparator.Grades` : a comparator that never fails on some values, and is a total preorder there;
* `Comparator.grades_of_eq` : so is one that says what a total preorder says;
* `Value.comparator` : the comparison of values as a comparator; `Value.comparator_eq` : what it says;
* `comparison_grades` : comparing values, and comparing documents by any sort order.
-/

namespace Cabinet

open Json (IsJson)

/-- On the values of a class the comparator never fails, a value is equal to itself, the other way round
the sign is the opposite one, and order is transitive. -/
structure Comparator.Grades (compare : Comparator) (P : Value → Prop) : Prop where
  self : ∀ d, P d → compare d d = .ok 0
  swap : ∀ d e, P d → P e → ∃ n, compare d e = .ok n ∧ compare e d = .ok (-n)
  trans : ∀ d e f, P d → P e → P f → ∀ m n, compare d e = .ok m → compare e f = .ok n →
    m ≤ 0 → n ≤ 0 → ∃ k, compare d f = .ok k ∧ k ≤ 0

/-! ## Signs -/

namespace SortOrder

theorem sign_swap (o : Ordering) : sign o.swap = -sign o := by
  cases o <;> rfl

theorem sign_le_zero {o : Ordering} : sign o ≤ 0 ↔ o.isLE = true := by
  cases o <;> decide

end SortOrder

open SortOrder in
/-- A comparator is a total preorder where it says what one says. -/
theorem Comparator.grades_of_eq {compare : Comparator} {P : Value → Prop}
    (order : Value → Value → Ordering) [Std.TransCmp order]
    (h : ∀ d e, P d → P e → compare d e = .ok (sign (order d e))) : compare.Grades P where
  self d hd := by
    have hself : order d d = .eq := Std.ReflCmp.compare_self
    rw [h d d hd hd, hself]
    rfl
  swap d e hd he := by
    have hswap : order e d = (order d e).swap := Std.OrientedCmp.eq_swap
    exact ⟨sign (order d e), h d e hd he, by rw [h e d he hd, hswap, sign_swap]⟩
  trans d e f hd he hf m n hm hn hmle hnle := by
    obtain rfl := Except.ok.inj ((h d e hd he).symm.trans hm)
    obtain rfl := Except.ok.inj ((h e f he hf).symm.trans hn)
    refine ⟨sign (order d f), h d f hd hf, sign_le_zero.mpr ?_⟩
    exact Std.TransCmp.isLE_trans (sign_le_zero.mp hmle) (sign_le_zero.mp hnle)

/-! ## Values -/

namespace Value

mutual

/-- What is nowhere in a value is not outside its objects. -/
theorem hasNaN_of_noNaN : ∀ {v : Value}, v.NoNaN → v.hasNaN = false
  | .scalar s, h => by
    refine beq_eq_false_iff_ne.mpr fun hs => h ?_
    rw [hs]
    exact List.mem_singleton.mpr rfl
  | .list xs, h => haveNaN_of_noNaN fun x hx => h.of_mem_list hx
  | .object _, _ => rfl

theorem haveNaN_of_noNaN : ∀ {xs : List Value}, (∀ x ∈ xs, x.NoNaN) → haveNaN xs = false
  | [], _ => rfl
  | x :: xs, h => by
    obtain ⟨hx, hxs⟩ := List.forall_mem_cons.mp h
    rw [haveNaN, hasNaN_of_noNaN hx, haveNaN_of_noNaN hxs]
    rfl

end

/-- The order of two values as a number: negative, zero or positive. -/
def comparator : Comparator := fun a b => (compare a b).map SortOrder.sign

/-- Of what was read from JSON text, values without not-a-number are compared by their places. -/
theorem comparator_eq {a b : Value} (ha : IsJson a) (hb : IsJson b) (hanan : a.NoNaN) (hbnan : b.NoNaN) :
    comparator a b = .ok (SortOrder.sign (compareOn place a b)) := by
  obtain ⟨o, ho⟩ := compare_ok ha.orderly hb.orderly
  have hplace : compareOn place a b = o :=
    compare_eq (hasNaN_of_noNaN hanan) (hasNaN_of_noNaN hbnan) ho
  rw [comparator, ho, hplace]
  rfl

end Value

/-! ## Documents -/

namespace SortOrder

/-- A field of a document without not-a-number does not hold it. -/
theorem ranked_of_noNaN {d : Document} (h : Value.NoNaN (.object d)) (keys : List Key) :
    Ranked keys (.object d) := by
  intro k _ v hv
  obtain rfl : Document.getD d (.text k.field) = v := Except.ok.inj hv
  refine Value.hasNaN_of_noNaN ?_
  rw [Document.getD]
  cases hx : Document.get? d (.text k.field) with
  | none =>
    intro hnan
    cases List.mem_singleton.mp hnan
  | some x =>
    obtain ⟨f, hf, -, rfl⟩ := Document.mem_of_get? hx
    exact h.of_mem_object hf

/-- Every sort order that is accepted compares by some keys. -/
theorem compile_value {given : Value} {compare : Comparator} (h : compile (.value given) = .ok compare) :
    ∃ ks, compare = compareBy ks := by
  unfold compile at h
  split at h
  · next heq => cases heq
  · exact ⟨[], (Except.ok.inj h).symm⟩
  · obtain ⟨ks, -, h⟩ := ok_of_bind h
    exact ⟨ks, (Except.ok.inj h).symm⟩

end SortOrder

/-- Values from JSON text without not-a-number, however nested, and with integers of any size beside
doubles, can all be compared, and comparing is a total preorder on them. So every sort order that is
accepted is a total preorder on documents from JSON text without not-a-number. -/
theorem comparison_grades :
    Value.comparator.Grades (fun v => IsJson v ∧ v.NoNaN) ∧
    ∀ {given : Value} {compare : Comparator}, SortOrder.compile (.value given) = .ok compare →
      compare.Grades fun v => IsJson v ∧ v.NoNaN ∧ ∃ d, v = .object d := by
  constructor
  · exact Comparator.grades_of_eq (compareOn Value.place) fun a b ha hb =>
      Value.comparator_eq ha.1 hb.1 ha.2 hb.2
  · intro given compare h
    obtain ⟨ks, rfl⟩ := SortOrder.compile_value h
    refine Comparator.grades_of_eq (SortOrder.ordering ks) ?_
    rintro _ _ ⟨hdjson, hdnan, d, rfl⟩ ⟨hejson, henan, e, rfl⟩
    exact SortOrder.compareBy_json hdjson hejson (SortOrder.ranked_of_noNaN hdnan ks)
      (SortOrder.ranked_of_noNaN henan ks)

/-! ## Levels that no finite double is equal to -/

/-- A document with a list of levels. -/
def levelled (levels : List Scalar) : Value :=
  .object [(.text "levels".toText, .list (levels.map .scalar))]

theorem levelled_graded (levels : List Scalar) (h : ∀ s ∈ levels, Json.HasLiteral s ∧ s ≠ .float .nan) :
    IsJson (levelled levels) ∧ (levelled levels).NoNaN ∧ ∃ d, levelled levels = .object d := by
  refine ⟨.object ?_ (List.nodup_singleton _) ?_, ?_, _, rfl⟩
  · exact List.forall_mem_singleton.mpr ⟨_, rfl⟩
  · refine List.forall_mem_singleton.mpr (.list fun x hx => ?_)
    obtain ⟨s, hs, rfl⟩ := List.mem_map.mp hx
    exact .scalar (h s hs).1
  · have hscalars : (levelled levels).scalars = .text "levels".toText :: (levels ++ []) := by
      simp only [levelled, Value.scalars, Value.scalarsOfFields, Value.scalarsOfItems_eq,
        List.flatMap_map, List.flatMap_singleton', List.cons_append]
    intro hnan
    rw [hscalars, List.append_nil] at hnan
    obtain hnan | hnan := List.mem_cons.mp hnan
    · cases hnan
    · exact (h _ hnan).2 rfl

/-- In descending order a truth value comes first, then infinity, then an integer that lies between two
doubles. -/
theorem comparison_grades_levels :
    ∃ compare, SortOrder.compile (.value (.object [(.text "levels".toText, .int (-1))])) = .ok compare ∧
      compare (levelled [.bool false]) (levelled [.float (.infinity false), .null]) = .ok (-1) ∧
      compare (levelled [.float (.infinity false), .null]) (levelled [.int 100000000000000000001]) =
        .ok (-1) ∧
      ∃ n, compare (levelled [.bool false]) (levelled [.int 100000000000000000001]) = .ok n ∧ n ≤ 0 := by
  have hcompile : SortOrder.compile (.value (.object [(.text "levels".toText, .int (-1))])) =
      .ok (SortOrder.compareBy [⟨"levels".toText, true⟩]) := by cbv
  have hfirst : SortOrder.compareBy [⟨"levels".toText, true⟩] (levelled [.bool false])
      (levelled [.float (.infinity false), .null]) = .ok (-1) := by cbv
  have hsecond : SortOrder.compareBy [⟨"levels".toText, true⟩]
      (levelled [.float (.infinity false), .null]) (levelled [.int 100000000000000000001]) =
        .ok (-1) := by cbv
  have hbool := levelled_graded [.bool false]
    (List.forall_mem_singleton.mpr ⟨trivial, by decide⟩)
  have hinfinite := levelled_graded [.float (.infinity false), .null]
    (List.forall_mem_cons.mpr ⟨⟨trivial, by decide⟩, List.forall_mem_singleton.mpr ⟨trivial, by decide⟩⟩)
  have hlarge := levelled_graded [.int 100000000000000000001]
    (List.forall_mem_singleton.mpr ⟨trivial, by decide⟩)
  exact ⟨_, hcompile, hfirst, hsecond, (comparison_grades.2 hcompile).trans _ _ _ hbool hinfinite hlarge
    (-1) (-1) hfirst hsecond (by decide) (by decide)⟩

end Cabinet
