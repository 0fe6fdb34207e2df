import Mathlib
import Cabinet.Proofs.Number.Rounding
import Cabinet.Proofs.Store.Action
import Cabinet.Value.Compare

/-!
# The place of a value in the order

Every value has a place, which is a list of integers, and places are compared from left to right.
Where two values can be compared and neither holds not-a-number, their order is that of their places.
So it comes from a total order, although comparing may fail.

* `Value.hasNaN` : whether not-a-number stands in a value. Inside an object it does not count, as
  objects are compared by their texts;
* `Text.place`, `Number.place`, `Scalar.place`, `Value.place` : places. None is the start of another
  one, so what follows two places decides only if they are equal;
* `Value.compare_place`, `Value.compare_eq` : the order of two values is that of their places.
-/

namespace Cabinet

/-! ## Texts and numbers -/

namespace Text

/-- The numbers of the code points, and an end that comes before every one of them. -/
def place (t : Text) : List Int := t.map (fun p => (p.toNat : Int)) ++ [-1]

theorem compare_place : ∀ (t u : Text) (r r' : List Int),
    Ord.compare (t.place ++ r) (u.place ++ r') = (t.compare u).then (Ord.compare r r')
  | [], [], r, r' => by simp [place, compare, List.compare_cons_cons]
  | [], q :: u, r, r' => by
    have hlt : Ord.compare (-1) (q.toNat : Int) = .lt := Int.compare_eq_lt.mpr (by omega)
    simp [place, compare, List.compare_cons_cons, hlt]
  | p :: t, [], r, r' => by
    have hgt : Ord.compare (p.toNat : Int) (-1) = .gt := Int.compare_eq_gt.mpr (by omega)
    simp [place, compare, List.compare_cons_cons, hgt]
  | p :: t, q :: u, r, r' => by
    have htail := compare_place t u r r'
    have hhead : Ord.compare (p.toNat : Int) (q.toNat : Int) = p.compare q := by
      rw [CodePoint.compare, Int.compare_eq_ite_lt, Nat.compare_eq_ite_lt]
      simp only [Int.ofNat_lt]
    simp only [place, List.map_cons, List.cons_append, List.compare_cons_cons, hhead] at htail ⊢
    rw [htail, Text.compare, Ordering.then_assoc]

end Text

namespace Number

/-- A finite number's exact value in units of the doubles, between the two infinities. Not-a-number
has no place of its own. -/
def place : Number → List Int
  | .int n => [0, n * Double.one]
  | .float (.finite negative units _) => [0, Double.signed negative units]
  | .float (.infinity negative) => [if negative then -1 else 1, 0]
  | .float .nan => [0, 0]

theorem compare_mul_one (n m : Int) :
    Ord.compare (n * Double.one) (m * Double.one) = Ord.compare n m := by
  have hone : (0 : Int) < Double.one := Int.natCast_pos.mpr Double.one_pos
  simp only [Int.compare_eq_ite_lt, Int.mul_lt_mul_right hone]

theorem compare_place {x y : Number} {o : Ordering} (h : x.compare y = some o) (r r' : List Int) :
    Ord.compare (x.place ++ r) (y.place ++ r') = o.then (Ord.compare r r') := by
  have hpair (a b c d : Int) : Ord.compare ([a, b] ++ r) ([c, d] ++ r') =
      ((Ord.compare a c).then (Ord.compare b d)).then (Ord.compare r r') := by
    simp only [List.cons_append, List.nil_append, List.compare_cons_cons, Ordering.then_assoc]
  rcases x with n | (_ | s | ⟨s, a, ha⟩) <;> rcases y with m | (_ | t | ⟨t, b, hb⟩) <;>
    simp only [compare, Double.compare, Double.compareInt, Option.map_some, Option.map_none,
      Option.some.injEq, reduceCtorEq] at h <;> subst h <;> rw [place, place, hpair]
  · rw [compare_mul_one]
    rfl
  · cases t <;> rfl
  · rw [← Std.OrientedCmp.eq_swap]
    rfl
  · cases s <;> rfl
  · cases s <;> cases t <;> rfl
  · cases s <;> rfl
  · rfl
  · cases t <;> rfl
  · rfl

end Number

/-! ## Scalars -/

/-- The canonical text of a value, or nothing. -/
def Value.canonicalText (v : Value) : Text := v.canonical.toOption.getD []

theorem Value.compareCanonical_eq {a b : Value} {o : Ordering} (h : a.compareCanonical b = .ok o) :
    a.canonicalText.compare b.canonicalText = o := by
  obtain ⟨t, ht, h⟩ := ok_of_bind h
  obtain ⟨u, hu, h⟩ := ok_of_bind h
  rw [canonicalText, canonicalText, ht, hu]
  exact Except.ok.inj h

namespace Scalar

/-- The place of a scalar among those of its kind. -/
def placeInKind : Scalar → List Int
  | .null => []
  | .text t => t.place
  | .bool b => Number.place (.int (if b then 1 else 0))
  | .int n => Number.place (.int n)
  | .float x => Number.place (.float x)
  | s@(.date _) | s@(.timestamp _) | s@(.bytes _) => (Value.canonicalText (.scalar s)).place

theorem placeInKind_of_number {s : Scalar} {x : Number} (h : s.number? = some x) :
    s.placeInKind = x.place := by
  cases s with
  | bool b | int n | float y => rw [← Option.some.inj h, placeInKind]
  | null | text t | date d | timestamp t | bytes content => cases h

/-- Only not-a-number has no order among numbers. -/
theorem compare_isSome {s t : Scalar} {x y : Number} (hs : s ≠ .float .nan) (ht : t ≠ .float .nan)
    (hx : s.number? = some x) (hy : t.number? = some y) : ∃ o, x.compare y = some o := by
  have hnumber : ∀ {u : Scalar} {z : Number}, u ≠ .float .nan → u.number? = some z →
      z ≠ .float .nan := by
    rintro u _ hu hz rfl
    cases u with
    | bool b | int n => cases hz
    | float y =>
      rw [Number.float.inj (Option.some.inj hz)] at hu
      exact hu rfl
    | null | text t | date d | timestamp t | bytes content => cases hz
  have hx := hnumber hs hx
  have hy := hnumber ht hy
  rcases x with n | (_ | s | ⟨s, a, ha⟩) <;> rcases y with m | (_ | t | ⟨t, b, hb⟩)
  all_goals first | exact absurd rfl hx | exact absurd rfl hy | exact ⟨_, rfl⟩

/-- Scalars of one kind are both numbers, or neither is. -/
theorem number?_of_rank {s t : Scalar} (h : s.rank = t.rank) {x : Number}
    (hx : s.number? = some x) : ∃ y, t.number? = some y := by
  cases s with
  | null | text t | date d | timestamp t | bytes content => cases hx
  | bool b | int n | float z =>
    cases t with
    | bool b | int n | float z => exact ⟨_, rfl⟩
    | null | text t | date d | timestamp t | bytes content => simp [rank] at h

/-- The order of two scalars of one kind is that of their places. -/
theorem compare_placeInKind {s t : Scalar} (hs : s ≠ .float .nan) (ht : t ≠ .float .nan)
    (hrank : s.rank = t.rank) {o : Ordering} (h : Value.compareScalars s t = .ok o)
    (r r' : List Int) :
    Ord.compare (s.placeInKind ++ r) (t.placeInKind ++ r') = o.then (Ord.compare r r') := by
  cases hx : s.number? with
  | some x =>
    obtain ⟨y, hy⟩ := number?_of_rank hrank hx
    obtain ⟨o', ho⟩ := compare_isSome hs ht hx hy
    have hcompare : Value.compareScalars s t = .ok o' := by
      cases s with
      | null | text t | date d | timestamp t | bytes content => cases hx
      | bool b | int n | float z => simp only [Value.compareScalars, hx, hy, ho, Option.getD_some]
    obtain rfl := Except.ok.inj (hcompare.symm.trans h)
    rw [placeInKind_of_number hx, placeInKind_of_number hy, Number.compare_place ho]
  | none =>
    cases s with
    | bool b | int n | float z => cases hx
    | null =>
      cases t <;> simp [rank] at hrank
      rw [← Except.ok.inj h]
      rfl
    | text u =>
      cases t <;> simp [rank] at hrank
      rw [← Except.ok.inj h]
      exact Text.compare_place _ _ r r'
    | date d | timestamp m | bytes content =>
      cases t <;> simp [rank] at hrank
      all_goals
        rw [← Value.compareCanonical_eq h]
        exact Text.compare_place _ _ r r'

end Scalar
/-! ## Values -/

namespace Value

mutual

/-- Whether not-a-number stands in a value, other than inside an object. -/
def hasNaN : Value → Bool
  | .scalar s => s == .float .nan
  | .list xs => haveNaN xs
  | .object _ => false

def haveNaN : List Value → Bool
  | [] => false
  | x :: xs => hasNaN x || haveNaN xs

end

mutual

/-- The place of a value among those of its kind. -/
def placeInKind : Value → List Int
  | .scalar s => s.placeInKind
  | .list xs => placeOfItems xs
  | .object fs => (canonicalText (.object fs)).place

/-- The places of items one after another, and an end that comes before every one of them. -/
def placeOfItems : List Value → List Int
  | [] => [-1]
  | x :: xs => x.rank :: (placeInKind x ++ placeOfItems xs)

end

/-- The place of a value in the order: that of its kind, and that within the kind. -/
def place (v : Value) : List Int := v.rank :: v.placeInKind

/-- Values of two kinds are told apart by the kinds, others by their places within the kind. -/
theorem compare_place_of_kind {a b : Value} {o : Ordering} (h : compare a b = .ok o)
    (hkind : a.rank = b.rank → ∀ r r', Ord.compare (a.placeInKind ++ r) (b.placeInKind ++ r') =
      o.then (Ord.compare r r')) (r r' : List Int) :
    Ord.compare (a.place ++ r) (b.place ++ r') = o.then (Ord.compare r r') := by
  have hranks : Ord.compare (a.rank : Int) b.rank = Ord.compare a.rank b.rank := by
    rw [Int.compare_eq_ite_lt, Nat.compare_eq_ite_lt]
    simp only [Int.ofNat_lt]
  rw [place, place, List.cons_append, List.cons_append, List.compare_cons_cons, hranks]
  by_cases hrank : a.rank = b.rank
  · have hself : Ord.compare b.rank b.rank = .eq := Std.ReflCmp.compare_self
    rw [hkind hrank, hrank, hself, Ordering.eq_then]
  · unfold compare at h
    rw [if_pos hrank] at h
    rw [← Except.ok.inj h]
    have hne : Ord.compare a.rank b.rank ≠ .eq := fun he => hrank (Std.LawfulEqCmp.eq_of_compare he)
    generalize Ord.compare a.rank b.rank = o at hne
    cases o
    · rfl
    · exact absurd rfl hne
    · rfl

/-- No scalar is of the kind of objects or lists. -/
theorem rank_scalar (s : Scalar) : (scalar s).rank ≠ 3 ∧ (scalar s).rank ≠ 4 := by
  cases s <;> exact ⟨nofun, nofun⟩

theorem compare_of_rank_eq {a b : Value} {o : Ordering} (h : compare a b = .ok o)
    (hrank : a.rank = b.rank) : (match a, b with
      | .scalar s, .scalar t => compareScalars s t
      | .list xs, .list ys => compareItems xs ys
      | a, b => compareCanonical a b) = .ok o := by
  unfold compare at h
  rwa [if_neg (not_not_intro hrank)] at h

mutual

theorem compare_place {a b : Value} (ha : a.hasNaN = false) (hb : b.hasNaN = false) {o : Ordering}
    (h : compare a b = .ok o) (r r' : List Int) :
    Ord.compare (a.place ++ r) (b.place ++ r') = o.then (Ord.compare r r') := by
  refine compare_place_of_kind h (fun hrank r r' => ?_) r r'
  replace h := compare_of_rank_eq h hrank
  match a, b with
  | .scalar s, .scalar t =>
    exact Scalar.compare_placeInKind (by simpa [hasNaN] using ha) (by simpa [hasNaN] using hb) hrank
      h r r'
  | .list xs, .list ys => exact compare_placeOfItems ha hb h r r'
  | .object fs, .object gs =>
    rw [placeInKind, placeInKind, Text.compare_place, compareCanonical_eq h]
  | .scalar s, .object _ => exact absurd hrank (rank_scalar s).1
  | .scalar s, .list _ => exact absurd hrank (rank_scalar s).2
  | .object _, .scalar s => exact absurd hrank.symm (rank_scalar s).1
  | .list _, .scalar s => exact absurd hrank.symm (rank_scalar s).2
  | .list _, .object _ => exact nomatch hrank
  | .object _, .list _ => exact nomatch hrank

theorem compare_placeOfItems {xs ys : List Value} (hxs : haveNaN xs = false)
    (hys : haveNaN ys = false) {o : Ordering} (h : compareItems xs ys = .ok o) (r r' : List Int) :
    Ord.compare (placeOfItems xs ++ r) (placeOfItems ys ++ r') = o.then (Ord.compare r r') := by
  match xs, ys with
  | [], [] =>
    rw [← Except.ok.inj h]
    exact List.compare_cons_cons
  | [], y :: ys =>
    rw [← Except.ok.inj h, placeOfItems, placeOfItems, List.cons_append, List.cons_append,
      List.compare_cons_cons, Int.compare_eq_lt.mpr (by omega : (-1 : Int) < y.rank)]
    rfl
  | x :: xs, [] =>
    rw [← Except.ok.inj h, placeOfItems, placeOfItems, List.cons_append, List.cons_append,
      List.compare_cons_cons, Int.compare_eq_gt.mpr (by omega : (-1 : Int) < x.rank)]
    rfl
  | x :: xs, y :: ys =>
    obtain ⟨hx, hxs⟩ := Bool.or_eq_false_iff.mp hxs
    obtain ⟨hy, hys⟩ := Bool.or_eq_false_iff.mp hys
    obtain ⟨first, hfirst, h⟩ := ok_of_bind h
    have hhead := compare_place hx hy hfirst (placeOfItems xs ++ r) (placeOfItems ys ++ r')
    rw [place, place, List.cons_append, List.cons_append] at hhead
    rw [placeOfItems, placeOfItems, List.cons_append, List.cons_append, List.append_assoc,
      List.append_assoc, hhead]
    cases first with
    | lt | gt =>
      rw [← Except.ok.inj h]
      rfl
    | eq => exact compare_placeOfItems hxs hys h r r'

end

theorem compare_eq {a b : Value} (ha : a.hasNaN = false) (hb : b.hasNaN = false) {o : Ordering}
    (h : compare a b = .ok o) : Ord.compare a.place b.place = o := by
  have hplace := compare_place ha hb h [] []
  rwa [List.append_nil, List.append_nil, List.compare_nil_nil, Ordering.then_eq] at hplace

end Value

end Cabinet
