import Cabinet.Proofs.Value.Place
import Cabinet.Proofs.Value.Same

/-!
# What names mean

Two scalars are the same name if they mean the same: equal numbers of any kind, times of one moment, or
else one and the same scalar. Only not-a-number is no name in this sense: nothing is the same.

* `Scalar.meaning`, `Scalar.same_iff` : being the same is having one meaning;
* `Scalar.same_comm`, `Scalar.same_congr` : so it makes no difference which of two such names is asked for.
-/

namespace Cabinet

/-! ## Numbers and times -/

/-- Two numbers are the same if they have one place. -/
theorem Number.same_iff {x y : Number} {o : Ordering} (h : x.compare y = some o) :
    x.same y = true ↔ x.place = y.place := by
  have hplace := compare_place h [] []
  rw [List.append_nil, List.append_nil, List.compare_nil_nil, Ordering.then_eq] at hplace
  have hsame : Ord.compare x.place y.place = .eq ↔ x.place = y.place := Std.LawfulEqCmp.compare_eq_iff_eq
  rw [← hsame, hplace, same, h]
  simp

theorem Number.place_length (n : Number) : n.place.length = 2 := by
  rcases n with n | (_ | s | ⟨s, a, ha⟩) <;> rfl

namespace Timestamp

/-- The moment of a time with an offset. -/
def moment? (t : Timestamp) : Option Int :=
  t.offset.map fun a => t.localMicroseconds - a * 60000000

theorem same_iff {t u : Timestamp} :
    t.same u = true ↔ t.moment? = u.moment? ∧ (t.moment? = none → t = u) := by
  unfold same moment?
  cases t.offset <;> cases u.offset <;> simp

end Timestamp

namespace Scalar

/-! ## Meanings -/

/-- What a scalar is compared by: a place among the numbers, a moment, or itself. -/
def meaning : Scalar → List Int ⊕ Scalar
  | .bool b => .inl (Number.place (.int (if b then 1 else 0)))
  | .int n => .inl (Number.place (.int n))
  | .float x => .inl (Number.place (.float x))
  | .timestamp t => match t.moment? with
    | some m => .inl [m]
    | none => .inr (.timestamp t)
  | s => .inr s

theorem meaning_number {s : Scalar} {n : Number} (h : s.number? = some n) : s.meaning = .inl n.place := by
  cases s with
  | bool b | int m | float x =>
    obtain rfl := Option.some.inj h
    rfl
  | null | text t | date d | timestamp t | bytes content => cases h

/-- What is no number has no place among them. -/
theorem meaning_ne_place {s : Scalar} (h : s.number? = none) (n : Number) : s.meaning ≠ .inl n.place := by
  cases s with
  | bool b | int m | float x => cases h
  | null | text t | date d | bytes content => exact nofun
  | timestamp t =>
    rw [meaning]
    split
    · intro hplace
      have hlength := n.place_length
      rw [← Sum.inl.inj hplace] at hlength
      cases hlength
    · exact nofun

theorem meaning_timestamp {t u : Timestamp} :
    (timestamp t).meaning = (timestamp u).meaning ↔ t.same u = true := by
  rw [Timestamp.same_iff, meaning, meaning]
  cases t.moment? <;> cases u.moment? <;> simp

/-- A time is no scalar of another kind. -/
theorem meaning_timestamp_ne {t : Timestamp} {s : Scalar} (hs : s.meaning = .inr s)
    (h : ∀ u, s ≠ .timestamp u) : (timestamp t).meaning ≠ s.meaning := by
  rw [hs, meaning]
  split
  · exact nofun
  · exact fun heq => h t (Sum.inr.inj heq).symm

/-- Scalars other than not-a-number are the same if they mean the same. -/
theorem same_iff {a b : Scalar} (ha : a ≠ .float .nan) (hb : b ≠ .float .nan) :
    a.same b = true ↔ a.meaning = b.meaning := by
  cases hx : a.number? with
  | some x =>
    cases hy : b.number? with
    | some y =>
      obtain ⟨o, ho⟩ := compare_isSome ha hb hx hy
      have hsame : a.same b = x.same y := by simp only [same, hx, hy]
      rw [hsame, Number.same_iff ho, meaning_number hx, meaning_number hy, Sum.inl.injEq]
    | none =>
      have hsame : a.same b = false := by simp only [same, hx, hy]
      rw [hsame, meaning_number hx]
      exact iff_of_false Bool.false_ne_true (meaning_ne_place hy x).symm
  | none =>
    cases hy : b.number? with
    | some y =>
      have hsame : a.same b = false := by simp only [same, hx, hy]
      rw [hsame, meaning_number hy]
      exact iff_of_false Bool.false_ne_true (meaning_ne_place hx y)
    | none =>
      cases a with
      | bool a | int n | float x => cases hx
      | timestamp t =>
        cases b with
        | bool b | int n | float x => cases hy
        | timestamp u => exact meaning_timestamp.symm
        | null | text u | date d | bytes content =>
          exact iff_of_false (by simp [same, number?]) (meaning_timestamp_ne rfl fun _ h => by cases h)
      | null | text t | date d | bytes content =>
        cases b with
        | bool b | int n | float x => cases hy
        | timestamp u =>
          exact iff_of_false (by simp [same, number?])
            (Ne.symm (meaning_timestamp_ne rfl fun _ h => by cases h))
        | null | text u | date d | bytes content => simp [same, number?, meaning]

/-- Not-a-number is the same as nothing. -/
theorem nan_same (s : Scalar) : (float .nan).same s = false ∧ s.same (float .nan) = false := by
  cases s with
  | float x => cases x <;> exact ⟨rfl, rfl⟩
  | null | bool b | int n | text t | date d | timestamp t | bytes content => exact ⟨rfl, rfl⟩

theorem ne_nan_of_same {a b : Scalar} (h : a.same b = true) : a ≠ .float .nan ∧ b ≠ .float .nan := by
  constructor
  · rintro rfl
    rw [(nan_same b).1] at h
    cases h
  · rintro rfl
    rw [(nan_same a).2] at h
    cases h

theorem same_comm (a b : Scalar) : a.same b = b.same a := by
  by_cases ha : a = .float .nan
  · rw [ha, (nan_same b).1, (nan_same b).2]
  by_cases hb : b = .float .nan
  · rw [hb, (nan_same a).1, (nan_same a).2]
  rw [Bool.eq_iff_iff, same_iff ha hb, same_iff hb ha, eq_comm]

/-- Where two scalars are the same, so are they with any third one. -/
theorem same_congr {a b : Scalar} (h : a.same b = true) (s : Scalar) : s.same a = s.same b := by
  obtain ⟨ha, hb⟩ := ne_nan_of_same h
  by_cases hs : s = .float .nan
  · rw [hs, (nan_same a).1, (nan_same b).1]
  rw [Bool.eq_iff_iff, same_iff hs ha, same_iff hs hb, (same_iff ha hb).mp h]

end Scalar

end Cabinet
