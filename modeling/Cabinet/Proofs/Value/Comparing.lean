import Cabinet.Proofs.Json.Canonical
import Cabinet.Proofs.Value.Document
import Cabinet.Value.Compare

/-!
# When values can be compared

Comparing two values comes to at most one pair of objects: the values themselves, or what stands first
in two lists where they differ. Only objects can fail to be compared, and only if one of them has no
canonical text.

* `Value.Meets`, `Value.MeetsItems` : the objects that comparing two values, or two lists, comes to;
* `Value.compare_ok_iff` : values can be compared exactly if the objects that this comes to are orderly;
* `Value.compare_ok` : orderly values always can;
* `Document.Orderly` : a document whose fields hold such values.
-/

namespace Cabinet

open Json (Orderly)

namespace Value

mutual

/-- Comparing two values comes to comparing two objects. -/
inductive Meets : Value → Value → Document → Document → Prop where
  | object (d e : Document) : Meets (.object d) (.object e) d e
  | list {xs ys : List Value} {d e : Document} : MeetsItems xs ys d e → Meets (.list xs) (.list ys) d e

/-- So does comparing two lists, item by item as long as items are equal. -/
inductive MeetsItems : List Value → List Value → Document → Document → Prop where
  | head {x y : Value} (xs ys : List Value) {d e : Document} : Meets x y d e →
      MeetsItems (x :: xs) (y :: ys) d e
  | tail {x y : Value} {xs ys : List Value} {d e : Document} : compare x y = .ok .eq →
      MeetsItems xs ys d e → MeetsItems (x :: xs) (y :: ys) d e

end

theorem Meets.rank_eq {a b : Value} {d e : Document} (h : Meets a b d e) : a.rank = b.rank := by
  cases h with
  | object => rfl
  | list => rfl

theorem compareCanonical_ok_iff {a b : Value} :
    (∃ o, compareCanonical a b = .ok o) ↔ Orderly a ∧ Orderly b := by
  rw [← Json.canonical_ok_iff, ← Json.canonical_ok_iff]
  constructor
  · rintro ⟨o, ho⟩
    obtain ⟨t, ht, ho⟩ := ok_of_bind ho
    obtain ⟨u, hu, -⟩ := ok_of_bind ho
    exact ⟨⟨t, ok_of_mapError ht⟩, u, ok_of_mapError hu⟩
  · rintro ⟨⟨t, ht⟩, u, hu⟩
    exact ⟨t.compare u, by rw [compareCanonical, canonical, canonical, ht, hu]; rfl⟩

/-- Scalars can always be compared. -/
theorem compareScalars_ok (s t : Scalar) : ∃ o, compareScalars s t = .ok o := by
  unfold compareScalars
  split
  · exact ⟨_, rfl⟩
  · exact ⟨_, rfl⟩
  · split
    · exact ⟨_, rfl⟩
    · exact compareCanonical_ok_iff.mpr ⟨.scalar s, .scalar t⟩

mutual

theorem compare_ok_iff : ∀ {a b : Value}, (∃ o, compare a b = .ok o) ↔
    ∀ d e, Meets a b d e → Orderly (.object d) ∧ Orderly (.object e)
  | a, b => by
    unfold compare
    by_cases hrank : a.rank = b.rank
    · rw [if_neg (not_not_intro hrank)]
      match a, b with
      | .scalar s, .scalar t => exact iff_of_true (compareScalars_ok s t) nofun
      | .list xs, .list ys =>
        refine compareItems_ok_iff.trans ⟨fun h d e hmeets => ?_, fun h d e hmeets => h d e (.list hmeets)⟩
        cases hmeets with
        | list hmeets => exact h d e hmeets
      | .object d, .object e =>
        refine compareCanonical_ok_iff.trans ⟨fun h d e hmeets => ?_, fun h => h d e (.object d e)⟩
        cases hmeets with
        | object => exact h
      | .scalar s, .object _ | .scalar s, .list _ | .object _, .scalar s | .list _, .scalar s =>
        cases s <;> simp [rank, Scalar.rank] at hrank
      | .list _, .object _ | .object _, .list _ => cases hrank
    · rw [if_pos hrank]
      exact iff_of_true ⟨_, rfl⟩ fun d e hmeets => absurd hmeets.rank_eq hrank

theorem compareItems_ok_iff : ∀ {xs ys : List Value}, (∃ o, compareItems xs ys = .ok o) ↔
    ∀ d e, MeetsItems xs ys d e → Orderly (.object d) ∧ Orderly (.object e)
  | [], [] | [], _ :: _ | _ :: _, [] => iff_of_true ⟨_, rfl⟩ nofun
  | x :: xs, y :: ys => by
    rw [compareItems]
    constructor
    · rintro ⟨o, ho⟩ d e hmeets
      obtain ⟨first, hfirst, ho⟩ := ok_of_bind ho
      cases hmeets with
      | head _ _ hmeets => exact compare_ok_iff.mp ⟨first, hfirst⟩ d e hmeets
      | tail heq hmeets =>
        obtain rfl := Except.ok.inj (heq.symm.trans hfirst)
        exact compareItems_ok_iff.mp ⟨o, ho⟩ d e hmeets
    · intro h
      obtain ⟨first, hfirst⟩ := compare_ok_iff.mpr fun d e hmeets => h d e (.head xs ys hmeets)
      rw [hfirst]
      cases first with
      | lt | gt => exact ⟨_, rfl⟩
      | eq => exact compareItems_ok_iff.mpr fun d e hmeets => h d e (.tail hfirst hmeets)

end

mutual

/-- What comparing orderly values comes to is orderly. -/
theorem Meets.orderly : ∀ {a b : Value} {d e : Document}, Meets a b d e → Orderly a → Orderly b →
    Orderly (.object d) ∧ Orderly (.object e)
  | _, _, _, _, .object _ _, ha, hb => ⟨ha, hb⟩
  | _, _, _, _, .list hmeets, .list hxs, .list hys => hmeets.orderly hxs hys

theorem MeetsItems.orderly : ∀ {xs ys : List Value} {d e : Document}, MeetsItems xs ys d e →
    (∀ x ∈ xs, Orderly x) → (∀ y ∈ ys, Orderly y) → Orderly (.object d) ∧ Orderly (.object e)
  | _, _, _, _, .head _ _ hmeets, hxs, hys =>
    hmeets.orderly (hxs _ List.mem_cons_self) (hys _ List.mem_cons_self)
  | _, _, _, _, .tail _ hmeets, hxs, hys =>
    hmeets.orderly (List.forall_mem_cons.mp hxs).2 (List.forall_mem_cons.mp hys).2

end

theorem compare_ok {a b : Value} (ha : Orderly a) (hb : Orderly b) : ∃ o, compare a b = .ok o :=
  compare_ok_iff.mpr fun _ _ hmeets => hmeets.orderly ha hb

end Value

namespace Document

/-- The values of the fields are orderly. Their own names need not be in one order. -/
def Orderly (d : Document) : Prop := ∀ f ∈ d, Json.Orderly f.2

theorem Orderly.getD {d : Document} (h : d.Orderly) (key : Scalar) : Json.Orderly (d.getD key) := by
  rw [Document.getD]
  cases hx : d.get? key with
  | none => exact .scalar .null
  | some x =>
    obtain ⟨f, hf, -, rfl⟩ := mem_of_get? hx
    exact h f hf

end Document

end Cabinet
