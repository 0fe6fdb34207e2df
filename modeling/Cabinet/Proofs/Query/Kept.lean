import Cabinet.Proofs.Store.Action
import Cabinet.Proofs.Value.Document
import Cabinet.Query.Projection
import Cabinet.Query.SortOrder

/-!
# What a projection keeps

* `Projection.Keeps` : the fields that a projection leaves as they are, as its entries say;
* `Projection.apply_field` : such a field has the same value in the projected document;
* `SortOrder.compareBy_congr` : a sort order only sees the fields that it names.
-/

namespace Cabinet

namespace Projection

variable {v : Value} {d : Document} {g : Text}

/-- A projection keeps a field as it is if it drops it nowhere, or names it only to keep it. -/
def Keeps : Projection → Text → Prop
  | .identity, _ => True
  | .keep fields, g => g ∈ fields.map Prod.fst ∧ ∀ f ∈ fields, f.1 = g → f.2 = .same
  | .drop fields, g => g ∉ fields

/-- The document that is made once a field is set, if there is something to set it to. -/
def setKept (made : Document) (field : Text) : Option Value → Document
  | some x => made.set (.text field) x
  | none => made

/-- An entry sets its field or does nothing; one that keeps the field sets it to what it was. -/
theorem keepFields_cons {field : Text} {source : Source} {rest : List (Text × Source)}
    {made made' : Document}
    (h : keepFields (.object d) made ((field, source) :: rest) = .ok made') :
    ∃ x, keepFields (.object d) (setKept made field x) rest = .ok made' ∧
      (source = .same → x = d.get? (.text field)) := by
  cases source with
  | same =>
    rw [keepFields] at h
    obtain ⟨x, hx, h⟩ := ok_of_bind h
    refine ⟨x, ?_, fun _ => (Except.ok.inj hx).symm⟩
    cases x <;> exact h
  | field name =>
    rw [keepFields] at h
    obtain ⟨x, -, h⟩ := ok_of_bind h
    exact ⟨some x, h, fun heq => by cases heq⟩
  | expression e =>
    rw [keepFields] at h
    obtain ⟨x, -, h⟩ := ok_of_bind h
    exact ⟨some x, h, fun heq => by cases heq⟩

/-- The field in the document that is made, by the entries that are still to come: they set it only
to what it was. -/
theorem keepFields_get? : ∀ {fields : List (Text × Source)} {made made' : Document},
    (∀ f ∈ fields, f.1 = g → f.2 = .same) → keepFields (.object d) made fields = .ok made' →
    made'.get? (.text g) = if g ∈ fields.map Prod.fst ∧ (d.get? (.text g)).isSome then
      d.get? (.text g) else made.get? (.text g)
  | [], made, made', _, h => by
    obtain rfl := Except.ok.inj h
    simp
  | (field, source) :: rest, made, made', hsame, h => by
    obtain ⟨hfield, hrest⟩ := List.forall_mem_cons.mp hsame
    obtain ⟨x, h, hx⟩ := keepFields_cons h
    rw [keepFields_get? hrest h]
    by_cases hg : field = g
    · subst hg
      rw [hx (hfield rfl)]
      cases hget : d.get? (.text field) with
      | none => simp [setKept]
      | some y => simp [setKept, Document.get?_set]
    · have hmade : (setKept made field x).get? (.text g) = made.get? (.text g) := by
        cases x with
        | none => rfl
        | some x => rw [setKept, Document.get?_set, if_neg (Ne.symm hg)]
      have hmember : g ∈ ((field, source) :: rest).map Prod.fst ↔ g ∈ rest.map Prod.fst := by
        rw [List.map_cons, List.mem_cons]
        exact or_iff_right (Ne.symm hg)
      simp only [hmade, hmember]

theorem dropFields_get? : ∀ {fields : List Text} (d : Document), g ∉ fields →
    (fields.foldl (fun d f => d.erase (.text f)) d).get? (.text g) = d.get? (.text g)
  | [], d, _ => rfl
  | f :: fields, d, hg => by
    obtain ⟨hf, hfields⟩ := not_or.mp (mt List.mem_cons.mpr hg)
    rw [List.foldl_cons, dropFields_get? _ hfields, Document.get?_erase_of_ne hf]

/-- A field that a projection keeps has the value that it had. -/
theorem apply_field {p : Projection} (hkeeps : p.Keeps g) (h : p.apply (.object d) = .ok v) :
    v.field (.text g) = Value.field (.object d) (.text g) := by
  cases p with
  | identity =>
    obtain rfl := Except.ok.inj h
    rfl
  | keep fields =>
    obtain ⟨made', hmade, h⟩ := ok_of_bind h
    obtain rfl := Except.ok.inj h
    have hget := keepFields_get? hkeeps.2 hmade
    have hsame : made'.get? (.text g) = d.get? (.text g) := by
      rw [hget]
      cases d.get? (.text g) with
      | none => simp [Document.get?]
      | some x => simp [hkeeps.1]
    simp only [Value.field, Document.getD, hsame]
  | drop fields =>
    obtain rfl := Except.ok.inj h
    simp only [Value.field, Document.getD, dropFields_get? d hkeeps]

end Projection

namespace SortOrder

theorem compareBy_congr {a a' b b' : Value} : ∀ {keys : List Key},
    (∀ k ∈ keys, a'.field (.text k.field) = a.field (.text k.field)) →
    (∀ k ∈ keys, b'.field (.text k.field) = b.field (.text k.field)) →
    compareBy keys a' b' = compareBy keys a b
  | [], _, _ => rfl
  | k :: keys, ha, hb => by
    obtain ⟨hka, ha⟩ := List.forall_mem_cons.mp ha
    obtain ⟨hkb, hb⟩ := List.forall_mem_cons.mp hb
    simp only [compareBy, hka, hkb, compareBy_congr ha hb]

end SortOrder

end Cabinet
