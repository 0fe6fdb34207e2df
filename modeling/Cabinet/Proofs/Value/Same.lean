import Cabinet.Proofs.Json.Points
import Cabinet.Proofs.Query.Naming

/-!
# What equals itself

Values are equal if their parts are, and a field is looked up by its name. So a value equals itself unless
not-a-number is somewhere in it, or a name occurs twice.

* `Value.NoNaN` : a value with not-a-number nowhere;
* `Document.get?_of_mem`, `Document.get?_set_of_ne`, `Document.set_set` : fields of documents that are
  named by texts;
* `Value.same_self` : such a value equals itself, whatever is nested in it;
* `Value.same_nan` : nothing equals not-a-number.
-/

namespace Cabinet

open Json (TextNamed)

/-! ## Fields -/

namespace Document

/-- The field of a name is the only one of that name. -/
theorem get?_of_mem {d : Document} (h : d.Named) {f : Scalar × Value} (hf : f ∈ d) :
    d.get? f.1 = some f.2 := by
  obtain ⟨t, ht⟩ := h.texts f hf
  rw [ht]
  induction d with
  | nil => cases hf
  | cons g d ih =>
    obtain ⟨hnew, hdistinct⟩ := List.nodup_cons.mp h.distinct
    rw [get?_cons]
    rcases List.mem_cons.mp hf with rfl | hf
    · rw [if_pos ht]
    · have hne : g.1 ≠ .text t := fun heq =>
        hnew (List.mem_map.mpr ⟨f, hf, ht.trans heq.symm⟩)
      rw [if_neg hne]
      exact ih ⟨fun i hi => h.texts i (List.mem_cons_of_mem g hi), hdistinct⟩ hf

theorem get?_set_of_ne {key : Scalar} {f : Text} (h : key ≠ .text f) (d : Document) (x : Value) :
    get? (d.set (.text f) x) key = get? d key := by
  have hother : (Scalar.text f).same key = false :=
    Bool.eq_false_iff.mpr fun hsame => h (Scalar.text_same.mp hsame)
  induction d with
  | nil => simp [set, get?, hother]
  | cons field rest ih =>
    obtain ⟨name, old⟩ := field
    simp only [set, Scalar.same_text]
    by_cases hname : name = .text f
    · simp [hname, get?, hother]
    · simp only [if_neg hname, get?, ih]

/-- The last of two values that a field is given stays. -/
theorem set_set (d : Document) (f : Text) (x y : Value) :
    (d.set (.text f) x).set (.text f) y = d.set (.text f) y := by
  induction d with
  | nil => simp [set, Scalar.same_text]
  | cons field rest ih =>
    obtain ⟨name, old⟩ := field
    simp only [set, Scalar.same_text]
    by_cases hname : name = .text f
    · simp [hname, set, Scalar.same_text]
    · simp [hname, set, Scalar.same_text, ih]

end Document

/-! ## Equality with itself -/

theorem Double.compare_self {x : Double} (h : x ≠ .nan) : x.compare x = some .eq := by
  cases x with
  | nan => exact absurd rfl h
  | infinity negative => simp [compare]
  | finite negative units exact => simp [compare]

theorem Number.same_self {n : Number} (h : n ≠ .float .nan) : n.same n = true := by
  cases n with
  | int n => simp [same, compare]
  | float x => simp [same, compare, Double.compare_self fun hx => h (congrArg _ hx)]

theorem Timestamp.same_self (t : Timestamp) : t.same t = true := by
  unfold same
  cases t.offset <;> simp

theorem Scalar.same_self {s : Scalar} (h : s ≠ .float .nan) : s.same s = true := by
  cases s with
  | bool b => exact Number.same_self nofun
  | int n => exact Number.same_self nofun
  | float x => exact Number.same_self fun hx => h (congrArg _ (Number.float.inj hx))
  | timestamp t => exact t.same_self
  | null => rfl
  | text t => exact Scalar.same_text.mpr rfl
  | date d => simp [same, number?]
  | bytes content => simp [same, number?]

namespace Value

/-- Not-a-number is nowhere in the value. -/
def NoNaN (v : Value) : Prop := .float .nan ∉ v.scalars

theorem NoNaN.of_mem_list {xs : List Value} (h : NoNaN (.list xs)) {x : Value} (hx : x ∈ xs) :
    x.NoNaN :=
  fun hnan => h (mem_scalars_list.mpr ⟨x, hx, hnan⟩)

theorem NoNaN.of_mem_object {d : Document} (h : NoNaN (.object d)) {f : Scalar × Value} (hf : f ∈ d) :
    f.2.NoNaN :=
  fun hnan => h (mem_scalars_object.mpr ⟨f, hf, .inr hnan⟩)

theorem sameItems_iff {xs ys : List Value} :
    sameItems xs ys = true ↔ List.Forall₂ (fun x y => x.same y = true) xs ys := by
  induction xs generalizing ys with
  | nil => cases ys <;> simp [sameItems]
  | cons x xs ih => cases ys <;> simp [sameItems, ih]

/-- Fields are the same as those of a document if each has one there of the same value. -/
theorem sameFields_iff {fs : List (Scalar × Value)} {d : Document} :
    sameFields fs d = true ↔ ∀ f ∈ fs, ∃ y, d.get? f.1 = some y ∧ f.2.same y = true := by
  induction fs with
  | nil => exact iff_of_true rfl (List.forall_mem_nil _)
  | cons f fs ih =>
    obtain ⟨key, x⟩ := f
    rw [sameFields, Bool.and_eq_true, ih, List.forall_mem_cons]
    cases d.get? key <;> simp

/-- A value equals itself, if not-a-number is nowhere in it and its names are distinct texts. -/
theorem same_self {v : Value} (hv : TextNamed v) (hnan : v.NoNaN) : v.same v = true := by
  induction hv with
  | scalar s =>
    refine Scalar.same_self fun hs => hnan ?_
    rw [hs]
    exact List.mem_singleton.mpr rfl
  | list _ ih => exact sameItems_iff.mpr (List.forall₂_same.mpr fun x hx => ih x hx (hnan.of_mem_list hx))
  | object hnamed _ ih =>
    rw [same, beq_self_eq_true, Bool.true_and]
    exact sameFields_iff.mpr fun f hf =>
      ⟨f.2, Document.get?_of_mem hnamed hf, ih f hf (hnan.of_mem_object hf)⟩

/-- Nothing equals not-a-number. -/
theorem same_nan (v : Value) : v.same (.float .nan) = false := by
  cases v with
  | list xs => rfl
  | object fs => rfl
  | scalar s =>
    cases s with
    | float x => cases x <;> rfl
    | null | bool b | int n | text t | date d | timestamp t | bytes content => rfl

end Value

end Cabinet
