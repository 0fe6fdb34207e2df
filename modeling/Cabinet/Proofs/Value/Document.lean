import Mathlib
import Cabinet.Value.Basic

/-!
# Fields named by texts

A text is only the same as itself, so setting or dropping a field that is named by a text leaves the
fields with other such names as they are.

* `Document.get?_set`, `Document.get?_erase_of_ne` : what a field is afterwards;
* `Document.Named` : documents whose fields have distinct texts as names, which setting and dropping
  fields keeps (`Named.set`, `Named.erase`).
-/

namespace Cabinet

theorem Scalar.same_text {s : Scalar} {t : Text} : s.same (.text t) = true ↔ s = .text t := by
  cases s with
  | null | bool b | int n | float x | text u | date d | timestamp m | bytes content =>
    simp [same, number?]

theorem Scalar.text_same {t : Text} {s : Scalar} : (Scalar.text t).same s = true ↔ s = .text t := by
  cases s with
  | text u =>
    rw [Scalar.same_text]
    exact eq_comm
  | null | bool b | int n | float x | date d | timestamp m | bytes content => simp [same, number?]

namespace Document

theorem get?_cons (name : Scalar) (x : Value) (rest : Document) (g : Text) :
    get? ((name, x) :: rest) (.text g) = if name = .text g then some x else get? rest (.text g) := by
  simp only [get?, Scalar.same_text]

theorem get?_set (d : Document) (f g : Text) (x : Value) :
    get? (d.set (.text f) x) (.text g) = if g = f then some x else get? d (.text g) := by
  induction d with
  | nil => simp [set, get?_cons, get?, eq_comm]
  | cons field rest ih =>
    obtain ⟨name, old⟩ := field
    simp only [set, Scalar.same_text]
    by_cases hname : name = .text f
    · subst hname
      by_cases hg : g = f
      · simp [get?_cons, hg]
      · simp [get?_cons, hg, Ne.symm hg]
    · rw [if_neg hname, get?_cons, get?_cons, ih]
      by_cases hg : g = f
      · subst hg
        simp [hname]
      · simp [hg]

theorem get?_erase_of_ne {f g : Text} (h : g ≠ f) (d : Document) :
    get? (d.erase (.text f)) (.text g) = get? d (.text g) := by
  induction d with
  | nil => rfl
  | cons field rest ih =>
    obtain ⟨name, x⟩ := field
    simp only [erase, Scalar.same_text]
    by_cases hname : name = .text f
    · subst hname
      simp [get?_cons, Ne.symm h]
    · rw [if_neg hname, get?_cons, get?_cons, ih]

theorem mem_of_get? {d : Document} {key : Scalar} {x : Value} (h : d.get? key = some x) :
    ∃ f ∈ d, f.1.same key = true ∧ f.2 = x := by
  induction d with
  | nil => cases h
  | cons f d ih =>
    rw [get?] at h
    split at h
    · next hsame => exact ⟨f, List.mem_cons_self, hsame, Option.some.inj h⟩
    · obtain ⟨g, hg, hgx⟩ := ih h
      exact ⟨g, List.mem_cons_of_mem f hg, hgx⟩

theorem mem_set {d : Document} {key : Scalar} {x : Value} {f : Scalar × Value}
    (hf : f ∈ d.set key x) : f.2 = x ∨ ∃ g ∈ d, f.2 = g.2 := by
  induction d with
  | nil =>
    obtain rfl := List.mem_singleton.mp hf
    exact .inl rfl
  | cons g d ih =>
    obtain ⟨name, old⟩ := g
    rw [set] at hf
    split at hf
    · rcases List.mem_cons.mp hf with rfl | hf
      · exact .inl rfl
      · exact .inr ⟨f, List.mem_cons_of_mem _ hf, rfl⟩
    · rcases List.mem_cons.mp hf with rfl | hf
      · exact .inr ⟨_, List.mem_cons_self, rfl⟩
      · refine (ih hf).imp_right fun hmem => ?_
        obtain ⟨i, hi, heq⟩ := hmem
        exact ⟨i, List.mem_cons_of_mem _ hi, heq⟩

theorem erase_sublist (d : Document) (key : Scalar) : (d.erase key).Sublist d := by
  induction d with
  | nil => exact .slnil
  | cons f d ih =>
    rw [erase]
    split
    · exact List.sublist_cons_self f d
    · exact ih.cons_cons f

/-! ## Names -/

/-- The names after setting a field: a new one comes last. -/
theorem names_set (d : Document) (t : Text) (x : Value) : (d.set (.text t) x).map (·.1) =
    if .text t ∈ d.map (·.1) then d.map (·.1) else d.map (·.1) ++ [.text t] := by
  induction d with
  | nil => rfl
  | cons f d ih =>
    obtain ⟨name, old⟩ := f
    simp only [set, Scalar.same_text]
    by_cases hname : name = .text t
    · simp [hname]
    · have hother : Scalar.text t ≠ name := fun heq => hname heq.symm
      simp only [if_neg hname, List.map_cons, ih, List.mem_cons, hother, false_or]
      split <;> rfl

/-- The names of the fields are texts, and distinct. -/
structure Named (d : Document) : Prop where
  texts : ∀ f ∈ d, ∃ t, f.1 = .text t
  distinct : (d.map (·.1)).Nodup

theorem Named.set {d : Document} (h : d.Named) (t : Text) (x : Value) : (d.set (.text t) x).Named where
  texts f hf := by
    have hmem : f.1 ∈ (d.set (.text t) x).map (·.1) := List.mem_map_of_mem hf
    rw [names_set] at hmem
    have hold : f.1 ∈ d.map (·.1) → ∃ u, f.1 = .text u := by
      intro hf
      obtain ⟨g, hg, hgf⟩ := List.mem_map.mp hf
      exact hgf ▸ h.texts g hg
    split at hmem
    · exact hold hmem
    · rcases List.mem_append.mp hmem with hf | hf
      · exact hold hf
      · exact ⟨t, List.mem_singleton.mp hf⟩
  distinct := by
    rw [names_set]
    split
    · exact h.distinct
    · next hnew => exact List.nodup_append_comm.mp (List.nodup_cons.mpr ⟨hnew, h.distinct⟩)

theorem Named.erase {d : Document} (h : d.Named) (key : Scalar) : (d.erase key).Named where
  texts f hf := h.texts f ((erase_sublist d key).subset hf)
  distinct := h.distinct.sublist ((erase_sublist d key).map _)

/-- Only a text is the name of such a field. -/
theorem Named.text_of_get? {d : Document} (h : d.Named) {key : Scalar} {x : Value}
    (hx : d.get? key = some x) : ∃ t, key = .text t := by
  obtain ⟨f, hf, hsame, -⟩ := mem_of_get? hx
  obtain ⟨t, ht⟩ := h.texts f hf
  exact ⟨t, Scalar.text_same.mp (ht ▸ hsame)⟩

end Document

end Cabinet
