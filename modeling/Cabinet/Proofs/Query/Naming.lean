import Cabinet.Proofs.Json.Reading
import Cabinet.Query.Update

/-!
# Updates and the names of fields

In JSON text every name is a text, while an update may name a field by any scalar.

* `Json.TextNamed` : the values in which, to any depth, all fields of an object have distinct texts as
  names;
* `Json.TextNamed.isJson`, `Json.asRead_eq_iff` : of the values that have a JSON text these are the ones
  that it holds as they are, and that are read back as they were;
* `Update.Operator.KeepsNames` : an argument with which an operator names no field by anything else;
* `Update.applyTo_textNamed` .. `Update.applySteps_textNamed` : what operators make of such documents
  then;
* `Update.keepsNames_of_isJson` : all that an update from JSON text can do to names is to rename a field.
-/

namespace Cabinet

namespace Json

/-- A value in which, to any depth, the names of the fields of an object are texts and distinct. -/
inductive TextNamed : Value → Prop where
  | scalar (s : Scalar) : TextNamed (.scalar s)
  | list {xs : List Value} : (∀ x ∈ xs, TextNamed x) → TextNamed (.list xs)
  | object {d : Document} : d.Named → (∀ f ∈ d, TextNamed f.2) → TextNamed (.object d)

theorem IsJson.textNamed {v : Value} (h : IsJson v) : TextNamed v := by
  induction h with
  | scalar _ => exact .scalar _
  | list _ ih => exact .list ih
  | object hnames hdistinct _ ih => exact .object ⟨hnames, hdistinct⟩ ih

theorem TextNamed.isJson {v : Value} (h : TextNamed v) (hv : Writable v) : IsJson v := by
  induction h with
  | scalar s =>
    cases hv with
    | scalar hs => exact .scalar hs
  | list _ ih =>
    cases hv with
    | list hxs => exact .list fun x hx => ih x hx (hxs x hx)
  | object hnamed _ ih =>
    cases hv with
    | object _ hfs => exact .object hnamed.texts hnamed.distinct fun f hf => ih f hf (hfs f hf)

/-- What has a text is read back as it was only if its names are such. -/
theorem asRead_eq_iff {v : Value} (hv : Writable v) : asRead v = v ↔ TextNamed v := by
  refine ⟨fun h => ?_, fun h => asRead_eq (h.isJson hv)⟩
  have hread := parse_written Style.legible_compact hv
  rw [h] at hread
  exact (parse_isJson hread).textNamed

/-! ## Fields -/

section Fields
variable {d : Document} {key : Scalar} {x : Value} (hd : TextNamed (.object d))
include hd

theorem TextNamed.named : d.Named := by
  cases hd with
  | object hnamed _ => exact hnamed

theorem TextNamed.values : ∀ f ∈ d, TextNamed f.2 := by
  cases hd with
  | object _ hvalues => exact hvalues

theorem TextNamed.set (hx : TextNamed x) (t : Text) : TextNamed (.object (d.set (.text t) x)) := by
  refine .object (hd.named.set t x) fun f hf => ?_
  rcases Document.mem_set hf with heq | ⟨g, hg, heq⟩
  · exact heq ▸ hx
  · exact heq ▸ hd.values g hg

theorem TextNamed.erase (key : Scalar) : TextNamed (.object (d.erase key)) :=
  .object (hd.named.erase key) fun f hf => hd.values f ((Document.erase_sublist d key).subset hf)

theorem TextNamed.of_get? (hx : d.get? key = some x) : TextNamed x := by
  obtain ⟨f, hf, -, rfl⟩ := Document.mem_of_get? hx
  exact hd.values f hf

/-- A field that is there can be given another value whatever it is named by. -/
theorem TextNamed.set_of_get? {old : Value} (hold : d.get? key = some old) (hx : TextNamed x) :
    TextNamed (.object (d.set key x)) := by
  obtain ⟨t, rfl⟩ := hd.named.text_of_get? hold
  exact hd.set hx t

end Fields

end Json

namespace Update

open Json (IsJson TextNamed)

/-- An argument with which an operator names no field by anything but a text: so is the field itself, if
the operator may add it, and what it is renamed to; and so are the fields within what is set or pushed. -/
def Operator.KeepsNames : Operator → Scalar × Value → Prop
  | .set, (key, x) | .push, (key, x) => (∃ t, key = .text t) ∧ TextNamed x
  | .rename, (_, target) => ∀ newKey, target = .scalar newKey → ∃ t, newKey = .text t
  | .inc, (key, _) => ∃ t, key = .text t
  | .unset, _ | .pull, _ => True

/-- An update all of whose arguments keep names. -/
def KeepsNames (given : Value) : Prop :=
  ∀ update, given = .object update → ∀ op arguments, argumentsOf? update op = some arguments →
    ∀ a ∈ arguments, op.KeepsNames a

section Operators
variable {d d' : Document} {key : Scalar} {x : Value} (hd : TextNamed (.object d))
include hd

theorem renameField_textNamed {target : Value}
    (htarget : ∀ newKey, target = .scalar newKey → ∃ t, newKey = .text t)
    (h : renameField d key target = .ok d') : TextNamed (.object d') := by
  unfold renameField at h
  split at h
  · exact Except.ok.inj h ▸ hd
  · next x hx =>
    split at h
    · next newKey =>
      obtain ⟨t, rfl⟩ := htarget newKey rfl
      exact Except.ok.inj h ▸ (hd.erase key).set (hd.of_get? hx) t
    · cases h

theorem pushItem_textNamed (hx : TextNamed x) (t : Text) :
    TextNamed (.object (pushItem d (.text t) x)) := by
  have hlist : ∀ old : List Value, (∀ y ∈ old, TextNamed y) →
      TextNamed (.object (d.set (.text t) (.list (old ++ [x])))) := by
    intro old hold
    refine hd.set (.list fun y hy => ?_) t
    rcases List.mem_append.mp hy with hy | hy
    · exact hold y hy
    · exact List.mem_singleton.mp hy ▸ hx
  unfold pushItem
  split
  · exact hlist [] fun _ hy => absurd hy List.not_mem_nil
  · next ys hys =>
    cases hd.of_get? hys with
    | list hys => exact hlist ys hys
  · next y _ hy => exact hlist [y] (List.forall_mem_singleton.mpr (hd.of_get? hy))

theorem pullItem_textNamed : TextNamed (.object (pullItem d key x)) := by
  unfold pullItem
  split
  · exact hd
  · next xs hxs =>
    cases hd.of_get? hxs with
    | list hitems => exact hd.set_of_get? hxs (.list fun y hy => hitems y (List.mem_filter.mp hy).1)
  · next y _ hy =>
    split
    · exact hd.set_of_get? hy (.list fun _ hx => absurd hx List.not_mem_nil)
    · exact hd

theorem increment_textNamed {t : Text} (h : increment d (.text t) x = .ok d') :
    TextNamed (.object d') := by
  obtain ⟨sum, -, h⟩ := ok_of_bind h
  have hnumber : TextNamed (.ofNumber sum) := by
    cases sum with
    | int n => exact .scalar _
    | float x => exact .scalar _
  exact Except.ok.inj h ▸ hd.set hnumber t

/-- An operator with one argument. -/
theorem applyTo_textNamed {op : Operator} (hkeeps : op.KeepsNames (key, x))
    (h : op.applyTo d key x = .ok d') : TextNamed (.object d') := by
  cases op with
  | set =>
    obtain ⟨⟨t, rfl⟩, hx⟩ := hkeeps
    exact Except.ok.inj h ▸ hd.set hx t
  | unset => exact Except.ok.inj h ▸ hd.erase key
  | rename => exact renameField_textNamed hd hkeeps h
  | push =>
    obtain ⟨⟨t, rfl⟩, hx⟩ := hkeeps
    exact Except.ok.inj h ▸ pushItem_textNamed hd hx t
  | pull => exact Except.ok.inj h ▸ pullItem_textNamed hd
  | inc =>
    obtain ⟨t, rfl⟩ := hkeeps
    exact increment_textNamed hd h

end Operators

/-- An operator, argument by argument. -/
theorem apply_textNamed {op : Operator} {arguments : List (Scalar × Value)}
    (hkeeps : ∀ a ∈ arguments, op.KeepsNames a) {d d' : Document} (hd : TextNamed (.object d))
    (h : op.apply d arguments = .ok d') : TextNamed (.object d') := by
  induction arguments generalizing d with
  | nil => exact Except.ok.inj h ▸ hd
  | cons a arguments ih =>
    obtain ⟨ha, harguments⟩ := List.forall_mem_cons.mp hkeeps
    obtain ⟨d₁, hd₁, h⟩ := ok_of_bind h
    exact ih harguments (applyTo_textNamed hd ha hd₁) h

theorem applySteps_textNamed {steps : Steps}
    (hkeeps : ∀ step ∈ steps, ∀ a ∈ step.2, step.1.KeepsNames a) {d d' : Document}
    (hd : TextNamed (.object d)) (h : applySteps steps d = .ok d') : TextNamed (.object d') := by
  induction steps generalizing d with
  | nil => exact Except.ok.inj h ▸ hd
  | cons step steps ih =>
    obtain ⟨hstep, hsteps⟩ := List.forall_mem_cons.mp hkeeps
    obtain ⟨d₁, hd₁, h⟩ := ok_of_bind h
    exact ih hsteps (apply_textNamed hstep hd hd₁) h

/-- The steps of an update are the operators that it has, with their arguments. -/
theorem argumentsOf?_of_mem_steps {update : List (Scalar × Value)} {taken : Steps}
    (h : steps update = .ok taken) {step : Operator × List (Scalar × Value)} (hstep : step ∈ taken) :
    argumentsOf? update step.1 = some step.2 := by
  unfold steps at h
  split at h
  · cases h
  · obtain rfl := Except.ok.inj h
    obtain ⟨op, -, hop⟩ := List.mem_filterMap.mp hstep
    obtain ⟨arguments, harguments, rfl⟩ := Option.map_eq_some_iff.mp hop
    exact harguments

theorem mutate_object {steps : Steps} {d : Document} {v : Value} (h : mutate steps (.object d) = .ok v) :
    ∃ d', applySteps steps d = .ok d' ∧ v = .object d' := by
  obtain ⟨d', hd', hv⟩ := ok_of_bind h
  exact ⟨d', hd', (Except.ok.inj hv).symm⟩

/-- An update that does anything has steps. -/
theorem steps_of_compile {update : Document} {f : Transform}
    (h : compile (.value (.object update)) = .ok (some f)) :
    ∃ taken, steps update = .ok taken ∧ f = mutate taken := by
  cases update with
  | nil => cases h
  | cons entry rest =>
    obtain ⟨taken, htaken, h⟩ := ok_of_bind h
    exact ⟨taken, htaken, (Option.some.inj (Except.ok.inj h)).symm⟩

/-- An update from JSON text keeps names if it renames no field to anything but a text. -/
theorem keepsNames_of_isJson {given : Value} (hgiven : IsJson given)
    (hrename : ∀ update, given = .object update → ∀ arguments,
      argumentsOf? update .rename = some arguments → ∀ a ∈ arguments, Operator.KeepsNames .rename a) :
    KeepsNames given := by
  rintro update rfl op arguments harguments a ha
  have hjson : IsJson (.object arguments) := by
    unfold argumentsOf? at harguments
    split at harguments
    · next found hfound =>
      obtain rfl := Option.some.inj harguments
      obtain ⟨f, hf, -, heq⟩ := Document.mem_of_get? hfound
      exact heq ▸ (Json.isFields_of_isJson hgiven).values f hf
    · cases harguments
  have hfields := Json.isFields_of_isJson hjson
  cases op with
  | set | push => exact ⟨hfields.names a ha, (hfields.values a ha).textNamed⟩
  | inc => exact hfields.names a ha
  | unset | pull => trivial
  | rename => exact hrename update rfl arguments harguments a ha

end Update

end Cabinet
