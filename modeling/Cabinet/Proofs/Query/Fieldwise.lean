import Cabinet.Proofs.Order.Chained
import Cabinet.Proofs.Query.Increment
import Cabinet.Proofs.Query.Untouched

/-!
# Updates act field by field

The operators of an update always run in one order, and the arguments of an operator are for different
fields. So it makes no difference, up to the order of fields, how an update lists them, unless fields are
renamed one after another. And without renaming no field has an influence on another one.

* `Update.Agree` : outcomes that are one document, up to the order of its fields, or one failure;
* `Update.apply_perm`, `Update.apply_arguments_perm`, `Update.applySteps_agree` : what operators make of fields
  in another order, and with arguments in another order;
* `Update.Relisted`, `Update.steps_relisted` : updates that list the same things in another order;
* `Update.restricted`, `Update.steps_restricted` : what an update says about some fields;
* `Update.update_fieldwise` : both for updates as they are given.
-/

namespace Cabinet.Update

/-! ## Outcomes -/

/-- Outcomes that are one document of different names, up to the order of its fields, or one failure. -/
inductive Agree : Except Failure Document → Except Failure Document → Prop where
  | ok {d e : Document} : d.Distinct → d.Perm e → Agree (.ok d) (.ok e)
  | error (e : Failure) : Agree (.error e) (.error e)

namespace Agree
variable {r s t : Except Failure Document}

theorem trans (h : Agree r s) (h' : Agree s t) : Agree r t := by
  cases h with
  | ok hd hperm =>
    cases h' with
    | ok _ hperm' => exact .ok hd (hperm.trans hperm')
  | error e => exact h'

theorem bind {f g : Document → Except Failure Document} (h : Agree r s)
    (hfg : ∀ d e : Document, d.Distinct → d.Perm e → Agree (f d) (g e)) : Agree (r.bind f) (s.bind g) := by
  cases h with
  | ok hd hperm => exact hfg _ _ hd hperm
  | error e => exact .error e

end Agree

/-! ## One operator -/

section Operator
variable {op : Operator} {d e : Document}

/-- Only a sum can fail, and only in one way. -/
theorem content_error {x : Value} {old : Option Value} {e : Failure} (h : op.content x old = .error e) :
    e = .number .tooLarge := by
  cases op with
  | inc =>
    obtain ⟨-, n, hn, -⟩ | ⟨-, herror⟩ :=
      Number.add_cases (toNumber_isFinite (old.getD .null)) (toNumber_isFinite x)
    · rw [Operator.content, hn] at h
      cases h
    · rw [Operator.content, herror] at h
      exact (Except.error.inj h).symm
  | set | unset | rename | push | pull => cases h

/-- An argument does the same to fields in another order. -/
theorem applyTo_perm (hperm : d.Perm e) (hd : d.Distinct) (key : Scalar) (x : Value) :
    Agree (op.applyTo d key x) (op.applyTo e key x) := by
  have hsame := Document.get?_perm hperm hd key
  by_cases hop : op = .rename
  · subst hop
    show Agree (renameField d key x) (renameField e key x)
    rw [renameField_eq, renameField_eq, ← hsame]
    cases d.get? key with
    | none => exact .ok hd hperm
    | some y =>
      cases x with
      | scalar newKey =>
        exact .ok ((hd.put key none).put newKey _)
          (Document.put_perm (Document.put_perm hperm hd key none) (hd.put key none) newKey _)
      | list _ | object _ => exact .error _
  · rw [applyTo_eq hop, applyTo_eq hop, ← hsame]
    cases op.content x (d.get? key) with
    | error e => exact .error e
    | ok c => exact .ok (hd.put key c) (Document.put_perm hperm hd key c)

/-- So do all arguments. -/
theorem apply_perm (hperm : d.Perm e) (hd : d.Distinct) (arguments : List (Scalar × Value)) :
    Agree (op.apply d arguments) (op.apply e arguments) := by
  induction arguments generalizing d e with
  | nil => exact .ok hd hperm
  | cons a arguments ih => exact (applyTo_perm hperm hd a.1 a.2).bind fun d e hd hperm => ih hperm hd

/-- Two arguments for different fields can change places. -/
theorem applyTo_swap (hop : op ≠ .rename) (hd : d.Distinct) {a b : Scalar × Value}
    (hab : a.1.same b.1 = false) :
    Agree ((op.applyTo d a.1 a.2).bind fun d => op.applyTo d b.1 b.2)
      ((op.applyTo d b.1 b.2).bind fun d => op.applyTo d a.1 a.2) := by
  have hba : b.1.same a.1 = false := (Scalar.same_comm _ _).trans hab
  simp only [applyTo_eq hop]
  -- neither content depends on whether the other one was given before
  cases hca : op.content a.2 (d.get? a.1) with
  | error e =>
    obtain rfl := content_error hca
    cases hcb : op.content b.2 (d.get? b.1) with
    | error e =>
      obtain rfl := content_error hcb
      exact .error _
    | ok c' =>
      show Agree (.error _) ((op.content a.2 ((d.put b.1 c').get? a.1)).map _)
      rw [Document.get?_put_apart hba, hca]
      exact .error _
  | ok c =>
    show Agree ((op.content b.2 ((d.put a.1 c).get? b.1)).map _) _
    rw [Document.get?_put_apart hab]
    cases hcb : op.content b.2 (d.get? b.1) with
    | error e => exact .error _
    | ok c' =>
      show Agree (.ok _) ((op.content a.2 ((d.put b.1 c').get? a.1)).map _)
      rw [Document.get?_put_apart hba, hca]
      exact .ok ((hd.put a.1 c).put b.1 c') (Document.put_comm hab d c c')

theorem apply_cons_cons (d : Document) (a b : Scalar × Value) (rest : List (Scalar × Value)) :
    op.apply d (a :: b :: rest) =
      ((op.applyTo d a.1 a.2).bind fun d => op.applyTo d b.1 b.2).bind fun d => op.apply d rest := by
  rw [Operator.apply]
  cases op.applyTo d a.1 a.2 <;> rfl

/-- Arguments for different fields can be given in any order. -/
theorem apply_arguments_perm (hop : op ≠ .rename) {as bs : Document} (hperm : as.Perm bs) (has : as.Distinct)
    (hd : d.Distinct) : Agree (op.apply d as) (op.apply d bs) := by
  -- after a swap the rest runs on a document with its fields in another order, hence apply_perm
  induction hperm generalizing d with
  | nil => exact .ok hd (.refl d)
  | cons a _ ih =>
    refine (applyTo_perm (.refl d) hd a.1 a.2).bind fun d e hd hperm => ?_
    exact (ih (List.pairwise_cons.mp has).2 hd).trans (apply_perm hperm hd _)
  | swap a b as =>
    have hba : b.1.same a.1 = false := (List.pairwise_cons.mp has).1 a List.mem_cons_self
    rw [apply_cons_cons, apply_cons_cons]
    exact (applyTo_swap hop hd hba).bind fun d e hd hperm => apply_perm hperm hd as
  | trans hde _ ih ih' => exact (ih has hd).trans (ih' (has.perm hde) hd)

end Operator

/-! ## Steps -/

/-- Steps of the same operators with the same arguments in another order, each for another field. The
arguments of `$rename` stand in one order. -/
def SameSteps : Steps → Steps → Prop := List.Forall₂ fun s t =>
  s.1 = t.1 ∧ s.2.Perm t.2 ∧ (s.1 = .rename → s.2 = t.2) ∧ Document.Distinct s.2

theorem applySteps_agree {taken taken' : Steps} (h : SameSteps taken taken') {d e : Document}
    (hperm : d.Perm e) (hd : d.Distinct) : Agree (applySteps taken d) (applySteps taken' e) := by
  induction h generalizing d e with
  | nil => exact .ok hd hperm
  | @cons s t _ _ hst _ ih =>
    obtain ⟨op, as⟩ := s
    obtain ⟨op', bs⟩ := t
    obtain ⟨rfl, hargs, hrename, has⟩ := hst
    have hstep : Agree (op.apply d as) (op.apply e bs) := by
      by_cases hop : op = .rename
      · obtain rfl : as = bs := hrename hop
        exact apply_perm hperm hd as
      · exact (apply_arguments_perm hop hargs has hd).trans (apply_perm hperm hd bs)
    exact hstep.bind fun d e hd hperm => ih hperm hd

/-! ## Updates in another order -/

/-- An update that names no operator twice, and no field twice for one operator. -/
structure Unrepeated (update : Document) : Prop where
  operators : update.Distinct
  arguments : ∀ f ∈ update, ∀ arguments, f.2 = .object arguments → Document.Distinct arguments

/-- One entry of an update with its arguments in another order, unless they are those of `$rename`. -/
inductive SameEntry : Scalar × Value → Scalar × Value → Prop where
  | refl (f : Scalar × Value) : SameEntry f f
  | arguments {op : Operator} {as bs : Document} : op ≠ .rename → as.Perm bs →
      SameEntry (.text op.name.toText, .object as) (.text op.name.toText, .object bs)

/-- Updates that list their operators in another order, and the arguments of operators other than `$rename`
in another order, too. -/
def Relisted (u v : Document) : Prop := ∃ w : Document, u.Perm w ∧ List.Forall₂ SameEntry w v

theorem argumentsOf?_cons (name : Scalar) (x : Value) (rest : Document) (op : Operator) :
    argumentsOf? ((name, x) :: rest) op = if name.same (.text op.name.toText) then
      (match x with
        | .object arguments => some arguments
        | _ => none) else argumentsOf? rest op := by
  rw [argumentsOf?, Document.get?]
  cases name.same (.text op.name.toText) with
  | true => cases x <;> rfl
  | false => rfl

theorem name_injective {op op' : Operator} (h : op.name.toText = op'.name.toText) : op = op' := by
  cases op <;> cases op' <;> first | rfl | exact absurd h (by decide)

/-- Each operator has the same arguments. -/
theorem argumentsOf?_forall₂ {w v : Document} (h : List.Forall₂ SameEntry w v) (op : Operator) :
    Option.Rel (fun as bs => as.Perm bs ∧ (op = .rename → as = bs)) (argumentsOf? w op) (argumentsOf? v op) := by
  have hrefl : ∀ o : Option Document, Option.Rel (fun as bs => as.Perm bs ∧ (op = .rename → as = bs)) o o := by
    intro o
    cases o with
    | none => exact .none
    | some as => exact .some ⟨.refl as, fun _ => rfl⟩
  induction h with
  | nil => exact .none
  | @cons f g _ _ hfg _ ih =>
    cases hfg with
    | refl =>
      obtain ⟨name, x⟩ := f
      rw [argumentsOf?_cons, argumentsOf?_cons]
      split
      · exact hrefl _
      · exact ih
    | @arguments op' as bs hop hperm =>
      rw [argumentsOf?_cons, argumentsOf?_cons]
      split
      · next hname =>
        refine .some ⟨hperm, fun hrename => ?_⟩
        rw [hrename, Scalar.same_text, Scalar.text.injEq] at hname
        exact absurd (name_injective hname) hop
      · exact ih

theorem argumentsOf?_perm {u w : Document} (hperm : u.Perm w) (hu : u.Distinct) (op : Operator) :
    argumentsOf? u op = argumentsOf? w op := by
  rw [argumentsOf?, argumentsOf?, Document.get?_perm hperm hu]

theorem Unrepeated.distinct {u : Document} (hu : Unrepeated u) {op : Operator} {as : Document}
    (h : argumentsOf? u op = some as) : as.Distinct := by
  unfold argumentsOf? at h
  split at h
  · next hget =>
    obtain rfl := Option.some.inj h
    obtain ⟨f, hf, -, hvalue⟩ := Document.mem_of_get? hget
    exact hu.arguments f hf _ hvalue
  · cases h

/-- An update is accepted if each of its entries is an operator with arguments by field. -/
theorem firstBad?_eq_none {u : Document} : firstBad? u = none ↔
    ∀ f ∈ u, (Operator.ofName? f.1).isSome = true ∧ ∃ arguments, f.2 = .object arguments := by
  rw [firstBad?, Option.map_eq_none_iff, List.find?_eq_none]
  refine forall₂_congr fun f _ => ?_
  obtain ⟨name, x⟩ := f
  cases x <;> cases hop : Operator.ofName? name <;> simp [hop]

theorem SameEntry.good {f g : Scalar × Value} (h : SameEntry f g)
    (hf : (Operator.ofName? f.1).isSome = true ∧ ∃ arguments, f.2 = .object arguments) :
    (Operator.ofName? g.1).isSome = true ∧ ∃ arguments, g.2 = .object arguments := by
  cases h with
  | refl _ => exact hf
  | arguments _ _ => exact ⟨hf.1, _, rfl⟩

/-- Updates that list the same things have the same steps. -/
theorem steps_relisted {u v : Document} (hu : Unrepeated u) (h : Relisted u v) {taken : Steps}
    (htaken : steps u = .ok taken) : ∃ taken', steps v = .ok taken' ∧ SameSteps taken taken' := by
  obtain ⟨w, hperm, hentries⟩ := h
  unfold steps at htaken ⊢
  split at htaken
  · cases htaken
  · next hgood =>
    obtain rfl := Except.ok.inj htaken
    rw [firstBad?_eq_none] at hgood
    have hgood' : firstBad? v = none := by
      refine firstBad?_eq_none.mpr fun g hg => ?_
      obtain ⟨f, hf, hfg⟩ := Order.exists_mem_of_forall₂ hentries.flip hg
      exact hfg.good (hgood f (hperm.mem_iff.mpr hf))
    rw [hgood']
    refine ⟨_, rfl, List.rel_filterMap (R := Eq) ?_ (List.forall₂_same.mpr fun _ _ => rfl)⟩
    rintro op _ rfl
    have hargs := argumentsOf?_forall₂ hentries op
    rw [← argumentsOf?_perm hperm hu.operators] at hargs
    have hdistinct : ∀ as : Document, argumentsOf? u op = some as → as.Distinct := fun _ => hu.distinct
    show Option.Rel _ ((argumentsOf? u op).map _) ((argumentsOf? v op).map _)
    generalize argumentsOf? u op = o at hargs hdistinct
    generalize argumentsOf? v op = o' at hargs
    cases hargs with
    | none => exact .none
    | some hsame => exact .some ⟨rfl, hsame.1, hsame.2, hdistinct _ rfl⟩

/-! ## One field alone -/

/-- What an update says about the fields of some names. -/
def restricted (p : Scalar → Bool) (update : Document) : Document :=
  update.map fun f => (f.1, match f.2 with
    | .object arguments => .object (Document.only p arguments)
    | x => x)

theorem argumentsOf?_restricted (p : Scalar → Bool) (update : Document) (op : Operator) :
    argumentsOf? (restricted p update) op = (argumentsOf? update op).map (Document.only p) := by
  induction update with
  | nil => rfl
  | cons f update ih =>
    obtain ⟨name, x⟩ := f
    have hcons : restricted p ((name, x) :: update) = (name, match x with
      | .object arguments => .object (Document.only p arguments)
      | x => x) :: restricted p update := rfl
    rw [hcons, argumentsOf?_cons, argumentsOf?_cons, ih]
    split
    · cases x <;> rfl
    · rfl

/-- Its steps have the arguments for these fields only. -/
theorem steps_restricted (p : Scalar → Bool) {update : Document} {taken : Steps}
    (htaken : steps update = .ok taken) : steps (restricted p update) = .ok (only p taken) := by
  unfold steps at htaken ⊢
  split at htaken
  · cases htaken
  · next hgood =>
    obtain rfl := Except.ok.inj htaken
    rw [firstBad?_eq_none] at hgood
    have hgood' : firstBad? (restricted p update) = none := by
      refine firstBad?_eq_none.mpr fun g hg => ?_
      obtain ⟨f, hf, rfl⟩ := List.mem_map.mp hg
      obtain ⟨hop, arguments, hvalue⟩ := hgood f hf
      exact ⟨hop, Document.only p arguments, by simp only [hvalue]⟩
    rw [hgood']
    simp only [argumentsOf?_restricted, only, List.map_filterMap, Option.map_map]
    rfl

/-! ## Updates as they are given -/

theorem compile_of_steps {update : Document} (hne : update ≠ []) {taken : Steps}
    (h : steps update = .ok taken) : compile (.value (.object update)) = .ok (some (mutate taken)) := by
  cases update with
  | nil => exact absurd rfl hne
  | cons f rest =>
    rw [compile, h]
    · rfl
    · exact nofun

theorem mutate_of_applySteps {taken : Steps} {d d' : Document} (h : applySteps taken d = .ok d') :
    mutate taken (.object d) = .ok (.object d') := by
  rw [mutate, h]
  rfl

/-- Outcomes that are one object, up to the order of its fields, or one failure. -/
def Agrees (r s : Except Failure Value) : Prop :=
  (∃ d e : Document, r = .ok (.object d) ∧ s = .ok (.object e) ∧ d.Perm e) ∨
    ∃ e, r = .error e ∧ s = .error e

theorem Agree.agrees {taken taken' : Steps} {d e : Document}
    (h : Agree (applySteps taken d) (applySteps taken' e)) :
    Agrees (mutate taken (.object d)) (mutate taken' (.object e)) := by
  rw [mutate, mutate]
  generalize applySteps taken d = r at h
  generalize applySteps taken' e = s at h
  cases h with
  | ok _ hperm => exact .inl ⟨_, _, rfl, rfl, hperm⟩
  | error e => exact .inr ⟨e, rfl, rfl⟩

/-- Rows are sown after they were cleared, though the update says it the other way round. -/
def sowing : Document :=
  [(.text "$push".toText, .object [(.text "rows".toText, .text "dill".toText), (.null, .int 1)]),
    (.text "$set".toText, .object [(.text "rows".toText, .list []), (.text "bed".toText, .bool true)])]

def sowingAgain : Document :=
  [(.text "$set".toText, .object [(.text "bed".toText, .bool true), (.text "rows".toText, .list [])]),
    (.text "$push".toText, .object [(.null, .int 1), (.text "rows".toText, .text "dill".toText)])]

theorem sowing_unrepeated : Unrepeated sowing where
  operators := by
    unfold Document.Distinct
    decide
  arguments := by
    unfold Document.Distinct
    simp only [sowing, List.forall_mem_cons, Value.object.injEq, forall_eq']
    exact ⟨by decide, by decide, List.forall_mem_nil _⟩

theorem sowing_relisted : Relisted sowing sowingAgain := by
  refine ⟨_, .swap _ _ _, .cons ?_ (.cons ?_ .nil)⟩
  · exact @SameEntry.arguments .set _ _ nofun (.swap _ _ _)
  · exact @SameEntry.arguments .push _ _ nofun (.swap _ _ _)

end Cabinet.Update
