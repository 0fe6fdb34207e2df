import Cabinet.Proofs.Query.Fieldwise

/-!
# Updates that may be repeated

Dropping fields and pulling values out of them look at each field by itself, and a second time they find
nothing to do. Setting fields before that gives them values that are then reshaped in the same way as the
first time. So an update that only sets, drops and pulls does nothing to its own outcome.

* `Document.rework` : a document field by field; `Document.erase_eq_rework`, `Update.pullItem_eq_rework` : what
  one argument of `$unset` and of `$pull` does;
* `Update.settle` : what all arguments of both make of one field, and `Update.settle_settle` : once is enough;
* `Document.rework_set`, `Update.rework_setAll` : a value that is reworked to what was there before makes no
  difference;
* `Update.applySteps_eq` : steps one operator after another, where an operator that is left out has no
  arguments;
* `Update.update_repeated` : an update that sets, drops and pulls, applied to its own outcome.
-/

namespace Cabinet

namespace Document

/-! ## Field by field -/

/-- What becomes of the fields if each is given another value, or dropped, by itself. -/
def rework (r : Scalar → Value → Option Value) (d : Document) : Document :=
  d.filterMap fun f => (r f.1 f.2).map fun y => (f.1, y)

section Rework
variable {r : Scalar → Value → Option Value} {name key : Scalar} {x y : Value} {d : Document}

theorem rework_cons_some (h : r name x = some y) : rework r ((name, x) :: d) = (name, y) :: rework r d :=
  List.filterMap_cons_some (by rw [h]; rfl)

theorem rework_cons_none (h : r name x = none) : rework r ((name, x) :: d) = rework r d :=
  List.filterMap_cons_none (by rw [h]; rfl)

theorem Distinct.rework (h : d.Distinct) (r : Scalar → Value → Option Value) : (d.rework r).Distinct := by
  refine List.Pairwise.filterMap _ (fun f g hfg f' hf g' hg => ?_) h
  obtain ⟨_, -, rfl⟩ := Option.map_eq_some_iff.mp hf
  obtain ⟨_, -, rfl⟩ := Option.map_eq_some_iff.mp hg
  exact hfg

/-- What leaves each field as it is leaves all of them. -/
theorem rework_id (h : ∀ f ∈ d, r f.1 f.2 = some f.2) : d.rework r = d := by
  have hfields : ∀ f ∈ d, ((r f.1 f.2).map fun y => (f.1, y)) = some f := fun f hf => by
    rw [h f hf]
    rfl
  exact (List.filterMap_congr hfields).trans List.filterMap_some

/-- One way after another. -/
theorem rework_rework (r s : Scalar → Value → Option Value) (d : Document) :
    (d.rework r).rework s = d.rework fun name x => (r name x).bind (s name) := by
  rw [rework, rework, List.filterMap_filterMap, rework]
  congr
  funext f
  cases r f.1 f.2 <;> rfl

/-- A way that does not tell apart names that are the same. -/
def Coherent (r : Scalar → Value → Option Value) : Prop := ∀ a b : Scalar, a.same b = true → r a = r b

/-- The content of a field is reworked, too. -/
theorem get?_rework (hr : Coherent r) (hd : d.Distinct) (key : Scalar) :
    (d.rework r).get? key = (d.get? key).bind (r key) := by
  induction d with
  | nil => rfl
  | cons f d ih =>
    obtain ⟨name, x⟩ := f
    obtain ⟨hnew, hrest⟩ := List.pairwise_cons.mp hd
    cases hname : name.same key with
    | true =>
      rw [get?_cons_same hname, Option.bind_some, ← hr name key hname]
      cases hx : r name x with
      | some y => rw [rework_cons_some hx, get?_cons_same hname]
      | none =>
        -- no other field has this name
        rw [rework_cons_none hx, ih hrest]
        cases hget : Document.get? d key with
        | none => rfl
        | some y =>
          obtain ⟨g, hg, hsame, -⟩ := mem_of_get? hget
          rw [← Scalar.same_congr hsame name, hnew g hg] at hname
          cases hname
    | false =>
      rw [get?_cons_apart hname]
      cases hx : r name x with
      | some y => rw [rework_cons_some hx, get?_cons_apart hname, ih hrest]
      | none => rw [rework_cons_none hx, ih hrest]

/-- A value that is reworked to what becomes of the field anyway makes no difference. -/
theorem rework_set (hr : Coherent r) (h : r key x = (d.get? key).bind (r key)) :
    (d.set key x).rework r = d.rework r := by
  induction d with
  | nil => exact rework_cons_none h
  | cons f d ih =>
    obtain ⟨name, old⟩ := f
    rw [set]
    cases hname : name.same key with
    | true =>
      rw [get?_cons_same hname, Option.bind_some, ← hr name key hname] at h
      rw [if_pos rfl]
      cases hold : r name old with
      | some y => rw [rework_cons_some (h.trans hold), rework_cons_some hold]
      | none => rw [rework_cons_none (h.trans hold), rework_cons_none hold]
    | false =>
      rw [get?_cons_apart hname] at h
      rw [if_neg Bool.false_ne_true]
      cases hold : r name old with
      | some y => rw [rework_cons_some hold, rework_cons_some hold, ih h]
      | none => rw [rework_cons_none hold, rework_cons_none hold, ih h]

/-- Giving a field another content, or dropping it, is a rework where names are different. -/
theorem put_eq_rework (hd : d.Distinct) (key : Scalar) (change : Value → Option Value) :
    d.put key ((d.get? key).bind change) = d.rework fun name x => if name.same key then change x else some x := by
  induction d with
  | nil => rfl
  | cons f d ih =>
    obtain ⟨name, x⟩ := f
    obtain ⟨hnew, hrest⟩ := List.pairwise_cons.mp hd
    cases hname : name.same key with
    | true =>
      have hothers : rework (fun name x => if name.same key then change x else some x) d = d := by
        refine rework_id fun g hg => if_neg (Bool.eq_false_iff.mp ?_)
        rw [Scalar.same_comm] at hname ⊢
        exact Scalar.same_false (hnew g hg) hname
      rw [get?_cons_same hname, put_cons_same hname, Option.bind_some]
      cases hx : change x with
      | some y => rw [rework_cons_some (by rw [if_pos hname, hx]), hothers]; rfl
      | none => rw [rework_cons_none (by rw [if_pos hname, hx]), hothers]; rfl
    | false =>
      rw [get?_cons_apart hname, put_cons_apart hname, ih hrest,
        rework_cons_some (if_neg (Bool.eq_false_iff.mp hname))]

end Rework

end Document

namespace Update

open Document (rework Coherent)

/-! ## Dropping and pulling -/

/-- A value with another one pulled out of it. -/
def pulled (x : Value) : Value → Value
  | .list ys => .list (ys.filter fun y => !y.same x)
  | y => if y.same x then .list [] else y

theorem content_pull (x : Value) (old : Option Value) :
    Operator.pull.content x old = .ok (old.map (pulled x)) := by
  cases old with
  | none => rfl
  | some y =>
    cases y with
    | list ys => rfl
    | scalar _ | object _ =>
      simp only [Operator.content, Option.map_some, pulled]
      split <;> rfl

/-- What is no list is left as it is, or becomes an empty list. -/
theorem pulled_cases (x y : Value) : (∃ ys, y = .list ys) ∨ pulled x y = .list [] ∨ pulled x y = y := by
  cases y with
  | list ys => exact .inl ⟨ys, rfl⟩
  | scalar _ | object _ =>
    right
    simp only [pulled]
    split
    · exact .inl rfl
    · exact .inr rfl

/-- What is pulled once is gone. -/
theorem pulled_pulled (x y : Value) : pulled x (pulled x y) = pulled x y := by
  obtain ⟨ys, rfl⟩ | hempty | hsame := pulled_cases x y
  · simp [pulled]
  · rw [hempty]
    rfl
  · rw [hsame, hsame]

/-- It does not come back when other values are pulled. -/
theorem pulled_of_fixed {x y : Value} (h : pulled x y = y) (z : Value) : pulled x (pulled z y) = pulled z y := by
  obtain ⟨ys, rfl⟩ | hempty | hsame := pulled_cases z y
  · simp only [pulled, Value.list.injEq, List.filter_eq_self] at h ⊢
    exact fun y hy => h y (List.mem_filter.mp hy).1
  · rw [hempty]
    rfl
  · rw [hsame, h]

/-- Of the arguments of `$pull`, those for a field take their values out of it. -/
def pullAll (pulls : List (Scalar × Value)) (name : Scalar) (y : Value) : Value :=
  pulls.foldl (fun y a => if name.same a.1 then pulled a.2 y else y) y

/-- What the arguments of `$unset` and of `$pull` make of one field. -/
def settle (drops pulls : List (Scalar × Value)) (name : Scalar) (y : Value) : Option Value :=
  if drops.any (name.same ·.1) then none else some (pullAll pulls name y)

theorem settle_coherent (drops pulls : List (Scalar × Value)) : Coherent (settle drops pulls) := by
  intro a b h
  have hsame : ∀ key : Scalar, a.same key = b.same key := fun key => Scalar.coherent_same key a b h
  funext y
  simp only [settle, pullAll, hsame]

/-- A value out of which nothing can be pulled is left as it is. -/
theorem pullAll_of_fixed {name : Scalar} {y : Value} {pulls : List (Scalar × Value)}
    (h : ∀ a ∈ pulls, name.same a.1 = true → pulled a.2 y = y) : pullAll pulls name y = y := by
  induction pulls with
  | nil => rfl
  | cons a pulls ih =>
    obtain ⟨ha, hpulls⟩ := List.forall_mem_cons.mp h
    have hstep : (if name.same a.1 then pulled a.2 y else y) = y := by
      split
      · next hname => exact ha hname
      · rfl
    rw [pullAll, List.foldl_cons, hstep]
    exact ih hpulls

/-- What was out of it before stays out. -/
theorem pulled_pullAll_of_fixed {x y : Value} (h : pulled x y = y) (pulls : List (Scalar × Value))
    (name : Scalar) : pulled x (pullAll pulls name y) = pullAll pulls name y := by
  induction pulls generalizing y with
  | nil => exact h
  | cons a pulls ih =>
    rw [pullAll, List.foldl_cons]
    split
    · exact ih (pulled_of_fixed h a.2)
    · exact ih h

theorem pulled_pullAll {name : Scalar} {pulls : List (Scalar × Value)} (y : Value) :
    ∀ a ∈ pulls, name.same a.1 = true → pulled a.2 (pullAll pulls name y) = pullAll pulls name y := by
  induction pulls generalizing y with
  | nil => exact List.forall_mem_nil _
  | cons b pulls ih =>
    refine List.forall_mem_cons.mpr ⟨fun hname => ?_, fun a ha hname => ?_⟩
    · rw [pullAll, List.foldl_cons, if_pos hname]
      exact pulled_pullAll_of_fixed (pulled_pulled b.2 y) pulls name
    · rw [pullAll, List.foldl_cons]
      exact ih _ a ha hname

/-- A field that is settled stays as it is. -/
theorem settle_settle (drops pulls : List (Scalar × Value)) (name : Scalar) (y : Value) :
    (settle drops pulls name y).bind (settle drops pulls name) = settle drops pulls name y := by
  unfold settle
  split
  · rfl
  · rw [Option.bind_some, pullAll_of_fixed (pulled_pullAll y)]

/-! ## Operators as reworks -/

/-- What the arguments of an operator make of one field, if `change` is what one of them makes of it. -/
def each (change : Value → Value → Option Value) (arguments : List (Scalar × Value)) (name : Scalar)
    (y : Value) : Option Value :=
  arguments.foldlM (fun y a => if name.same a.1 then change a.2 y else some y) y

/-- An operator that changes or drops what is there reworks the document. -/
theorem apply_eq_rework {op : Operator} (hop : op ≠ .rename) {change : Value → Value → Option Value}
    (hchange : ∀ x c, op.content x c = .ok (c.bind (change x))) {d : Document} (hd : d.Distinct)
    (arguments : List (Scalar × Value)) : op.apply d arguments = .ok (d.rework (each change arguments)) := by
  induction arguments generalizing d with
  | nil =>
    have hsame : d.rework (each change []) = d := Document.rework_id fun f _ => rfl
    rw [hsame]
    rfl
  | cons a arguments ih =>
    have hstep : op.applyTo d a.1 a.2 =
        .ok (d.rework fun name y => if name.same a.1 then change a.2 y else some y) := by
      rw [applyTo_eq hop, hchange, ← Document.put_eq_rework hd]
      rfl
    show (op.applyTo d a.1 a.2 >>= fun d => op.apply d arguments) = _
    rw [hstep]
    exact (ih (hd.rework _)).trans (congrArg _ (Document.rework_rework _ _ d))

theorem apply_unset {d : Document} (hd : d.Distinct) (drops : List (Scalar × Value)) :
    Operator.unset.apply d drops =
      .ok (d.rework fun name y => if drops.any (name.same ·.1) then none else some y) := by
  have hop : Operator.unset ≠ .rename := nofun
  have hchange : ∀ (x : Value) (c : Option Value), Operator.unset.content x c = .ok (c.bind fun _ => none) := by
    intro x c
    cases c <;> rfl
  rw [apply_eq_rework hop hchange hd]
  congr
  funext name y
  induction drops with
  | nil => rfl
  | cons a drops ih =>
    rw [each, List.foldlM_cons, List.any_cons]
    cases name.same a.1 with
    | true => rfl
    | false => exact ih

theorem apply_pull {d : Document} (hd : d.Distinct) (pulls : List (Scalar × Value)) :
    Operator.pull.apply d pulls = .ok (d.rework fun name y => some (pullAll pulls name y)) := by
  have hop : Operator.pull ≠ .rename := nofun
  have hchange : ∀ (x : Value) (c : Option Value),
      Operator.pull.content x c = .ok (c.bind fun y => some (pulled x y)) := by
    intro x c
    rw [content_pull]
    cases c <;> rfl
  rw [apply_eq_rework hop hchange hd]
  congr
  funext name y
  induction pulls generalizing y with
  | nil => rfl
  | cons a pulls ih =>
    rw [each, List.foldlM_cons, pullAll, List.foldl_cons]
    cases name.same a.1 with
    | true => exact ih _
    | false => exact ih _

/-! ## Setting -/

/-- A document in which fields were set one after another. -/
def setAll (d : Document) (sets : List (Scalar × Value)) : Document :=
  sets.foldl (fun d a => d.set a.1 a.2) d

section Setting
variable {d : Document} {sets : List (Scalar × Value)}

theorem apply_set (d : Document) (sets : List (Scalar × Value)) :
    Operator.set.apply d sets = .ok (setAll d sets) := by
  induction sets generalizing d with
  | nil => rfl
  | cons a sets ih => exact ih (d.set a.1 a.2)

theorem setAll_distinct (hd : d.Distinct) (sets : List (Scalar × Value)) : (setAll d sets).Distinct := by
  induction sets generalizing d with
  | nil => exact hd
  | cons a sets ih => exact ih (hd.put a.1 (some a.2))

theorem get?_setAll_apart {key : Scalar} (h : ∀ a ∈ sets, a.1.same key = false) :
    (setAll d sets).get? key = d.get? key := by
  induction sets generalizing d with
  | nil => rfl
  | cons a sets ih =>
    obtain ⟨ha, hsets⟩ := List.forall_mem_cons.mp h
    exact (ih hsets).trans (Document.get?_set_apart ha d a.2)

/-- Each field has the value that was set, if the names are different. -/
theorem get?_setAll (hsets : Document.Distinct sets) (hnames : ∀ a ∈ sets, a.1 ≠ .float .nan) :
    ∀ a ∈ sets, (setAll d sets).get? a.1 = some a.2 := by
  induction sets generalizing d with
  | nil => exact List.forall_mem_nil _
  | cons b sets ih =>
    obtain ⟨hnew, hsets⟩ := List.pairwise_cons.mp hsets
    obtain ⟨hb, hnames⟩ := List.forall_mem_cons.mp hnames
    refine List.forall_mem_cons.mpr ⟨?_, ih hsets hnames⟩
    have hkept := get?_setAll_apart (d := d.set b.1 b.2) fun a ha =>
      (Scalar.same_comm a.1 b.1).trans (hnew a ha)
    exact hkept.trans (Document.get?_set_same hb d b.2)

/-- Setting fields makes no difference if each new value is reworked to what becomes of its field anyway. -/
theorem rework_setAll {r : Scalar → Value → Option Value} (hr : Coherent r) (hsets : Document.Distinct sets)
    (h : ∀ a ∈ sets, r a.1 a.2 = (d.get? a.1).bind (r a.1)) : (setAll d sets).rework r = d.rework r := by
  induction sets generalizing d with
  | nil => rfl
  | cons a sets ih =>
    obtain ⟨hnew, hsets⟩ := List.pairwise_cons.mp hsets
    obtain ⟨ha, hrest⟩ := List.forall_mem_cons.mp h
    have hlater : ∀ b ∈ sets, r b.1 b.2 = ((d.set a.1 a.2).get? b.1).bind (r b.1) := fun b hb => by
      rw [Document.get?_set_apart (hnew b hb), hrest b hb]
    exact (ih hsets hlater).trans (Document.rework_set hr ha)

/-- What was set and settled is the same after it is set and settled again. -/
theorem settle_again {r : Scalar → Value → Option Value} (hr : Coherent r)
    (hagain : ∀ name y, (r name y).bind (r name) = r name y) (hd : d.Distinct)
    (hsets : Document.Distinct sets) (hnames : ∀ a ∈ sets, a.1 ≠ .float .nan) :
    (setAll ((setAll d sets).rework r) sets).rework r = (setAll d sets).rework r := by
  have hvalues : ∀ a ∈ sets, r a.1 a.2 = (((setAll d sets).rework r).get? a.1).bind (r a.1) := fun a ha => by
    rw [Document.get?_rework hr (setAll_distinct hd sets), get?_setAll hsets hnames a ha, Option.bind_some, hagain]
  rw [rework_setAll hr hsets hvalues, Document.rework_rework]
  simp only [hagain]

end Setting

/-! ## Steps -/

/-- The arguments of an operator, none if it is left out. -/
def argumentsOf (update : Document) (op : Operator) : List (Scalar × Value) :=
  (argumentsOf? update op).getD []

/-- Steps one operator after another; one that is left out has no arguments. -/
theorem applySteps_eq {update : Document} {taken : Steps} (htaken : steps update = .ok taken) (d : Document) :
    applySteps taken d = Operator.all.foldlM (fun d op => op.apply d (argumentsOf update op)) d := by
  unfold steps at htaken
  split at htaken
  · cases htaken
  · obtain rfl := Except.ok.inj htaken
    generalize Operator.all = ops
    induction ops generalizing d with
    | nil => rfl
    | cons op ops ih =>
      rw [List.foldlM_cons, argumentsOf]
      cases harguments : argumentsOf? update op with
      | none =>
        rw [List.filterMap_cons_none (by rw [harguments]; rfl), ih]
        rfl
      | some arguments =>
        rw [List.filterMap_cons_some (by rw [harguments]; rfl), applySteps]
        simp only [ih]
        rfl

/-- Only `$set`, `$unset` and `$pull` are in the update. -/
def SetsDropsPulls (update : Document) : Prop :=
  ∀ op, (argumentsOf? update op).isSome = true → op = .set ∨ op = .unset ∨ op = .pull

theorem SetsDropsPulls.argumentsOf_eq {update : Document} (h : SetsDropsPulls update) (op : Operator)
    (hset : op ≠ .set) (hunset : op ≠ .unset) (hpull : op ≠ .pull) : argumentsOf update op = [] := by
  have hnone : argumentsOf? update op = none := by
    rw [← Option.not_isSome_iff_eq_none]
    intro hsome
    rcases h op hsome with heq | heq | heq
    · exact hset heq
    · exact hunset heq
    · exact hpull heq
  rw [argumentsOf, hnone]
  rfl

/-- Such an update sets fields and then settles each field. -/
theorem SetsDropsPulls.applySteps {update : Document} (h : SetsDropsPulls update) {taken : Steps}
    (htaken : steps update = .ok taken) {d : Document} (hd : d.Distinct) : applySteps taken d =
      .ok ((setAll d (argumentsOf update .set)).rework
        (settle (argumentsOf update .unset) (argumentsOf update .pull))) := by
  have hset := setAll_distinct hd (argumentsOf update .set)
  rw [applySteps_eq htaken]
  simp only [Operator.all, List.foldlM_cons, List.foldlM_nil, apply_set,
    h.argumentsOf_eq .rename nofun nofun nofun, h.argumentsOf_eq .push nofun nofun nofun,
    h.argumentsOf_eq .inc nofun nofun nofun, bind, Except.bind, Operator.apply, apply_unset hset,
    apply_pull (hset.rework _), Document.rework_rework]
  refine congrArg (fun r => Except.ok (rework r _)) ?_
  funext name y
  rw [settle]
  split <;> rfl

/-- An update that only sets, drops and pulls succeeds with every document, and it leaves its own outcome as
it is, in the order of its fields, too. Only a field of the name not-a-number, which nothing finds again, would
be set once more. -/
theorem update_repeated {update : Document} (hupdate : Unrepeated update) (honly : SetsDropsPulls update)
    (hnames : ∀ sets, argumentsOf? update .set = some sets → ∀ a ∈ sets, a.1 ≠ .float .nan) {f : Transform}
    (hf : compile (.value (.object update)) = .ok (some f)) {d : Document} (hd : d.Distinct) :
    ∃ d' : Document, f (.object d) = .ok (.object d') ∧ f (.object d') = .ok (.object d') := by
  obtain ⟨taken, htaken, rfl⟩ := steps_of_compile hf
  have hsets : Document.Distinct (argumentsOf update .set) ∧ ∀ a ∈ argumentsOf update .set, a.1 ≠ .float .nan := by
    rw [argumentsOf]
    cases hset : argumentsOf? update .set with
    | none => exact ⟨.nil, List.forall_mem_nil _⟩
    | some sets => exact ⟨hupdate.distinct hset, hnames sets hset⟩
  have hsettled := (setAll_distinct hd (argumentsOf update .set)).rework
    (settle (argumentsOf update .unset) (argumentsOf update .pull))
  refine ⟨_, mutate_of_applySteps (honly.applySteps htaken hd), mutate_of_applySteps ?_⟩
  rw [honly.applySteps htaken hsettled, settle_again (settle_coherent _ _) (settle_settle _ _) hd hsets.1 hsets.2]

/-! ## A bed that is weeded -/

/-- Rows are set with dill in them, which is pulled out, and the label is set and dropped. -/
def weeding : Document :=
  [(.text "$pull".toText, .object [(.text "rows".toText, .text "dill".toText), (.text "beds".toText, .int 1)]),
    (.text "$unset".toText, .object [(.text "label".toText, .null), (.int 3, .null)]),
    (.text "$set".toText, .object [(.text "rows".toText, .list [.text "dill".toText, .text "mint".toText]),
      (.text "label".toText, .null)])]

def garden : Document :=
  [(.text "label".toText, .text "old".toText), (.text "beds".toText, .list [.bool true, .int 2, .int 1]),
    (.int 3, .text "mint".toText)]

/-- What equals one is pulled, whatever its kind. -/
def weeded : Document :=
  [(.text "beds".toText, .list [.int 2]), (.text "rows".toText, .list [.text "mint".toText])]

theorem weeding_unrepeated : Unrepeated weeding where
  operators := by
    unfold Document.Distinct
    decide
  arguments := by
    unfold Document.Distinct
    simp only [weeding, List.forall_mem_cons, Value.object.injEq, forall_eq']
    exact ⟨by decide, by decide, by decide, List.forall_mem_nil _⟩

theorem weeding_setsDropsPulls : SetsDropsPulls weeding := by
  intro op
  cases op <;> decide

theorem update_repeated_weeding : ∃ f, compile (.value (.object weeding)) = .ok (some f) ∧
    f (.object garden) = .ok (.object weeded) ∧ f (.object weeded) = .ok (.object weeded) := by
  have hweeding : ∃ f, compile (.value (.object weeding)) = .ok (some f) ∧
      f (.object garden) = .ok (.object weeded) := ⟨_, rfl, rfl⟩
  obtain ⟨f, hf, hweeded⟩ := hweeding
  have hgarden : garden.Distinct := by
    unfold Document.Distinct
    decide
  obtain ⟨d', hfirst, hsecond⟩ := update_repeated weeding_unrepeated weeding_setsDropsPulls
    (fun sets hsets => by obtain rfl := Option.some.inj hsets; decide) hf hgarden
  obtain rfl := Value.object.inj (Except.ok.inj (hfirst.symm.trans hweeded))
  exact ⟨f, hf, hweeded, hsecond⟩

end Update

end Cabinet
