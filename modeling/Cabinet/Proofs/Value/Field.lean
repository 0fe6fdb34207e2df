import Cabinet.Proofs.Value.Identity

/-!
# One field of a document

Setting and dropping a field are two cases of giving it a content, which a value is or nothing. The content
of a field says nothing about other fields, so contents can be given in any order, and fields can be left out
before or after.

* `Document.put` : gives a field a content; `Document.put_get?` : its own content makes no difference;
* `Document.get?_put_apart`, `Document.get?_set_same` : what a field holds after one was given a content;
* `Scalar.Coherent`, `Document.only` : a choice of names, and the fields that have them;
  `Document.only_put`, `Document.get?_only` : these fields stand for themselves;
* `Document.Distinct` : documents whose fields have different names, which `put` keeps;
* `Document.put_comm`, `Document.put_perm` : up to the order of fields, contents are given in any order, and
  so are fields.
-/

namespace Cabinet

/-- A choice of names that does not tell apart names that are the same. -/
def Scalar.Coherent (p : Scalar → Bool) : Prop := ∀ a b : Scalar, a.same b = true → p a = p b

/-- To be the same as one name is such a choice. -/
theorem Scalar.coherent_same (key : Scalar) : Coherent (·.same key) := fun a b h => by
  show a.same key = b.same key
  rw [same_comm a, same_comm b, same_congr h]

/-- What is the same as one of two different names is not the same as the other one. -/
theorem Scalar.same_false {a b name : Scalar} (h : a.same b = false) (hname : name.same a = true) :
    name.same b = false :=
  (coherent_same b name a hname).trans h

/-- No name is the same as two different ones. -/
theorem Scalar.apart_of_same_false {a b : Scalar} (h : a.same b = false) (key : Scalar) :
    a.same key = false ∨ b.same key = false := by
  cases hb : b.same key with
  | false => exact .inr rfl
  | true => exact .inl ((same_congr hb a).symm.trans h)

namespace Document

/-- Gives a field a content: a value, or nothing. -/
def put (d : Document) (key : Scalar) : Option Value → Document
  | some x => d.set key x
  | none => d.erase key

/-! ## Fields -/

section Fields
variable {key name : Scalar} {x : Value} {rest : Document}

theorem get?_cons_same (h : name.same key = true) : get? ((name, x) :: rest) key = some x := by
  rw [get?, if_pos h]

theorem get?_cons_apart (h : name.same key = false) : get? ((name, x) :: rest) key = get? rest key := by
  rw [get?, if_neg (Bool.eq_false_iff.mp h)]

theorem put_cons_same (h : name.same key = true) (c : Option Value) :
    put ((name, x) :: rest) key c = (c.map fun y => (name, y)).toList ++ rest := by
  cases c with
  | some y =>
    rw [put, set, if_pos h]
    rfl
  | none =>
    rw [put, erase, if_pos h]
    rfl

theorem put_cons_apart (h : name.same key = false) (c : Option Value) :
    put ((name, x) :: rest) key c = (name, x) :: put rest key c := by
  cases c with
  | some y => rw [put, put, set, if_neg (Bool.eq_false_iff.mp h)]
  | none => rw [put, put, erase, if_neg (Bool.eq_false_iff.mp h)]

end Fields

/-- A document without fields. -/
theorem put_nil (key : Scalar) (c : Option Value) : put [] key c = (c.map fun y => (key, y)).toList := by
  cases c <;> rfl

/-- Its own content makes no difference to a field. -/
theorem put_get? (d : Document) (key : Scalar) : d.put key (d.get? key) = d := by
  induction d with
  | nil => rfl
  | cons f d ih =>
    obtain ⟨name, x⟩ := f
    cases h : name.same key with
    | true =>
      rw [get?_cons_same h, put_cons_same h]
      rfl
    | false => rw [get?_cons_apart h, put_cons_apart h, ih]

/-- Other fields keep their contents. -/
theorem get?_put_apart {key key' : Scalar} (h : key.same key' = false) (d : Document) (c : Option Value) :
    (d.put key c).get? key' = d.get? key' := by
  induction d with
  | nil => cases c <;> simp [put_nil, get?, h]
  | cons f d ih =>
    obtain ⟨name, x⟩ := f
    cases hname : name.same key with
    | true =>
      have hother := Scalar.same_false h hname
      rw [put_cons_same hname, get?_cons_apart hother]
      cases c with
      | some y => exact get?_cons_apart hother
      | none => rfl
    | false =>
      rw [put_cons_apart hname]
      cases hother : name.same key' with
      | true => rw [get?_cons_same hother, get?_cons_same hother]
      | false => rw [get?_cons_apart hother, get?_cons_apart hother, ih]

theorem get?_set_apart {key key' : Scalar} (h : key.same key' = false) (d : Document) (x : Value) :
    (d.set key x).get? key' = d.get? key' :=
  get?_put_apart h d (some x)

theorem get?_set_same {key : Scalar} (h : key ≠ .float .nan) (d : Document) (x : Value) :
    (d.set key x).get? key = some x := by
  show (d.put key (some x)).get? key = some x
  induction d with
  | nil => exact get?_cons_same (Scalar.same_self h)
  | cons f d ih =>
    obtain ⟨name, y⟩ := f
    cases hname : name.same key with
    | true =>
      rw [put_cons_same hname]
      exact get?_cons_same hname
    | false => rw [put_cons_apart hname, get?_cons_apart hname, ih]

/-- Nothing is the content of not-a-number. -/
theorem get?_nan (d : Document) : d.get? (.float .nan) = none := by
  induction d with
  | nil => rfl
  | cons f d ih => rw [get?, (Scalar.nan_same f.1).2, if_neg Bool.false_ne_true, ih]

/-! ## Chosen fields -/

/-- The fields whose names are chosen. -/
def only (p : Scalar → Bool) (d : Document) : Document := d.filter fun f => p f.1

section Only
variable {p : Scalar → Bool} {name : Scalar} {x : Value} {rest : Document}

theorem only_cons_of_pos (h : p name = true) : only p ((name, x) :: rest) = (name, x) :: only p rest :=
  List.filter_cons_of_pos h

theorem only_cons_of_neg (h : p name = false) : only p ((name, x) :: rest) = only p rest :=
  List.filter_cons_of_neg (Bool.eq_false_iff.mp h)

/-- A chosen field has its content among the chosen ones. -/
theorem get?_only (hp : Scalar.Coherent p) {key : Scalar} (hkey : p key = true) (d : Document) :
    (d.only p).get? key = d.get? key := by
  induction d with
  | nil => rfl
  | cons f d ih =>
    obtain ⟨name, x⟩ := f
    cases hname : name.same key with
    | true =>
      have hchosen : p name = true := (hp name key hname).trans hkey
      rw [only_cons_of_pos hchosen, get?_cons_same hname, get?_cons_same hname]
    | false =>
      rw [get?_cons_apart hname]
      cases hchosen : p name with
      | true => rw [only_cons_of_pos hchosen, get?_cons_apart hname, ih]
      | false => rw [only_cons_of_neg hchosen, ih]

/-- The content of a chosen field can be given before the choice or after it, that of another field makes no
difference. -/
theorem only_put (hp : Scalar.Coherent p) (d : Document) (key : Scalar) (c : Option Value) :
    (d.put key c).only p = if p key then (d.only p).put key c else d.only p := by
  induction d with
  | nil => cases c <;> cases hkey : p key <;> simp [put_nil, only, hkey]
  | cons f d ih =>
    obtain ⟨name, x⟩ := f
    cases hname : name.same key with
    | true =>
      have hchosen : p name = p key := hp name key hname
      rw [put_cons_same hname]
      cases hkey : p key with
      | true =>
        rw [hkey] at hchosen
        rw [if_pos rfl, only_cons_of_pos hchosen, put_cons_same hname]
        cases c with
        | some y => exact only_cons_of_pos hchosen
        | none => rfl
      | false =>
        rw [hkey] at hchosen
        rw [if_neg Bool.false_ne_true, only_cons_of_neg hchosen]
        cases c with
        | some y => exact only_cons_of_neg hchosen
        | none => rfl
    | false =>
      rw [put_cons_apart hname]
      cases hchosen : p name with
      | true =>
        rw [only_cons_of_pos hchosen, only_cons_of_pos hchosen, ih]
        split
        · rw [put_cons_apart hname]
        · rfl
      | false => rw [only_cons_of_neg hchosen, only_cons_of_neg hchosen, ih]

/-- A field alone has its content. -/
theorem get?_alone (d : Document) (key : Scalar) : (d.only (·.same key)).get? key = d.get? key := by
  by_cases hkey : key = .float .nan
  · rw [hkey, get?_nan, get?_nan]
  · exact get?_only (Scalar.coherent_same key) (Scalar.same_self hkey) d

end Only

/-! ## Documents in another order -/

/-- The fields have different names. -/
def Distinct (d : Document) : Prop := d.Pairwise fun f g => f.1.same g.1 = false

theorem Distinct.perm {d e : Document} (h : d.Distinct) (hperm : d.Perm e) : e.Distinct :=
  hperm.pairwise h fun hfg => (Scalar.same_comm _ _).trans hfg

theorem mem_put {d : Document} {key : Scalar} {c : Option Value} {f : Scalar × Value} (hf : f ∈ d.put key c) :
    f.1 = key ∨ ∃ g ∈ d, f.1 = g.1 := by
  induction d with
  | nil =>
    cases c with
    | some y => exact .inl (congrArg Prod.fst (List.mem_singleton.mp hf))
    | none => cases hf
  | cons g d ih =>
    obtain ⟨name, x⟩ := g
    cases h : name.same key with
    | true =>
      rw [put_cons_same h] at hf
      cases c with
      | some y =>
        rcases List.mem_cons.mp hf with rfl | hf
        · exact .inr ⟨(name, x), List.mem_cons_self, rfl⟩
        · exact .inr ⟨f, List.mem_cons_of_mem _ hf, rfl⟩
      | none => exact .inr ⟨f, List.mem_cons_of_mem _ hf, rfl⟩
    | false =>
      rw [put_cons_apart h] at hf
      rcases List.mem_cons.mp hf with rfl | hf
      · exact .inr ⟨(name, x), List.mem_cons_self, rfl⟩
      · refine (ih hf).imp_right fun hold => ?_
        obtain ⟨i, hi, hname⟩ := hold
        exact ⟨i, List.mem_cons_of_mem _ hi, hname⟩

theorem Distinct.put {d : Document} (h : d.Distinct) (key : Scalar) (c : Option Value) :
    (d.put key c).Distinct := by
  induction d with
  | nil =>
    cases c with
    | some y => exact List.pairwise_singleton _ _
    | none => exact .nil
  | cons f d ih =>
    obtain ⟨name, x⟩ := f
    obtain ⟨hnew, hrest⟩ := List.pairwise_cons.mp h
    cases hname : name.same key with
    | true =>
      rw [put_cons_same hname]
      cases c with
      | some y => exact List.pairwise_cons.mpr ⟨hnew, hrest⟩
      | none => exact hrest
    | false =>
      rw [put_cons_apart hname]
      refine List.pairwise_cons.mpr ⟨fun g hg => ?_, ih hrest⟩
      obtain heq | ⟨i, hi, heq⟩ := mem_put hg
      · rw [heq]
        exact hname
      · rw [heq]
        exact hnew i hi

/-- Contents of different fields can be given in either order. -/
theorem put_comm {a b : Scalar} (h : a.same b = false) (d : Document) (c c' : Option Value) :
    ((d.put a c).put b c').Perm ((d.put b c').put a c) := by
  have hba : b.same a = false := (Scalar.same_comm b a).trans h
  induction d with
  | nil =>
    cases c with
    | none => cases c' <;> simp [put_nil, put_cons_apart hba]
    | some y =>
      cases c' with
      | none => simp [put_nil, put_cons_apart h]
      | some z => simpa [put_nil, put_cons_apart h, put_cons_apart hba] using .swap (b, z) (a, y) []
  | cons f d ih =>
    obtain ⟨name, x⟩ := f
    cases hname : name.same a with
    | true =>
      have hother := Scalar.same_false h hname
      rw [put_cons_apart hother, put_cons_same hname, put_cons_same hname]
      cases c with
      | some y => exact .of_eq (put_cons_apart hother c')
      | none => rfl
    | false =>
      rw [put_cons_apart hname]
      cases hother : name.same b with
      | true =>
        rw [put_cons_same hother, put_cons_same hother]
        cases c' with
        | some z => exact .of_eq (put_cons_apart hname c).symm
        | none => rfl
      | false =>
        rw [put_cons_apart hother, put_cons_apart hother, put_cons_apart hname]
        exact ih.cons _

section Perm
variable {d e : Document}

/-- Fields in another order have the same contents. -/
theorem get?_perm (hperm : d.Perm e) (h : d.Distinct) (key : Scalar) : d.get? key = e.get? key := by
  induction hperm with
  | nil => rfl
  | cons f _ ih => rw [get?, get?, ih (List.pairwise_cons.mp h).2]
  | swap f g d =>
    have hgf : g.1.same f.1 = false := (List.pairwise_cons.mp h).1 f List.mem_cons_self
    rcases Scalar.apart_of_same_false hgf key with hname | hname
    all_goals simp only [get?, hname, Bool.false_eq_true, if_false]
  | trans hde _ ih ih' => rw [ih h, ih' (h.perm hde)]

/-- The first field may change places with the next one unless it is given a content. -/
theorem put_swap {key : Scalar} (f g : Scalar × Value) (hf : f.1.same key = false) (c : Option Value) :
    (put (f :: g :: d) key c).Perm (put (g :: f :: d) key c) := by
  obtain ⟨name, x⟩ := f
  obtain ⟨name', y⟩ := g
  rw [put_cons_apart hf]
  cases hname : name'.same key with
  | true =>
    rw [put_cons_same hname, put_cons_same hname]
    exact List.perm_middle.symm
  | false =>
    rw [put_cons_apart hname, put_cons_apart hname, put_cons_apart hf]
    exact .swap _ _ _

/-- A content can be given to fields in another order. -/
theorem put_perm (hperm : d.Perm e) (h : d.Distinct) (key : Scalar) (c : Option Value) :
    (d.put key c).Perm (e.put key c) := by
  induction hperm with
  | nil => rfl
  | cons f hperm ih =>
    obtain ⟨name, x⟩ := f
    cases hname : name.same key with
    | true =>
      rw [put_cons_same hname, put_cons_same hname]
      exact hperm.append_left _
    | false =>
      rw [put_cons_apart hname, put_cons_apart hname]
      exact (ih (List.pairwise_cons.mp h).2).cons _
  | swap f g d =>
    have hgf : g.1.same f.1 = false := (List.pairwise_cons.mp h).1 f List.mem_cons_self
    rcases Scalar.apart_of_same_false hgf key with hg | hf
    · exact put_swap g f hg c
    · exact (put_swap f g hf c).symm
  | trans hde _ ih ih' => exact (ih h).trans (ih' (h.perm hde))

end Perm

end Document

end Cabinet
