import Cabinet.Proofs.Query.Fieldwise

/-!
# Renaming to fresh names

The arguments of `$rename` run one after another, each on what the ones before have left. Where the new names
are different from one another, from the old ones and from all names of the document, no argument is in the way
of another, so that up to their order each field just gets its new name, and can be given back the old one.

* `Update.newName`, `Update.renamed` : a name and a field after all arguments;
* `Update.Fresh` : new names that are not in the way;
* `Update.renameField_perm`, `Update.apply_rename` : what one argument and what all arguments make of a document;
* `Update.Fresh.inverse` : the old names are not in the way of renaming back;
* `Document.Equals` : documents with the same fields in any order;
* `Update.rename_undone` : what is renamed to fresh names loses nothing, and can be renamed back.
-/

namespace Cabinet

namespace Document

variable {d e : Document} {key : Scalar} {x : Value}

theorem get?_eq_none_iff : d.get? key = none ↔ ∀ f ∈ d, f.1.same key = false := by
  induction d with
  | nil => exact iff_of_true rfl (List.forall_mem_nil _)
  | cons f d ih =>
    obtain ⟨name, y⟩ := f
    rw [List.forall_mem_cons]
    cases hname : name.same key with
    | true =>
      rw [get?_cons_same hname]
      exact iff_of_false nofun fun h => Bool.noConfusion h.1
    | false =>
      rw [get?_cons_apart hname, ih]
      exact (and_iff_right rfl).symm

/-- A field that is not there is added as the last one. -/
theorem put_of_get?_none (h : d.get? key = none) : d.put key (some x) = d ++ [(key, x)] := by
  induction d with
  | nil => rfl
  | cons f d ih =>
    obtain ⟨name, y⟩ := f
    cases hname : name.same key with
    | true =>
      rw [get?_cons_same hname] at h
      cases h
    | false =>
      rw [get?_cons_apart hname] at h
      rw [put_cons_apart hname, ih h, List.cons_append]

/-- The same fields in any order: the values are the very same, and so are the names, unless they are equal
numbers of different kinds. -/
def Equals (d e : Document) : Prop :=
  ∃ d' : Document, d.Perm d' ∧ List.Forall₂ (fun f g => f.1.finds g.1 = true ∧ f.2 = g.2) d' e

/-- Fields of other names have the contents that they had under their old ones. -/
theorem get?_map {r : Scalar → Scalar} {key' : Scalar} (h : ∀ f ∈ d, (r f.1).same key' = f.1.same key) :
    get? (d.map fun f => (r f.1, f.2)) key' = d.get? key := by
  induction d with
  | nil => rfl
  | cons f d ih =>
    obtain ⟨hf, hrest⟩ := List.forall_mem_cons.mp h
    rw [List.map_cons, get?, get?, hf, ih hrest]

end Document

namespace Update

/-! ## New names -/

/-- The name of a field after it was renamed, which the first argument for it gives. -/
def newName : List (Scalar × Scalar) → Scalar → Scalar
  | [], name => name
  | a :: renames, name => if name.same a.1 then a.2 else newName renames name

/-- A field under its new name. -/
def renamed (renames : List (Scalar × Scalar)) (f : Scalar × Value) : Scalar × Value :=
  (newName renames f.1, f.2)

/-- The new names are different from one another and from all old ones, and none is a name of the document. -/
structure Fresh (d : Document) (renames : List (Scalar × Scalar)) : Prop where
  targets : renames.Pairwise fun a b => a.2.same b.2 = false
  apart : ∀ a ∈ renames, ∀ b ∈ renames, a.1.same b.2 = false
  absent : ∀ a ∈ renames, d.get? a.2 = none

section NewName
variable {renames : List (Scalar × Scalar)} {name : Scalar}

theorem newName_of_apart (h : ∀ a ∈ renames, name.same a.1 = false) : newName renames name = name := by
  induction renames with
  | nil => rfl
  | cons a renames ih =>
    obtain ⟨ha, hrest⟩ := List.forall_mem_cons.mp h
    rw [newName, if_neg (Bool.eq_false_iff.mp ha), ih hrest]

theorem newName_of_mem (hsources : renames.Pairwise fun a b => a.1.same b.1 = false) {a : Scalar × Scalar}
    (ha : a ∈ renames) (h : name.same a.1 = true) : newName renames name = a.2 := by
  induction renames with
  | nil => cases ha
  | cons b renames ih =>
    obtain ⟨hnew, hrest⟩ := List.pairwise_cons.mp hsources
    rw [newName]
    rcases List.mem_cons.mp ha with rfl | ha
    · rw [if_pos h]
    · have hother : name.same b.1 = false := Scalar.same_false ((Scalar.same_comm _ _).trans (hnew a ha)) h
      rw [if_neg (Bool.eq_false_iff.mp hother), ih hrest ha]

end NewName

/-! ## Renaming -/

/-- Two of several entries with different names have different names. -/
theorem apart_of_ne {α : Type} {name : α → Scalar} {entries : List α}
    (h : entries.Pairwise fun a b => (name a).same (name b) = false) {a b : α} (ha : a ∈ entries)
    (hb : b ∈ entries) (hab : a ≠ b) : (name a).same (name b) = false := by
  have hsymm : Std.Symm fun a b : α => (name a).same (name b) = false :=
    ⟨fun _ _ h => (Scalar.same_comm _ _).trans h⟩
  exact h.forall ha hb hab

/-- Fields that no argument is for stay. -/
theorem map_renamed_of_apart {renames : List (Scalar × Scalar)} {d : Document}
    (h : ∀ f ∈ d, ∀ a ∈ renames, f.1.same a.1 = false) : d.map (renamed renames) = d := by
  have hfields : ∀ f ∈ d, renamed renames f = f := fun f hf => by rw [renamed, newName_of_apart (h f hf)]
  rw [List.map_congr_left hfields, List.map_id']

/-- One argument for a field that is there gives it its new name, up to the order of fields. -/
theorem erase_append_perm {d : Document} (hd : d.Distinct) {key : Scalar} {x : Value} (h : d.get? key = some x)
    (newKey : Scalar) : (d.put key none ++ [(newKey, x)]).Perm (d.map (renamed [(key, newKey)])) := by
  induction d with
  | nil => cases h
  | cons f d ih =>
    obtain ⟨name, y⟩ := f
    obtain ⟨hnew, hrest⟩ := List.pairwise_cons.mp hd
    cases hname : name.same key with
    | true =>
      obtain rfl : y = x := Option.some.inj ((Document.get?_cons_same hname).symm.trans h)
      have hothers : d.map (renamed [(key, newKey)]) = d := by
        refine map_renamed_of_apart fun g hg => List.forall_mem_singleton.mpr ?_
        rw [Scalar.same_comm] at hname ⊢
        exact Scalar.same_false (hnew g hg) hname
      rw [Document.put_cons_same hname, List.map_cons, hothers, renamed, newName, if_pos hname]
      exact List.perm_append_singleton _ _
    | false =>
      rw [Document.get?_cons_apart hname] at h
      rw [Document.put_cons_apart hname, List.map_cons, renamed, newName, if_neg (Bool.eq_false_iff.mp hname)]
      exact (ih hrest h).cons _

/-- So does one argument for any field; fields of other names stay as they are. -/
theorem renameField_perm {d : Document} (hd : d.Distinct) {key newKey : Scalar}
    (habsent : d.get? newKey = none) (hapart : key.same newKey = false) :
    ∃ d', renameField d key (.scalar newKey) = .ok d' ∧ d'.Distinct ∧ d'.Perm (d.map (renamed [(key, newKey)])) ∧
      ∀ name, key.same name = false → newKey.same name = false → d'.get? name = d.get? name := by
  rw [renameField_eq]
  cases hget : d.get? key with
  | none =>
    have hsame : d.map (renamed [(key, newKey)]) = d :=
      map_renamed_of_apart fun f hf => List.forall_mem_singleton.mpr (Document.get?_eq_none_iff.mp hget f hf)
    exact ⟨d, rfl, hd, .of_eq hsame.symm, fun _ _ _ => rfl⟩
  | some x =>
    refine ⟨_, rfl, (hd.put key none).put newKey (some x), ?_, fun name hkey hnew => ?_⟩
    · rw [Document.put_of_get?_none ((Document.get?_put_apart hapart d none).trans habsent)]
      exact erase_append_perm hd hget newKey
    · rw [Document.get?_put_apart hnew, Document.get?_put_apart hkey]

/-- The arguments of `$rename`. -/
def renameArguments (renames : List (Scalar × Scalar)) : List (Scalar × Value) :=
  renames.map fun a => (a.1, .scalar a.2)

/-- Renaming to fresh names gives each field its new name, up to the order of fields. By induction on the
arguments: what the first one leaves has none of the other new names. -/
theorem apply_rename {renames : List (Scalar × Scalar)} {d : Document} (hd : d.Distinct)
    (hfresh : Fresh d renames) : ∃ d', Operator.rename.apply d (renameArguments renames) = .ok d' ∧
      d'.Distinct ∧ d'.Perm (d.map (renamed renames)) := by
  induction renames generalizing d with
  | nil => exact ⟨d, rfl, hd, .of_eq (List.map_id' d).symm⟩
  | cons a renames ih =>
    obtain ⟨hnew, htargets⟩ := List.pairwise_cons.mp hfresh.targets
    obtain ⟨ha, habsent⟩ := List.forall_mem_cons.mp hfresh.absent
    have happart : ∀ b ∈ renames, a.1.same b.2 = false := fun b hb =>
      hfresh.apart a List.mem_cons_self b (List.mem_cons_of_mem _ hb)
    obtain ⟨e, he, hdistinct, hperm, hkept⟩ :=
      renameField_perm hd ha (hfresh.apart a List.mem_cons_self a List.mem_cons_self)
    have hrest : Fresh e renames := ⟨htargets,
      fun b hb c hc => hfresh.apart b (List.mem_cons_of_mem _ hb) c (List.mem_cons_of_mem _ hc),
      fun b hb => (hkept b.2 (happart b hb) (hnew b hb)).trans (habsent b hb)⟩
    obtain ⟨d', hd', hdistinct', hperm'⟩ := ih hdistinct hrest
    refine ⟨d', ?_, hdistinct', hperm'.trans ?_⟩
    · show (renameField d a.1 (.scalar a.2) >>= _) = _
      rw [he]
      exact hd'
    · -- the new name of a field is the old name of none of the other arguments
      have htarget : newName renames a.2 = a.2 := newName_of_apart fun b hb =>
        (Scalar.same_comm _ _).trans (hfresh.apart b (List.mem_cons_of_mem _ hb) a List.mem_cons_self)
      have hboth : renamed renames ∘ renamed [(a.1, a.2)] = renamed (a :: renames) := by
        funext f
        simp only [Function.comp_apply, renamed, newName]
        split
        · rw [htarget]
        · rfl
      have hmap := hperm.map (renamed renames)
      rwa [List.map_map, hboth] at hmap

/-! ## Renaming back -/

/-- The arguments that give the old names back. -/
def inverse (renames : List (Scalar × Scalar)) : List (Scalar × Scalar) := renames.map Prod.swap

section Back
variable {renames : List (Scalar × Scalar)} {d d' : Document}
  (hsources : renames.Pairwise fun a b => a.1.same b.1 = false) (hfresh : Fresh d renames)
include hsources hfresh

/-- What a field is called in the end, and whether an argument is for it. -/
theorem newName_cases {f : Scalar × Value} (hf : f ∈ d) :
    (∃ a ∈ renames, f.1.same a.1 = true ∧ newName renames f.1 = a.2) ∨
    ((∀ a ∈ renames, f.1.same a.1 = false) ∧ (∀ a ∈ renames, f.1.same a.2 = false) ∧
      newName renames f.1 = f.1) := by
  by_cases h : ∃ a ∈ renames, f.1.same a.1 = true
  · obtain ⟨a, ha, hsame⟩ := h
    exact .inl ⟨a, ha, hsame, newName_of_mem hsources ha hsame⟩
  · have hapart : ∀ a ∈ renames, f.1.same a.1 = false := fun a ha =>
      Bool.eq_false_iff.mpr fun hsame => h ⟨a, ha, hsame⟩
    exact .inr ⟨hapart, fun a ha => Document.get?_eq_none_iff.mp (hfresh.absent a ha) f hf,
      newName_of_apart hapart⟩

/-- After renaming, a new name is that of the field that had the old one. -/
theorem newName_same {a : Scalar × Scalar} (ha : a ∈ renames) (hname : a.2 ≠ .float .nan) :
    ∀ f ∈ d, (newName renames f.1).same a.2 = f.1.same a.1 := by
  intro f hf
  obtain ⟨b, hb, hsame, hnew⟩ | ⟨hold, hnew, hkept⟩ := newName_cases hsources hfresh hf
  · rw [hnew]
    by_cases hab : b = a
    · rw [← hab, hsame, hab, Scalar.same_self hname]
    · rw [apart_of_ne hfresh.targets hb ha hab, Scalar.same_false (apart_of_ne hsources hb ha hab) hsame]
  · rw [hkept, hnew a ha, hold a ha]

/-- The old names are not in the way of renaming back. -/
theorem Fresh.inverse (hperm : d'.Perm (d.map (renamed renames))) : Fresh d' (inverse renames) where
  targets := List.pairwise_map.mpr hsources
  apart := by
    intro b hb c hc
    obtain ⟨a, ha, rfl⟩ := List.mem_map.mp hb
    obtain ⟨a', ha', rfl⟩ := List.mem_map.mp hc
    exact (Scalar.same_comm _ _).trans (hfresh.apart a' ha' a ha)
  absent := by
    intro b hb
    obtain ⟨a, ha, rfl⟩ := List.mem_map.mp hb
    refine Document.get?_eq_none_iff.mpr fun g hg => ?_
    obtain ⟨f, hf, rfl⟩ := List.mem_map.mp (hperm.mem_iff.mp hg)
    obtain ⟨c, hc, -, hnew⟩ | ⟨hold, -, hkept⟩ := newName_cases hsources hfresh hf
    · rw [renamed, hnew]
      exact (Scalar.same_comm _ _).trans (hfresh.apart a ha c hc)
    · rw [renamed, hkept]
      exact hold a ha

/-- Each field has its old name again, or one that is the same. -/
theorem newName_inverse (hnames : ∀ a ∈ renames, a.2 ≠ .float .nan) : ∀ f ∈ d,
    (newName (inverse renames) (newName renames f.1)).finds f.1 = true := by
  intro f hf
  obtain ⟨a, ha, hsame, hnew⟩ | ⟨-, hapart, hkept⟩ := newName_cases hsources hfresh hf
  · have hback : newName (inverse renames) a.2 = a.1 :=
      newName_of_mem (List.pairwise_map.mpr hfresh.targets) (List.mem_map_of_mem ha)
        (Scalar.same_self (hnames a ha))
    rw [hnew, hback, Scalar.finds, Scalar.same_comm, hsame, Bool.or_true]
  · have hstays : newName (inverse renames) f.1 = f.1 := newName_of_apart fun b hb => by
      obtain ⟨a, ha, rfl⟩ := List.mem_map.mp hb
      exact hapart a ha
    rw [hkept, hstays, Scalar.finds, beq_self_eq_true, Bool.true_or]

end Back

/-! ## Updates that rename -/

/-- The update with these arguments of `$rename` and no other operator. -/
def onlyRename (renames : List (Scalar × Scalar)) : Document :=
  [(.text "$rename".toText, .object (renameArguments renames))]

theorem compile_onlyRename (renames : List (Scalar × Scalar)) : compile (.value (.object (onlyRename renames))) =
    .ok (some (mutate [(.rename, renameArguments renames)])) := rfl

theorem mutate_rename {renames : List (Scalar × Scalar)} {d d' : Document}
    (h : Operator.rename.apply d (renameArguments renames) = .ok d') :
    mutate [(.rename, renameArguments renames)] (.object d) = .ok (.object d') := by
  refine mutate_of_applySteps ?_
  rw [applySteps, h]
  rfl

/-- Old names, each with a text as its new one. -/
def toTexts (renames : List (Scalar × Text)) : List (Scalar × Scalar) :=
  renames.map fun a => (a.1, .text a.2)

theorem fresh_toTexts {d : Document} {renames : List (Scalar × Text)} (htargets : (renames.map Prod.snd).Nodup)
    (habsent : ∀ a ∈ renames, d.get? (.text a.2) = none)
    (hapart : ∀ a ∈ renames, ∀ b ∈ renames, a.1 ≠ .text b.2) : Fresh d (toTexts renames) where
  targets := by
    refine List.pairwise_map.mpr ((List.pairwise_map.mp htargets).imp fun hab => ?_)
    exact Bool.eq_false_iff.mpr fun h => hab (Scalar.text.inj (Scalar.same_text.mp h))
  apart := by
    simp only [toTexts, List.forall_mem_map]
    exact fun a ha b hb => Bool.eq_false_iff.mpr fun h => hapart a ha b hb (Scalar.same_text.mp h)
  absent := List.forall_mem_map.mpr habsent

/-- Renaming fields of a document to different texts, none of which is the name of a field or an old name in
the update, leaves as many fields as there were; each new name has the content of the old one, a value or
nothing; and renaming them back gives a document that equals the first one. -/
theorem rename_undone {d : Document} (hd : d.Distinct) {renames : List (Scalar × Text)}
    (hsources : renames.Pairwise fun a b => a.1.same b.1 = false) (htargets : (renames.map Prod.snd).Nodup)
    (habsent : ∀ a ∈ renames, d.get? (.text a.2) = none)
    (hapart : ∀ a ∈ renames, ∀ b ∈ renames, a.1 ≠ .text b.2) :
    ∃ f g, compile (.value (.object (onlyRename (toTexts renames)))) = .ok (some f) ∧
      compile (.value (.object (onlyRename (inverse (toTexts renames))))) = .ok (some g) ∧
      ∃ d' d'' : Document, f (.object d) = .ok (.object d') ∧ d'.length = d.length ∧
        (∀ a ∈ renames, d'.get? (.text a.2) = d.get? a.1) ∧
        g (.object d') = .ok (.object d'') ∧ d''.Equals d := by
  have hfresh := fresh_toTexts htargets habsent hapart
  have hnames : ∀ a ∈ toTexts renames, a.2 ≠ .float .nan := List.forall_mem_map.mpr fun _ _ => nofun
  replace hsources : (toTexts renames).Pairwise fun a b => a.1.same b.1 = false := List.pairwise_map.mpr hsources
  obtain ⟨d', hd', hdistinct, hperm⟩ := apply_rename hd hfresh
  obtain ⟨d'', hd'', -, hperm'⟩ := apply_rename hdistinct (hfresh.inverse hsources hperm)
  refine ⟨_, _, compile_onlyRename _, compile_onlyRename _, d', d'', mutate_rename hd', ?_, fun a ha => ?_,
    mutate_rename hd'', ?_⟩
  · rw [hperm.length_eq, List.length_map]
  · rw [Document.get?_perm hperm hdistinct]
    exact Document.get?_map (newName_same hsources hfresh (List.mem_map_of_mem ha) nofun)
  · have hback := hperm'.trans (hperm.map (renamed (inverse (toTexts renames))))
    rw [List.map_map] at hback
    exact ⟨_, hback, List.forall₂_map_left_iff.mpr (List.forall₂_same.mpr fun f hf =>
      ⟨newName_inverse hsources hfresh hnames f hf, rfl⟩)⟩

/-! ## A tree with another label -/

def orchard : Document :=
  [(.int 1, .text "apple".toText), (.text "rows".toText, .float .nan), (.text "bed".toText, .list [])]

/-- There is no pond, and the tree is asked for by a name that is the same as its own. -/
def labels : List (Scalar × Text) :=
  [(.text "bed".toText, "border".toText), (.bool true, "tree".toText), (.text "pond".toText, "lake".toText)]

theorem rename_undone_orchard : ∃ (f g : Transform) (d' d'' : Document),
    compile (.value (.object (onlyRename (toTexts labels)))) = .ok (some f) ∧
    compile (.value (.object (onlyRename (inverse (toTexts labels))))) = .ok (some g) ∧
    f (.object orchard) = .ok (.object d') ∧ d'.length = 3 ∧
    d'.get? (.text "tree".toText) = some (.text "apple".toText) ∧ d'.get? (.text "lake".toText) = none ∧
    g (.object d') = .ok (.object d'') ∧ d''.Equals orchard := by
  have horchard : orchard.Distinct := by
    unfold Document.Distinct
    decide
  obtain ⟨f, g, hf, hg, d', d'', hd', hlength, hget, hd'', hequals⟩ :=
    @rename_undone orchard horchard labels (by decide) (by decide) (by decide) (by decide)
  simp only [labels, List.forall_mem_cons] at hget
  exact ⟨f, g, d', d'', hf, hg, hd', hlength, hget.2.1, hget.2.2.1, hd'', hequals⟩

end Update

end Cabinet
