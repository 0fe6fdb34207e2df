import Cabinet.Proofs.Query.Kept
import Cabinet.Proofs.Query.Renaming

/-!
# Keeping fields and dropping them

A projection that keeps fields builds a new document in the order of its entries, and one that drops fields
takes them out of the old one, one after another. Both part a document at the same place: what the one keeps is
what the other drops.

* `Document.picked`, `Document.without` : the fields of a document with some names, in the order of the names,
  and all others, in the order of the document;
* `Document.picked_perm`, `Document.picked_append_without` : the first are all fields of these names, and with
  the others they are the document;
* `Document.picked_picked`, `Document.without_without` : picking from what was picked, and leaving out more;
* `Projection.Marks` : projections that say of some fields, with numbers, that they are kept or that they are
  dropped; `Marks.compile_keep`, `Marks.compile_drop` : what these do;
* `Projection.include_exclude` : including and excluding are complementary.
-/

namespace Cabinet

namespace Document

variable {F G H : List Text} {d : Document}

/-- The fields of these names that are there, in the order of the names. -/
def picked (F : List Text) (d : Document) : Document :=
  F.filterMap fun t => (d.get? (.text t)).map fun x => (Scalar.text t, x)

/-- The fields of all other names. -/
def without (F : List Text) (d : Document) : Document := d.only fun name => name ∉ F.map Scalar.text

/-! ## Picked fields -/

theorem mem_picked {f : Scalar × Value} :
    f ∈ picked F d ↔ ∃ t ∈ F, f.1 = .text t ∧ d.get? (.text t) = some f.2 := by
  rw [picked, List.mem_filterMap]
  refine exists_congr fun t => and_congr_right fun _ => ?_
  rw [Option.map_eq_some_iff]
  constructor
  · rintro ⟨x, hx, rfl⟩
    exact ⟨rfl, hx⟩
  · rintro ⟨hname, hx⟩
    exact ⟨f.2, hx, Prod.ext hname.symm rfl⟩

theorem picked_cons (t : Text) (F : List Text) (d : Document) :
    picked (t :: F) d = ((d.get? (.text t)).map fun x => (Scalar.text t, x)).toList ++ picked F d := by
  rw [picked, List.filterMap_cons]
  cases d.get? (.text t) <;> rfl

theorem get?_picked (F : List Text) (d : Document) (t : Text) :
    (picked F d).get? (.text t) = if t ∈ F then d.get? (.text t) else none := by
  induction F with
  | nil => rfl
  | cons s F ih =>
    rw [picked_cons]
    by_cases hst : s = t
    · subst hst
      cases hget : d.get? (.text s) with
      | none => simpa [hget] using ih
      | some x => simp [get?_cons]
    · have hts : t ≠ s := fun h => hst h.symm
      cases d.get? (.text s) with
      | none => simpa [hts] using ih
      | some x => simpa [get?_cons, hst, hts] using ih

/-- Picking from what was picked leaves the fields of both, in the order of the names that are picked last. -/
theorem picked_picked (F G : List Text) (d : Document) :
    picked F (picked G d) = picked (F.filter (· ∈ G)) d := by
  rw [picked.eq_def F, picked.eq_def (F.filter _), List.filterMap_filter]
  refine List.filterMap_congr fun t _ => ?_
  rw [get?_picked]
  by_cases ht : t ∈ G <;> simp [ht]

theorem picked_self (F : List Text) (d : Document) : picked F (picked F d) = picked F d := by
  rw [picked_picked, List.filter_eq_self.mpr fun t ht => decide_eq_true ht]

/-! ## Left fields -/

/-- Among different names only one is a text. -/
theorem erase_eq_only (hd : d.Distinct) (t : Text) :
    d.erase (.text t) = only (fun name => name ≠ .text t) d := by
  induction d with
  | nil => rfl
  | cons f d ih =>
    obtain ⟨name, x⟩ := f
    obtain ⟨hnew, hrest⟩ := List.pairwise_cons.mp hd
    by_cases hname : name = .text t
    · have hothers : only (fun name => name ≠ .text t) d = d := by
        refine List.filter_eq_self.mpr fun g hg => decide_eq_true fun hsame => ?_
        have happart := hnew g hg
        rw [hname, hsame, Scalar.same_text.mpr rfl] at happart
        cases happart
      rw [erase, if_pos (Scalar.same_text.mpr hname), only_cons_of_neg (by simp [hname]), hothers]
    · rw [erase, if_neg (mt Scalar.same_text.mp hname), only_cons_of_pos (by simp [hname]), ih hrest]

/-- Taking out fields one after another leaves the fields of other names, in their order. -/
theorem foldl_erase (hd : d.Distinct) (F : List Text) :
    F.foldl (fun d t => d.erase (.text t)) d = d.without F := by
  induction F generalizing d with
  | nil => simp [without, only]
  | cons t F ih =>
    have hrest : (d.only fun name => name ≠ .text t).Distinct := List.Pairwise.filter _ hd
    rw [List.foldl_cons, erase_eq_only hd, ih hrest, without, without, only, only, only, List.filter_filter]
    refine List.filter_congr fun f _ => ?_
    simp [Bool.and_comm]

theorem without_without (hH : ∀ t, t ∈ H ↔ t ∈ F ∨ t ∈ G) (d : Document) :
    (d.without G).without F = d.without H := by
  rw [without, without, without, only, only, only, List.filter_filter]
  refine List.filter_congr fun f _ => ?_
  simp only [List.mem_map, hH, decide_not, or_and_right, exists_or]
  simp

/-! ## Both -/

/-- Where the names differ, a field of a text is in the document once. -/
theorem get?_eq_some_iff (hd : d.Distinct) {t : Text} {x : Value} :
    d.get? (.text t) = some x ↔ (Scalar.text t, x) ∈ d := by
  induction d with
  | nil => simp [get?]
  | cons f d ih =>
    obtain ⟨name, y⟩ := f
    obtain ⟨hnew, hrest⟩ := List.pairwise_cons.mp hd
    rw [get?_cons, List.mem_cons, ← ih hrest]
    by_cases hname : name = .text t
    · subst hname
      have hnone : get? d (.text t) = none := get?_eq_none_iff.mpr fun g hg =>
        (Scalar.same_comm g.1 _).trans (hnew g hg)
      simp [hnone, eq_comm]
    · simp [hname, Ne.symm hname]

/-- Up to their order, the fields that are picked are those of the document that have one of the names. -/
theorem picked_perm (hF : F.Nodup) (hd : d.Distinct) :
    (picked F d).Perm (d.only fun name => name ∈ F.map Scalar.text) := by
  refine (List.perm_ext_iff_of_nodup ?_ ?_).mpr fun f => ?_
  · refine hF.filterMap fun s t f hs ht => ?_
    obtain ⟨x, -, rfl⟩ := Option.map_eq_some_iff.mp hs
    obtain ⟨y, -, hf⟩ := Option.map_eq_some_iff.mp ht
    exact (Scalar.text.inj (congrArg Prod.fst hf)).symm
  · refine (List.Pairwise.filter _ hd).imp_of_mem fun hf _ happart heq => ?_
    obtain ⟨t, -, ht⟩ := List.mem_map.mp (of_decide_eq_true (List.mem_filter.mp hf).2)
    rw [← heq, ← ht, Scalar.same_text.mpr rfl] at happart
    cases happart
  · rw [mem_picked, only, List.mem_filter, decide_eq_true_iff, List.mem_map]
    constructor
    · rintro ⟨t, ht, hname, hx⟩
      have hf := (get?_eq_some_iff hd).mp hx
      rw [← hname] at hf
      exact ⟨hf, t, ht, hname.symm⟩
    · rintro ⟨hf, t, ht, hname⟩
      rw [show f = (Scalar.text t, f.2) from Prod.ext hname.symm rfl] at hf
      exact ⟨t, ht, hname.symm, (get?_eq_some_iff hd).mpr hf⟩

/-- What is picked and what is left are the document together. -/
theorem picked_append_without (hF : F.Nodup) (hd : d.Distinct) : (picked F d ++ d.without F).Perm d := by
  have hwithout : d.without F = d.only fun name => !decide (name ∈ F.map Scalar.text) := by
    rw [without]
    exact congrArg (d.only ·) (funext fun name => decide_not)
  rw [hwithout]
  exact ((picked_perm hF hd).append_right _).trans (List.filter_append_perm _ d)

end Document

namespace Projection

open Document (picked without)

variable {F G H : List Text} {d : Document}

/-! ## What the projections do -/

/-- A new document is built of the fields that are picked. -/
theorem keepFields_same (hF : F.Nodup) {made : Document} (hmade : ∀ t ∈ F, made.get? (.text t) = none) :
    keepFields (.object d) made (F.map fun t => (t, .same)) = .ok (made ++ picked F d) := by
  induction F generalizing made with
  | nil => rw [List.map_nil, keepFields, picked, List.filterMap_nil, List.append_nil]
  | cons t F ih =>
    obtain ⟨ht, hF⟩ := List.nodup_cons.mp hF
    obtain ⟨hnew, hrest⟩ := List.forall_mem_cons.mp hmade
    rw [List.map_cons, keepFields, Document.picked_cons]
    cases hget : d.get? (.text t) with
    | none =>
      simp only [kept?, hget, bind, Except.bind]
      exact ih hF hrest
    | some x =>
      simp only [kept?, hget, bind, Except.bind]
      have hset : made.set (.text t) x = made ++ [(.text t, x)] := Document.put_of_get?_none hnew
      rw [ih hF fun s hs => ?_, hset, List.append_assoc]
      · rfl
      · have hst : s ≠ t := fun h => ht (h ▸ hs)
        rw [Document.get?_set, if_neg hst, hrest s hs]

/-- A projection that says of each of these fields, with a number, whether it is kept. -/
structure Marks (keep : Bool) (F : List Text) (given : Document) : Prop where
  nonempty : F ≠ []
  nodup : F.Nodup
  entries : List.Forall₂ (fun t f => f.1 = .text t ∧
    ∃ s : Scalar, f.2 = .scalar s ∧ s.number?.isSome = true ∧ s.isTrue = keep) F given

/-- A number says that a field is kept unless it is zero. -/
theorem entry_number (t : Text) {s : Scalar} (hs : s.number?.isSome = true) :
    entry t (.scalar s) = .ok (if s.isTrue then some .same else none) := by
  cases s with
  | bool b | int n | float x => exact (apply_ite Except.ok _ _ _).symm
  | null | text u | date c | timestamp m | bytes content => cases hs

theorem entries_marked {keep : Bool} {given : Document}
    (h : List.Forall₂ (fun t f => f.1 = .text t ∧
      ∃ s : Scalar, f.2 = .scalar s ∧ s.number?.isSome = true ∧ s.isTrue = keep) F given) :
    entries given = .ok (F.map fun t => (t, if keep then some .same else none)) := by
  induction h with
  | nil => rfl
  | @cons t f F given hf _ ih =>
    obtain ⟨name, x⟩ := f
    obtain ⟨rfl, s, rfl, hs, rfl⟩ := hf
    rw [entries, entry_number t hs, ih]
    rfl

/-- Fields that are marked to be kept are picked. -/
theorem Marks.compile_keep {given : Document} (h : Marks true F given) :
    ∃ f, compile (.value (.object given)) = .ok f ∧ ∀ d, f (.object d) = .ok (.object (picked F d)) := by
  have hentries := entries_marked h.entries
  have hproj : ofEntries (F.map fun t => (t, some .same)) = .ok (.keep (F.map fun t => (t, .same))) := by
    have hne := h.nonempty
    simp [ofEntries, List.filterMap_map, List.filter_map, Function.comp_def, List.isEmpty_iff, hne]
  refine ⟨(Projection.keep (F.map fun t => (t, .same))).apply, ?_, fun d => ?_⟩
  · rw [compile, hentries]
    simp only [if_true, bind, Except.bind, hproj]
    rfl
  · rw [apply, keepFields_same h.nodup fun _ _ => rfl]
    rfl

/-- Fields that are marked to be dropped are left out. -/
theorem Marks.compile_drop {given : Document} (h : Marks false F given) :
    ∃ f, compile (.value (.object given)) = .ok f ∧
      ∀ {d : Document}, d.Distinct → f (.object d) = .ok (.object (d.without F)) := by
  have hentries := entries_marked h.entries
  have hproj : ofEntries (F.map fun t => (t, none)) = .ok (.drop F) := by
    have hne := h.nonempty
    simp [ofEntries, List.filterMap_map, List.filter_map, Function.comp_def, List.isEmpty_iff, hne]
  refine ⟨(Projection.drop F).apply, ?_, fun {d} hd => ?_⟩
  · rw [compile, hentries]
    simp only [Bool.false_eq_true, if_false, bind, Except.bind, hproj]
    rfl
  · rw [apply, dropFields, Document.foldl_erase hd]

/-! ## Including and excluding -/

/-- Two parts of a document: the fields with some names, and all others, in the order of the document. -/
structure Parts (F : List Text) (d included excluded : Document) : Prop where
  whole : (included ++ excluded).Perm d
  named : ∀ f ∈ included, ∃ t ∈ F, f.1 = .text t
  unnamed : ∀ f ∈ excluded, ∀ t ∈ F, f.1 ≠ .text t
  order : excluded.Sublist d

theorem parts (hF : F.Nodup) (hd : d.Distinct) : Parts F d (picked F d) (d.without F) where
  whole := Document.picked_append_without hF hd
  named f hf := by
    obtain ⟨t, ht, hname, -⟩ := Document.mem_picked.mp hf
    exact ⟨t, ht, hname⟩
  unnamed f hf t ht hname :=
    of_decide_eq_true (List.mem_filter.mp hf).2 (List.mem_map.mpr ⟨t, ht, hname.symm⟩)
  order := List.filter_sublist

/-- The projections that include some fields and that exclude the same fields part a document in two, and do
nothing more when they are applied again. Including fields after others gives those fields of the document that
are among both, in the order of the projection that comes last. Excluding fields after others gives what is left
without all of them. -/
theorem include_exclude {inF exF inG exG exH : Document} (hinF : Marks true F inF) (hexF : Marks false F exF)
    (hinG : Marks true G inG) (hexG : Marks false G exG) (hexH : Marks false H exH)
    (hH : ∀ t, t ∈ H ↔ t ∈ F ∨ t ∈ G) (hd : d.Distinct) :
    ∃ includeF excludeF includeG excludeG excludeH,
      compile (.value (.object inF)) = .ok includeF ∧ compile (.value (.object exF)) = .ok excludeF ∧
      compile (.value (.object inG)) = .ok includeG ∧ compile (.value (.object exG)) = .ok excludeG ∧
      compile (.value (.object exH)) = .ok excludeH ∧
      (∃ included excluded, includeF (.object d) = .ok (.object included) ∧
        excludeF (.object d) = .ok (.object excluded) ∧ Parts F d included excluded ∧
        includeF (.object included) = .ok (.object included) ∧
        excludeF (.object excluded) = .ok (.object excluded)) ∧
      (∃ v, includeG (.object d) = .ok v ∧ includeF v = .ok (.object (F.filterMap fun t =>
        if t ∈ G then (d.get? (.text t)).map fun x => (.text t, x) else none))) ∧
      ∃ v left, excludeG (.object d) = .ok v ∧ excludeF v = .ok (.object left) ∧
        excludeH (.object d) = .ok (.object left) ∧ left = d.filter fun f => f.1 ∉ H.map Scalar.text := by
  obtain ⟨includeF, hincludeF, hpickF⟩ := hinF.compile_keep
  obtain ⟨excludeF, hexcludeF, hdropF⟩ := hexF.compile_drop
  obtain ⟨includeG, hincludeG, hpickG⟩ := hinG.compile_keep
  obtain ⟨excludeG, hexcludeG, hdropG⟩ := hexG.compile_drop
  obtain ⟨excludeH, hexcludeH, hdropH⟩ := hexH.compile_drop
  have hleft : ∀ K : List Text, (d.without K).Distinct := fun K => List.Pairwise.filter _ hd
  refine ⟨includeF, excludeF, includeG, excludeG, excludeH, hincludeF, hexcludeF, hincludeG, hexcludeG,
    hexcludeH, ⟨picked F d, d.without F, hpickF d, hdropF hd, parts hinF.nodup hd, ?_, ?_⟩,
    ⟨_, hpickG d, ?_⟩, _, _, hdropG hd, ?_, hdropH hd, rfl⟩
  · rw [hpickF, Document.picked_self]
  · rw [hdropF (hleft F), Document.without_without (H := F) fun t => or_self_iff.symm]
  · rw [hpickF, Document.picked_picked, picked, List.filterMap_filter]
    simp only [decide_eq_true_eq]
  · rw [hdropF (hleft G), Document.without_without hH]

/-! ## A shed -/

/-- A shed without a door, whose window is nothing. -/
def shed : Document :=
  [(.int 1, .text "oak".toText), (.text "window".toText, .null), (.text "roof".toText, .list [.int 2])]

/-- A projection that marks all fields with the same number. -/
def marked (s : Scalar) (F : List Text) : Document := F.map fun t => (.text t, .scalar s)

theorem marks_marked (s : Scalar) (hs : s.number?.isSome = true) (F : List Text) (hne : F ≠ []) (hF : F.Nodup) :
    Marks s.isTrue F (marked s F) where
  nonempty := hne
  nodup := hF
  entries := List.forall₂_map_right_iff.mpr (List.forall₂_same.mpr fun _ _ => ⟨rfl, s, rfl, hs, rfl⟩)

theorem include_exclude_shed : ∃ includeF excludeF includeG excludeG,
    compile (.value (.object (marked (.int 2) ["door".toText, "window".toText]))) = .ok includeF ∧
    compile (.value (.object (marked (.int 0) ["door".toText, "window".toText]))) = .ok excludeF ∧
    compile (.value (.object (marked (.bool true) ["window".toText, "roof".toText]))) = .ok includeG ∧
    compile (.value (.object (marked (.bool false) ["window".toText, "roof".toText]))) = .ok excludeG ∧
    (∃ included excluded, includeF (.object shed) = .ok (.object included) ∧
      excludeF (.object shed) = .ok (.object excluded) ∧ (included ++ excluded).Perm shed) ∧
    (∃ v, includeG (.object shed) = .ok v ∧ includeF v = .ok (.object [(.text "window".toText, .null)])) ∧
    ∃ v, excludeG (.object shed) = .ok v ∧ excludeF v = .ok (.object [(.int 1, .text "oak".toText)]) := by
  have hshed : shed.Distinct := by
    unfold Document.Distinct
    decide
  obtain ⟨includeF, excludeF, includeG, excludeG, excludeH, hinF, hexF, hinG, hexG, -,
    ⟨included, excluded, hincluded, hexcluded, hparts, -⟩, hboth, v, left, hv, hleft, -, hH⟩ :=
    include_exclude (H := ["roof".toText, "window".toText, "door".toText])
      (marks_marked (.int 2) rfl ["door".toText, "window".toText] (by decide) (by decide))
      (marks_marked (.int 0) rfl ["door".toText, "window".toText] (by decide) (by decide))
      (marks_marked (.bool true) rfl ["window".toText, "roof".toText] (by decide) (by decide))
      (marks_marked (.bool false) rfl ["window".toText, "roof".toText] (by decide) (by decide))
      (marks_marked (.bool false) rfl _ (by decide) (by decide)) (by simp; tauto) hshed
  refine ⟨includeF, excludeF, includeG, excludeG, hinF, hexF, hinG, hexG,
    ⟨included, excluded, hincluded, hexcluded, hparts.whole⟩, hboth, v, hv, ?_⟩
  rw [hleft, hH]
  rfl

end Projection

end Cabinet
