import Cabinet.Proofs.Json.Ascii
import Cabinet.Proofs.Json.Canonical
import Cabinet.Proofs.Json.Reading
import Cabinet.Proofs.Order.Chained
import Cabinet.Proofs.Value.Same

/-!
# Canonical texts tell values apart

A canonical text is ASCII, so it is read back, and what is read is the value with its fields sorted. Only
lone surrogates would be taken for other characters.

* `Json.readsAs_sorted` : a value whose fields are sorted is read back from its text;
* `Json.sorted_eq_of_canonical` : values with one canonical text are the same once sorted;
* `Json.same_of_sorted` : and then they are equal.
-/

namespace Cabinet.Json

/-! ## Sorted values -/

theorem sorted_scalar {s : Scalar} (hs : HasLiteral s) : sorted (.scalar s) = .ok (.scalar s) := by
  rw [sorted, checkScalar_ok hs]

theorem sortFields_perm (fs : List (Scalar × Value)) : (sortFields fs).Perm fs := List.mergeSort_perm _ _

section Fields
variable {fs gs : List (Scalar × Value)}

theorem sortedFields_names (h : sortedFields fs = .ok gs) : gs.map (·.1) = fs.map (·.1) := by
  have heach := sortedFields_each h
  clear h
  induction heach with
  | nil => rfl
  | cons hfg _ ih => rw [List.map_cons, List.map_cons, hfg.1, ih]

/-- Each sorted field comes from one of the fields, and each field becomes one. -/
theorem sortFields_from (h : sortedFields fs = .ok gs) {g : Scalar × Value} (hg : g ∈ sortFields gs) :
    ∃ f ∈ fs, f.1 = g.1 ∧ sorted f.2 = .ok g.2 :=
  Order.exists_mem_of_forall₂ (sortedFields_each h).flip ((sortFields_perm gs).mem_iff.mp hg)

theorem sortFields_to (h : sortedFields fs = .ok gs) {f : Scalar × Value} (hf : f ∈ fs) :
    ∃ g ∈ sortFields gs, f.1 = g.1 ∧ sorted f.2 = .ok g.2 := by
  obtain ⟨g, hg, hfg⟩ := Order.exists_mem_of_forall₂ (sortedFields_each h) hf
  exact ⟨g, (sortFields_perm gs).mem_iff.mpr hg, hfg⟩

theorem sortFields_length (h : sortedFields fs = .ok gs) : (sortFields gs).length = fs.length := by
  rw [(sortFields_perm gs).length_eq, ← (sortedFields_each h).length_eq]

end Fields

/-! ## Reading -/

/-- A value whose fields are sorted is read back from its text in ASCII. -/
theorem readsAs_sorted {v u : Value} (hv : IsJson v) (htexts : v.Encodable) (h : sorted v = .ok u) :
    ReadsAs .ascii u u := by
  induction hv generalizing u with
  | @scalar s hs =>
    obtain rfl := Except.ok.inj ((sorted_scalar hs).symm.trans h)
    cases s with
    | text t => exact readsAs_text rfl (textReadsAs_encodable (htexts t (List.mem_singleton.mpr rfl)))
    | null | bool _ | int _ | float _ => exact readsAs_scalar hs rfl
    | date _ | timestamp _ | bytes _ => exact hs.elim
  | list _ ih =>
    obtain ⟨ys, hys, rfl⟩ := sorted_list h
    refine readsAs_list Style.spaced_ascii (List.forall₂_same.mpr fun y hy => ?_)
    obtain ⟨x, hx, hsorted⟩ := Order.exists_mem_of_forall₂ (sortedItems_each hys).flip hy
    exact ih x hx (htexts.of_mem_list hx) hsorted
  | @object fs hnames hdistinct _ ih =>
    obtain ⟨-, gs, hgs, rfl⟩ := sorted_object h
    have hname : ∀ g ∈ sortFields gs, ∃ t : Text, g.1 = .text t ∧ t.Encodable := by
      intro g hg
      obtain ⟨f, hf, heq, -⟩ := sortFields_from hgs hg
      obtain ⟨t, ht⟩ := hnames f hf
      exact ⟨t, heq ▸ ht, htexts.name hf ht⟩
    have hnodup : ((sortFields gs).map (·.1)).Nodup := by
      rwa [((sortFields_perm gs).map _).nodup_iff, sortedFields_names hgs]
    have hfields : List.Forall₂ (FieldReadsAs .ascii) (sortFields gs) (sortFields gs) := by
      refine List.forall₂_same.mpr fun g hg => ?_
      obtain ⟨t, ht, hencodable⟩ := hname g hg
      obtain ⟨f, hf, -, hsorted⟩ := sortFields_from hgs hg
      refine ⟨⟨t, ht, ?_⟩, ih f hf (htexts.of_mem_object hf) hsorted⟩
      rw [ht]
      exact textReadsAs_encodable hencodable
    -- the reader sets one field after another, which gives back fields of distinct names
    have hobject := readsAs_object Style.spaced_ascii hfields
    rwa [ofPairs_eq (fun g hg => (hname g hg).imp fun t ht => ht.1) hnodup] at hobject

/-- Values with one canonical text are the same once their fields are sorted. -/
theorem sorted_eq_of_canonical {a b : Value} {t : Text} (ha : IsJson a) (hb : IsJson b) (hatexts : a.Encodable)
    (hbtexts : b.Encodable) (hat : canonical a = .ok t) (hbt : canonical b = .ok t) :
    ∃ u, sorted a = .ok u ∧ sorted b = .ok u := by
  obtain ⟨u, hu, hut⟩ := ok_of_bind hat
  obtain ⟨w, hw, hwt⟩ := ok_of_bind hbt
  have hread := (readsAs_sorted ha hatexts hu).parse
  rw [Except.ok.inj (hut.trans hwt.symm), (readsAs_sorted hb hbtexts hw).parse] at hread
  exact ⟨u, hu, Except.ok.inj hread ▸ hw⟩

/-! ## Equality -/

section Inversion
variable {v : Value} {ys : List Value} {gs : List (Scalar × Value)}

theorem eq_scalar_of_sorted {s : Scalar} (hv : IsJson v) (h : sorted v = .ok (.scalar s)) : v = .scalar s := by
  cases hv with
  | scalar ht => rw [Except.ok.inj ((sorted_scalar ht).symm.trans h)]
  | list _ =>
    obtain ⟨_, -, heq⟩ := sorted_list h
    cases heq
  | object _ _ _ =>
    obtain ⟨-, _, -, heq⟩ := sorted_object h
    cases heq

theorem eq_list_of_sorted (hv : IsJson v) (h : sorted v = .ok (.list ys)) :
    ∃ xs, v = .list xs ∧ sortedItems xs = .ok ys := by
  cases hv with
  | scalar ht => cases (sorted_scalar ht).symm.trans h
  | @list xs _ =>
    obtain ⟨zs, hzs, heq⟩ := sorted_list h
    obtain rfl := Value.list.inj heq
    exact ⟨xs, rfl, hzs⟩
  | object _ _ _ =>
    obtain ⟨-, _, -, heq⟩ := sorted_object h
    cases heq

theorem eq_object_of_sorted (hv : IsJson v) (h : sorted v = .ok (.object gs)) :
    ∃ fs es, v = .object fs ∧ sortedFields fs = .ok es ∧ gs = sortFields es := by
  cases hv with
  | scalar ht => cases (sorted_scalar ht).symm.trans h
  | list _ =>
    obtain ⟨_, -, heq⟩ := sorted_list h
    cases heq
  | @object fs _ _ _ =>
    obtain ⟨-, es, hes, heq⟩ := sorted_object h
    exact ⟨fs, es, rfl, hes, Value.object.inj heq⟩

end Inversion

/-- Values that are the same once their fields are sorted are equal, unless not-a-number is in them. -/
theorem same_of_sorted {a b u : Value} (ha : IsJson a) (hnan : a.NoNaN) (hb : IsJson b)
    (hau : sorted a = .ok u) (hbu : sorted b = .ok u) : a.same b = true := by
  induction ha generalizing b u with
  | @scalar s hs =>
    obtain rfl := Except.ok.inj ((sorted_scalar hs).symm.trans hau)
    obtain rfl := eq_scalar_of_sorted hb hbu
    refine Scalar.same_self fun hself => hnan ?_
    rw [hself]
    exact List.mem_singleton.mpr rfl
  | @list xs _ ih =>
    obtain ⟨ys, hys, rfl⟩ := sorted_list hau
    obtain ⟨zs, rfl, hzs⟩ := eq_list_of_sorted hb hbu
    have hsorted := Order.forall₂_trans (sortedItems_each hys) (sortedItems_each hzs).flip
    refine Value.sameItems_iff.mpr (Order.forall₂_imp_of_mem hsorted ?_)
    rintro x hx z hz ⟨y, hxy, hzy⟩
    exact ih x hx (hnan.of_mem_list hx) (hb.of_mem_list hz) hxy hzy
  | @object fs _ _ _ ih =>
    obtain ⟨-, gs, hgs, rfl⟩ := sorted_object hau
    obtain ⟨es, hs, rfl, hhs, heq⟩ := eq_object_of_sorted hb hbu
    have hfields := isFields_of_isJson hb
    have hlength : fs.length = es.length := by
      rw [← sortFields_length hgs, heq, sortFields_length hhs]
    rw [Value.same, hlength, beq_self_eq_true, Bool.true_and]
    refine Value.sameFields_iff.mpr fun f hf => ?_
    obtain ⟨g, hg, hname, hfg⟩ := sortFields_to hgs hf
    rw [heq] at hg
    obtain ⟨e, he, hname', heg⟩ := sortFields_from hhs hg
    refine ⟨e.2, ?_, ih f hf (hnan.of_mem_object hf) (hfields.values e he) hfg heg⟩
    rw [hname, ← hname', Document.get?_of_mem hfields.named he]

end Cabinet.Json
