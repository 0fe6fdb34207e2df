import Cabinet.Proofs.Json.Faithful
import Cabinet.Proofs.Query.Preorder
import Cabinet.Proofs.Text.Order

/-!
# The order of fields does not count

Objects are compared by their canonical texts, in which the fields of every object are sorted by name. So
values are compared without regard to the order of fields, at any depth. Since canonical texts tell values
apart, values that are tied are equal.

* `Value.Reordered` : values that differ only in the order of fields;
* `Json.sorted_reordered` : once sorted they are the same;
* `Value.Interchangeable`, `Value.Reordered.interchangeable` : comparing does not tell them apart;
* `Value.same_of_compare` : tied values are equal;
* `comparison_of_content` : both for the comparison of values.
-/

namespace Cabinet

open Json (IsJson isFields_of_isJson)

/-! ## The order of texts -/

theorem CodePoint.toNat_injective : Function.Injective CodePoint.toNat := fun p q h => by
  rw [← Json.ofNat_toNat p, h, Json.ofNat_toNat]

theorem Text.compare_eq_eq {t u : Text} : t.compare u = .eq ↔ t = u := by
  rw [compare_eq, Std.LawfulEqCmp.compare_eq_iff_eq]
  exact CodePoint.toNat_injective.list_map.eq_iff

/-! ## Sorting fields -/

namespace Json

/-- Fields that are named by texts are ranked by these. -/
theorem ranks_fields : Order.Ranks (fun f g : Scalar × Value => compareNames? f.1 g.1 != some .gt)
    fun f => ∃ t, f.1 = .text t where
  total := by
    rintro ⟨_, x⟩ ⟨_, y⟩ ⟨t, rfl⟩ ⟨u, rfl⟩
    exact Text.ranks.total t u trivial trivial
  trans := by
    rintro ⟨_, x⟩ ⟨_, y⟩ ⟨_, z⟩ ⟨t, rfl⟩ ⟨u, rfl⟩ ⟨v, rfl⟩
    exact Text.ranks.trans t u v trivial trivial trivial

/-- Only texts that are the same come neither before nor after each other. -/
theorem eq_of_atMost {f g : Scalar × Value} (hf : ∃ t, f.1 = .text t) (hg : ∃ t, g.1 = .text t)
    (hfg : (compareNames? f.1 g.1 != some .gt) = true) (hgf : (compareNames? g.1 f.1 != some .gt) = true) :
    f.1 = g.1 := by
  obtain ⟨_, x⟩ := f
  obtain ⟨_, y⟩ := g
  obtain ⟨t, rfl⟩ := hf
  obtain ⟨u, rfl⟩ := hg
  have htu : (t.compare u != .gt) = true := hfg
  have hut : (u.compare t != .gt) = true := hgf
  rw [Text.atMost_eq] at htu hut
  have heq := Std.OrientedCmp.isLE_antisymm htu hut
  rw [← Text.compare_eq] at heq
  rw [Text.compare_eq_eq.mp heq]

/-- Fields that distinct texts name are sorted in one way, whatever their order. -/
theorem sortFields_eq_of_perm {fs gs : List (Scalar × Value)} (hnames : ∀ f ∈ fs, ∃ t, f.1 = .text t)
    (hdistinct : (fs.map (·.1)).Nodup) (h : fs.Perm gs) : sortFields fs = sortFields gs := by
  have hgnames : ∀ g ∈ gs, ∃ t, g.1 = .text t := fun g hg => hnames g (h.mem_iff.mpr hg)
  -- both are sorted lists of the same fields, no two of which are tied
  refine List.Perm.eq_of_pairwise (fun f g hf hg hfg hgf => ?_)
    (Order.isStableSort_mergeSort ranks_fields fs hnames).sorted
    (Order.isStableSort_mergeSort ranks_fields gs hgnames).sorted
    ((sortFields_perm fs).trans (h.trans (sortFields_perm gs).symm))
  have hf : f ∈ fs := (sortFields_perm fs).mem_iff.mp hf
  have hg : g ∈ fs := h.mem_iff.mpr ((sortFields_perm gs).mem_iff.mp hg)
  exact List.inj_on_of_nodup_map hdistinct hf hg (eq_of_atMost (hnames f hf) (hnames g hg) hfg hgf)

end Json

/-! ## Fields in another order -/

namespace Value

/-- Values that differ only in the order of the fields of objects, at any depth. -/
inductive Reordered : Value → Value → Prop where
  | refl (v : Value) : Reordered v v
  | fields {d e : Document} : d.Perm e → Reordered (.object d) (.object e)
  | item {x y : Value} (xs ys : List Value) : Reordered x y →
      Reordered (.list (xs ++ x :: ys)) (.list (xs ++ y :: ys))
  | value {x y : Value} (fs gs : Document) (key : Scalar) : Reordered x y →
      Reordered (.object (fs ++ (key, x) :: gs)) (.object (fs ++ (key, y) :: gs))
  | trans {u v w : Value} : Reordered u v → Reordered v w → Reordered u w

theorem Reordered.isJson {v w : Value} (h : Reordered v w) (hv : IsJson v) : IsJson w := by
  induction h with
  | refl _ => exact hv
  | fields hperm =>
    obtain ⟨hnames, hdistinct, hvalues⟩ := isFields_of_isJson hv
    exact .object (fun f hf => hnames f (hperm.mem_iff.mpr hf)) ((hperm.map _).nodup_iff.mp hdistinct)
      fun f hf => hvalues f (hperm.mem_iff.mpr hf)
  | item xs ys _ ih =>
    cases hv with
    | list hitems =>
      rw [List.forall_mem_append, List.forall_mem_cons] at hitems
      refine .list ?_
      rw [List.forall_mem_append, List.forall_mem_cons]
      exact ⟨hitems.1, ih hitems.2.1, hitems.2.2⟩
  | value fs gs key _ ih =>
    obtain ⟨hnames, hdistinct, hvalues⟩ := isFields_of_isJson hv
    rw [List.forall_mem_append, List.forall_mem_cons] at hnames hvalues
    refine .object ?_ ?_ ?_
    · rw [List.forall_mem_append, List.forall_mem_cons]
      exact hnames
    · rwa [List.map_append, List.map_cons] at hdistinct ⊢
    · rw [List.forall_mem_append, List.forall_mem_cons]
      exact ⟨hvalues.1, ih hvalues.2.1, hvalues.2.2⟩
  | trans _ _ ih ih' => exact ih' (ih hv)

end Value

namespace Json

theorem sortedItems_congr {x y : Value} (h : sorted x = sorted y) (xs ys : List Value) :
    sortedItems (xs ++ x :: ys) = sortedItems (xs ++ y :: ys) := by
  induction xs with
  | nil => rw [List.nil_append, List.nil_append, sortedItems, sortedItems, h]
  | cons a xs ih => rw [List.cons_append, List.cons_append, sortedItems, sortedItems, ih]

theorem sortedFields_congr {x y : Value} (h : sorted x = sorted y) (fs gs : List (Scalar × Value))
    (key : Scalar) : sortedFields (fs ++ (key, x) :: gs) = sortedFields (fs ++ (key, y) :: gs) := by
  induction fs with
  | nil => rw [List.nil_append, List.nil_append, sortedFields, sortedFields, h]
  | cons f fs ih => rw [List.cons_append, List.cons_append, sortedFields, sortedFields, ih]

/-- Sorting the values of fields goes with reordering them. -/
theorem sortedFields_perm {fs gs es : List (Scalar × Value)} (hperm : fs.Perm gs)
    (h : sortedFields gs = .ok es) (hs : List (Scalar × Value)) (hhs : sortedFields fs = .ok hs) :
    hs.Perm es := by
  obtain ⟨hs', heach, hperm'⟩ := List.perm_comp_forall₂ hperm (sortedFields_each h)
  have hunique : Relator.RightUnique fun f g : Scalar × Value => f.1 = g.1 ∧ sorted f.2 = .ok g.2 := by
    rintro f ⟨_, x⟩ ⟨_, y⟩ ⟨rfl, hx⟩ ⟨rfl, hy⟩
    have hxy : x = y := Except.ok.inj (hx.symm.trans hy)
    rw [hxy]
  rwa [hunique.forall₂ (sortedFields_each hhs) heach]

/-- Values that differ only in the order of fields are the same once they are sorted. -/
theorem sorted_reordered {v w : Value} (h : v.Reordered w) (hv : IsJson v) : sorted v = sorted w := by
  induction h with
  | refl _ => rfl
  | @fields d e hperm =>
    obtain ⟨hnames, hdistinct, -⟩ := isFields_of_isJson hv
    obtain ⟨u, hu⟩ := sorted_ok hv.orderly
    obtain ⟨w, hw⟩ := sorted_ok ((Value.Reordered.fields hperm).isJson hv).orderly
    obtain ⟨-, gs, hgs, rfl⟩ := sorted_object hu
    obtain ⟨-, hs, hhs, rfl⟩ := sorted_object hw
    have hgnames : ∀ g ∈ gs, ∃ t, g.1 = .text t := by
      intro g hg
      obtain ⟨f, hf, hname, -⟩ := Order.exists_mem_of_forall₂ (sortedFields_each hgs).flip hg
      exact hname ▸ hnames f hf
    rw [hu, hw, sortFields_eq_of_perm hgnames (by rwa [sortedFields_names hgs])
      (sortedFields_perm hperm hhs gs hgs)]
  | item xs ys _ ih =>
    cases hv with
    | list hitems =>
      have hx := ih (hitems _ (List.mem_append_right xs List.mem_cons_self))
      rw [sorted, sorted, sortedItems_congr hx]
  | value fs gs key _ ih =>
    have hx := ih ((isFields_of_isJson hv).values _ (List.mem_append_right fs List.mem_cons_self))
    rw [sorted, sorted, sortedFields_congr hx]
    simp only [List.map_append, List.map_cons]
  | trans huv _ ih ih' => rw [ih hv, ih' (huv.isJson hv)]

end Json

namespace Value

/-! ## Comparing values of one kind -/

theorem compare_of_rank_ne {a b : Value} (h : a.rank ≠ b.rank) : compare a b = .ok (Ord.compare a.rank b.rank) := by
  unfold compare
  rw [if_pos h]

theorem compare_objects (d e : Document) :
    compare (.object d) (.object e) = compareCanonical (.object d) (.object e) := rfl

theorem compare_lists (xs ys : List Value) : compare (.list xs) (.list ys) = compareItems xs ys := rfl

theorem compare_scalars {s t : Scalar} (h : (scalar s).rank = (scalar t).rank) :
    compare (.scalar s) (.scalar t) = compareScalars s t := by
  unfold compare
  rw [if_neg (not_not_intro h)]

theorem eq_object_of_rank {v : Value} {d : Document} (h : v.rank = (object d).rank) : ∃ e, v = .object e := by
  cases v with
  | scalar s => exact absurd h (rank_scalar s).1
  | list _ => cases h
  | object e => exact ⟨e, rfl⟩

theorem eq_list_of_rank {v : Value} {xs : List Value} (h : v.rank = (list xs).rank) : ∃ ys, v = .list ys := by
  cases v with
  | scalar s => exact absurd h (rank_scalar s).2
  | list ys => exact ⟨ys, rfl⟩
  | object _ => cases h

theorem eq_scalar_of_rank {v : Value} {s : Scalar} (h : v.rank = (scalar s).rank) : ∃ t, v = .scalar t := by
  cases v with
  | scalar t => exact ⟨t, rfl⟩
  | list _ => exact absurd h.symm (rank_scalar s).2
  | object _ => exact absurd h.symm (rank_scalar s).1

/-- Two values that comparing does not tell apart. -/
structure Interchangeable (v w : Value) : Prop where
  left : ∀ z, compare v z = compare w z
  right : ∀ z, compare z v = compare z w

namespace Interchangeable

theorem refl (v : Value) : Interchangeable v v := ⟨fun _ => rfl, fun _ => rfl⟩

theorem trans {u v w : Value} (h : Interchangeable u v) (h' : Interchangeable v w) : Interchangeable u w :=
  ⟨fun z => (h.left z).trans (h'.left z), fun z => (h.right z).trans (h'.right z)⟩

/-- Only values of the same kind have to be tried. -/
theorem of_rank {v w : Value} (hrank : v.rank = w.rank) (hleft : ∀ z, v.rank = z.rank → compare v z = compare w z)
    (hright : ∀ z, z.rank = v.rank → compare z v = compare z w) : Interchangeable v w where
  left z := by
    by_cases hz : v.rank = z.rank
    · exact hleft z hz
    · rw [compare_of_rank_ne hz, compare_of_rank_ne (hrank ▸ hz), hrank]
  right z := by
    by_cases hz : z.rank = v.rank
    · exact hright z hz
    · rw [compare_of_rank_ne hz, compare_of_rank_ne (hrank ▸ hz), hrank]

/-- Objects with one canonical text. -/
theorem object {d e : Document} (h : Json.sorted (.object d) = Json.sorted (.object e)) :
    Interchangeable (.object d) (.object e) := by
  have hcanonical : canonical (.object d) = canonical (.object e) := by
    rw [canonical, canonical, Json.canonical, Json.canonical, h]
  refine of_rank rfl (fun z hz => ?_) fun z hz => ?_
  · obtain ⟨f, rfl⟩ := eq_object_of_rank hz.symm
    rw [compare_objects, compare_objects, compareCanonical, compareCanonical, hcanonical]
  · obtain ⟨f, rfl⟩ := eq_object_of_rank hz
    rw [compare_objects, compare_objects, compareCanonical, compareCanonical, hcanonical]

theorem compareItems_left {x y : Value} (h : Interchangeable x y) (xs ys : List Value) :
    ∀ zs, compareItems (xs ++ x :: ys) zs = compareItems (xs ++ y :: ys) zs := by
  induction xs with
  | nil =>
    intro zs
    cases zs with
    | nil => rfl
    | cons z zs => rw [List.nil_append, List.nil_append, compareItems, compareItems, h.left]
  | cons a xs ih =>
    intro zs
    cases zs with
    | nil => rfl
    | cons z zs => simp only [List.cons_append, compareItems, ih]

theorem compareItems_right {x y : Value} (h : Interchangeable x y) (xs ys : List Value) :
    ∀ zs, compareItems zs (xs ++ x :: ys) = compareItems zs (xs ++ y :: ys) := by
  induction xs with
  | nil =>
    intro zs
    cases zs with
    | nil => rfl
    | cons z zs => rw [List.nil_append, List.nil_append, compareItems, compareItems, h.right]
  | cons a xs ih =>
    intro zs
    cases zs with
    | nil => rfl
    | cons z zs => simp only [List.cons_append, compareItems, ih]

/-- Lists with such values at one place. -/
theorem item {x y : Value} (h : Interchangeable x y) (xs ys : List Value) :
    Interchangeable (.list (xs ++ x :: ys)) (.list (xs ++ y :: ys)) := by
  refine of_rank rfl (fun z hz => ?_) fun z hz => ?_
  · obtain ⟨zs, rfl⟩ := eq_list_of_rank hz.symm
    rw [compare_lists, compare_lists, compareItems_left h]
  · obtain ⟨zs, rfl⟩ := eq_list_of_rank hz
    rw [compare_lists, compare_lists, compareItems_right h]

end Interchangeable

/-- The order of fields does not count. -/
theorem Reordered.interchangeable {v w : Value} (h : Reordered v w) (hv : IsJson v) : Interchangeable v w := by
  induction h with
  | refl v => exact .refl v
  | fields hperm => exact .object (Json.sorted_reordered (.fields hperm) hv)
  | item xs ys _ ih =>
    cases hv with
    | list hitems => exact (ih (hitems _ (List.mem_append_right xs List.mem_cons_self))).item xs ys
  | value fs gs key hxy _ => exact .object (Json.sorted_reordered (.value fs gs key hxy) hv)
  | trans huv _ ih ih' => exact (ih hv).trans (ih' (huv.isJson hv))

/-! ## Ties -/

theorem rank_eq_of_compare {a b : Value} (h : compare a b = .ok .eq) : a.rank = b.rank := by
  by_contra hne
  exact hne (Nat.compare_eq_eq.mp (Except.ok.inj ((compare_of_rank_ne hne).symm.trans h)))

/-- Tied scalars are equal, if they have literals. -/
theorem same_of_compareScalars {s t : Scalar} (hs : Json.HasLiteral s) (hrank : s.rank = t.rank)
    (h : compareScalars s t = .ok .eq) : s.same t = true := by
  cases hx : s.number? with
  | some x =>
    obtain ⟨y, hy⟩ := Scalar.number?_of_rank hrank hx
    have horder : (x.compare y).getD .gt = .eq := by
      cases s with
      | null | text _ | date _ | timestamp _ | bytes _ => cases hx
      | bool _ | int _ | float _ =>
        simp only [compareScalars, hx, hy] at h
        exact Except.ok.inj h
    have hsame : s.same t = x.same y := by simp only [Scalar.same, hx, hy]
    rw [hsame, Number.same]
    cases ho : x.compare y with
    | none =>
      rw [ho] at horder
      cases horder
    | some o =>
      rw [ho] at horder
      exact beq_iff_eq.mpr (congrArg some horder)
  | none =>
    cases s with
    | bool _ | int _ | float _ => cases hx
    | date _ | timestamp _ | bytes _ => exact hs.elim
    | null =>
      cases t <;> simp [Scalar.rank] at hrank
      rfl
    | text u =>
      cases t <;> simp [Scalar.rank] at hrank
      exact Scalar.same_text.mpr (congrArg _ (Text.compare_eq_eq.mp (Except.ok.inj h)))

/-- So are objects with one canonical text. -/
theorem same_of_compareCanonical {a b : Value} (ha : IsJson a) (hb : IsJson b) (hnan : a.NoNaN)
    (hatexts : a.Encodable) (hbtexts : b.Encodable) (h : compareCanonical a b = .ok .eq) : a.same b = true := by
  obtain ⟨t, hat, h⟩ := ok_of_bind h
  obtain ⟨t', hbt, h⟩ := ok_of_bind h
  obtain rfl := Text.compare_eq_eq.mp (Except.ok.inj h)
  obtain ⟨u, hau, hbu⟩ := Json.sorted_eq_of_canonical ha hb hatexts hbtexts (ok_of_mapError hat)
    (ok_of_mapError hbt)
  exact Json.same_of_sorted ha hnan hb hau hbu

/-- Tied lists are equal if their tied items are. -/
theorem sameItems_of_compareItems {xs ys : List Value} (h : compareItems xs ys = .ok .eq)
    (hitems : ∀ x ∈ xs, ∀ y ∈ ys, compare x y = .ok .eq → x.same y = true) : sameItems xs ys = true := by
  induction xs generalizing ys with
  | nil =>
    cases ys with
    | nil => rfl
    | cons y ys => cases h
  | cons x xs ih =>
    cases ys with
    | nil => cases h
    | cons y ys =>
      obtain ⟨o, ho, h⟩ := ok_of_bind h
      cases o with
      | lt | gt => cases h
      | eq =>
        rw [sameItems, hitems x List.mem_cons_self y List.mem_cons_self ho, Bool.true_and]
        exact ih h fun x hx y hy => hitems x (List.mem_cons_of_mem _ hx) y (List.mem_cons_of_mem _ hy)

/-- Tied values are equal. -/
theorem same_of_compare {a b : Value} (ha : IsJson a) (hb : IsJson b) (hnan : a.NoNaN) (hatexts : a.Encodable)
    (hbtexts : b.Encodable) (h : compare a b = .ok .eq) : a.same b = true := by
  have hrank := rank_eq_of_compare h
  induction ha generalizing b with
  | @scalar s hs =>
    obtain ⟨t, rfl⟩ := eq_scalar_of_rank hrank.symm
    exact same_of_compareScalars hs hrank ((compare_scalars hrank).symm.trans h)
  | list _ ih =>
    obtain ⟨ys, rfl⟩ := eq_list_of_rank hrank.symm
    refine sameItems_of_compareItems h fun x hx y hy hxy => ?_
    exact ih x hx (hb.of_mem_list hy) (hnan.of_mem_list hx) (hatexts.of_mem_list hx) (hbtexts.of_mem_list hy)
      hxy (rank_eq_of_compare hxy)
  | object hnames hdistinct hvalues _ =>
    obtain ⟨e, rfl⟩ := eq_object_of_rank hrank.symm
    exact same_of_compareCanonical (.object hnames hdistinct hvalues) hb hnan hatexts hbtexts h

theorem comparator_eq_zero {a b : Value} : comparator a b = .ok 0 ↔ compare a b = .ok .eq := by
  constructor
  · intro h
    obtain ⟨o, ho, hsign⟩ := ok_of_map h
    cases o with
    | eq => exact ho
    | lt | gt => exact absurd hsign (by decide)
  · intro h
    rw [comparator, h]
    rfl

end Value

open Value in
/-- Values from JSON text that are tied are equal, if not-a-number is nowhere in the first one and no text in
them holds a surrogate. And putting fields in another order, at any depth, makes no difference to comparing. -/
theorem comparison_of_content :
    (∀ {a b : Value}, IsJson a → IsJson b → a.NoNaN → a.Encodable → b.Encodable →
      comparator a b = .ok 0 → a.same b = true) ∧
    ∀ {a b a' b' : Value}, IsJson a → IsJson b → Reordered a a' → Reordered b b' →
      comparator a' b' = comparator a b := by
  constructor
  · intro a b ha hb hnan hatexts hbtexts htie
    exact same_of_compare ha hb hnan hatexts hbtexts (comparator_eq_zero.mp htie)
  · intro a b a' b' ha hb haa' hbb'
    rw [comparator, comparator, (haa'.interchangeable ha).left, (hbb'.interchangeable hb).right]

/-- A mapping in a list in a mapping. -/
def crate (first second : Scalar × Value) : Value :=
  .object [(.text "crate".toText, .list [.null, .object [first, second]]), (.text "é".toText, .int 2)]

def apples : Scalar × Value := (.text "apples".toText, .list [.text "Ω".toText, .object []])

def pears : Scalar × Value := (.text "pears".toText, .float (.infinity true))

theorem crate_isJson : IsJson (crate apples pears) := by
  have hfruit : IsJson (.object [apples, pears]) := by
    refine .object ?_ (by decide) ?_
    · simp [apples, pears]
    · have happles : IsJson (.list [.text "Ω".toText, .object []]) :=
        .list (by simp [Json.isJson_text, Json.isFields_nil.isJson])
      have hpears : IsJson (.float (.infinity true)) := .scalar trivial
      simp [apples, pears, happles, hpears]
  refine .object (by simp) (by decide) ?_
  have hnull : IsJson .null := .scalar trivial
  have hlist : IsJson (.list [.null, .object [apples, pears]]) := .list (by simp [hnull, hfruit])
  have htwo : IsJson (.int 2) := .scalar trivial
  simp [hlist, htwo]

theorem crate_reordered : Value.Reordered (crate apples pears) (crate pears apples) :=
  .value [] _ _ (.item [.null] [] (.fields (.swap pears apples [])))

theorem crate_encodable {f g : Scalar × Value} (h : f = apples ∧ g = pears ∨ f = pears ∧ g = apples) :
    (crate f g).Encodable := by
  intro t ht
  rcases h with ⟨rfl, rfl⟩ | ⟨rfl, rfl⟩
  all_goals
    simp only [crate, apples, pears, Value.scalars, Value.scalarsOfFields, Value.scalarsOfItems,
      List.append_nil, List.cons_append, List.nil_append, List.mem_cons, Scalar.text.injEq, reduceCtorEq,
      List.not_mem_nil, or_false, false_or] at ht
    rcases ht with rfl | rfl | rfl | rfl | rfl <;> exact Text.encodable_toText _

/-- Apples and pears may change places. -/
theorem comparison_of_content_crate :
    Value.comparator (crate apples pears) (crate pears apples) = .ok 0 ∧
    (crate apples pears).same (crate pears apples) = true ∧
    ∀ v, IsJson v → Value.comparator (crate pears apples) v = Value.comparator (crate apples pears) v := by
  have htie : Value.comparator (crate apples pears) (crate pears apples) = .ok 0 := by cbv
  have hnan : (crate apples pears).NoNaN := by
    unfold Value.NoNaN
    decide
  exact ⟨htie, comparison_of_content.1 crate_isJson (crate_reordered.isJson crate_isJson) hnan
    (crate_encodable (.inl ⟨rfl, rfl⟩)) (crate_encodable (.inr ⟨rfl, rfl⟩)) htie,
    fun v hv => comparison_of_content.2 crate_isJson hv crate_reordered (.refl v)⟩

end Cabinet
