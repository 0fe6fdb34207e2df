import Cabinet.Proofs.Json.RoundTrip

/-!
# What has a canonical text

The canonical text of an object has its fields sorted by name. So there is one only if the names have an
order in common, and a literal each.

* `Json.InOneOrder` : such names;
* `Json.Orderly` : values in which, to any depth, the names of an object are such;
* `Json.firstUnordered?_iff` : names with literals are in one order if all neighbours among them are;
* `Json.sorted_list`, `Json.sorted_object` : what sorting a value does to its parts;
* `Json.canonical_ok_iff` : a value has a canonical text exactly if it is orderly.
-/

namespace Cabinet.Json

/-- Names that have literals and an order in common: texts only, or numbers and truth values only. A name
that stands alone has no other to be ordered with. -/
structure InOneOrder (names : List Scalar) : Prop where
  literals : ∀ name ∈ names, HasLiteral name
  kind : (∀ name ∈ names, ∃ t, name = .text t) ∨ (∀ name ∈ names, ∃ n, name.number? = some n) ∨
    names.length ≤ 1

/-- A value in which, to any depth, the names of the fields of an object are in one order. -/
inductive Orderly : Value → Prop where
  | scalar (s : Scalar) : Orderly (.scalar s)
  | list {xs : List Value} : (∀ x ∈ xs, Orderly x) → Orderly (.list xs)
  | object {d : Document} : InOneOrder (d.map (·.1)) → (∀ f ∈ d, Orderly f.2) → Orderly (.object d)

theorem IsJson.orderly {v : Value} (h : IsJson v) : Orderly v := by
  induction h with
  | scalar _ => exact .scalar _
  | list _ ih => exact .list ih
  | @object fs hnames _ _ ih =>
    have htexts : ∀ name ∈ fs.map (·.1), ∃ t, name = .text t := List.forall_mem_map.mpr hnames
    refine .object ⟨fun name hname => ?_, .inl htexts⟩ ih
    obtain ⟨t, rfl⟩ := htexts name hname
    trivial

theorem Orderly.of_mem_object {d : Document} (h : Orderly (.object d)) {f : Scalar × Value} (hf : f ∈ d) :
    Orderly f.2 := by
  cases h with
  | object _ hvalues => exact hvalues f hf

/-! ## Names -/

/-- Names with literals have an order in common if both are texts or both are numbers. -/
theorem compareNames?_isSome {a b : Scalar} (ha : HasLiteral a) (hb : HasLiteral b) :
    (compareNames? a b).isSome = true ↔ ((∃ t, a = .text t) ∧ ∃ u, b = .text u) ∨
      (∃ n, a.number? = some n) ∧ ∃ m, b.number? = some m := by
  cases a with
  | date _ | timestamp _ | bytes _ => exact ha.elim
  | null | bool _ | int _ | float _ | text _ =>
    cases b with
    | date _ | timestamp _ | bytes _ => exact hb.elim
    | null | bool _ | int _ | float _ | text _ => simp [compareNames?, Scalar.number?]

/-- A text is no number. -/
theorem number?_text {s : Scalar} {t : Text} (h : s = .text t) : s.number? = none := by
  rw [h]
  rfl

theorem firstUnordered?_cons {a b : Scalar} {rest : List Scalar} :
    firstUnordered? (a :: b :: rest) = none ↔
      (compareNames? b a).isSome = true ∧ firstUnordered? (b :: rest) = none := by
  rw [firstUnordered?]
  cases compareNames? b a <;> simp

/-- Only neighbours are compared, but that is enough, as a name is of one kind only. -/
theorem firstUnordered?_iff : ∀ {names : List Scalar}, (∀ name ∈ names, HasLiteral name) →
    (firstUnordered? names = none ↔ InOneOrder names)
  | [], hliterals => iff_of_true rfl ⟨hliterals, .inl (List.forall_mem_nil _)⟩
  | [_], hliterals => iff_of_true rfl ⟨hliterals, .inr (.inr le_rfl)⟩
  | a :: b :: rest, hliterals => by
    obtain ⟨ha, hrest⟩ := List.forall_mem_cons.mp hliterals
    rw [firstUnordered?_cons, compareNames?_isSome (hrest b List.mem_cons_self) ha, firstUnordered?_iff hrest]
    constructor
    · rintro ⟨⟨⟨t, hb⟩, ha⟩ | ⟨⟨n, hb⟩, ha⟩, -, htexts | hnumbers | hsingle⟩
      · exact ⟨hliterals, .inl (List.forall_mem_cons.mpr ⟨ha, htexts⟩)⟩
      · obtain ⟨n, hn⟩ := hnumbers b List.mem_cons_self
        cases (number?_text hb).symm.trans hn
      · obtain rfl := List.eq_nil_of_length_eq_zero (Nat.le_zero.mp (Nat.le_of_succ_le_succ hsingle))
        exact ⟨hliterals, .inl (List.forall_mem_cons.mpr ⟨ha, List.forall_mem_singleton.mpr ⟨t, hb⟩⟩)⟩
      · obtain ⟨t, ht⟩ := htexts b List.mem_cons_self
        cases (number?_text ht).symm.trans hb
      · exact ⟨hliterals, .inr (.inl (List.forall_mem_cons.mpr ⟨ha, hnumbers⟩))⟩
      · obtain rfl := List.eq_nil_of_length_eq_zero (Nat.le_zero.mp (Nat.le_of_succ_le_succ hsingle))
        exact ⟨hliterals, .inr (.inl (List.forall_mem_cons.mpr ⟨ha, List.forall_mem_singleton.mpr ⟨n, hb⟩⟩))⟩
    · rintro ⟨-, htexts | hnumbers | hsingle⟩
      · obtain ⟨ha, htexts⟩ := List.forall_mem_cons.mp htexts
        exact ⟨.inl ⟨htexts b List.mem_cons_self, ha⟩, hrest, .inl htexts⟩
      · obtain ⟨ha, hnumbers⟩ := List.forall_mem_cons.mp hnumbers
        exact ⟨.inr ⟨hnumbers b List.mem_cons_self, ha⟩, hrest, .inr (.inl hnumbers)⟩
      · exact absurd hsingle (by simp)

/-! ## Values -/

theorem sortedItems_ok {xs : List Value} (h : ∀ x ∈ xs, ∃ y, sorted x = .ok y) :
    ∃ ys, sortedItems xs = .ok ys := by
  induction xs with
  | nil => exact ⟨[], rfl⟩
  | cons x xs ih =>
    obtain ⟨⟨y, hy⟩, hxs⟩ := List.forall_mem_cons.mp h
    obtain ⟨ys, hys⟩ := ih hxs
    exact ⟨y :: ys, by rw [sortedItems, hy, hys]; rfl⟩

theorem sortedFields_ok {fs : List (Scalar × Value)} (hnames : ∀ f ∈ fs, HasLiteral f.1)
    (h : ∀ f ∈ fs, ∃ y, sorted f.2 = .ok y) : ∃ gs, sortedFields fs = .ok gs := by
  induction fs with
  | nil => exact ⟨[], rfl⟩
  | cons f fs ih =>
    obtain ⟨key, x⟩ := f
    obtain ⟨hkey, hnames⟩ := List.forall_mem_cons.mp hnames
    obtain ⟨⟨y, hy⟩, hfs⟩ := List.forall_mem_cons.mp h
    obtain ⟨gs, hgs⟩ := ih hnames hfs
    have hy : sorted x = .ok y := hy
    exact ⟨(key, y) :: gs, by rw [sortedFields, checkName_ok hkey, hy, hgs]; rfl⟩

theorem sorted_ok {v : Value} (h : Orderly v) : ∃ u, sorted v = .ok u := by
  induction h with
  | scalar s => exact ⟨_, rfl⟩
  | list _ ih =>
    obtain ⟨ys, hys⟩ := sortedItems_ok ih
    exact ⟨.list ys, by rw [sorted, hys]; rfl⟩
  | @object d hnames _ ih =>
    obtain ⟨gs, hgs⟩ := sortedFields_ok (List.forall_mem_map.mp hnames.literals) ih
    have hordered := (firstUnordered?_iff hnames.literals).mpr hnames
    exact ⟨.object (sortFields gs), by rw [sorted, hordered, hgs]; rfl⟩

section Sorted
variable {u : Value} {xs ys : List Value} {fs gs : List (Scalar × Value)}

theorem sorted_list (h : sorted (.list xs) = .ok u) : ∃ ys, sortedItems xs = .ok ys ∧ u = .list ys := by
  obtain ⟨ys, hys, h⟩ := ok_of_bind h
  exact ⟨ys, hys, (Except.ok.inj h).symm⟩

theorem sorted_object (h : sorted (.object fs) = .ok u) :
    firstUnordered? (fs.map (·.1)) = none ∧ ∃ gs, sortedFields fs = .ok gs ∧ u = .object (sortFields gs) := by
  rw [sorted] at h
  cases hordered : firstUnordered? (fs.map (·.1)) with
  | some names =>
    rw [hordered] at h
    cases h
  | none =>
    rw [hordered] at h
    obtain ⟨gs, hgs, h⟩ := ok_of_bind h
    exact ⟨rfl, gs, hgs, (Except.ok.inj h).symm⟩

/-- Each item is sorted. -/
theorem sortedItems_each (h : sortedItems xs = .ok ys) :
    List.Forall₂ (fun x y => sorted x = .ok y) xs ys := by
  induction xs generalizing ys with
  | nil =>
    obtain rfl := Except.ok.inj h
    exact .nil
  | cons x xs ih =>
    obtain ⟨y, hy, h⟩ := ok_of_bind h
    obtain ⟨ys, hys, h⟩ := ok_of_bind h
    obtain rfl := Except.ok.inj h
    exact .cons hy (ih hys)

/-- Each field keeps its name, and its value is sorted. -/
theorem sortedFields_each (h : sortedFields fs = .ok gs) :
    List.Forall₂ (fun f g => f.1 = g.1 ∧ sorted f.2 = .ok g.2) fs gs := by
  induction fs generalizing gs with
  | nil =>
    obtain rfl := Except.ok.inj h
    exact .nil
  | cons f fs ih =>
    obtain ⟨⟨⟩, -, h⟩ := ok_of_bind h
    obtain ⟨y, hy, h⟩ := ok_of_bind h
    obtain ⟨gs, hgs, h⟩ := ok_of_bind h
    obtain rfl := Except.ok.inj h
    exact .cons ⟨rfl, hy⟩ (ih hgs)

end Sorted

mutual

/-- Only what is orderly can be sorted. -/
theorem orderly_of_sorted : ∀ {v u : Value}, sorted v = .ok u → Orderly v
  | .scalar s, _, _ => .scalar s
  | .list xs, _, h => by
    obtain ⟨ys, hys, -⟩ := sorted_list h
    exact .list (orderly_of_sortedItems hys)
  | .object d, _, h => by
    obtain ⟨hordered, gs, hgs, -⟩ := sorted_object h
    have hfields := orderly_of_sortedFields hgs
    have hliterals : ∀ name ∈ d.map (·.1), HasLiteral name :=
      List.forall_mem_map.mpr fun f hf => (hfields f hf).1
    exact .object ((firstUnordered?_iff hliterals).mp hordered) fun f hf => (hfields f hf).2

theorem orderly_of_sortedItems : ∀ {xs ys : List Value}, sortedItems xs = .ok ys → ∀ x ∈ xs, Orderly x
  | [], _, _ => List.forall_mem_nil _
  | x :: xs, _, h => by
    obtain ⟨y, hy, h⟩ := ok_of_bind h
    obtain ⟨ys, hys, -⟩ := ok_of_bind h
    exact List.forall_mem_cons.mpr ⟨orderly_of_sorted hy, orderly_of_sortedItems hys⟩

theorem orderly_of_sortedFields : ∀ {fs gs : List (Scalar × Value)}, sortedFields fs = .ok gs →
    ∀ f ∈ fs, HasLiteral f.1 ∧ Orderly f.2
  | [], _, _ => List.forall_mem_nil _
  | (key, x) :: fs, _, h => by
    obtain ⟨⟨⟩, hkey, h⟩ := ok_of_bind h
    obtain ⟨y, hy, h⟩ := ok_of_bind h
    obtain ⟨gs, hgs, -⟩ := ok_of_bind h
    exact List.forall_mem_cons.mpr ⟨⟨hasLiteral_of_checkName hkey, orderly_of_sorted hy⟩,
      orderly_of_sortedFields hgs⟩

end

theorem canonical_ok_iff {v : Value} : (∃ t, canonical v = .ok t) ↔ Orderly v := by
  constructor
  · rintro ⟨t, ht⟩
    obtain ⟨u, hu, -⟩ := ok_of_bind ht
    exact orderly_of_sorted hu
  · intro h
    obtain ⟨u, hu⟩ := sorted_ok h
    exact ⟨render .ascii 0 u, by rw [canonical, hu]; rfl⟩

end Cabinet.Json
