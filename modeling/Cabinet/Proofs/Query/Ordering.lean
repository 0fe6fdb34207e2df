import Cabinet.Proofs.Json.Reading
import Cabinet.Proofs.Order.Chained
import Cabinet.Proofs.Value.Comparing
import Cabinet.Proofs.Value.Place
import Cabinet.Query.SortOrder

/-!
# The order that sort keys describe

* `SortOrder.ordering` : documents compared key by key, each by the places of the values of its field;
  a total preorder, whose keys may be given in one list or one list after another;
* `SortOrder.Ranked` : a document without not-a-number in the fields that some keys name;
* `SortOrder.compareBy_eq` : on such documents a comparator says what this order says, if it says
  anything; on documents that hold orderly values it always does (`SortOrder.compareBy_ok`);
* `SortOrder.compareBy_repeated` : a key whose field occurred earlier makes no difference;
* `SortOrder.keys_append` : the keys of two lists of pairs, one after the other.
-/

namespace Cabinet.SortOrder

/-- The place of a field's value. What is no document has the place of null. -/
def Key.place (k : Key) (d : Value) : List Int :=
  ((d.field (.text k.field)).toOption.getD .null).place

/-- The order by one key. -/
def Key.ordering (k : Key) (d e : Value) : Ordering :=
  if k.descending then compareOn k.place e d else compareOn k.place d e

/-- The order by some keys: by the first, then by the others. -/
def ordering : List Key → Value → Value → Ordering
  | [], _, _ => .eq
  | k :: ks, d, e => compareLex k.ordering (ordering ks) d e

instance (k : Key) : Std.TransCmp k.ordering := by
  unfold Key.ordering
  cases k.descending with
  | true => exact inferInstanceAs (Std.TransCmp fun d e => compareOn k.place e d)
  | false => exact inferInstanceAs (Std.TransCmp (compareOn k.place))

theorem transCmp_ordering : ∀ keys : List Key, Std.TransCmp (ordering keys)
  | [] => { eq_swap := rfl, isLE_trans := fun _ _ => rfl }
  | k :: ks =>
    have := transCmp_ordering ks
    inferInstanceAs (Std.TransCmp (compareLex k.ordering (ordering ks)))

instance (keys : List Key) : Std.TransCmp (ordering keys) := transCmp_ordering keys

theorem ordering_append (ks ls : List Key) :
    ordering (ks ++ ls) = compareLex (ordering ks) (ordering ls) := by
  funext d e
  induction ks with
  | nil => rfl
  | cons k ks ih =>
    rw [List.cons_append, ordering, compareLex, ih, compareLex, compareLex, ordering, compareLex,
      Ordering.then_assoc]

/-! ## What a comparator says -/

/-- None of the fields that some keys name holds not-a-number in a document. -/
def Ranked (keys : List Key) (d : Value) : Prop :=
  ∀ k ∈ keys, ∀ v, d.field (.text k.field) = .ok v → v.hasNaN = false

theorem Key.place_eq {k : Key} {d v : Value} (h : d.field (.text k.field) = .ok v) :
    k.place d = v.place := by
  rw [Key.place, h]
  rfl

theorem Key.ordering_eq (k : Key) (d e : Value) : k.ordering d e =
    if k.descending then (Ord.compare (k.place d) (k.place e)).swap
    else Ord.compare (k.place d) (k.place e) := by
  have hswap : Ord.compare (k.place e) (k.place d) = (Ord.compare (k.place d) (k.place e)).swap :=
    Std.OrientedCmp.eq_swap
  unfold Key.ordering compareOn
  rw [hswap]

/-- If a comparator says anything of two documents without not-a-number, it is what the order of its
keys says. -/
theorem compareBy_eq {keys : List Key} {d e : Value} (hd : Ranked keys d) (he : Ranked keys e)
    {n : Int} (h : compareBy keys d e = .ok n) : n = sign (ordering keys d e) := by
  induction keys with
  | nil => exact (Except.ok.inj h).symm
  | cons k ks ih =>
    obtain ⟨hdk, hdks⟩ := List.forall_mem_cons.mp hd
    obtain ⟨hek, heks⟩ := List.forall_mem_cons.mp he
    obtain ⟨x, hx, h⟩ := ok_of_bind h
    obtain ⟨y, hy, h⟩ := ok_of_bind h
    obtain ⟨o, ho, h⟩ := ok_of_bind h
    have hplace := Value.compare_eq (hdk x hx) (hek y hy) ho
    rw [ordering, compareLex, Key.ordering_eq, Key.place_eq hx, Key.place_eq hy, hplace]
    cases o with
    | eq =>
      rw [ih hdks heks h]
      cases k.descending <;> rfl
    | lt | gt =>
      rw [← Except.ok.inj h]
      cases k.descending <;> rfl

/-- Documents that hold orderly values can always be compared. -/
theorem compareBy_ok {d e : Document} (hd : d.Orderly) (he : e.Orderly) :
    ∀ keys : List Key, ∃ n, compareBy keys (.object d) (.object e) = .ok n
  | [] => ⟨0, rfl⟩
  | k :: ks => by
    obtain ⟨o, ho⟩ := Value.compare_ok (hd.getD (.text k.field)) (he.getD (.text k.field))
    obtain ⟨n, hn⟩ := compareBy_ok hd he ks
    rw [compareBy]
    simp only [Value.field, bind, Except.bind, ho, hn]
    cases o <;> exact ⟨_, rfl⟩

theorem orderly_of_isJson {d : Document} (h : Json.IsJson (.object d)) : d.Orderly :=
  fun _ hf => h.orderly.of_mem_object hf

theorem compareBy_json {keys : List Key} {d e : Document} (hd : Json.IsJson (.object d))
    (he : Json.IsJson (.object e)) (hdkeys : Ranked keys (.object d))
    (hekeys : Ranked keys (.object e)) : compareBy keys (.object d) (.object e) =
      .ok (sign (ordering keys (.object d) (.object e))) := by
  obtain ⟨n, hn⟩ := compareBy_ok (orderly_of_isJson hd) (orderly_of_isJson he) keys
  rw [hn, compareBy_eq hdkeys hekeys hn]

/-! ## Keys that are repeated -/

/-- Documents that are equal by a field are compared by the other keys. -/
theorem compareBy_skip {k : Key} {d e x y : Value} (hx : d.field (.text k.field) = .ok x)
    (hy : e.field (.text k.field) = .ok y) (hxy : Value.compare x y = .ok .eq) (ks ls : List Key) :
    compareBy (ks ++ k :: ls) d e = compareBy (ks ++ ls) d e := by
  induction ks with
  | nil =>
    rw [List.nil_append, List.nil_append, compareBy, hx, hy]
    simp only [bind, Except.bind, hxy]
  | cons k' ks ih =>
    rw [List.cons_append, List.cons_append, compareBy, compareBy, ih]

/-- A key whose field occurred earlier never decides. -/
theorem compareBy_repeated {k : Key} {ks : List Key} (h : k.field ∈ ks.map Key.field)
    (ls : List Key) : compareBy (ks ++ k :: ls) = compareBy (ks ++ ls) := by
  funext d e
  induction ks with
  | nil => exact absurd h List.not_mem_nil
  | cons k' ks ih =>
    rw [List.cons_append, List.cons_append, compareBy, compareBy]
    cases hx : d.field (.text k'.field) with
    | error _ => rfl
    | ok x =>
      cases hy : e.field (.text k'.field) with
      | error _ => rfl
      | ok y =>
        cases hxy : Value.compare x y with
        | error _ =>
          simp only [bind, Except.bind, hxy]
        | ok o =>
          simp only [bind, Except.bind, hxy]
          cases o with
          | lt | gt => rfl
          | eq =>
            rcases List.mem_cons.mp h with hfield | h
            · rw [← hfield] at hx hy
              exact compareBy_skip hx hy hxy ks ls
            · exact ih h

/-! ## Keys of lists of pairs -/

theorem compile_keys {given : Value} {ks : List Key} (h : keys given = .ok ks) :
    compile (.value given) = .ok (compareBy ks) := by
  unfold compile
  split
  · next heq => cases heq
  · next heq =>
    obtain rfl := Given.value.inj heq
    cases h
  · next heq =>
    obtain rfl := Given.value.inj heq
    rw [h]
    rfl

theorem pairs_eq_ok {given : Value} {items : List Value} {ps : List (Value × Value)} :
    pairs given items = .ok ps ↔ items = ps.map fun p => .list [p.1, p.2] := by
  constructor
  · intro h
    induction items generalizing ps with
    | nil => rw [← Except.ok.inj h, List.map_nil]
    | cons item items ih =>
      unfold pairs at h
      split at h
      · next heq => cases heq
      · next heq =>
        obtain ⟨rfl, rfl⟩ := List.cons.inj heq
        obtain ⟨rest, hrest, h⟩ := ok_of_bind h
        rw [← Except.ok.inj h, List.map_cons, ih hrest]
      · cases h
  · rintro rfl
    induction ps with
    | nil => rfl
    | cons p ps ih =>
      rw [List.map_cons, pairs, ih]
      rfl

theorem keys_list {items : List Value} {ks : List Key} : keys (.list items) = .ok ks ↔
    ∃ ps : List (Value × Value), items = ps.map (fun p => .list [p.1, p.2]) ∧
      ps.mapM (fun p => key p.1 p.2) = .ok ks := by
  constructor
  · intro h
    obtain ⟨ps, hps, hks⟩ := ok_of_bind h
    exact ⟨ps, pairs_eq_ok.mp hps, hks⟩
  · rintro ⟨ps, hps, hks⟩
    show (pairs _ _ >>= _) = _
    rw [pairs_eq_ok.mpr hps]
    exact hks

/-- The keys of two lists of pairs, one list after the other. -/
theorem keys_append {as bs : List Value} {ks ls : List Key} (hks : keys (.list as) = .ok ks)
    (hls : keys (.list bs) = .ok ls) : keys (.list (as ++ bs)) = .ok (ks ++ ls) := by
  obtain ⟨ps, rfl, hps⟩ := keys_list.mp hks
  obtain ⟨qs, rfl, hqs⟩ := keys_list.mp hls
  refine keys_list.mpr ⟨ps ++ qs, (List.map_append).symm, ?_⟩
  rw [List.mapM_append, hps, hqs]
  rfl

/-- A pair whose field occurred earlier adds nothing to a sort order. -/
theorem compile_repeated {as bs : List Value} {ks ls : List Key} {pair : Value} {k : Key}
    (hks : keys (.list as) = .ok ks) (hls : keys (.list bs) = .ok ls)
    (hpair : keys (.list [pair]) = .ok [k]) (hk : k.field ∈ ks.map Key.field) :
    compile (.value (.list (as ++ pair :: bs))) = compile (.value (.list (as ++ bs))) := by
  have hmore := compile_keys (keys_append hks (keys_append hpair hls))
  rw [List.singleton_append, List.singleton_append, compareBy_repeated hk] at hmore
  exact hmore.trans (compile_keys (keys_append hks hls)).symm

end Cabinet.SortOrder
