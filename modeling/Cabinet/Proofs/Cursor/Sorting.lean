import Cabinet.Proofs.Cursor.Rewinding
import Cabinet.Proofs.Cursor.SortedProjection
import Cabinet.Proofs.Query.Ordering

/-!
# Sorting by keys

* `Item.ordering`, `sort_ranked` : documents without not-a-number in the fields sorted by are put in
  the order of the keys, stably, if sorting them does not fail; what was read from JSON text always is
  (`sort_json`);
* `Stage.Sorts` : what a sort in front of a chain makes of all its items;
* `sort_in_order` : documents from JSON text without not-a-number come out in order, whichever way they
  came in, up to equal ones;
* `sort_around_nan` : not-a-number keeps others from being sorted.
-/

namespace Cabinet

variable {σ : Type}

/-! ## Items in the order of keys -/

/-- The order of two items by their documents. -/
def Item.ordering (keys : List SortOrder.Key) (x y : Item) : Ordering :=
  SortOrder.ordering keys x.document y.document

instance (keys : List SortOrder.Key) : Std.TransCmp (Item.ordering keys) :=
  have h := SortOrder.transCmp_ordering keys
  { eq_swap := h.eq_swap, isLE_trans := h.isLE_trans }

/-- Items in the order of some keys, tied ones as they were. -/
def Item.inOrder (keys : List SortOrder.Key) (xs : List Item) : List Item :=
  xs.mergeSort (Order.precedes (Item.ordering keys))

section Items
variable {keys : List SortOrder.Key} {xs ys : List Item}

theorem less_of_ordering {x y : Item} (hx : SortOrder.Ranked keys x.document)
    (hy : SortOrder.Ranked keys y.document) {r : Bool}
    (h : (do return (← SortOrder.compareBy keys x.document y.document) < 0) =
      (.ok r : Except Failure Bool)) : r = !Order.precedes (Item.ordering keys) y x := by
  obtain ⟨n, hn, h⟩ := ok_of_bind h
  obtain rfl := Except.ok.inj h
  have hswap : Item.ordering keys y x = (Item.ordering keys x y).swap := Std.OrientedCmp.eq_swap
  rw [SortOrder.compareBy_eq hx hy hn, Order.precedes, hswap, Item.ordering]
  cases SortOrder.ordering keys x.document y.document <;> rfl

theorem compare_json {x y : Item} (hx : SortOrder.Ranked keys x.document)
    (hy : SortOrder.Ranked keys y.document)
    (hxjson : ∃ d, x.document = .object d ∧ Json.IsJson (.object d))
    (hyjson : ∃ d, y.document = .object d ∧ Json.IsJson (.object d)) :
    SortOrder.compareBy keys x.document y.document =
      .ok (SortOrder.sign (Item.ordering keys x y)) := by
  obtain ⟨d, hd, hdjson⟩ := hxjson
  obtain ⟨e, he, hejson⟩ := hyjson
  rw [Item.ordering, hd, he]
  exact SortOrder.compareBy_json hdjson hejson (hd ▸ hx) (he ▸ hy)

/-- Documents without not-a-number are sorted in the order of the keys, if sorting does not fail. -/
theorem sort_ranked (hranked : ∀ x ∈ xs, SortOrder.Ranked keys x.document)
    (h : SortOrder.sort Item.document (SortOrder.compareBy keys) xs = .ok ys) :
    ys = Item.inOrder keys xs :=
  Order.sort_eq_of_ok (fun x hx y hy _ => less_of_ordering (hranked x hx) (hranked y hy)) h

/-- What was read from JSON texts can always be sorted. -/
theorem sort_json (hranked : ∀ x ∈ xs, SortOrder.Ranked keys x.document)
    (hjson : ∀ x ∈ xs, ∃ d, x.document = .object d ∧ Json.IsJson (.object d)) :
    SortOrder.sort Item.document (SortOrder.compareBy keys) xs = .ok (Item.inOrder keys xs) := by
  have hranks : Order.Ranks (Order.precedes (Item.ordering keys)) (· ∈ xs) :=
    ⟨fun x y _ _ => Order.ranks_precedes.total x y trivial trivial,
      fun x y z _ _ _ => Order.ranks_precedes.trans x y z trivial trivial trivial⟩
  refine Order.sort_eq_mergeSort hranks (fun x y hx hy => ?_) xs fun _ hx => hx
  have hless : (do return (← SortOrder.compareBy keys x.document y.document) < 0) =
      (.ok (decide (SortOrder.sign (Item.ordering keys x y) < 0)) : Except Failure Bool) := by
    rw [compare_json (hranked x hx) (hranked y hy) (hjson x hx) (hjson y hy)]
    rfl
  rw [hless, ← less_of_ordering (hranked x hx) (hranked y hy) hless]

theorem perm_inOrder : (Item.inOrder keys xs).Perm xs := List.mergeSort_perm xs _

/-- Keys of which some are sorted by before the others. -/
theorem inOrder_append (ks ls : List SortOrder.Key) (xs : List Item) :
    Item.inOrder (ks ++ ls) xs = Item.inOrder ks (Item.inOrder ls xs) := by
  have hboth : Item.ordering (ks ++ ls) = compareLex (Item.ordering ks) (Item.ordering ls) := by
    funext x y
    rw [Item.ordering, SortOrder.ordering_append]
    rfl
  rw [Item.inOrder, Item.inOrder, Item.inOrder, hboth, Order.mergeSort_mergeSort]

/-- Sorting by some keys after others gives what sorting by all of them gives, if both give something. -/
theorem sort_append_ranked {ks ls : List SortOrder.Key} {zs : List Item}
    (hranked : ∀ keys, ∀ x ∈ xs, SortOrder.Ranked keys x.document)
    (hys : SortOrder.sort Item.document (SortOrder.compareBy (ks ++ ls)) xs = .ok ys)
    (hzs : (SortOrder.sort Item.document (SortOrder.compareBy ls) xs >>=
      SortOrder.sort Item.document (SortOrder.compareBy ks)) = .ok zs) : ys = zs := by
  obtain ⟨us, hus, hzs⟩ := ok_of_bind hzs
  obtain rfl := sort_ranked (hranked ls) hus
  have hranked' : ∀ x ∈ Item.inOrder ls xs, SortOrder.Ranked ks x.document :=
    fun x hx => hranked ks x (perm_inOrder.mem_iff.mp hx)
  rw [sort_ranked (hranked _) hys, sort_ranked hranked' hzs, inOrder_append]

theorem sort_append_json {ks ls : List SortOrder.Key}
    (hranked : ∀ keys, ∀ x ∈ xs, SortOrder.Ranked keys x.document)
    (hjson : ∀ x ∈ xs, ∃ d, x.document = .object d ∧ Json.IsJson (.object d)) :
    SortOrder.sort Item.document (SortOrder.compareBy (ks ++ ls)) xs =
      SortOrder.sort Item.document (SortOrder.compareBy ls) xs >>=
        SortOrder.sort Item.document (SortOrder.compareBy ks) := by
  have hmem : ∀ x ∈ Item.inOrder ls xs, x ∈ xs := fun x hx => perm_inOrder.mem_iff.mp hx
  rw [sort_json (hranked _) hjson, sort_json (hranked _) hjson, inOrder_append]
  exact (sort_json (fun x hx => hranked ks x (hmem x hx)) fun x hx => hjson x (hmem x hx)).symm

end Items

/-! ## Documents from JSON texts -/

/-- An item as it comes from a store that keeps JSON texts. -/
def Item.IsFromJson (idField : Option Text) (x : Item) : Prop :=
  ∃ name kept d, Store.decodeJson name kept = .ok d ∧
    x.document = .object (Stage.embed idField x.id d)

theorem isJson_embed {d : Document} (h : Json.IsJson (.object d)) (idField : Option Text)
    (id : Text) : Json.IsJson (.object (Stage.embed idField id d)) := by
  unfold Stage.embed
  split
  · exact h
  · exact h
  · exact ((Json.isFields_of_isJson h).set (Json.isJson_text id) _).isJson

theorem Item.IsFromJson.isJson {idField : Option Text} {x : Item} (h : x.IsFromJson idField) :
    ∃ d, x.document = .object d ∧ Json.IsJson (.object d) := by
  obtain ⟨name, kept, d, hd, hx⟩ := h
  exact ⟨_, hx, isJson_embed (Json.decodeJson_isJson hd) idField x.id⟩

/-- Where all items of a chain are `xs`, all items of the chain with a sort in front are `ys`. -/
def Stage.Sorts (compare : Comparator) (xs ys : List Item) : Prop :=
  ∀ {σ : Type} (s : Store σ) (idField : Option Text) (chain : List Stage) (p p' : Progress chain)
    (w w' : σ), drain s idField chain p w = (.ok xs, p', w') →
      drain s idField (.sort compare :: chain) (none, p) w = (.ok ys, (some [], p'), w')

theorem sorts_of_sort {compare : Comparator} {xs ys : List Item}
    (h : SortOrder.sort Item.document compare xs = .ok ys) : Stage.Sorts compare xs ys := by
  intro σ s idField chain p p' w w' hdrain
  rw [drain_sort, hdrain]
  simp only [h]
  rfl

/-- Documents from JSON texts that have no not-a-number in the fields of a sort order are sorted by
it: none is greater than a later one, and the order in which they came only makes a difference among
equal ones. -/
theorem sort_in_order {given : Value} {keys : List SortOrder.Key}
    (hkeys : SortOrder.keys given = .ok keys) {idField : Option Text} {xs : List Item}
    (hjson : ∀ x ∈ xs, x.IsFromJson idField)
    (hranked : ∀ x ∈ xs, SortOrder.Ranked keys x.document) :
    ∃ compare ys, SortOrder.compile (.value given) = .ok compare ∧ Stage.Sorts compare xs ys ∧
      ys.Perm xs ∧ ys.Pairwise (fun x y => ∃ n ≤ 0, compare x.document y.document = .ok n) ∧
      ∀ xs', xs'.Perm xs → ∃ ys', Stage.Sorts compare xs' ys' ∧
        List.Forall₂ (fun x y => compare x.document y.document = .ok 0) ys ys' := by
  have hcompare : ∀ x ∈ xs, ∀ y ∈ xs, SortOrder.compareBy keys x.document y.document =
      .ok (SortOrder.sign (Item.ordering keys x y)) := fun x hx y hy =>
    compare_json (hranked x hx) (hranked y hy) (hjson x hx).isJson (hjson y hy).isJson
  have hsorts : ∀ zs, zs.Perm xs →
      Stage.Sorts (SortOrder.compareBy keys) zs (Item.inOrder keys zs) := fun zs hzs =>
    sorts_of_sort (sort_json (fun x hx => hranked x (hzs.mem_iff.mp hx))
      fun x hx => (hjson x (hzs.mem_iff.mp hx)).isJson)
  refine ⟨_, Item.inOrder keys xs, SortOrder.compile_keys hkeys, hsorts xs (.refl xs), perm_inOrder,
    ?_, fun xs' hxs' => ⟨Item.inOrder keys xs', hsorts xs' hxs', ?_⟩⟩
  · refine (Order.pairwise_mergeSort_precedes xs).imp_of_mem fun {x y} hx hy hxy => ?_
    refine ⟨_, ?_, hcompare x (perm_inOrder.mem_iff.mp hx) y (perm_inOrder.mem_iff.mp hy)⟩
    unfold Order.precedes at hxy
    revert hxy
    cases Item.ordering keys x y <;> simp [SortOrder.sign]
  · have hperm : (Item.inOrder keys xs).Perm (Item.inOrder keys xs') :=
      (perm_inOrder.trans hxs'.symm).trans perm_inOrder.symm
    have htied : List.Forall₂ (fun x y => Item.ordering keys x y = .eq) _ _ :=
      Order.forall₂_tied hperm (Order.pairwise_mergeSort_precedes xs)
        (Order.pairwise_mergeSort_precedes xs')
    refine Order.forall₂_imp_of_mem htied fun x hx y hy hxy => ?_
    rw [hcompare x (perm_inOrder.mem_iff.mp hx) y
      (hxs'.mem_iff.mp (perm_inOrder.mem_iff.mp hy)), hxy]
    rfl

/-! ## Documents sorted by a number -/

namespace Cursor

def byN : Given Comparator := .value (.object [(.text "n".toText, .int 1)])

/-- The lamps in the order of their numbers. -/
theorem sort_in_order_lamps : ∃ compare ys,
    SortOrder.compile byN = .ok compare ∧
    drain Memory.store none [.sort compare] (none, none) lamps = (.ok ys, (some [], some []), lamps) ∧
    ys.map Item.id = ["a".toText, "c".toText, "b".toText] ∧
    ys.Pairwise fun x y => ∃ n ≤ 0, compare x.document y.document = .ok n := by
  let keys : List SortOrder.Key := [⟨"n".toText, false⟩]
  let items : List Item := storedItems none (lamps.map Prod.fst) lamp
  have hjson : ∀ x ∈ items, x.IsFromJson none := by
    intro x hx
    obtain ⟨id, hid, rfl⟩ := List.mem_map.mp hx
    obtain rfl | rfl | rfl : id = "a".toText ∨ id = "b".toText ∨ id = "c".toText := by
      simpa [lamps] using hid
    · exact ⟨Memory.storeName, _, _, (Prod.mk.inj (read_lamp _ hid)).1, rfl⟩
    · exact ⟨Memory.storeName, _, _, (Prod.mk.inj (read_lamp _ hid)).1, rfl⟩
    · exact ⟨Memory.storeName, _, _, (Prod.mk.inj (read_lamp _ hid)).1, rfl⟩
  have hnumber : ∀ x ∈ items, ((x.document.field (.text "n".toText)).toOption.getD .null).hasNaN =
      false := by
    decide
  have hranked : ∀ x ∈ items, SortOrder.Ranked keys x.document := by
    intro x hx k hk v hv
    obtain rfl := List.mem_singleton.mp hk
    have hn := hnumber x hx
    rwa [hv] at hn
  obtain ⟨compare, ys, hcompile, hsorts, -, hsorted, -⟩ :=
    sort_in_order (rfl : SortOrder.keys (.object [(.text "n".toText, .int 1)]) = .ok keys) hjson
      hranked
  have hbare : drain Memory.store none [] none lamps = (.ok items, some [], lamps) := by cbv
  have hdrain := hsorts Memory.store none [] none (some []) lamps lamps hbare
  have hids : (drain Memory.store none [.sort (SortOrder.compareBy keys)] (none, none) lamps).1.map
      (List.map Item.id) = .ok ["a".toText, "c".toText, "b".toText] := by
    cbv
  refine ⟨compare, ys, hcompile, hdrain, ?_, hsorted⟩
  obtain rfl : SortOrder.compareBy keys = compare := Except.ok.inj hcompile
  rw [hdrain] at hids
  exact Except.ok.inj hids

/-- Three documents, and the number in the middle one is none. -/
def readings : Memory :=
  [("a".toText, "\x7b\"n\": 3\x7d".toText), ("b".toText, "\x7b\"n\": NaN\x7d".toText),
    ("c".toText, "\x7b\"n\": 1\x7d".toText)]

/-- Not-a-number is greater than every number, and every number is greater than it, so the first
document stays before the last one although it is greater. -/
theorem sort_around_nan :
    (toList ((make Memory.store .nothing .nothing none).sort byN, readings)).1 =
      .ok [.object [(.text "n".toText, .int 3)], .object [(.text "n".toText, .float .nan)],
        .object [(.text "n".toText, .int 1)]] ∧
    SortOrder.compareBy [⟨"n".toText, false⟩] (.object [(.text "n".toText, .int 3)])
      (.object [(.text "n".toText, .int 1)]) = .ok 1 := by
  constructor
  · cbv
  · cbv

end Cursor

end Cabinet
