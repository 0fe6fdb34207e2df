import Cabinet.Proofs.Cursor.SuccessiveSorts
import Cabinet.Proofs.Query.Preorder

/-!
# What can be sorted

Sorting compares documents by values of their fields, so it fails only where comparing values does. That
is where an object is compared whose names have no order in common, which JSON text cannot have and YAML
text can.

* `SortOrder.sort_orderly` : documents that hold orderly values can be sorted by any keys;
* `Cursor.toList_sort_orderly` : so can a store, if every document in it is such a one;
* `comparison_succeeds_iff` : which values can be compared, and that orderly ones can, in a sort, too;
* `comparison_of_mixed_names` : a document with a field that cannot be compared with itself.
-/

namespace Cabinet

variable {σ : Type}

/-! ## Sorting documents -/

namespace SortOrder

theorem sort_orderly (keys : List Key) {xs : List Item}
    (hxs : ∀ x ∈ xs, ∃ d : Document, x.document = .object d ∧ d.Orderly) :
    ∃ ys, sort Item.document (compareBy keys) xs = .ok ys ∧ ys.Perm xs := by
  obtain ⟨ys, hys⟩ : ∃ ys, sort Item.document (compareBy keys) xs = .ok ys := by
    refine Order.sort_ok_of_mem fun x hx y hy => ?_
    obtain ⟨d, hd, hdorderly⟩ := hxs x hx
    obtain ⟨e, he, heorderly⟩ := hxs y hy
    obtain ⟨n, hn⟩ := compareBy_ok hdorderly heorderly keys
    exact ⟨n < 0, by rw [hd, he, hn]; rfl⟩
  exact ⟨ys, hys, Order.sort_perm hys⟩

end SortOrder

theorem Document.Orderly.embed {d : Document} (h : d.Orderly) (idField : Option Text) (id : Text) :
    (Stage.embed idField id d).Orderly := by
  unfold Stage.embed
  split
  · exact h
  · exact h
  · intro f hf
    rcases Document.mem_set hf with heq | ⟨g, hg, heq⟩
    · exact heq ▸ .scalar _
    · exact heq ▸ h g hg

namespace Cursor

/-- A store all of whose documents can be read gives all of them. -/
theorem drain_stored {s : Store σ} {I : σ → Prop} {log : σ → List Value} {ids : List Text}
    {doc : Text → Document} (hs : Steady s I log ids doc) (idField : Option Text) {w : σ} (hw : I w) :
    (drain s idField (conditionStages .nothing Condition.always) (Progress.rewound _) w).1 =
      .ok (storedItems idField ids doc) := by
  have hsound : Progress.Sound (.still I log (log w)) idField ids doc [] none w := ⟨hw, rfl⟩
  have hfits : Fits idField ids doc never [] := trivial
  obtain ⟨p, w', hdrain, -⟩ := drain_steady hs (log w) hfits hsound
  exact congrArg Prod.fst hdrain

/-- A store all of whose documents can be read and hold orderly values can be sorted by every sort order that
is accepted. -/
theorem toList_sort_orderly {s : Store σ} {I : σ → Prop} {log : σ → List Value} {ids : List Text}
    {doc : Text → Document} (hs : Steady s I log ids doc) (hdocs : ∀ id ∈ ids, (doc id).Orderly)
    (idField : Option Text) {given : Value} {compare : Comparator}
    (hgiven : SortOrder.compile (.value given) = .ok compare) {w : σ} (hw : I w) :
    ∃ sorted, (toList ((make s .nothing .nothing idField).sort (.value given), w)).1 = .ok sorted ∧
      sorted.Perm (ids.map fun id => .object (Stage.embed idField id (doc id))) := by
  obtain ⟨keys, rfl⟩ := SortOrder.compile_value hgiven
  have hitems : ∀ x ∈ storedItems idField ids doc, ∃ d : Document, x.document = .object d ∧ d.Orderly := by
    intro x hx
    obtain ⟨id, hid, rfl⟩ := List.mem_map.mp hx
    exact ⟨_, rfl, (hdocs id hid).embed idField id⟩
  obtain ⟨ys, hys, hperm⟩ := SortOrder.sort_orderly keys hitems
  refine ⟨ys.map Item.document, ?_, (hperm.map Item.document).trans (.of_eq List.map_map)⟩
  rw [toList_found_sort rfl hgiven, drain_stored hs idField hw]
  exact congrArg (Except.map (List.map Item.document)) hys

end Cursor

/-! ## Comparing in general -/

namespace Value

theorem comparator_ok_iff {a b : Value} :
    (∃ n, comparator a b = .ok n ∧ (n = -1 ∨ n = 0 ∨ n = 1)) ↔ ∃ o, compare a b = .ok o := by
  rw [comparator]
  constructor
  · rintro ⟨n, hn, -⟩
    obtain ⟨o, ho, -⟩ := ok_of_map hn
    exact ⟨o, ho⟩
  · rintro ⟨o, ho⟩
    rw [ho]
    exact ⟨SortOrder.sign o, rfl, by cases o <;> decide⟩

end Value

/-- Comparing two values gives -1, 0 or 1 exactly if the objects that it comes to are orderly: the names of
each have literals, and an order in common, and so have those of all objects in it. So it does on orderly
values, which all values from JSON text are. A store all of whose documents can be read and hold such values
can be sorted by every sort order that is accepted. -/
theorem comparison_succeeds_iff (a b : Value) :
    ((∃ n, Value.comparator a b = .ok n ∧ (n = -1 ∨ n = 0 ∨ n = 1)) ↔
      ∀ d e, Value.Meets a b d e → Json.Orderly (.object d) ∧ Json.Orderly (.object e)) ∧
    (Json.Orderly a → Json.Orderly b → ∃ n, Value.comparator a b = .ok n ∧ (n = -1 ∨ n = 0 ∨ n = 1)) ∧
    (∀ {name kept : Text} {d : Document}, Store.decodeJson name kept = .ok d → d.Orderly) ∧
    ∀ {σ : Type} {s : Store σ} {I : σ → Prop} {log : σ → List Value} {ids : List Text}
      {doc : Text → Document}, Steady s I log ids doc → (∀ id ∈ ids, (doc id).Orderly) →
      ∀ (idField : Option Text) {given : Value} {compare : Comparator},
      SortOrder.compile (.value given) = .ok compare → ∀ {w : σ}, I w →
      ∃ sorted, (Cursor.toList ((Cursor.make s .nothing .nothing idField).sort (.value given), w)).1 =
        .ok sorted ∧ sorted.Perm (ids.map fun id => .object (Stage.embed idField id (doc id))) := by
  refine ⟨?_, fun ha hb => ?_, fun hd => ?_, fun hs hdocs idField _ _ hgiven _ hw => ?_⟩
  · rw [Value.comparator_ok_iff, Value.compare_ok_iff]
  · exact Value.comparator_ok_iff.mpr (Value.compare_ok ha hb)
  · exact SortOrder.orderly_of_isJson (Json.decodeJson_isJson hd)
  · exact Cursor.toList_sort_orderly hs hdocs idField hgiven hw

/-! ## Mappings with names of one kind, and of two -/

namespace Cursor

/-- A mapping that numbers and a truth value name, and one that texts name, with null naming a day in it. -/
def meadow : Disk :=
  [("p.yaml".toText, .file ("b: \x7b2: 0, true: 1, .inf: []\x7d".toText.toUtf8.toOption.getD [])),
    ("q.yaml".toText, .file ("b: \x7by: 0, x: \x7b~: 2020-01-02\x7d\x7d".toText.toUtf8.toOption.getD []))]

def grown (id : Text) : Document :=
  if id = "p".toText then [(.text "b".toText,
    .object [(.int 2, .int 0), (.bool true, .int 1), (.float (.infinity false), .list [])])]
  else [(.text "b".toText, .object [(.text "y".toText, .int 0),
    (.text "x".toText, .object [(.null, .scalar (.date ⟨2020, 1, 2⟩))])])]

theorem steady_meadow : Steady (Folder.store .yaml ⟨[]⟩) (fun d => d = meadow) (fun _ => [])
    ["p".toText, "q".toText] grown where
  index d hd := by
    subst hd
    refine ⟨meadow, Prod.ext ?_ rfl, rfl, rfl⟩
    cbv
  read id hid d hd := by
    subst hd
    refine ⟨meadow, Prod.ext ?_ rfl, rfl, rfl⟩
    show Folder.read .yaml ⟨[]⟩ id meadow = .ok (grown id)
    rcases List.mem_cons.mp hid with rfl | hid
    · decide +kernel
    · obtain rfl := List.mem_singleton.mp hid
      decide +kernel

theorem orderly_grown (id : Text) : (grown id).Orderly := by
  have hscalar : ∀ s : Scalar, Json.Orderly (.scalar s) := .scalar
  unfold grown
  split
  · refine List.forall_mem_singleton.mpr (.object ⟨?_, .inr (.inl ?_)⟩ ?_)
    · simp [Json.HasLiteral]
    · simp [Scalar.number?]
    · simp [hscalar, Json.Orderly.list]
  · refine List.forall_mem_singleton.mpr (.object ⟨?_, .inl ?_⟩ ?_)
    · simp [Json.HasLiteral]
    · simp
    · have hday : Json.Orderly (.object [(.null, .scalar (.date ⟨2020, 1, 2⟩))]) :=
        .object ⟨by simp [Json.HasLiteral], .inr (.inr le_rfl)⟩ (by simp [hscalar])
      simp [hscalar, hday]

end Cursor

open Cursor

/-- The meadow is sorted by its mappings, and so could be what JSON text is read as. -/
theorem comparison_succeeds_iff_meadow :
    (∃ n, Value.comparator (.object (grown "p".toText)) (.object (grown "q".toText)) = .ok n ∧
      (n = -1 ∨ n = 0 ∨ n = 1)) ∧
    (∃ d, Store.decodeJson "r".toText "\x7b\"b\": \x7b\x7d\x7d".toText = .ok d ∧ d.Orderly) ∧
    ∃ sorted, (toList ((make (Folder.store .yaml ⟨[]⟩) .nothing .nothing none).sort
        (.value (.object [(.text "b".toText, .int (-1))])), meadow)).1 = .ok sorted ∧
      sorted.Perm [.object (grown "p".toText), .object (grown "q".toText)] := by
  have hgrown : ∀ id, Json.Orderly (.object (grown id)) := by
    intro id
    refine .object ?_ (orderly_grown id)
    unfold grown
    split <;> exact ⟨by simp [Json.HasLiteral], .inr (.inr le_rfl)⟩
  obtain ⟨-, hvalues, htexts, hstores⟩ := comparison_succeeds_iff (.object (grown "p".toText))
    (.object (grown "q".toText))
  have hcompile : SortOrder.compile (.value (.object [(.text "b".toText, .int (-1))])) =
      .ok (SortOrder.compareBy [⟨"b".toText, true⟩]) := by cbv
  have hread : Store.decodeJson "r".toText "\x7b\"b\": \x7b\x7d\x7d".toText =
      .ok [(.text "b".toText, .object [])] := by cbv
  exact ⟨hvalues (hgrown _) (hgrown _), ⟨_, hread, htexts hread⟩,
    hstores steady_meadow (fun id _ => orderly_grown id) none hcompile rfl⟩

/-- In the yard stands a document whose mapping a number and a text name. It can be read, but the mapping can
be compared with no mapping, not even with itself, so the yard cannot be sorted by it. -/
theorem comparison_of_mixed_names :
    Folder.read .yaml ⟨[]⟩ "p".toText yard = .ok (planted "p".toText) ∧
    Folder.read .yaml ⟨[]⟩ "q".toText yard = .ok (planted "q".toText) ∧
    Value.comparator ((planted "p".toText).getD (.text "b".toText))
      ((planted "p".toText).getD (.text "b".toText)) =
        .error (.unwritable (.unordered (.text "x".toText) (.int 1))) ∧
    (toList ((make (Folder.store .yaml ⟨[]⟩) .nothing .nothing none).sort
        (.value (.object [(.text "b".toText, .int 1)])), yard)).1 =
      .error (.unwritable (.unordered (.text "x".toText) (.int 1))) := by
  refine ⟨by decide +kernel, by decide +kernel, by cbv, ?_⟩
  have hcompile : SortOrder.compile (.value (.object [(.text "b".toText, .int 1)])) =
      .ok (SortOrder.compareBy [⟨"b".toText, false⟩]) := by cbv
  rw [toList_found_sort rfl hcompile, drain_stored steady_yard none rfl]
  cbv

end Cabinet
