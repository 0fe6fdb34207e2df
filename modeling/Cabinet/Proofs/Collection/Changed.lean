import Cabinet.Proofs.Collection.Removal
import Cabinet.Proofs.Collection.Returned
import Cabinet.Proofs.Value.Same

/-!
# Documents before and after an update

Where all documents of a memory or a folder of JSON files can be read, an update by a value makes a new
document of each that is chosen, and all documents can be read again.

* `Store.Displays` : a state in which documents are read under some identifiers;
* `Collection.foundIds`, `Collection.chosen` : the identifiers that a query finds, in such a state;
* `IsPlain.decode_named` : documents whose names are texts are read back as they were;
* `update_acts`, `acts_displays` : what an update finds and does, and what changing all matches leaves;
* `update_displays` : the documents after an update that keeps names;
* `Update.single` : the update by one operator on one field.
-/

namespace Cabinet

variable {σ : Type} {s : Store σ} {w w' : σ} {ids : List Text} {doc : Text → Document}

open Json (TextNamed)

/-- The identifiers and the documents that are read under them. -/
structure Store.Displays (s : Store σ) (w : σ) (ids : List Text) (doc : Text → Document) : Prop where
  index : (s.index w).1 = .ok ids
  read : ∀ id ∈ ids, (s.read id w).1 = .ok (doc id)

/-- What is read as before is the same document. -/
theorem Store.Displays.same {doc' : Text → Document} (hw : s.Displays w ids doc)
    (hw' : s.Displays w' ids doc') {id : Text} (hid : id ∈ ids)
    (h : (s.read id w').1 = (s.read id w).1) : doc' id = doc id :=
  Except.ok.inj ((hw'.read id hid).symm.trans (h.trans (hw.read id hid)))

/-- A document whose names are texts is read back as it was. -/
theorem IsPlain.decode_named (hs : IsPlain s) {d : Document} (hd : TextNamed (.object d)) {t : Text}
    (ht : s.encode (.object d) = .ok t) : s.decode t = .ok d := by
  have hsame : .object (Document.ofPairs (Json.asReadFields d)) = Value.object d :=
    Json.asRead_eq (hd.isJson (hs.writable_of_encode ht))
  rw [hs.decode_encoded ht, Store.readBack, Value.object.inj hsame]

/-- After a document was written, it is read besides those that were. -/
theorem Store.Displays.written (hw : s.Displays w ids doc) (hs : IsPlain s) {id : Text} {d : Document}
    (hd : TextNamed (.object d)) (h : s.WrittenAt id (.object d) w w') :
    ∃ ids' doc', s.Displays w' ids' doc' ∧ id ∈ ids' ∧ doc' id = d := by
  obtain ⟨ids', hindex, hids, -⟩ := h.index ids hw.index
  refine ⟨ids', fun i => if i = id then d else doc i, ⟨hindex, fun i hi => ?_⟩,
    (hids id).mpr (.inl rfl), if_pos rfl⟩
  by_cases heq : i = id
  · obtain ⟨t, ht, hread⟩ := h.document
    rw [heq, if_pos rfl, hread]
    exact hs.decode_named hd ht
  · rw [h.others i heq, if_neg heq]
    exact hw.read i (((hids i).mp hi).resolve_left heq)

namespace Collection

variable {c : Collection σ} {condition : Given Predicate} {accepts : Predicate}

/-- The identifiers of the documents that a query finds. -/
def foundIds (c : Collection σ) (condition : Given Predicate) : Action σ (List Text) := do
  return (← runQuery (c.find condition .nothing none) Cursor.items).map Item.id

/-- The identifiers whose documents are accepted. -/
def chosen (accepts : Predicate) (ids : List Text) (doc : Text → Document) : List Text :=
  ids.filter fun id => accepted accepts (.object (doc id))

theorem map_id_matching (accepts : Predicate) (ids : List Text) (doc : Text → Document) :
    (matching accepts true ids doc).map Item.id = chosen accepts ids doc := by
  simp only [matching, if_true, storedItems, List.filter_map, List.map_map]
  exact List.map_id _

theorem mem_matching {x : Item} : x ∈ matching accepts true ids doc ↔
    x.id ∈ chosen accepts ids doc ∧ x.document = .object (doc x.id) := by
  simp only [matching, if_true, storedItems, List.mem_filter, List.mem_map, chosen]
  constructor
  · rintro ⟨⟨id, hid, rfl⟩, haccepted⟩
    exact ⟨⟨hid, haccepted⟩, rfl⟩
  · rintro ⟨⟨hid, haccepted⟩, hdocument⟩
    refine ⟨⟨x.id, hid, ?_⟩, hdocument ▸ haccepted⟩
    rw [Stage.embed, ← hdocument]

theorem mem_of_chosen {id : Text} (h : id ∈ chosen accepts ids doc) : id ∈ ids :=
  (List.mem_filter.mp h).1

/-! ## Queries -/

theorem foundIds_of_items (h : runQuery (matchQuery c.store condition true) Cursor.items w =
    (.ok (matching accepts true ids doc), w)) :
    c.foundIds condition w = (.ok (chosen accepts ids doc), w) := by
  have hquery : runQuery (c.find condition .nothing none) Cursor.items w = _ := h
  rw [foundIds, Action.bind_apply, hquery, ← map_id_matching]
  rfl

/-- A condition that asks fields for values can be asked of every document. -/
theorem items_asked (hs : Persists c.store) (hw : c.store.Displays w ids doc)
    (expected : List (Scalar × Value)) :
    runQuery (matchQuery c.store (.value (.object expected)) true) Cursor.items w =
      (.ok (matching (Condition.meets expected) true ids doc), w) := by
  obtain hfound | ⟨-, id, -, e, he⟩ := runQuery_found hs
    (rfl : Condition.compile (.value (.object expected)) = _) hw.index hw.read true
  · exact hfound
  · rw [Condition.meets_eq_all] at he
    cases he

theorem foundIds_asked (hs : Persists c.store) (hw : c.store.Displays w ids doc)
    (expected : List (Scalar × Value)) : c.foundIds (.value (.object expected)) w =
      (.ok (chosen (Condition.meets expected) ids doc), w) :=
  foundIds_of_items (items_asked hs hw expected)

/-! ## Updates -/

/-- An update that succeeds has found its matches and changed one after another. -/
theorem update_acts (hs : Persists c.store) (hw : c.store.Displays w ids doc) {update : Given Transform}
    {change : Option Transform} (hupdate : Update.compile update = .ok change) {n : Nat}
    (hrun : c.update condition update .null w = (.ok n, w')) :
    ∃ accepts, Condition.compile condition = .ok accepts ∧
      c.foundIds condition w = (.ok (chosen accepts ids doc), w) ∧
      n = (chosen accepts ids doc).length ∧
      Acts (writeChanged c.store change) (matching accepts true ids doc) w w' := by
  have hbulk : c.update condition update .null w =
      (runQuery (matchQuery c.store condition true) Cursor.items >>=
        actAll (writeChanged c.store change)) w := by
    rw [update_eq c condition hupdate]
    rfl
  rw [hbulk, Action.bind_apply] at hrun
  cases hcondition : Condition.compile condition with
  | error e =>
    rw [runQuery_refused hcondition] at hrun
    cases hrun
  | ok accepts =>
    obtain hquery | ⟨⟨e, hquery⟩, -⟩ := runQuery_found hs hcondition hw.index hw.read true
    · rw [hquery] at hrun
      obtain ⟨w₁, acts, hall⟩ | ⟨_, _, _, _, w₁, e, -, -, -, hall⟩ := actAll_cases
        (writeChanged c.store change) (matching accepts true ids doc) w
      · obtain ⟨hn, rfl⟩ := Prod.mk.inj (hall.symm.trans hrun)
        refine ⟨accepts, rfl, foundIds_of_items hquery, ?_, acts⟩
        rw [← Except.ok.inj hn, ← map_id_matching, List.length_map]
      · cases hall.symm.trans hrun
    · rw [hquery] at hrun
      cases hrun

/-- What changing all matches leaves, if all that is made of them are documents whose names are
texts. -/
theorem acts_displays (hc : IsPlain s) (hw : s.Displays w ids doc) {change : Option Transform}
    (hnamed : ∀ id ∈ ids, ∀ v, changed change (.object (doc id)) = .ok v →
      ∃ d, v = .object d ∧ TextNamed (.object d))
    (acts : Acts (writeChanged s change) (matching accepts true ids doc) w w') :
    ∃ doc', s.Displays w' ids doc' ∧
      (∀ id ∈ chosen accepts ids doc,
        changed change (.object (doc id)) = .ok (.object (doc' id))) ∧
      ∀ id, id ∉ chosen accepts ids doc → (s.read id w').1 = (s.read id w).1 := by
  obtain ⟨hindex, hleft, hothers⟩ := acts.held_eq (hc.persists.leaves_write change ids)
    (fun x hx => id_mem_of_matching hx) (fun x hx y hy => eq_of_mem_matching hx hy) hw.index
  rw [map_id_matching] at hothers
  have hread : ∀ id ∈ ids, ∃ d, (s.read id w').1 = .ok d ∧ (id ∈ chosen accepts ids doc →
      changed change (.object (doc id)) = .ok (.object d)) := by
    intro id hid
    by_cases hchosen : id ∈ chosen accepts ids doc
    · obtain ⟨v, t, hv, ht, hread⟩ :=
        hleft ⟨id, .object (doc id)⟩ (mem_matching.mpr ⟨hchosen, rfl⟩)
      obtain ⟨d, rfl, hd⟩ := hnamed id hid v hv
      exact ⟨d, hread.trans (hc.decode_named hd ht), fun _ => hv⟩
    · exact ⟨doc id, (hothers id hchosen).trans (hw.read id hid), fun h => absurd h hchosen⟩
  choose! doc' hread hchanged using hread
  exact ⟨doc', ⟨hindex, hread⟩, fun id hid => hchanged id (mem_of_chosen hid) hid, hothers⟩

/-- An update by a value that names all fields by texts, over documents that can all be read. Where it
succeeds, it has counted the documents that were found before; each of them is what the update makes of
it, nothing else has changed, and all documents can be read again. -/
theorem update_displays (hc : IsPlain c.store) (hw : c.store.Displays w ids doc) {given : Value}
    {change : Option Transform} (hupdate : Update.compile (.value given) = .ok change)
    (hgiven : Update.KeepsNames given) {n : Nat}
    (hrun : c.update condition (.value given) .null w = (.ok n, w')) :
    ∃ accepts doc', Condition.compile condition = .ok accepts ∧
      c.foundIds condition w = (.ok (chosen accepts ids doc), w) ∧
      n = (chosen accepts ids doc).length ∧ c.store.Displays w' ids doc' ∧
      (∀ id ∈ chosen accepts ids doc,
        changed change (.object (doc id)) = .ok (.object (doc' id))) ∧
      ∀ id, id ∉ chosen accepts ids doc → (c.store.read id w').1 = (c.store.read id w).1 := by
  obtain ⟨accepts, hcondition, hfound, hn, acts⟩ := update_acts hc.persists hw hupdate hrun
  have hnamed : ∀ id ∈ ids, ∀ v, changed change (.object (doc id)) = .ok v →
      ∃ d, v = .object d ∧ TextNamed (.object d) := by
    intro id hid v hv
    obtain ⟨d, rfl⟩ := changed_object hupdate hv
    exact ⟨d, rfl, changed_textNamed hupdate hgiven (hc.read_isJson (hw.read id hid)).textNamed hv⟩
  obtain ⟨doc', hw', hchanged, hothers⟩ := acts_displays hc hw hnamed acts
  exact ⟨accepts, doc', hcondition, hfound, hn, hw', hchanged, hothers⟩

end Collection

/-! ## Updates of one field -/

namespace Update

variable {op : Operator} {f : Text} {x : Value}

/-- One operator on one field. -/
def single (op : Operator) (f : Text) (x : Value) : Value :=
  .object [(.text op.name.toText, .object [(.text f, x)])]

theorem argumentsOf?_single (op other : Operator) (f : Text) (x : Value) :
    argumentsOf? [(.text op.name.toText, .object [(.text f, x)])] other =
      if other = op then some [(.text f, x)] else none := by
  cases op <;> cases other <;> rfl

theorem compile_single (op : Operator) (f : Text) (x : Value) :
    compile (.value (single op f x)) = .ok (some (mutate [(op, [(.text f, x)])])) := by
  cases op <;> rfl

theorem keepsNames_single (h : op.KeepsNames (.text f, x)) : KeepsNames (single op f x) := by
  rintro update hupdate other arguments harguments a ha
  obtain rfl := Value.object.inj hupdate
  rw [argumentsOf?_single] at harguments
  split at harguments
  · next hop =>
    obtain rfl := Option.some.inj harguments
    rw [hop, List.mem_singleton.mp ha]
    exact h
  · cases harguments

theorem changed_single (op : Operator) (f : Text) (x : Value) (d : Document) :
    Collection.changed (some (mutate [(op, [(.text f, x)])])) (.object d) =
      (op.applyTo d (.text f) x).map .object := by
  simp only [Collection.changed, mutate, applySteps, Operator.apply]
  cases op.applyTo d (.text f) x <;> rfl

end Update

end Cabinet
