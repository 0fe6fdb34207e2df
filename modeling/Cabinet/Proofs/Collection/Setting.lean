import Cabinet.Proofs.Collection.Changed

/-!
# What was set can be found

A value equals what is read back of it, so a query for it finds all documents that it was set in.

* `Collection.setTo`, `Collection.asks` : giving a field a value, and asking a field for one;
* `Condition.meets_own` : a document has the values of its own fields;
* `set_found` : after a field was set in all matches of a condition, a query for the value finds these,
  what it found before, and nothing else; and a document that was just written is found by its own fields;
* `nan_not_found` : not-a-number is not found where it was set.
-/

namespace Cabinet

variable {σ : Type}

open Json (IsJson TextNamed)

/-! ## Conditions -/

/-- A document has the values of its own fields. -/
theorem Condition.meets_own {d : Document} (hd : TextNamed (.object d))
    (hnan : (Value.object d).NoNaN) : ∀ {asked : List (Scalar × Value)}, (∀ f ∈ asked, f ∈ d) →
    meets asked (.object d) = .ok true
  | [], _ => rfl
  | (key, x) :: asked, h => by
    obtain ⟨hf, hasked⟩ := List.forall_mem_cons.mp h
    have hfield : Value.field (.object d) key = .ok x := by
      rw [Value.field, Document.getD, Document.get?_of_mem hd.named hf]
      rfl
    have hsame : x.same x = true := Value.same_self (hd.values _ hf) (hnan.of_mem_object hf)
    rw [meets_cons, hfield]
    simp only [bind, Except.bind, hsame, if_true]
    exact meets_own hd hnan hasked

theorem Condition.accepted_meets_one (f : Text) (x : Value) (d : Document) :
    accepted (meets [(.text f, x)]) (.object d) = (d.getD (.text f)).same x := by
  rw [accepted, meets_eq_all, List.all_cons, List.all_nil, Bool.and_true]
  rfl

namespace Collection

/-- Gives a field a value. -/
def setTo (f : Text) (x : Value) : Given Transform := .value (Update.single .set f x)

/-- Asks a field for a value. -/
def asks (f : Text) (x : Value) : Given Predicate := .value (.object [(.text f, x)])

/-- All documents of a memory or a folder of JSON files can be read. Where setting a field in the
documents that a condition finds succeeds, a query for the value finds from then on what it found before
and what the condition found, and nothing else, if the value is one that JSON text holds and
not-a-number is nowhere in it. Right after a document was written in which not-a-number is nowhere, every
query for some of its own fields finds it. -/
theorem set_found {c : Collection σ} (hc : IsPlain c.store) {w : σ} {ids : List Text}
    {doc : Text → Document} (hw : c.store.Displays w ids doc) :
    (∀ condition f x n w', IsJson x → x.NoNaN →
      c.update condition (setTo f x) .null w = (.ok n, w') →
      ∃ before found after, c.foundIds (asks f x) w = (.ok before, w) ∧
        c.foundIds condition w = (.ok found, w) ∧ c.foundIds (asks f x) w' = (.ok after, w') ∧
        ∀ id, id ∈ after ↔ id ∈ before ∨ id ∈ found) ∧
    ∀ id d w', TextNamed (.object d) → (Value.object d).NoNaN →
      c.store.write id (.object d) w = (.ok (), w') →
      ∀ asked : List (Scalar × Value), (∀ f ∈ asked, f ∈ d) →
        ∃ items, runQuery (c.find (.value (.object asked)) .nothing none) Cursor.items w' =
          (.ok items, w') ∧ ⟨id, .object d⟩ ∈ items := by
  have hs := hc.persists
  constructor
  · intro condition f x n w' hx hnan hrun
    obtain ⟨accepts, doc', -, hfound, -, hw', hchanged, hothers⟩ := update_displays hc hw
      (Update.compile_single .set f x) (Update.keepsNames_single ⟨⟨f, rfl⟩, hx.textNamed⟩) hrun
    refine ⟨_, _, _, foundIds_asked hs hw _, hfound, foundIds_asked hs hw' _, fun id => ?_⟩
    by_cases hchosen : id ∈ chosen accepts ids doc
    · have hdoc : doc' id = (doc id).set (.text f) x :=
        (Value.object.inj (Except.ok.inj ((Update.changed_single ..).symm.trans
          (hchanged id hchosen)))).symm
      have hsame : ((doc' id).getD (.text f)).same x = true := by
        rw [hdoc, Document.getD, Document.get?_set, if_pos rfl]
        exact Value.same_self hx.textNamed hnan
      have hafter : id ∈ chosen (Condition.meets [(.text f, x)]) ids doc' := by
        refine List.mem_filter.mpr ⟨mem_of_chosen hchosen, ?_⟩
        rw [Condition.accepted_meets_one, hsame]
      exact iff_of_true hafter (.inr hchosen)
    · have hsame : id ∈ ids → doc' id = doc id := fun hid => hw.same hw' hid (hothers id hchosen)
      rw [or_iff_left hchosen, chosen, chosen, List.mem_filter, List.mem_filter]
      exact and_congr_right fun hid => by rw [hsame hid]
  · intro id d w' hd hnan hwrite asked hasked
    obtain ⟨e, he, -⟩ | ⟨-, hwritten⟩ := hc.write_cases hw.index hwrite
    · cases he
    obtain ⟨ids', doc', hw', hid, rfl⟩ := hw.written hc hd hwritten
    refine ⟨_, items_asked hs hw' asked, mem_matching.mpr ⟨List.mem_filter.mpr ⟨hid, ?_⟩, rfl⟩⟩
    rw [accepted, Condition.meets_own hd hnan hasked]
    rfl

/-! ## Lamps that are switched off -/

theorem displays_lamps : Memory.store.Displays Cursor.lamps (Cursor.lamps.map Prod.fst) Cursor.lamp where
  index := rfl
  read id hid := congrArg Prod.fst (Cursor.read_lamp id hid)

theorem set_found_lamps :
    (∃ m after, lampMemory.update Cursor.isOn (setTo "on".toText (.bool false)) .null Cursor.lamps =
        (.ok 2, m) ∧ lampMemory.foundIds (asks "on".toText (.bool false)) m = (.ok after, m) ∧
      ∀ id, id ∈ after ↔ id = "b".toText ∨ id = "a".toText ∨ id = "c".toText) ∧
    ∃ m items, Memory.store.write "b".toText (.object (Cursor.lamp "a".toText)) Cursor.lamps =
        (.ok (), m) ∧
      runQuery (lampMemory.find (.value (.object [(.text "n".toText, .int 1)])) .nothing none)
        Cursor.items m = (.ok items, m) ∧ ⟨"b".toText, .object (Cursor.lamp "a".toText)⟩ ∈ items := by
  obtain ⟨hset, hwrite⟩ := set_found (c := lampMemory) .memory displays_lamps
  have hcount : (lampMemory.update Cursor.isOn (setTo "on".toText (.bool false)) .null
      Cursor.lamps).1 = .ok 2 := by cbv
  have hbefore : (lampMemory.foundIds (asks "on".toText (.bool false)) Cursor.lamps).1 =
      .ok ["b".toText] := by cbv
  have hfound : (lampMemory.foundIds Cursor.isOn Cursor.lamps).1 = .ok ["a".toText, "c".toText] := by
    cbv
  obtain ⟨before, found, after, hb, hf, ha, hids⟩ := hset Cursor.isOn "on".toText (.bool false) 2 _
    (.scalar trivial) (by simp [Value.NoNaN, Value.scalars]) (Prod.ext hcount rfl)
  obtain rfl := Except.ok.inj (hbefore.symm.trans (congrArg Prod.fst hb))
  obtain rfl := Except.ok.inj (hfound.symm.trans (congrArg Prod.fst hf))
  have hlamp : IsJson (.object (Cursor.lamp "a".toText)) :=
    Memory.read_isJson (congrArg Prod.fst (Cursor.read_lamp "a".toText (by decide)))
  obtain ⟨items, hitems, hmem⟩ := hwrite "b".toText (Cursor.lamp "a".toText) _ hlamp.textNamed
    (by simp [Value.NoNaN, Value.scalars, Value.scalarsOfFields, Cursor.lamp]) rfl
    [(.text "n".toText, .int 1)] (by decide)
  exact ⟨⟨_, after, Prod.ext hcount rfl, ha, by simpa using hids⟩, _, items, rfl, hitems, hmem⟩

/-- Nothing equals not-a-number, so a query for it finds nothing, not even where it was set. -/
theorem nan_not_found {c : Collection σ} (hs : Persists c.store) {w : σ} {ids : List Text}
    {doc : Text → Document} (hw : c.store.Displays w ids doc) (f : Text) :
    c.foundIds (asks f (.float .nan)) w = (.ok [], w) := by
  have hnone : chosen (Condition.meets [(.text f, .float .nan)]) ids doc = [] := by
    refine List.filter_eq_nil_iff.mpr fun id _ => ?_
    rw [Condition.accepted_meets_one, Value.same_nan]
    exact Bool.false_ne_true
  rw [asks, foundIds_asked hs hw, hnone]

end Collection

end Cabinet
