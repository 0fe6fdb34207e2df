import Cabinet.Proofs.Collection.Changed

/-!
# No increment is lost

Incrementing a field of the same documents again and again adds the amounts up. What the field held first
counts as a number; from then on it is an integer of any size, which text holds exactly.

* `Collection.incrementBy` : adding an integer to a field;
* `Collection.LeavesOpen` : conditions that do not ask for a field, and so do not see it change;
* `Document.AddedUp` : one field holds a sum, and nothing else is different; `AddedUp.trans` : one sum
  after another;
* `increment_found` : what one update leaves;
* `increments_add_up` : what any number of them leave.
-/

namespace Cabinet

variable {σ : Type}

/-! ## One document -/

/-- A field was given a value; if what it held counts as an integer, the value is that integer with a total
added. -/
def Document.AddedUp (f : Text) (total : Int) (d d' : Document) : Prop :=
  ∃ x, d' = d.set (.text f) x ∧
    ∀ v, Update.toNumber (d.getD (.text f)) = .int v → x = .int (v + total)

theorem Document.AddedUp.trans {f : Text} {a b : Int} {d d₁ d' : Document} (h : AddedUp f a d d₁)
    (h' : AddedUp f b d₁ d') : AddedUp f (a + b) d d' := by
  obtain ⟨x, rfl, hx⟩ := h
  obtain ⟨y, rfl, hy⟩ := h'
  refine ⟨y, set_set d f x y, fun v hv => ?_⟩
  have hheld : (d.set (.text f) x).getD (.text f) = .int (v + a) := by
    rw [getD, get?_set, if_pos rfl, hx v hv]
    rfl
  rw [hy (v + a) (by rw [hheld]; rfl), Int.add_assoc]

theorem Update.increment_addedUp {f : Text} {a : Int} {d d' : Document}
    (h : increment d (.text f) (.int a) = .ok d') : d.AddedUp f a d' := by
  obtain ⟨sum, hsum, hset⟩ := ok_of_bind h
  obtain rfl := Except.ok.inj hset
  refine ⟨.ofNumber sum, rfl, fun v hv => ?_⟩
  rw [hv] at hsum
  obtain rfl : .int (v + a) = sum := Except.ok.inj (ok_of_mapError hsum)
  rfl

namespace Collection

/-! ## Conditions that do not see a field -/

/-- The condition asks for nothing, or for the values of other fields. -/
def LeavesOpen (f : Text) (condition : Given Predicate) : Prop :=
  condition = .nothing ∨
    ∃ asked, condition = .value (.object asked) ∧ ∀ g ∈ asked, g.1 ≠ .text f

theorem meets_set {f : Text} (d : Document) (x : Value) : ∀ {asked : List (Scalar × Value)},
    (∀ g ∈ asked, g.1 ≠ .text f) →
    Condition.meets asked (.object (d.set (.text f) x)) = Condition.meets asked (.object d)
  | [], _ => rfl
  | (key, y) :: asked, h => by
    obtain ⟨hkey, hasked⟩ := List.forall_mem_cons.mp h
    have hfield : Value.field (.object (d.set (.text f) x)) key = Value.field (.object d) key := by
      simp only [Value.field, Document.getD, Document.get?_set_of_ne hkey]
    rw [Condition.meets_cons, Condition.meets_cons, hfield, meets_set d x hasked]

section Open
variable {c : Collection σ} {f : Text} {condition : Given Predicate} {accepts : Predicate} {w : σ}
  {ids : List Text} {doc doc' : Text → Document}

theorem LeavesOpen.accepted_set (h : LeavesOpen f condition)
    (hcondition : Condition.compile condition = .ok accepts) (d : Document) (x : Value) :
    accepted accepts (.object (d.set (.text f) x)) = accepted accepts (.object d) := by
  obtain rfl | ⟨asked, rfl, hasked⟩ := h
  · obtain rfl : Condition.always = accepts := Except.ok.inj hcondition
    rfl
  · obtain rfl : Condition.meets asked = accepts := Except.ok.inj hcondition
    rw [accepted, accepted, meets_set d x hasked]

/-- Where only the field is different, the same documents are chosen. -/
theorem LeavesOpen.chosen_eq (h : LeavesOpen f condition)
    (hcondition : Condition.compile condition = .ok accepts)
    (hset : ∀ id ∈ ids, doc' id = doc id ∨ ∃ x, doc' id = (doc id).set (.text f) x) :
    chosen accepts ids doc' = chosen accepts ids doc := by
  refine List.filter_congr fun id hid => ?_
  obtain heq | ⟨x, heq⟩ := hset id hid
  · rw [heq]
  · rw [heq, h.accepted_set hcondition]

/-- Such a condition can be asked of every document. -/
theorem LeavesOpen.foundIds_eq (h : LeavesOpen f condition)
    (hcondition : Condition.compile condition = .ok accepts) (hs : Persists c.store)
    (hw : c.store.Displays w ids doc) :
    c.foundIds condition w = (.ok (chosen accepts ids doc), w) := by
  obtain hquery | ⟨-, id, -, e, he⟩ := runQuery_found hs hcondition hw.index hw.read true
  · exact foundIds_of_items hquery
  · have hfunction := Condition.compile_fails hcondition he
    obtain rfl | ⟨asked, rfl, -⟩ := h
    · cases hfunction
    · cases hfunction

end Open

/-! ## Increments -/

/-- Adds an integer to a field. -/
def incrementBy (f : Text) (a : Int) : Given Transform := .value (Update.single .inc f (.int a))

/-- Between two states, a total was added to a field of the documents that a condition finds: the same
in both. All other documents are as they were, and the identifiers, too. -/
structure Totalled (c : Collection σ) (condition : Given Predicate) (f : Text) (total : Int)
    (found ids : List Text) (doc : Text → Document) (w w' : σ) (doc' : Text → Document) : Prop where
  before : c.foundIds condition w = (.ok found, w)
  after : c.foundIds condition w' = (.ok found, w')
  displayed : c.store.Displays w' ids doc'
  sums : ∀ id ∈ found, id ∈ ids ∧ (doc id).AddedUp f total (doc' id)
  others : ∀ id, id ∉ found → (c.store.read id w').1 = (c.store.read id w).1

section Runs
variable {c : Collection σ} {condition : Given Predicate} {f : Text} {w w₁ w' : σ} {ids : List Text}
  {doc doc₁ doc' : Text → Document}

theorem Totalled.trans {a b : Int} {found : List Text}
    (h : Totalled c condition f a found ids doc w w₁ doc₁)
    (h' : Totalled c condition f b found ids doc₁ w₁ w' doc') :
    Totalled c condition f (a + b) found ids doc w w' doc' where
  before := h.before
  after := h'.after
  displayed := h'.displayed
  sums id hid := ⟨(h.sums id hid).1, (h.sums id hid).2.trans (h'.sums id hid).2⟩
  others id hid := (h'.others id hid).trans (h.others id hid)

/-- One increment adds its amount. -/
theorem increment_found (hc : IsPlain c.store) (hw : c.store.Displays w ids doc)
    (hopen : LeavesOpen f condition) {a : Int} {n : Nat}
    (hrun : c.update condition (incrementBy f a) .null w = (.ok n, w')) :
    ∃ found doc', n = found.length ∧ Totalled c condition f a found ids doc w w' doc' := by
  obtain ⟨accepts, doc', hcondition, hfound, hn, hw', hchanged, hothers⟩ := update_displays hc hw
    (Update.compile_single .inc f (.int a)) (Update.keepsNames_single ⟨f, rfl⟩) hrun
  have hsums : ∀ id ∈ chosen accepts ids doc, (doc id).AddedUp f a (doc' id) := by
    intro id hid
    have hmade := (Update.changed_single ..).symm.trans (hchanged id hid)
    obtain ⟨d, hd, heq⟩ := ok_of_map hmade
    exact Update.increment_addedUp (Value.object.inj heq ▸ hd)
  have hagain : chosen accepts ids doc' = chosen accepts ids doc := by
    refine hopen.chosen_eq hcondition fun id hid => ?_
    by_cases hchosen : id ∈ chosen accepts ids doc
    · obtain ⟨x, hx, -⟩ := hsums id hchosen
      exact .inr ⟨x, hx⟩
    · exact .inl (hw.same hw' hid (hothers id hchosen))
  refine ⟨chosen accepts ids doc, doc', hn, hfound, ?_, hw', fun id hid => ?_, hothers⟩
  · rw [hopen.foundIds_eq hcondition hc.persists hw', hagain]
  · exact ⟨mem_of_chosen hid, hsums id hid⟩

/-- Increments of one field, one after another and at least one of them, over documents of a memory or a
folder of JSON files that can all be read. The condition finds some of them and does not ask for the
field. Where all calls succeed, each counts the documents found, and the field of each of these holds the
integer that it counted as at first with all amounts added, if it counted as one; it is the only thing
that has changed. -/
theorem increments_add_up (hc : IsPlain c.store) (hw : c.store.Displays w ids doc)
    (hopen : LeavesOpen f condition) {amounts : List Int} (hsome : amounts ≠ []) {counts : List Nat}
    (hrun : amounts.mapM (fun a => c.update condition (incrementBy f a) .null) w =
      (.ok counts, w')) :
    ∃ found doc', counts = List.replicate amounts.length found.length ∧
      Totalled c condition f amounts.sum found ids doc w w' doc' := by
  induction amounts generalizing w doc counts with
  | nil => exact absurd rfl hsome
  | cons a amounts ih =>
    rw [List.mapM_cons, Action.bind_apply] at hrun
    generalize hfirst : c.update condition (incrementBy f a) .null w = r at hrun
    rcases r with ⟨_ | n, w₁⟩
    · cases hrun
    obtain ⟨found, doc₁, rfl, htotal⟩ := increment_found hc hw hopen hfirst
    simp only [Action.bind_apply] at hrun
    cases amounts with
    | nil =>
      cases hrun
      exact ⟨found, doc₁, rfl, by rwa [List.sum_singleton]⟩
    | cons b amounts =>
      generalize hrest : (b :: amounts).mapM
        (fun a => c.update condition (incrementBy f a) .null) w₁ = r at hrun
      rcases r with ⟨_ | rest, w₂⟩
      · cases hrun
      cases hrun
      obtain ⟨found', doc', rfl, hothers⟩ := ih htotal.displayed (List.cons_ne_nil b amounts) hrest
      obtain rfl : found = found' :=
        Except.ok.inj (congrArg Prod.fst (htotal.after.symm.trans hothers.before))
      exact ⟨found, doc', rfl, by rw [List.sum_cons]; exact htotal.trans hothers⟩

end Runs

/-! ## A numeral and a field that is missing -/

/-- A document whose field is a text that starts with a numeral, and one without the field. -/
def shelves : Memory :=
  [("a".toText, "\x7b\"n\": \"12 lamps\"\x7d".toText), ("b".toText, "\x7b\"on\": true\x7d".toText)]

def shelf (id : Text) : Document :=
  if id = "a".toText then [(.text "n".toText, .text "12 lamps".toText)]
  else [(.text "on".toText, .bool true)]

theorem displays_shelves : Memory.store.Displays shelves ["a".toText, "b".toText] shelf where
  index := rfl
  read id hid := by
    obtain rfl | rfl : id = "a".toText ∨ id = "b".toText := by simpa using hid
    all_goals cbv

theorem increments_add_up_shelves :
    ∃ m, [10 ^ 20, -1].mapM (fun a => lampMemory.update .nothing (incrementBy "n".toText a) .null)
        shelves = (.ok [2, 2], m) ∧
      (Memory.store.read "a".toText m).1 = .ok [(.text "n".toText, .int (10 ^ 20 + 11))] ∧
      (Memory.store.read "b".toText m).1 =
        .ok [(.text "on".toText, .bool true), (.text "n".toText, .int (10 ^ 20 - 1))] := by
  have hcounts : ([10 ^ 20, -1].mapM (fun a => lampMemory.update .nothing
      (incrementBy "n".toText a) .null) shelves).1 = .ok [2, 2] := by cbv
  have hfound : (lampMemory.foundIds .nothing shelves).1 = .ok ["a".toText, "b".toText] := by cbv
  obtain ⟨found, doc', -, htotal⟩ := increments_add_up (c := lampMemory) .memory displays_shelves
    (.inl rfl : LeavesOpen "n".toText .nothing) (List.cons_ne_nil _ _) (Prod.ext hcounts rfl)
  obtain rfl := Except.ok.inj (hfound.symm.trans (congrArg Prod.fst htotal.before))
  obtain ⟨-, x, ha, hx⟩ := htotal.sums "a".toText (by decide)
  obtain ⟨-, y, hb, hy⟩ := htotal.sums "b".toText (by decide)
  obtain rfl := hx 12 (by cbv)
  obtain rfl := hy 0 (by cbv)
  refine ⟨_, Prod.ext hcounts rfl, ?_, ?_⟩
  · exact (htotal.displayed.read "a".toText (by decide)).trans (by rw [ha]; rfl)
  · exact (htotal.displayed.read "b".toText (by decide)).trans (by rw [hb]; rfl)

end Collection

end Cabinet
