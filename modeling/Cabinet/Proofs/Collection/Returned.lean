import Cabinet.Proofs.Collection.Legible
import Cabinet.Proofs.Cursor.SuccessiveSorts
import Cabinet.Proofs.Query.Naming

/-!
# What a modification gives and what is stored

An update by a value makes an object of the first match, which is written and given back. The object is
read again with texts for names, so it is another one where a name is no text.

* `IsPlain.read_isJson`, `IsPlain.writable_of_encode` : what is read in memories and folders of JSON files,
  and what is written there;
* `found_held` : what the query of a change finds is held by the store;
* `changed_textNamed` : what an update that keeps names makes of such a document;
* `findAndModify_returned` : when what is given back is what is read right afterwards;
* `returned_not_stored` : a field that is renamed to a number takes the place of another when it is read.
-/

namespace Cabinet

variable {σ : Type}

open Cabinet.Action
open Json (IsJson Writable TextNamed)

section Plain
variable {s : Store σ} (hs : IsPlain s)
include hs

theorem IsPlain.read_isJson {id : Text} {w : σ} {d : Document} (h : (s.read id w).1 = .ok d) :
    IsJson (.object d) := by
  cases hs with
  | memory => exact Memory.read_isJson h
  | json folder =>
    obtain ⟨file, -, h⟩ := ok_of_bind h
    obtain ⟨kept, -, hkept⟩ := ok_of_bind h
    exact Json.decodeJson_isJson hkept

theorem IsPlain.writable_of_encode {v : Value} {t : Text} (h : s.encode v = .ok t) : Writable v := by
  cases hs with
  | memory => exact (Json.write_ok (ok_of_mapError h)).1
  | json folder => exact (Json.write_ok (ok_of_mapError h)).1

end Plain

/-- An item is of a document that is listed and read. -/
def Store.Holds (s : Store σ) (w : σ) (x : Item) : Prop :=
  ∃ ids d, (s.index w).1 = .ok ids ∧ x.id ∈ ids ∧ (s.read x.id w).1 = .ok d ∧ x.document = .object d

namespace Collection

/-- The store holds the items that a query gives, and nothing has changed. -/
theorem found_held {s : Store σ} (hs : Persists s) {query : Cursor σ} (hquery : query.Untouched s)
    {w w' : σ} {items : List Item} (h : runQuery query Cursor.items w = (.ok items, w')) :
    w' = w ∧ ∀ x ∈ items, s.Holds w x := by
  have hindex : Ensures (· = w) s.index fun ids =>
      ∀ id ∈ ids, ∃ ids, (s.index w).1 = .ok ids ∧ id ∈ ids := by
    rintro _ rfl
    exact ⟨hs.index_same _, fun ids hids id hid => ⟨ids, hids, hid⟩⟩
  have hread : ∀ id, (∃ ids, (s.index w).1 = .ok ids ∧ id ∈ ids) →
      Ensures (· = w) (s.read id) fun d => s.Holds w ⟨id, .object d⟩ := by
    rintro id ⟨ids, hids, hid⟩ _ rfl
    exact ⟨hs.read_same id _, fun d hd => ⟨ids, d, hids, hid, hd, rfl⟩⟩
  obtain ⟨hsame, hitems⟩ := ensures_runQuery hindex hread hquery w rfl
  rw [h] at hsame hitems
  exact ⟨hsame, hitems items rfl⟩

theorem changed_textNamed {given v : Value} {change : Option Transform}
    (hupdate : Update.compile (.value given) = .ok change) (hgiven : Update.KeepsNames given)
    {d : Document} (hd : TextNamed (.object d)) (h : changed change (.object d) = .ok v) :
    TextNamed v := by
  unfold Update.compile at hupdate
  split at hupdate
  · next hfunction => cases hfunction
  · obtain rfl := Except.ok.inj hupdate
    exact Except.ok.inj h ▸ hd
  · obtain rfl := Except.ok.inj hupdate
    exact Except.ok.inj h ▸ hd
  · next update _ heq =>
    obtain rfl := Given.value.inj heq
    obtain ⟨steps, hsteps, hchange⟩ := ok_of_bind hupdate
    obtain rfl := Except.ok.inj hchange
    obtain ⟨d', hd', rfl⟩ := Update.mutate_object h
    refine Update.applySteps_textNamed (fun step hstep a ha => ?_) hd hd'
    exact hgiven update rfl step.1 step.2 (Update.argumentsOf?_of_mem_steps hsteps hstep) a ha
  · cases hupdate

/-- A call that gives something back has modified a match that the store held. -/
theorem findAndModify_held {c : Collection σ} (hs : Persists c.store) {condition : Given Predicate}
    {order : Given Comparator} {update : Given Transform} {options : Value} {remove new : Bool}
    (hremove : option options "remove" false = .ok remove)
    (hnew : option options "new" true = .ok new) {w w' : σ} {v : Value}
    (h : c.findAndModify condition order update options w = (.ok (some v), w')) :
    ∃ change x rest, (remove = false → Update.compile update = .ok change) ∧
      runQuery (firstQuery c.store condition order) Cursor.items w = (.ok (x :: rest), w) ∧
      c.store.Holds w x ∧ modify c.store remove new change x w = (.ok v, w') := by
  obtain ⟨e, hrefused⟩ | ⟨remove', new', change, hremove', hnew', hupdate, hruns⟩ :=
    findAndModify_runs c condition order update options
  · cases (hrefused w).symm.trans h
  obtain rfl := Except.ok.inj (hremove.symm.trans hremove')
  obtain rfl := Except.ok.inj (hnew.symm.trans hnew')
  rw [hruns, bind_apply] at h
  rcases hquery : runQuery (firstQuery c.store condition order) Cursor.items w with ⟨e | items, w₁⟩
  · rw [hquery] at h
    cases h
  obtain ⟨rfl, hheld⟩ := found_held hs (untouched_firstQuery c.store condition order) hquery
  rw [hquery] at h
  cases items with
  | nil => cases h
  | cons x rest =>
    simp only [bind_apply] at h
    rcases hmodify : modify c.store remove new change x w₁ with ⟨e | v', w₂⟩
    · rw [hmodify] at h
      cases h
    · rw [hmodify] at h
      obtain ⟨hv, rfl⟩ := Prod.mk.inj h
      obtain rfl := Option.some.inj (Except.ok.inj hv)
      exact ⟨change, x, rest, hupdate, rfl, hheld x List.mem_cons_self, hmodify⟩

/-- A call that updates the first match by a value and gives it back gives an object, and right after it
that object is read under the identifier of the match, as JSON text holds it. It is read as it was given
if and only if, to any depth, its fields have distinct texts as names; and these they have if no
operator of the update names a field by anything but a text. -/
theorem findAndModify_returned {c : Collection σ} (hc : IsPlain c.store) {condition : Given Predicate}
    {order : Given Comparator} {given options : Value}
    (hremove : option options "remove" false = .ok false)
    (hnew : option options "new" true = .ok true) {w w' : σ} {v : Value}
    (h : c.findAndModify condition order (.value given) options w = (.ok (some v), w')) :
    ∃ x rest d, runQuery (firstQuery c.store condition order) Cursor.items w = (.ok (x :: rest), w) ∧
      v = .object d ∧
      (c.store.read x.id w').1 = .ok (Document.ofPairs (Json.asReadFields d)) ∧
      ((c.store.read x.id w').1 = .ok d ↔ TextNamed (.object d)) ∧
      (Update.KeepsNames given → (c.store.read x.id w').1 = .ok d) := by
  obtain ⟨change, x, rest, hupdate, hquery, hheld, hmodify⟩ :=
    findAndModify_held hc.persists hremove hnew h
  obtain ⟨ids, before, hindex, -, hbefore, hdocument⟩ := hheld
  obtain ⟨v, hchanged, hwrite, rfl⟩ := modify_false hmodify
  rw [hdocument] at hchanged
  obtain ⟨d, rfl⟩ := changed_object (hupdate rfl) hchanged
  obtain ⟨e, he, -⟩ | ⟨-, hwritten⟩ := hc.write_cases hindex hwrite
  · cases he
  obtain ⟨t, ht, hstored⟩ := hwritten.document
  have hread : (c.store.read x.id w').1 = .ok (Document.ofPairs (Json.asReadFields d)) :=
    hstored.trans (hc.decode_encoded ht)
  have hsame : (c.store.read x.id w').1 = .ok d ↔ TextNamed (.object d) := by
    rw [hread, ← Json.asRead_eq_iff (hc.writable_of_encode ht), Json.asRead, Value.object.injEq,
      Except.ok.injEq]
  refine ⟨x, rest, d, hquery, rfl, hread, hsame, fun hgiven => hsame.mpr ?_⟩
  exact changed_textNamed (hupdate rfl) hgiven (hc.read_isJson hbefore).textNamed hchanged

/-! ## Fields that are renamed -/

/-- Renames a field and adds an item to another one. -/
def refitted : Value :=
  .object [(.text "$rename".toText, .object [(.text "n".toText, .text "level".toText)]),
    (.text "$push".toText, .object [(.text "rooms".toText, .text "hall".toText)])]

theorem findAndModify_returned_lamps :
    ∃ m, lampMemory.findAndModify Cursor.isOn largest (.value refitted) .null Cursor.lamps =
        (.ok (some (.object [(.text "on".toText, .bool true), (.text "level".toText, .int 2),
          (.text "rooms".toText, .list [.text "hall".toText])])), m) ∧
      (lampMemory.store.read "c".toText m).1 =
        .ok [(.text "on".toText, .bool true), (.text "level".toText, .int 2),
          (.text "rooms".toText, .list [.text "hall".toText])] := by
  have hrun : (lampMemory.findAndModify Cursor.isOn largest (.value refitted) .null Cursor.lamps).1 =
      .ok (some (.object [(.text "on".toText, .bool true), (.text "level".toText, .int 2),
        (.text "rooms".toText, .list [.text "hall".toText])])) := by cbv
  have hfirst : runQuery (firstQuery lampMemory.store Cursor.isOn largest) Cursor.items Cursor.lamps =
      (.ok [⟨"c".toText, .object (Cursor.lamp "c".toText)⟩], Cursor.lamps) := by cbv
  have hjson : IsJson refitted := Json.parse_isJson
    (t := "\x7b\"$rename\": \x7b\"n\": \"level\"\x7d, \"$push\": \x7b\"rooms\": \"hall\"\x7d\x7d".toText)
    (by cbv)
  have hkeeps : Update.KeepsNames refitted := by
    refine Update.keepsNames_of_isJson hjson ?_
    rintro update hupdate arguments harguments a ha
    obtain rfl := Value.object.inj hupdate
    obtain rfl : [(.text "n".toText, .text "level".toText)] = arguments := Option.some.inj harguments
    obtain rfl := List.mem_singleton.mp ha
    rintro newKey hnewKey
    exact ⟨_, (Value.scalar.inj hnewKey).symm⟩
  obtain ⟨x, rest, d, hquery, hd, -, -, hread⟩ := findAndModify_returned (c := lampMemory) .memory
    (rfl : option .null "remove" false = .ok false) rfl (Prod.ext hrun rfl)
  obtain ⟨rfl, -⟩ := List.cons.inj (Except.ok.inj (Prod.mk.inj (hfirst.symm.trans hquery)).1)
  obtain rfl := Value.object.inj hd
  exact ⟨_, Prod.ext hrun rfl, hread hkeeps⟩

/-- A field is renamed to a number that is the text of another field's name: both are given back, and of
the two one is read. -/
theorem returned_not_stored :
    let stored : Memory := [("a".toText, "\x7b\"x\": 1, \"5\": 2\x7d".toText)]
    let renamed : Value := .object [(.text "$rename".toText, .object [(.text "x".toText, .int 5)])]
    let returned : Document := [(.text "5".toText, .int 2), (.int 5, .int 1)]
    (lampMemory.findAndModify .nothing .nothing (.value renamed) .null stored).1 =
      .ok (some (.object returned)) ∧
    (lampMemory.store.read "a".toText
      (lampMemory.findAndModify .nothing .nothing (.value renamed) .null stored).2).1 =
        .ok [(.text "5".toText, .int 1)] ∧
    Value.same (.object returned) (.object [(.text "5".toText, .int 1)]) = false := by
  refine ⟨?_, ?_, ?_⟩
  all_goals cbv

end Collection

end Cabinet
