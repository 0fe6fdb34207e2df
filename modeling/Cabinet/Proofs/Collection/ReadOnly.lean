import Cabinet.Proofs.Collection.Session
import Cabinet.Proofs.Store.Refusing

/-!
# A collection that cannot be changed

Behind a wrapper that refuses to write and to erase a store is safe from everything that a collection and
its cursors do.

* `Store.Shows` : what is seen of a store's state does not change when the store is asked for something;
* `Store.deny_upholds` : behind the wrapper it does not change at all;
* `Request.Spares` : the functions that come with a request change nothing that is seen either;
* `Reaches` : the requests that come as far as writing or erasing;
* `refused_of_reaches` : each of them fails by the wrapper's refusal;
* `read_only` : so a session leaves what is seen of the store as it is, and says so where it was to be
  changed.
-/

namespace Cabinet

variable {σ τ α : Type}

open Cabinet.Action

namespace Store

/-! ## The wrapper -/

section
variable {s : Store σ} {denied : List Operation}

theorem deny_write (h : .write ∈ denied) (id : Text) (v : Value) (w : σ) :
    (s.deny denied).write id v w = (.error (.denied .write), w) := by
  simp only [deny, unlessDenied_of_mem h, ofExcept_apply]

theorem deny_erase (h : .erase ∈ denied) (id : Text) (w : σ) :
    (s.deny denied).erase id w = (.error (.denied .erase), w) := by
  simp only [deny, unlessDenied_of_mem h, ofExcept_apply]

theorem ensures_unlessDenied {states : σ → Prop} {op : Operation} {a : Action σ α}
    (ha : Ensures states a fun _ => True) :
    Ensures states (unlessDenied denied op a) fun _ => True := by
  unfold unlessDenied
  split
  · exact ensures_ofExcept fun _ _ => trivial
  · exact ha

/-- What is seen of the state of a store stays the same when the store is asked for something. -/
structure Shows (s : Store σ) (view : σ → τ) : Prop where
  index : ∀ w, view (s.index w).2 = view w
  read : ∀ id w, view (s.read id w).2 = view w
  exist : ∀ id w, view (s.exist id w).2 = view w

/-- Neither writing nor erasing gets through to the store. -/
theorem deny_upholds (hwrite : .write ∈ denied) (herase : .erase ∈ denied) {view : σ → τ}
    (hs : s.Shows view) (seen : τ) :
    (s.deny denied).Upholds (fun w => view w = seen) fun _ => True where
  index := ensures_unlessDenied (ensures_of_state fun w hw => (hs.index w).trans hw)
  read id := ensures_unlessDenied (ensures_of_state fun w hw => (hs.read id w).trans hw)
  exist id := ensures_unlessDenied (ensures_of_state fun w hw => (hs.exist id w).trans hw)
  write id v _ := ensures_of_state fun w hw => by rwa [deny_write hwrite]
  erase id := ensures_of_state fun w hw => by rwa [deny_erase herase]

end

end Store

namespace Collection

/-! ## Requests that come to a change -/

/-- What the results of a cursor are handed to, and what else happens to the store, changes nothing that
is seen of its state. -/
def Request.Spares (view : σ → τ) (q : Request σ) : Prop :=
  ∀ seen, q.Fits (fun w => view w = seen) fun _ => True

/-- In a state of the store a request comes as far as writing or erasing: a document is inserted that has
an identifier or is given one, and a query gives a first match, for which the update does not fail. -/
inductive Reaches (c : Collection σ) (w : σ) : Request σ → Operation → Prop where
  | write (id : Text) (document : Value) : Reaches c w (.write id document) .write
  | erase (id : Text) : Reaches c w (.erase id) .erase
  | insert {document field : Value} (hfield : document.field (.text c.idField) = .ok field)
    (hid : field = .null → ∃ id, (c.freshId w).1 = .ok id) : Reaches c w (.insert document) .write
  | save {document field : Value} (hfield : document.field (.text c.idField) = .ok field)
    (hid : field ≠ .null) : Reaches c w (.save document) .write
  | update {condition : Given Predicate} {update : Given Transform} {options : Value} {multi : Bool}
    {change : Option Transform} {x : Item} {rest : List Item} {w' : σ} {v : Value}
    (hupdate : Update.compile update = .ok change) (hmulti : option options "multi" true = .ok multi)
    (hquery : runQuery (matchQuery c.store condition multi) Cursor.items w = (.ok (x :: rest), w'))
    (hchanged : changed change x.document = .ok v) : Reaches c w (.update condition update options) .write
  | modify {condition : Given Predicate} {order : Given Comparator} {update : Given Transform}
    {options : Value} {change : Option Transform} {x : Item} {rest : List Item} {w' : σ} {v : Value}
    (hremove : option options "remove" false = .ok false) (hupdate : Update.compile update = .ok change)
    (hquery : runQuery (firstQuery c.store condition order) Cursor.items w = (.ok (x :: rest), w'))
    (hchanged : changed change x.document = .ok v) :
    Reaches c w (.findAndModify condition order update options) .write
  | modifyErase {condition : Given Predicate} {order : Given Comparator} {update : Given Transform}
    {options : Value} {x : Item} {rest : List Item} {w' : σ}
    (hremove : option options "remove" false = .ok true)
    (hquery : runQuery (firstQuery c.store condition order) Cursor.items w = (.ok (x :: rest), w')) :
    Reaches c w (.findAndModify condition order update options) .erase
  | remove {condition : Given Predicate} {options : Value} {multi : Bool} {x : Item} {rest : List Item}
    {w' : σ} (hmulti : eraseMulti options = .ok multi)
    (hquery : runQuery (matchQuery c.store condition multi) Cursor.items w = (.ok (x :: rest), w')) :
    Reaches c w (.remove condition options) .erase

theorem onState_apply (a : Action σ α) (f : α → Reply) (x : Session σ) :
    (onState (f <$> a) x).1 = (a x.2).1.map f :=
  congrArg Prod.fst (map_apply f a x.2)

section Refusals
variable {c : Collection σ} {s : Store σ} {denied : List Operation} {e : Failure}

/-- A bulk change fails with what is done with the first match. -/
theorem bulk_failed {condition : Given Predicate} {multi : Bool} {act : Item → Action σ Unit} {x : Item}
    {rest : List Item} {w w' : σ}
    (hquery : runQuery (matchQuery s condition multi) Cursor.items w = (.ok (x :: rest), w'))
    (hact : act x w' = (.error e, w')) : (bulk s condition (.ok multi) act w).1 = .error e := by
  simp only [bulk, bind_apply, ofExcept_apply, hquery, actAll, hact]

theorem insert_failed {document field : Value}
    (hwrite : ∀ id w, c.store.write id document w = (.error e, w))
    (hfield : document.field (.text c.idField) = .ok field) {w : σ}
    (hid : field = .null → ∃ id, (c.freshId w).1 = .ok id) : (c.insert document w).1 = .error e := by
  have hrest : ∀ id w, (do c.store.write id document; return id : Action σ Text) w = (.error e, w) := by
    intro id w
    simp only [bind_apply, hwrite]
  rw [insert, bind_apply, ofExcept_apply, hfield]
  simp only
  split
  · obtain ⟨id, hid⟩ := hid rfl
    rw [bind_apply]
    generalize c.freshId w = r at hid ⊢
    obtain ⟨r, w'⟩ := r
    obtain rfl : r = .ok id := hid
    exact congrArg Prod.fst (hrest id w')
  · exact congrArg Prod.fst (hrest _ w)

theorem findAndModify_failed {condition : Given Predicate} {order : Given Comparator}
    {update : Given Transform} {change : Option Transform} {options : Value} {remove : Bool}
    (hremove : option options "remove" false = .ok remove)
    (hupdate : remove = false → Update.compile update = .ok change) {x : Item} {rest : List Item}
    {w w' : σ}
    (hquery : runQuery (firstQuery c.store condition order) Cursor.items w = (.ok (x :: rest), w'))
    (hmodify : ∀ new, modify c.store remove new change x w' = (.error e, w')) :
    (c.findAndModify condition order update options w).1 = .error e := by
  obtain ⟨new, hnew⟩ := option_ok hremove "new" true
  simp only [findAndModify_eq c condition order hremove hnew hupdate, bind_apply, hquery, hmodify new]

/-- A request that comes as far as writing or erasing fails by the refusal of that. -/
theorem refused_of_reaches (hstore : c.store = s.deny denied) (hwrite : .write ∈ denied)
    (herase : .erase ∈ denied) {x : Session σ} {q : Request σ} {op : Operation}
    (h : c.Reaches x.2 q op) : (q.run c x).1 = .error (.denied op) := by
  have hnowrite : ∀ id v w, c.store.write id v w = (.error (.denied .write), w) := by
    rw [hstore]
    exact Store.deny_write hwrite
  have hnoerase : ∀ id w, c.store.erase id w = (.error (.denied .erase), w) := by
    rw [hstore]
    exact Store.deny_erase herase
  have hfails : ∀ {β : Type} {a : Action σ β} {f : β → Reply}, (a x.2).1 = .error (.denied op) →
      (onState (f <$> a) x).1 = .error (.denied op) := by
    intro β a f ha
    rw [onState_apply, ha]
    rfl
  cases h with
  | write id document => exact hfails (congrArg Prod.fst (hnowrite id document x.2))
  | erase id => exact hfails (congrArg Prod.fst (hnoerase id x.2))
  | insert hfield hid => exact hfails (insert_failed (fun id w => hnowrite id _ w) hfield hid)
  | @save document field hfield hid =>
    have hinsert : c.save document x.2 = c.insert document x.2 := by
      simp only [save, bind_apply, ofExcept_apply, hfield, if_neg hid]
    refine hfails ?_
    rw [hinsert]
    exact insert_failed (fun id w => hnowrite id _ w) hfield fun h => absurd h hid
  | update hupdate hmulti hquery hchanged =>
    refine hfails ?_
    rw [update_eq c _ hupdate, hmulti]
    refine bulk_failed hquery ?_
    simp only [writeChanged, bind_apply, ofExcept_apply, hchanged, hnowrite]
  | modify hremove hupdate hquery hchanged =>
    refine hfails (findAndModify_failed hremove (fun _ => hupdate) hquery fun new => ?_)
    simp only [Collection.modify, Bool.false_eq_true, if_false, bind_apply, ofExcept_apply, hchanged,
      hnowrite]
  | @modifyErase condition order update options y rest w' hremove hquery =>
    have hupdate : true = false → Update.compile update = .ok none := fun h => absurd h (by decide)
    refine hfails (findAndModify_failed hremove hupdate hquery fun new => ?_)
    simp only [Collection.modify, if_true, bind_apply, hnoerase]
  | remove hmulti hquery =>
    refine hfails ?_
    rw [remove_eq, hmulti]
    exact bulk_failed hquery (hnoerase _ _)

end Refusals

/-! ## Sessions -/

/-- Over a store behind a wrapper that refuses to write and to erase, a session changes nothing that is
seen of the store's state, whatever the collection and the cursors are asked for and whichever of it
fails. A request that comes as far as writing or erasing fails by the refusal, in every state. -/
theorem read_only {c : Collection σ} {s : Store σ} {denied : List Operation}
    (hstore : c.store = s.deny denied) (hwrite : .write ∈ denied) (herase : .erase ∈ denied)
    {view : σ → τ} (hs : s.Shows view) (hfresh : ∀ w, view (c.freshId w).2 = view w) :
    (∀ requests : List (Request σ), (∀ q ∈ requests, q.Spares view) →
      ∀ w, view (c.serve requests ([], w)).2.2 = view w) ∧
    ∀ (x : Session σ) (q : Request σ) (op : Operation), c.Reaches x.2 q op →
      (q.run c x).1 = .error (.denied op) := by
  refine ⟨fun requests hrequests w => ?_, fun x q op h => refused_of_reaches hstore hwrite herase h⟩
  have hupholds : c.store.Upholds (fun w' => view w' = view w) fun _ => True := by
    rw [hstore]
    exact Store.deny_upholds hwrite herase hs (view w)
  have hnew : Ensures (fun w' => view w' = view w) c.freshId fun _ => True :=
    ensures_of_state fun w' hw' => (hfresh w').trans hw'
  exact (serve_states hupholds (fun _ => trivial) hnew (fun q hq => hrequests q hq (view w))
    ⟨fun _ h => absurd h List.not_mem_nil, rfl⟩).2

/-! ## Lamps behind glass -/

/-- Lamps that can be looked at but neither written nor erased. -/
def glazed : Collection Memory :=
  ⟨Memory.store.deny [.write, .erase], "id".toText, fun m => (.ok "new".toText, m)⟩

/-- The lamps that are on are looked for, handed over and switched, and all lamps are taken away. -/
def attempts : List (Request Memory) :=
  [.find Cursor.isOn .nothing none, .ask 0 (.call (.each Cursor.refuse)), .insert (.object []),
    .update Cursor.isOn addOne .null, .remove .nothing .null]

theorem read_only_lamps :
    (glazed.serve attempts ([], Cursor.lamps)).2.2 = Cursor.lamps ∧
    (Request.run glazed (.update Cursor.isOn addOne .null) ([], Cursor.lamps)).1 =
      .error (.denied .write) ∧
    (Request.run glazed (.findAndModify .nothing largest addOne (optionOn "remove" true))
      ([], Cursor.lamps)).1 = .error (.denied .erase) := by
  have hshows : Memory.store.Shows id := ⟨fun _ => rfl, Memory.persists.read_same, fun _ _ => rfl⟩
  obtain ⟨hsame, hrefused⟩ := read_only (c := glazed) rfl (by decide) (by decide) hshows fun _ => rfl
  have hspares : ∀ q ∈ attempts, q.Spares id := by
    intro q hq seen
    simp only [attempts, List.mem_cons, List.not_mem_nil, or_false] at hq
    obtain rfl | rfl | rfl | rfl | rfl := hq
    · trivial
    · exact fun _ => ensures_throw _
    · trivial
    · exact fun _ h => nomatch h
    · trivial
  have hfound : runQuery (matchQuery glazed.store Cursor.isOn true) Cursor.items Cursor.lamps =
      (.ok [⟨"a".toText, .object (Cursor.lamp "a".toText)⟩,
        ⟨"c".toText, .object (Cursor.lamp "c".toText)⟩], Cursor.lamps) := by cbv
  have hfirst : runQuery (firstQuery glazed.store .nothing largest) Cursor.items Cursor.lamps =
      (.ok [⟨"b".toText, .object (Cursor.lamp "b".toText)⟩], Cursor.lamps) := by cbv
  refine ⟨hsame attempts hspares _, hrefused ([], Cursor.lamps) _ _ ?_,
    hrefused ([], Cursor.lamps) _ _ ?_⟩
  · exact .update (rfl : Update.compile addOne = .ok (some addedOne)) rfl hfound
      (rfl : addedOne (.object (Cursor.lamp "a".toText)) =
        .ok (.object [(.text "n".toText, .int 2), (.text "on".toText, .bool true)]))
  · exact .modifyErase rfl hfirst

end Collection

end Cabinet
