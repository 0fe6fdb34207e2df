import Cabinet.Proofs.Collection.Found
import Cabinet.Proofs.Cursor.Upheld
import Cabinet.Proofs.Query.Naming

/-!
# Sessions

In a session a collection is asked for one thing after another, and so are the cursors that it opens.

* `Collection.Request`, `Collection.Reply`, `Collection.serve` : what can be asked for, what it gives, and
  requests one after another, which go on after one that fails;
* `changed_good` : what an update makes of a document, if its functions make what they should;
* `ensures_bulk`, `ensures_insert` .. `ensures_findAndModify` : the calls of a collection lead from some
  states of its store to such states, if the store's own calls do;
* `Request.Fits`, `ensures_request` : so does every request, if what comes with it does;
* `serve_states` : and so does a session, whichever of its requests fail.
-/

namespace Cabinet

variable {σ α : Type}

open Cabinet.Action

namespace Cursor

theorem store_make (s : Store σ) (condition : Given Predicate) (projection : Given Transform)
    (idField : Option Text) : (make s condition projection idField).store = s := by
  have hlatch : ∀ {c : Cursor σ}, c.store = s → ∀ e, (c.latch e).store = s := by
    intro c hc e
    obtain ⟨waiting, hwaiting⟩ := latch_eq c e
    rw [hwaiting]
    exact hc
  let bare : Cursor σ := ⟨s, idField, [], none, none, none, none⟩
  have hcondition : (bare.add condition Condition.compile addCondition).store = s :=
    add_keeps (fun c => c.store = s) rfl (hlatch rfl) fun _ => rfl
  exact add_keeps (fun c => c.store = s) hcondition (hlatch hcondition) fun _ => hcondition

end Cursor

namespace Collection

/-! ## Requests -/

/-- What a collection can be asked for, and what the cursors can that it has opened. -/
inductive Request (σ : Type) where
  | read (id : Text)
  | write (id : Text) (document : Value)
  | erase (id : Text)
  | exist (id : Text)
  | index
  /-- Opens a cursor. -/
  | find (condition : Given Predicate) (projection : Given Transform) (idField : Option Text)
  /-- Asks the cursor that was opened as the one of a number. -/
  | ask (number : Nat) (request : Cursor.Request σ)
  | findOne (condition : Given Predicate) (projection : Given Transform)
  | count (condition : Given Predicate)
  | insert (document : Value)
  | save (document : Value)
  | update (condition : Given Predicate) (update : Given Transform) (options : Value)
  | findAndModify (condition : Given Predicate) (order : Given Comparator) (update : Given Transform)
    (options : Value)
  | remove (condition : Given Predicate) (options : Value)

/-- What a request gives if it does not fail. -/
inductive Reply where
  | done
  | document (d : Document)
  | value (v : Value)
  | found (b : Bool)
  | identifier (id : Text)
  | identifiers (ids : List Text)
  | number (n : Nat)
  | modified (v : Option Value)
  | asked (reply : Cursor.Reply)

/-- The cursors that were opened, and the state of the store. -/
abbrev Session (σ : Type) := List (Cursor σ) × σ

/-- Does something with the store. -/
def onState (a : Action σ α) : Action (Session σ) α :=
  a.focus Prod.snd fun w x => (x.1, w)

/-- Opens a cursor. -/
def opened (query : Cursor σ) : Action (Session σ) Reply := fun (cursors, w) =>
  (.ok .done, cursors ++ [query], w)

/-- Asks a cursor; one that was not opened gives nothing. -/
def asked (number : Nat) (request : Cursor.Request σ) : Action (Session σ) Reply := fun (cursors, w) =>
  match cursors[number]? with
  | none => (.ok .done, cursors, w)
  | some query =>
    let (r, query, w) := request.run (query, w)
    (r.map .asked, cursors.set number query, w)

def Request.run (c : Collection σ) : Request σ → Action (Session σ) Reply
  | .read id => onState (.document <$> c.store.read id)
  | .write id document => onState ((fun _ => .done) <$> c.store.write id document)
  | .erase id => onState ((fun _ => .done) <$> c.store.erase id)
  | .exist id => onState (.found <$> c.store.exist id)
  | .index => onState (.identifiers <$> c.store.index)
  | .find condition projection idField => opened (c.find condition projection idField)
  | .ask number request => asked number request
  | .findOne condition projection => onState (.value <$> c.findOne condition projection)
  | .count condition => onState (.number <$> c.count condition)
  | .insert document => onState (.identifier <$> c.insert document)
  | .save document => onState (.identifier <$> c.save document)
  | .update condition change options => onState (.number <$> c.update condition change options)
  | .findAndModify condition order change options =>
    onState (.modified <$> c.findAndModify condition order change options)
  | .remove condition options => onState (.number <$> c.remove condition options)

/-- The results of requests, one after another, and what they leave behind. -/
def serve (c : Collection σ) : List (Request σ) → Session σ → List (Except Failure Reply) × Session σ
  | [], x => ([], x)
  | q :: qs, x =>
    let (r, x) := q.run c x
    let (rs, x) := serve c qs x
    (r :: rs, x)

/-! ## Updates of documents -/

/-- An update by a value makes an object of a document. -/
theorem changed_object {given v : Value} {change : Option Transform} {d : Document}
    (hupdate : Update.compile (.value given) = .ok change)
    (h : changed change (.object d) = .ok v) : ∃ d', v = .object d' := by
  unfold Update.compile at hupdate
  split at hupdate
  · next hgiven => cases hgiven
  · obtain rfl := Except.ok.inj hupdate
    exact ⟨d, (Except.ok.inj h).symm⟩
  · obtain rfl := Except.ok.inj hupdate
    exact ⟨d, (Except.ok.inj h).symm⟩
  · obtain ⟨steps, -, hchange⟩ := ok_of_bind hupdate
    obtain rfl := Except.ok.inj hchange
    obtain ⟨d', -, hv⟩ := Update.mutate_object h
    exact ⟨d', hv⟩
  · cases hupdate

/-- What an update makes of a document is good if all objects are, and what its function makes. -/
theorem changed_good {good : Value → Prop} (hgood : ∀ d, good (.object d)) {update : Given Transform}
    {change : Option Transform} (hupdate : Update.compile update = .ok change)
    (hfunction : ∀ f, update = .function f → ∀ d v, f (.object d) = .ok v → good v) {d : Document}
    {v : Value} (h : changed change (.object d) = .ok v) : good v := by
  cases update with
  | value given =>
    obtain ⟨d', rfl⟩ := changed_object hupdate h
    exact hgood d'
  | function f =>
    obtain rfl := Except.ok.inj hupdate
    exact hfunction f rfl d v h

/-! ## Changing the first match -/

/-- Options are read all or none. -/
theorem option_ok {options : Value} {name : String} {default b : Bool}
    (h : option options name default = .ok b) (name' : String) (default' : Bool) :
    ∃ b', option options name' default' = .ok b' := by
  unfold option at h ⊢
  split at h
  · next htrue =>
    rw [if_pos htrue]
    cases options with
    | object fs => exact ⟨_, rfl⟩
    | scalar s => cases h
    | list xs => cases h
  · next hfalse => exact ⟨default', if_neg hfalse⟩

/-- A call is refused at once, or it modifies the first match. -/
theorem findAndModify_runs (c : Collection σ) (condition : Given Predicate) (order : Given Comparator)
    (update : Given Transform) (options : Value) :
    (∃ e, ∀ w, c.findAndModify condition order update options w = (.error e, w)) ∨
    ∃ remove new change, option options "remove" false = .ok remove ∧
      option options "new" true = .ok new ∧ (remove = false → Update.compile update = .ok change) ∧
      c.findAndModify condition order update options = do
        match ← runQuery (firstQuery c.store condition order) Cursor.items with
        | [] => return none
        | x :: _ => return some (← modify c.store remove new change x) := by
  cases hremove : option options "remove" false with
  | error e =>
    refine .inl ⟨e, fun w => ?_⟩
    rw [findAndModify, hremove]
    rfl
  | ok remove =>
    obtain ⟨new, hnew⟩ := option_ok hremove "new" true
    have hruns : ∀ change, (remove = false → Update.compile update = .ok change) → _ :=
      fun change hupdate => findAndModify_eq c condition order hremove hnew hupdate
    cases remove with
    | true =>
      have hupdate : true = false → Update.compile update = .ok none := fun h => absurd h (by decide)
      exact .inr ⟨true, new, none, rfl, hnew, hupdate, hruns none hupdate⟩
    | false =>
      cases hupdate : Update.compile update with
      | ok change =>
        exact .inr ⟨false, new, change, rfl, hnew, fun _ => rfl, hruns change fun _ => hupdate⟩
      | error e =>
        refine .inl ⟨.query e, fun w => ?_⟩
        rw [findAndModify, hremove, transform, hupdate]
        rfl

/-! ## Calls -/

section Calls
variable {c : Collection σ} {states : σ → Prop} {good : Value → Prop}

theorem ensures_query {query : Cursor σ} {run : Cursor.Run σ α} (hstore : query.store = c.store)
    (hrun : Ensures (Cursor.Over c.store states) run fun _ => True) :
    Ensures states (runQuery query run) fun _ => True :=
  ensures_of_state fun w hw => (hrun (query, w) ⟨hstore, hw⟩).1.2

theorem ensures_actAll {act : Item → Action σ Unit} : ∀ {items : List Item},
    (∀ x ∈ items, Ensures states (act x) fun _ => True) →
    Ensures states (actAll act items) fun _ => True
  | [], _ => ensures_pure trivial
  | x :: items, h => by
    obtain ⟨hx, hitems⟩ := List.forall_mem_cons.mp h
    exact hx.bind fun _ _ => (ensures_actAll hitems).bind fun _ _ => ensures_pure trivial

section
variable (hs : c.store.Upholds states good)
include hs

theorem upholds_reads : c.store.Reads states fun _ => True where
  index w hw := (hs.index w hw).1
  read id w hw := (hs.read id w hw).1
  document _ _ _ _ _ := trivial

/-- The documents that the query of a change gives are objects. -/
theorem ensures_found {query : Cursor σ} (hquery : query.Untouched c.store) :
    Ensures states (runQuery query Cursor.items) fun items =>
      ∀ x ∈ items, ∃ d, x.document = .object d := by
  have hindex : Ensures states c.store.index fun ids => ∀ id ∈ ids, True :=
    hs.index.mono fun _ _ _ _ => trivial
  exact ensures_runQuery hindex (fun id _ => (hs.read id).mono fun d _ => ⟨d, rfl⟩) hquery

/-- A bulk change leads to states that what is done with each object leads to. -/
theorem ensures_bulk (condition : Given Predicate) (multi : Except Failure Bool)
    {act : Item → Action σ Unit}
    (hact : ∀ x d, x.document = .object d → Ensures states (act x) fun _ => True) :
    Ensures states (bulk c.store condition multi act) fun _ => True := by
  refine Ensures.bind (ensures_ofExcept fun _ _ => trivial) fun multi _ => ?_
  refine (ensures_found hs (untouched_matchQuery c.store condition multi)).bind fun items hitems => ?_
  refine ensures_actAll fun x hx => ?_
  obtain ⟨d, hd⟩ := hitems x hx
  exact hact x d hd

theorem ensures_findOne (condition : Given Predicate) (projection : Given Transform) :
    Ensures states (c.findOne condition projection) fun _ => True := by
  have hstore : ((c.find condition projection none).addLimit 1).store = c.store :=
    Cursor.store_make c.store condition projection none
  refine (ensures_query hstore ((Cursor.lasting_over (upholds_reads hs)).toList)).bind fun docs _ => ?_
  cases docs with
  | nil => exact ensures_throw _
  | cons d rest => exact ensures_pure trivial

theorem ensures_count (condition : Given Predicate) :
    Ensures states (c.count condition) fun _ => True :=
  ensures_query (Cursor.store_make c.store condition .nothing none)
    (Cursor.lasting_over (upholds_reads hs)).count

variable (hgood : ∀ d, good (.object d))
include hgood

/-- Only objects have fields, so only they are inserted. -/
theorem ensures_insert (hfresh : Ensures states c.freshId fun _ => True) (document : Value) :
    Ensures states (c.insert document) fun _ => True := by
  have hfield : Ensures states (Action.ofExcept (document.field (.text c.idField))) fun _ => good document := by
    refine ensures_ofExcept fun x hx => ?_
    cases document with
    | object d => exact hgood d
    | scalar s => cases hx
    | list xs => cases hx
  have hwrite : good document → ∀ id, Ensures states
      (do c.store.write id document; return id) fun _ => True :=
    fun hdocument id => (hs.write id document hdocument).bind fun _ _ => ensures_pure trivial
  unfold insert
  refine hfield.bind fun field hdocument => ?_
  split
  · exact hfresh.bind fun id _ => hwrite hdocument id
  · exact hwrite hdocument _

theorem ensures_save (hfresh : Ensures states c.freshId fun _ => True) (document : Value) :
    Ensures states (c.save document) fun _ => True := by
  have hinsert := ensures_insert hs hgood hfresh document
  have hthrow : Ensures states (throw (.noIdentifier c.idField) : Action σ Unit) fun _ => True :=
    ensures_throw _
  unfold save
  refine Ensures.bind (ensures_ofExcept fun _ _ => trivial) fun field _ => ?_
  split
  · exact hthrow.bind fun _ _ => hinsert
  · exact hinsert

theorem ensures_update (condition : Given Predicate) {update : Given Transform}
    (hfunction : ∀ f, update = .function f → ∀ d v, f (.object d) = .ok v → good v) (options : Value) :
    Ensures states (c.update condition update options) fun _ => True := by
  cases hupdate : Update.compile update with
  | error e =>
    intro w hw
    rw [update_refused c condition hupdate]
    exact ⟨hw, good_of_failed⟩
  | ok change =>
    rw [update_eq c condition hupdate]
    refine ensures_bulk hs condition _ fun x d hd => ?_
    refine Ensures.bind (ensures_ofExcept fun v hv => ?_) fun v hv => hs.write x.id v hv
    exact changed_good hgood hupdate hfunction (hd ▸ hv)

theorem ensures_modify {remove new : Bool} {update : Given Transform} {change : Option Transform}
    (hupdate : remove = false → Update.compile update = .ok change)
    (hfunction : ∀ f, update = .function f → ∀ d v, f (.object d) = .ok v → good v) {x : Item}
    {d : Document} (hd : x.document = .object d) :
    Ensures states (modify c.store remove new change x) fun _ => True := by
  unfold modify
  cases remove with
  | true => exact (hs.erase x.id).bind fun _ _ => ensures_pure trivial
  | false =>
    refine Ensures.bind (ensures_ofExcept fun v hv => ?_) fun v hv =>
      (hs.write x.id v hv).bind fun _ _ => ensures_pure trivial
    exact changed_good hgood (hupdate rfl) hfunction (hd ▸ hv)

theorem ensures_findAndModify (condition : Given Predicate) (order : Given Comparator)
    {update : Given Transform}
    (hfunction : ∀ f, update = .function f → ∀ d v, f (.object d) = .ok v → good v) (options : Value) :
    Ensures states (c.findAndModify condition order update options) fun _ => True := by
  obtain ⟨e, hrefused⟩ | ⟨remove, new, change, -, -, hupdate, hmodify⟩ :=
    findAndModify_runs c condition order update options
  · intro w hw
    rw [hrefused]
    exact ⟨hw, good_of_failed⟩
  · rw [hmodify]
    refine (ensures_found hs (untouched_firstQuery c.store condition order)).bind fun items hitems => ?_
    cases items with
    | nil => exact ensures_pure trivial
    | cons x rest =>
      obtain ⟨d, hd⟩ := hitems x List.mem_cons_self
      exact (ensures_modify hs hgood hupdate hfunction hd).bind fun _ _ => ensures_pure trivial

end

end Calls

/-! ## Requests of a session -/

section Sessions
variable {c : Collection σ} {states : σ → Prop} {good : Value → Prop}

/-- The cursors that were opened ask the collection's store, which is in one of some states. -/
def Within (c : Collection σ) (states : σ → Prop) (x : Session σ) : Prop :=
  (∀ query ∈ x.1, query.store = c.store) ∧ states x.2

theorem ensures_onState {a : Action σ α} (ha : Ensures states a fun _ => True) :
    Ensures (c.Within states) (onState a) fun _ => True :=
  ensures_of_state fun x hx => ⟨hx.1, (ha x.2 hx.2).1⟩

theorem ensures_opened {query : Cursor σ} (hquery : query.store = c.store) :
    Ensures (c.Within states) (opened query) fun _ => True := by
  refine ensures_of_state fun (cursors, w) hx => ⟨fun q hq => ?_, hx.2⟩
  rcases List.mem_append.mp hq with hq | hq
  · exact hx.1 q hq
  · rw [List.mem_singleton.mp hq]
    exact hquery

theorem ensures_asked (hs : c.store.Reads states fun _ => True) {request : Cursor.Request σ}
    (hrequest : request.Keeps states) (number : Nat) :
    Ensures (c.Within states) (asked number request) fun _ => True := by
  refine ensures_of_state fun (cursors, w) hx => ?_
  simp only [asked]
  cases hquery : cursors[number]? with
  | none => exact hx
  | some query =>
    have hstore : query.store = c.store := hx.1 query (List.mem_of_getElem? hquery)
    obtain ⟨hsame, hstate⟩ := (Cursor.ensures_run hs hrequest (query, w) ⟨hstore, hx.2⟩).1
    refine ⟨fun q hq => ?_, hstate⟩
    rcases List.mem_or_eq_of_mem_set hq with hq | rfl
    · exact hx.1 q hq
    · exact hsame

/-- What comes with a request fits: the value is good that is written, and so is what the function of an
update makes of a document; what a cursor's results are handed to stays within some states. -/
def Request.Fits (states : σ → Prop) (good : Value → Prop) : Request σ → Prop
  | .write _ document => good document
  | .update _ change _ | .findAndModify _ _ change _ =>
    ∀ f, change = .function f → ∀ d v, f (.object d) = .ok v → good v
  | .ask _ request => request.Keeps states
  | _ => True

variable (hs : c.store.Upholds states good) (hgood : ∀ d, good (.object d))
  (hfresh : Ensures states c.freshId fun _ => True)
include hs hgood hfresh

theorem ensures_request {q : Request σ} (hq : q.Fits states good) :
    Ensures (c.Within states) (q.run c) fun _ => True := by
  cases q with
  | read id => exact ensures_onState (hs.read id).map
  | write id document => exact ensures_onState (hs.write id document hq).map
  | erase id => exact ensures_onState (hs.erase id).map
  | exist id => exact ensures_onState (hs.exist id).map
  | index => exact ensures_onState hs.index.map
  | find condition projection idField =>
    exact ensures_opened (Cursor.store_make c.store condition projection idField)
  | ask number request => exact ensures_asked (upholds_reads hs) hq number
  | findOne condition projection =>
    exact ensures_onState (ensures_findOne hs condition projection).map
  | count condition => exact ensures_onState (ensures_count hs condition).map
  | insert document => exact ensures_onState (ensures_insert hs hgood hfresh document).map
  | save document => exact ensures_onState (ensures_save hs hgood hfresh document).map
  | update condition change options =>
    exact ensures_onState (ensures_update hs hgood condition hq options).map
  | findAndModify condition order change options =>
    exact ensures_onState (ensures_findAndModify hs hgood condition order hq options).map
  | remove condition options =>
    refine ensures_onState (Ensures.map ?_)
    rw [remove_eq]
    exact ensures_bulk hs condition _ fun x _ _ => hs.erase x.id

/-- A session never leaves the states that the calls of its store stay within. -/
theorem serve_states : ∀ {requests : List (Request σ)}, (∀ q ∈ requests, q.Fits states good) →
    ∀ {x : Session σ}, c.Within states x → c.Within states (c.serve requests x).2
  | [], _, _, hx => hx
  | q :: requests, h, x, hx => by
    obtain ⟨hq, hrequests⟩ := List.forall_mem_cons.mp h
    exact serve_states hrequests (ensures_request hs hgood hfresh hq x hx).1

end Sessions

end Collection

end Cabinet
