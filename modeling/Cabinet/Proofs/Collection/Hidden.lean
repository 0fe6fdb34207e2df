import Cabinet.Proofs.Collection.Session
import Cabinet.Proofs.Cursor.Unseen
import Cabinet.Proofs.Store.Keyed
import Cabinet.Proofs.Store.Refusing

/-!
# Documents that cannot be read are hidden

Where reading is refused, nothing that a collection is asked for tells which documents are stored.

* `Memory.SameIdentifiers`, `Memory.blind_run` : memories that keep other texts under the same
  identifiers; only reading tells them apart;
* `Store.Hides.focus`, `Store.deny_hides` : so a store that refuses to read hides what a memory keeps;
* `blind_insert` .. `blind_findAndModify` : calls of a collection over a store that hides something do
  not see it;
* `Collection.Beside`, `blind_asked`, `blind_served` : neither do requests of a session, its cursors
  included;
* `nothing_shown` : so all results of a session are the same for any two memories with the same
  identifiers.
-/

namespace Cabinet

variable {σ ρ α : Type}

open Cabinet.Action

/-! ## Memories behind a wrapper -/

namespace Memory

/-- Two memories that may keep other texts, under the same identifiers in the same order. -/
def SameIdentifiers (m m' : Memory) : Prop := m.map Prod.fst = m'.map Prod.fst

theorem SameIdentifiers.get?_eq_none {m m' : Memory} (h : SameIdentifiers m m') (id : Text) :
    get? m id = none ↔ get? m' id = none := by
  rw [get?_eq, get?_eq, Keyed.get?_eq_none, Keyed.get?_eq_none, h]

theorem SameIdentifiers.put {m m' : Memory} (h : SameIdentifiers m m') (id kept : Text) :
    SameIdentifiers (put m id kept) (put m' id kept) := by
  have hkeys : m.map Prod.fst = m'.map Prod.fst := h
  unfold SameIdentifiers
  rw [put_eq, put_eq]
  by_cases hid : id ∈ m.map Prod.fst
  · rw [Keyed.put_keys hid, Keyed.put_keys (hkeys ▸ hid), hkeys]
  · have hid' : id ∉ m'.map Prod.fst := hkeys ▸ hid
    rw [Keyed.put_new (Keyed.get?_eq_none.mpr hid), Keyed.put_new (Keyed.get?_eq_none.mpr hid'),
      List.map_append, List.map_append, hkeys]

theorem SameIdentifiers.remove {m m' : Memory} (h : SameIdentifiers m m') (id : Text) :
    SameIdentifiers (remove m id) (remove m' id) := by
  have hkeys : m.map Prod.fst = m'.map Prod.fst := h
  unfold SameIdentifiers
  rw [remove_eq, remove_eq, Keyed.remove_keys, Keyed.remove_keys, hkeys]

theorem blind_index : Blind SameIdentifiers store.index := fun _ _ h => ⟨congrArg Except.ok h, h⟩

theorem blind_exist (id : Text) : Blind SameIdentifiers (store.exist id) := by
  intro m m' h
  refine ⟨congrArg Except.ok ?_, h⟩
  rw [Bool.eq_iff_iff, Option.isSome_iff_ne_none, Option.isSome_iff_ne_none]
  exact not_congr (h.get?_eq_none id)

theorem blind_write (id : Text) (v : Value) : Blind SameIdentifiers (store.write id v) := by
  intro m m' h
  simp only [store]
  cases Store.encodeJson .compact storeName v with
  | error e => exact ⟨rfl, h⟩
  | ok kept => exact ⟨rfl, h.put id kept⟩

theorem blind_erase (id : Text) : Blind SameIdentifiers (store.erase id) := by
  intro m m' h
  simp only [store]
  cases hm : get? m id with
  | none =>
    rw [(h.get?_eq_none id).mp hm]
    exact ⟨rfl, h⟩
  | some kept =>
    cases hm' : get? m' id with
    | none =>
      rw [(h.get?_eq_none id).mpr hm'] at hm
      cases hm
    | some kept' => exact ⟨rfl, h.remove id⟩

end Memory

namespace Store

variable {s : Store σ} {R : σ → σ → Prop}

theorem blind_unlessDenied {a : Action σ α} (ha : Blind R a) (denied : List Operation)
    (op : Operation) : Blind R (unlessDenied denied op a) := by
  by_cases h : op ∈ denied
  · rw [unlessDenied_of_mem h]
    exact blind_ofExcept _
  · rw [unlessDenied_of_not_mem h]
    exact ha

/-- A wrapper that refuses to read hides what only reading tells. -/
theorem deny_hides (hindex : Blind R s.index) (hexist : ∀ id, Blind R (s.exist id))
    (hwrite : ∀ id v, Blind R (s.write id v)) (herase : ∀ id, Blind R (s.erase id))
    {denied : List Operation} (hread : .read ∈ denied) : (s.deny denied).Hides R where
  index := blind_unlessDenied hindex denied _
  read id := by
    show Blind R (unlessDenied denied .read (s.read id))
    rw [unlessDenied_of_mem hread]
    exact blind_ofExcept _
  exist id := blind_unlessDenied (hexist id) denied _
  write id v := blind_unlessDenied (hwrite id v) denied _
  erase id := blind_unlessDenied (herase id) denied _
  unread id w d := by
    show (unlessDenied denied .read (s.read id) w).1 ≠ _
    rw [unlessDenied_of_mem hread]
    exact nofun

end Store

/-- The store over a memory that stands beside something else. -/
def Memory.storeBeside (ρ : Type) : Store (Memory × ρ) :=
  Memory.store.focus Prod.fst fun m x => (m, x.2)

/-- Two memories with the same identifiers, each beside the same. -/
def Memory.SameBeside (x y : Memory × ρ) : Prop := Memory.SameIdentifiers x.1 y.1 ∧ x.2 = y.2

/-- What is kept in a memory is hidden by a wrapper that refuses to read it. -/
theorem Memory.hides {denied : List Operation} (hread : .read ∈ denied) :
    ((Memory.storeBeside ρ).deny denied).Hides Memory.SameBeside := by
  have hfocus : ∀ {α : Type} {a : Action Memory α}, Blind Memory.SameIdentifiers a →
      Blind (Memory.SameBeside (ρ := ρ)) (a.focus Prod.fst fun m x => (m, x.2)) := fun ha =>
    ha.focus (fun _ _ h => h.1) fun _ _ _ _ h hm => ⟨hm, h.2⟩
  exact Store.deny_hides (hfocus Memory.blind_index) (fun id => hfocus (Memory.blind_exist id))
    (fun id v => hfocus (Memory.blind_write id v)) (fun id => hfocus (Memory.blind_erase id)) hread

namespace Collection

/-! ## Calls -/

section Calls
variable {c : Collection σ} {R : σ → σ → Prop} (hs : c.store.Hides R)
include hs

omit hs in
theorem blind_runQuery {query : Cursor σ} {run : Cursor.Run σ α} (hquery : query.Barren c.store)
    (hrun : Blind (Cursor.Facing c.store R) run) : Blind R (runQuery query run) := by
  intro w v h
  obtain ⟨hresult, hfacing⟩ := hrun (query, w) (query, v) ⟨rfl, hquery, h⟩
  exact ⟨hresult, hfacing.state⟩

omit hs in
theorem barren_matchQuery (s : Store σ) (condition : Given Predicate) (multi : Bool) :
    (matchQuery s condition multi).Barren s := by
  have hfound := Cursor.barren_make s condition .nothing none
  cases multi with
  | true => exact hfound
  | false => exact hfound.push (.limit 1)

omit hs in
theorem barren_firstQuery (s : Store σ) (condition : Given Predicate) (order : Given Comparator) :
    (firstQuery s condition order).Barren s := by
  have hfound := Cursor.barren_make s condition .nothing none
  unfold firstQuery
  cases order.isNothing with
  | true => exact hfound.push (.limit 1)
  | false => exact (hfound.addTo (.sort order)).push (.limit 1)

theorem blind_findOne (condition : Given Predicate) (projection : Given Transform) :
    Blind R (c.findOne condition projection) := by
  have hquery : ((c.find condition projection none).addLimit 1).Barren c.store :=
    (Cursor.barren_make c.store condition projection none).push (.limit 1)
  refine (blind_runQuery hquery (Cursor.blind_toList hs)).bind fun docs => ?_
  cases docs with
  | nil => exact blind_throw _
  | cons d rest => exact blind_pure _

theorem blind_count (condition : Given Predicate) : Blind R (c.count condition) :=
  blind_runQuery (Cursor.barren_make c.store condition .nothing none) (Cursor.blind_count hs)

omit hs in
theorem blind_actAll {act : Item → Action σ Unit} (hact : ∀ x, Blind R (act x)) :
    ∀ items : List Item, Blind R (actAll act items)
  | [] => blind_pure _
  | x :: items => (hact x).bind fun _ => (blind_actAll hact items).bind fun _ => blind_pure _

theorem blind_bulk (condition : Given Predicate) (multi : Except Failure Bool)
    {act : Item → Action σ Unit} (hact : ∀ x, Blind R (act x)) :
    Blind R (bulk c.store condition multi act) := by
  refine (blind_ofExcept multi).bind fun multi => ?_
  have hquery := barren_matchQuery c.store condition multi
  exact (blind_runQuery hquery (Cursor.blind_items hs)).bind fun items => blind_actAll hact items

theorem blind_update (condition : Given Predicate) (update : Given Transform) (options : Value) :
    Blind R (c.update condition update options) := by
  cases hupdate : Update.compile update with
  | error e =>
    intro w v h
    rw [update_refused c condition hupdate, update_refused c condition hupdate]
    exact ⟨rfl, h⟩
  | ok change =>
    rw [update_eq c condition hupdate]
    exact blind_bulk hs condition _ fun x => (blind_ofExcept _).bind fun v => hs.write x.id v

theorem blind_remove (condition : Given Predicate) (options : Value) :
    Blind R (c.remove condition options) := by
  rw [remove_eq]
  exact blind_bulk hs condition _ fun x => hs.erase x.id

theorem blind_modify (remove new : Bool) (change : Option Transform) (x : Item) :
    Blind R (modify c.store remove new change x) := by
  unfold modify
  cases remove with
  | true => exact (hs.erase x.id).bind fun _ => blind_pure _
  | false =>
    exact (blind_ofExcept _).bind fun v => (hs.write x.id v).bind fun _ => blind_pure _

theorem blind_findAndModify (condition : Given Predicate) (order : Given Comparator)
    (update : Given Transform) (options : Value) :
    Blind R (c.findAndModify condition order update options) := by
  obtain ⟨e, hrefused⟩ | ⟨remove, new, change, -, -, -, hmodify⟩ :=
    findAndModify_runs c condition order update options
  · intro w v h
    rw [hrefused, hrefused]
    exact ⟨rfl, h⟩
  · rw [hmodify]
    have hquery := barren_firstQuery c.store condition order
    refine (blind_runQuery hquery (Cursor.blind_items hs)).bind fun items => ?_
    cases items with
    | nil => exact blind_pure _
    | cons x rest => exact (blind_modify hs remove new change x).bind fun _ => blind_pure _

variable (hfresh : Blind R c.freshId)
include hfresh

theorem blind_insert (document : Value) : Blind R (c.insert document) := by
  have hwrite : ∀ id, Blind R (do c.store.write id document; return id) :=
    fun id => (hs.write id document).bind fun _ => blind_pure _
  unfold insert
  refine (blind_ofExcept _).bind fun field => ?_
  split
  · exact hfresh.bind hwrite
  · exact hwrite _

theorem blind_save (document : Value) : Blind R (c.save document) := by
  have hinsert := blind_insert hs hfresh document
  have hthrow : Blind R (throw (.noIdentifier c.idField) : Action σ Unit) := blind_throw _
  unfold save
  refine (blind_ofExcept _).bind fun field => ?_
  split
  · exact hthrow.bind fun _ => hinsert
  · exact hinsert

end Calls

/-! ## Sessions -/

section Sessions
variable {c : Collection σ} {R : σ → σ → Prop}

/-- Two sessions with the same cursors, which have no items, over two related states. -/
structure Beside (c : Collection σ) (R : σ → σ → Prop) (x y : Session σ) : Prop where
  cursors : x.1 = y.1
  barren : ∀ query ∈ x.1, query.Barren c.store
  state : R x.2 y.2

theorem blind_onState {a : Action σ α} (ha : Blind R a) : Blind (c.Beside R) (onState a) := by
  refine ha.focus (fun _ _ h => h.state) ?_
  exact fun _ _ _ _ h hstate => ⟨h.cursors, h.barren, hstate⟩

theorem blind_opened {query : Cursor σ} (hquery : query.Barren c.store) :
    Blind (c.Beside R) (opened query) := by
  rintro ⟨cursors, w⟩ ⟨cursors', v⟩ ⟨hcursors, hbarren, hstate⟩
  obtain rfl : cursors = cursors' := hcursors
  refine ⟨rfl, rfl, fun q hq => ?_, hstate⟩
  rcases List.mem_append.mp hq with hq | hq
  · exact hbarren q hq
  · exact List.mem_singleton.mp hq ▸ hquery

variable (hs : c.store.Hides R)
include hs

theorem blind_asked {request : Cursor.Request σ} (hrequest : request.Relates R) (number : Nat) :
    Blind (c.Beside R) (asked number request) := by
  rintro ⟨cursors, w⟩ ⟨cursors', v⟩ ⟨hcursors, hbarren, hstate⟩
  obtain rfl : cursors = cursors' := hcursors
  simp only [asked]
  cases hquery : cursors[number]? with
  | none => exact ⟨rfl, rfl, hbarren, hstate⟩
  | some query =>
    have hfacing : Cursor.Facing c.store R (query, w) (query, v) :=
      ⟨rfl, hbarren query (List.mem_of_getElem? hquery), hstate⟩
    obtain ⟨r, ⟨query₁, w₁⟩, ⟨query₂, v₁⟩, hw, hv, hfacing₁⟩ :=
      (Cursor.blind_request hs hrequest).cases hfacing
    obtain rfl : query₁ = query₂ := hfacing₁.cursor
    dsimp only
    rw [hw, hv]
    refine ⟨rfl, rfl, fun q hq => ?_, hfacing₁.state⟩
    rcases List.mem_or_eq_of_mem_set hq with hq | rfl
    · exact hbarren q hq
    · exact hfacing₁.barren

/-- Something else that changes the store's state between two requests of a cursor tells related states
not apart. -/
def Request.Relates (R : σ → σ → Prop) : Request σ → Prop
  | .ask _ request => request.Relates R
  | _ => True

variable (hfresh : Blind R c.freshId)
include hfresh

theorem blind_served {q : Request σ} (hq : q.Relates R) : Blind (c.Beside R) (q.run c) := by
  cases q with
  | read id => exact blind_onState ((hs.read id).map _)
  | write id document => exact blind_onState ((hs.write id document).map _)
  | erase id => exact blind_onState ((hs.erase id).map _)
  | exist id => exact blind_onState ((hs.exist id).map _)
  | index => exact blind_onState (hs.index.map _)
  | find condition projection idField =>
    exact blind_opened (Cursor.barren_make c.store condition projection idField)
  | ask number request => exact blind_asked hs hq number
  | findOne condition projection => exact blind_onState ((blind_findOne hs condition projection).map _)
  | count condition => exact blind_onState ((blind_count hs condition).map _)
  | insert document => exact blind_onState ((blind_insert hs hfresh document).map _)
  | save document => exact blind_onState ((blind_save hs hfresh document).map _)
  | update condition change options =>
    exact blind_onState ((blind_update hs condition change options).map _)
  | findAndModify condition order change options =>
    exact blind_onState ((blind_findAndModify hs condition order change options).map _)
  | remove condition options => exact blind_onState ((blind_remove hs condition options).map _)

/-- By induction on the requests: each gives the same, and leads to sessions beside each other again. -/
theorem serve_blind : ∀ {requests : List (Request σ)}, (∀ q ∈ requests, q.Relates R) →
    ∀ {x y : Session σ}, c.Beside R x y →
    (c.serve requests x).1 = (c.serve requests y).1 ∧
      c.Beside R (c.serve requests x).2 (c.serve requests y).2
  | [], _, _, _, h => ⟨rfl, h⟩
  | q :: requests, hrequests, x, y, h => by
    obtain ⟨hq, hrest⟩ := List.forall_mem_cons.mp hrequests
    obtain ⟨r, x', y', hx, hy, h'⟩ := (blind_served hs hfresh hq).cases h
    obtain ⟨hresults, hlast⟩ := serve_blind hrest h'
    rw [serve, serve, hx, hy]
    exact ⟨congrArg (r :: ·) hresults, hlast⟩

end Sessions

/-! ## Nothing is shown -/

/-- A collection over a memory behind a wrapper, with new identifiers made from what stands beside the
memory. -/
def behindWrapper (denied : List Operation) (idField : Text) (fresh : Action ρ Text) :
    Collection (Memory × ρ) where
  store := (Memory.storeBeside ρ).deny denied
  idField := idField
  freshId := fresh.focus Prod.snd fun r x => (x.1, r)

theorem blind_freshId (denied : List Operation) (idField : Text) (fresh : Action ρ Text) :
    Blind Memory.SameBeside (behindWrapper denied idField fresh).freshId := by
  have hsame : Blind Eq fresh := by
    rintro r _ rfl
    exact ⟨rfl, rfl⟩
  exact hsame.focus (fun _ _ h => h.2) fun _ _ _ _ h hr => ⟨h.1, hr⟩

/-- Where reading is refused, nothing that a collection or one of its cursors is asked for depends on the
documents: with other documents under the same identifiers, readable or not, all results are the same,
one after another, and so are the identifiers in the end. -/
theorem nothing_shown {denied : List Operation} (hread : .read ∈ denied) (idField : Text)
    (fresh : Action ρ Text) {requests : List (Request (Memory × ρ))}
    (hrequests : ∀ q ∈ requests, q.Relates Memory.SameBeside) {m m' : Memory}
    (hsame : m.map Prod.fst = m'.map Prod.fst) (r : ρ) :
    let c := behindWrapper denied idField fresh
    (c.serve requests ([], m, r)).1 = (c.serve requests ([], m', r)).1 ∧
      (c.serve requests ([], m, r)).2.2.1.map Prod.fst =
        (c.serve requests ([], m', r)).2.2.1.map Prod.fst := by
  intro c
  have hs : c.store.Hides Memory.SameBeside := Memory.hides hread
  have hstart : c.Beside Memory.SameBeside ([], m, r) ([], m', r) :=
    ⟨rfl, fun _ hquery => absurd hquery List.not_mem_nil, hsame, rfl⟩
  obtain ⟨hresults, hlast⟩ :=
    serve_blind hs (blind_freshId denied idField fresh) hrequests hstart
  exact ⟨hresults, hlast.state.1⟩

/-- What a garden is asked for: its plants are listed and counted, and reading them fails one by one. -/
def gardenRequests : List (Request (Memory × List Text)) :=
  [.index, .read "fern".toText, .find (.value .null) .nothing none, .ask 0 (.call .next),
    .ask 0 (.call .next), .ask 0 (.call .next), .write "ivy".toText (.object []),
    .insert (.object []), .count (.value .null), .exist "moss".toText,
    .update (.value .null) (.value (.object [])) .null, .erase "moss".toText]

theorem nothing_shown_garden :
    let c := behindWrapper [.read, .erase] "_id".toText fun names => (.ok (names.headD []), names.tail)
    let m : Memory := [("fern".toText, "\x7b\"age\": 3\x7d".toText), ("moss".toText, "?".toText)]
    let m' : Memory := [("fern".toText, "?".toText), ("moss".toText, "\x7b\"age\": 9\x7d".toText)]
    let shown : List (Except Failure Reply) :=
      [.ok (.identifiers ["fern".toText, "moss".toText]), .error (.denied .read), .ok .done,
        .error (.denied .read), .error (.denied .read), .ok (.asked (.document .null)), .ok .done,
        .ok (.identifier "reed".toText), .ok (.number 4), .ok (.found true), .error (.denied .read),
        .error (.denied .erase)]
    (c.serve gardenRequests ([], m, ["reed".toText])).1 = shown ∧
      (c.serve gardenRequests ([], m', ["reed".toText])).1 = shown := by
  intro c m m' shown
  have hread : Operation.read ∈ [Operation.read, .erase] := by decide
  have hrequests : ∀ q ∈ gardenRequests, q.Relates Memory.SameBeside := by
    intro q hq
    simp only [gardenRequests, List.mem_cons, List.not_mem_nil, or_false] at hq
    rcases hq with rfl | rfl | rfl | rfl | rfl | rfl | rfl | rfl | rfl | rfl | rfl | rfl <;> trivial
  have hsame : m'.map Prod.fst = m.map Prod.fst := rfl
  have hshown : (c.serve gardenRequests ([], m, ["reed".toText])).1 = shown := rfl
  obtain ⟨hresults, -⟩ := nothing_shown hread "_id".toText
    (fun names => (.ok (names.headD []), names.tail)) hrequests hsame ["reed".toText]
  exact ⟨hshown, hresults.trans hshown⟩

end Collection

end Cabinet
