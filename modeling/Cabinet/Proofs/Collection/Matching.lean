import Cabinet.Collection
import Cabinet.Proofs.Cursor.Waiting

/-!
# The items that a bulk change is about

Updating and removing run one query: for all documents that meet a condition, or for the first.

* `matching` : the items that meet a condition, in the order of the identifiers;
* `matchQuery` : the query for them, `update_eq` and `remove_eq` : the operations that run it;
* `runQuery_answered` : it gives these items, if nothing fails;
* `runQuery_refused`, `runQuery_unlisted` : a condition that does not compile, and a store that does
  not list its identifiers.
-/

namespace Cabinet.Collection

variable {σ : Type}

/-- The items that meet a condition, or the first of them. -/
def matching (accepts : Predicate) (multi : Bool) (ids : List Text) (doc : Text → Document) :
    List Item :=
  let all := (storedItems none ids doc).filter fun x => accepted accepts x.document
  if multi then all else all.take 1

/-- The query for the items that meet a condition, or for the first of them. -/
def matchQuery (s : Store σ) (condition : Given Predicate) (multi : Bool) : Cursor σ :=
  let query := Cursor.make s condition .nothing none
  if multi then query else query.addLimit 1

/-- Does something with each item, and counts them. -/
def actAll (act : Item → Action σ Unit) : List Item → Action σ Nat
  | [] => return 0
  | item :: rest => do
    act item
    return (← actAll act rest) + 1

/-- Writes an item changed. -/
def writeChanged (s : Store σ) (change : Option Transform) (item : Item) : Action σ Unit := do
  s.write item.id (← Action.ofExcept (changed change item.document))

/-- Does something with each item that meets a condition, or with the first of them. -/
def bulk (s : Store σ) (condition : Given Predicate) (multi : Except Failure Bool)
    (act : Item → Action σ Unit) : Action σ Nat := do
  let multi ← Action.ofExcept multi
  actAll act (← runQuery (matchQuery s condition multi) Cursor.items)

/-- Whether an erasure is about all matches. -/
def eraseMulti (options : Value) : Except Failure Bool := do
  return !((← option options "single" false) || (← option options "justOne" false))

theorem mem_storedItems_of_matching {accepts : Predicate} {multi : Bool} {ids : List Text}
    {doc : Text → Document} {x : Item} (hx : x ∈ matching accepts multi ids doc) :
    x ∈ storedItems none ids doc := by
  cases multi with
  | true => exact (List.mem_filter.mp hx).1
  | false => exact (List.mem_filter.mp (List.mem_of_mem_take hx)).1

theorem id_mem_of_matching {accepts : Predicate} {multi : Bool} {ids : List Text}
    {doc : Text → Document} {x : Item} (hx : x ∈ matching accepts multi ids doc) : x.id ∈ ids := by
  obtain ⟨id, hid, rfl⟩ := List.mem_map.mp (mem_storedItems_of_matching hx)
  exact hid

/-- Matches of one identifier are equal. -/
theorem eq_of_mem_matching {accepts : Predicate} {multi : Bool} {ids : List Text}
    {doc : Text → Document} {x y : Item} (hx : x ∈ matching accepts multi ids doc)
    (hy : y ∈ matching accepts multi ids doc) (hid : x.id = y.id) : x = y := by
  obtain ⟨i, -, rfl⟩ := List.mem_map.mp (mem_storedItems_of_matching hx)
  obtain ⟨j, -, rfl⟩ := List.mem_map.mp (mem_storedItems_of_matching hy)
  obtain rfl : i = j := hid
  rfl

/-! ## Acting on items -/

/-- Actions on items, one after another, lead from one state to the other without a failure. -/
inductive Acts (act : Item → Action σ Unit) : List Item → σ → σ → Prop where
  | none (w : σ) : Acts act [] w w
  | next {x : Item} {rest : List Item} {w w₁ w' : σ} (first : act x w = (.ok (), w₁))
    (others : Acts act rest w₁ w') : Acts act (x :: rest) w w'

/-- Acting on all items either succeeds or stops at the first item whose action fails. -/
theorem actAll_cases (act : Item → Action σ Unit) : ∀ (items : List Item) (w : σ),
    (∃ w', Acts act items w w' ∧ actAll act items w = (.ok items.length, w')) ∨
    ∃ done x rest w₁ w' e, items = done ++ x :: rest ∧ Acts act done w w₁ ∧
      act x w₁ = (.error e, w') ∧ actAll act items w = (.error e, w')
  | [], w => .inl ⟨w, .none w, rfl⟩
  | x :: items, w => by
    rcases hx : act x w with ⟨e | _, w₁⟩
    · refine .inr ⟨[], x, items, w, w₁, e, rfl, .none w, hx, ?_⟩
      rw [actAll, Action.bind_apply, hx]
    · have hall : actAll act (x :: items) w = (do return (← actAll act items) + 1) w₁ := by
        rw [actAll, Action.bind_apply, hx]
      rw [hall, Action.bind_apply]
      obtain ⟨w', hacts, hrun⟩ | ⟨done, y, rest, w₂, w', e, hsplit, hacts, hy, hrun⟩ :=
        actAll_cases act items w₁
      · exact .inl ⟨w', .next hx hacts, by rw [hrun]; rfl⟩
      · exact .inr ⟨x :: done, y, rest, w₂, w', e, by rw [hsplit]; rfl, .next hx hacts, hy,
          by rw [hrun]⟩

section Acting
variable {κ : Type}

/-- What is held, with something else under one identifier. -/
def replaced (held : Text → κ) (id : Text) (x : κ) : Text → κ := fun i => if i = id then x else held i

/-- What an action that succeeds does to what is held: it leaves something under the item's
identifier, and nothing else changes. This is said of some items and some states, which it leads to
again. -/
def Leaves (act : Item → Action σ Unit) (items : Item → Prop) (states : σ → Prop)
    (held : σ → Text → κ) (left : Item → κ → Prop) : Prop :=
  ∀ x w w', items x → states w → act x w = (.ok (), w') →
    states w' ∧ ∃ k, left x k ∧ held w' = replaced (held w) x.id k

variable {act : Item → Action σ Unit} {held : σ → Text → κ} {left : Item → κ → Prop}

/-- Afterwards the items acted on are held as they were left, if items of one identifier are equal,
and nothing else has changed. -/
theorem Acts.held_eq {among : Item → Prop} {states : σ → Prop}
    (hact : Leaves act among states held left) {items : List Item} {w w' : σ}
    (h : Acts act items w w') (hamong : ∀ x ∈ items, among x)
    (hsame : ∀ x ∈ items, ∀ y ∈ items, x.id = y.id → x = y) (hw : states w) :
    states w' ∧ (∀ x ∈ items, left x (held w' x.id)) ∧
      ∀ i, i ∉ items.map Item.id → held w' i = held w i := by
  induction h with
  | none w => exact ⟨hw, by simp, fun _ _ => rfl⟩
  | @next x rest w w₁ w' first others ih =>
    obtain ⟨hx, hrest⟩ := List.forall_mem_cons.mp hamong
    obtain ⟨hw₁, k, hk, heq⟩ := hact x w w₁ hx hw first
    obtain ⟨hw', hleft, hframe⟩ := ih hrest (fun y hy z hz =>
      hsame y (List.mem_cons_of_mem x hy) z (List.mem_cons_of_mem x hz)) hw₁
    refine ⟨hw', List.forall_mem_cons.mpr ⟨?_, hleft⟩, fun i hi => ?_⟩
    · by_cases hid : x.id ∈ rest.map Item.id
      · obtain ⟨y, hy, hid⟩ := List.mem_map.mp hid
        obtain rfl : y = x := hsame y (List.mem_cons_of_mem x hy) x List.mem_cons_self hid
        exact hleft y hy
      · rw [hframe x.id hid, heq, replaced, if_pos rfl]
        exact hk
    · rw [List.map_cons, List.mem_cons, not_or] at hi
      rw [hframe i hi.2, heq, replaced, if_neg hi.1]

end Acting

/-! ## Updates and removals -/

theorem writeAll_eq (s : Store σ) (change : Option Transform) :
    ∀ items, writeAll s change items = actAll (writeChanged s change) items
  | [] => rfl
  | item :: rest => by
    simp only [writeAll, actAll, writeChanged, writeAll_eq s change rest, bind_assoc]

theorem writeChanged_ok {s : Store σ} {change : Option Transform} {x : Item} {w w' : σ}
    (h : writeChanged s change x w = (.ok (), w')) :
    ∃ v, changed change x.document = .ok v ∧ s.write x.id v w = (.ok (), w') := by
  rw [writeChanged, Action.bind_apply, Action.ofExcept_apply] at h
  cases hv : changed change x.document with
  | error e =>
    rw [hv] at h
    cases h
  | ok v =>
    rw [hv] at h
    exact ⟨v, rfl, h⟩

theorem eraseAll_eq (s : Store σ) :
    ∀ items, eraseAll s items = actAll (fun item => s.erase item.id) items
  | [] => rfl
  | item :: rest => by simp only [eraseAll, actAll, eraseAll_eq s rest]

theorem update_eq (c : Collection σ) (condition : Given Predicate) {update : Given Transform}
    {change : Option Transform} (hupdate : Update.compile update = .ok change) (options : Value) :
    c.update condition update options =
      bulk c.store condition (option options "multi" true) (writeChanged c.store change) := by
  funext w
  simp only [Collection.update, bulk, transform, hupdate, Except.mapError, Action.bind_apply,
    Action.ofExcept_apply, writeAll_eq]
  cases option options "multi" true <;> rfl

theorem update_refused (c : Collection σ) (condition : Given Predicate) {update : Given Transform}
    {e : QueryError} (hupdate : Update.compile update = .error e) (options : Value) (w : σ) :
    c.update condition update options w = (.error (.query e), w) := by
  simp only [Collection.update, transform, hupdate, Except.mapError, Action.bind_apply,
    Action.ofExcept_apply]

theorem remove_eq (c : Collection σ) (condition : Given Predicate) (options : Value) :
    c.remove condition options =
      bulk c.store condition (eraseMulti options) fun item => c.store.erase item.id := by
  funext w
  simp only [Collection.remove, bulk, eraseMulti, Action.bind_apply, Action.ofExcept_apply,
    eraseAll_eq]
  cases option options "single" false with
  | error e => rfl
  | ok single =>
    cases option options "justOne" false with
    | error e => cases single <;> rfl
    | ok justOne => cases single <;> cases justOne <;> rfl

/-! ## The query -/

section Query
variable {s : Store σ} {condition : Given Predicate} {accepts : Predicate}

theorem matchQuery_eq_start (hcondition : Condition.compile condition = .ok accepts)
    (multi : Bool) : matchQuery s condition multi = Cursor.start s none
      ((if multi then [] else [.limit 1]) ++
        Cursor.firstStages condition .nothing accepts Projection.identity.apply) := by
  rw [matchQuery, Cursor.make_eq_start hcondition rfl]
  cases multi <;> rfl

/-- The query gives the items that meet its condition, or fails as the store or the condition may. -/
theorem runQuery_answered {o : Outlook σ} {ids : List Text} {doc : Text → Document}
    (hs : Answers s o ids doc) {may : Failure → Prop}
    (hmay : ∀ e, may e → ∀ w, o.fresh w ∨ o.listed w → o.failed e w)
    (hcondition : Condition.compile condition = .ok accepts)
    (haccepts : ∀ x ∈ storedItems none ids doc, ∀ e, accepts x.document = .error e → may e)
    (multi : Bool) {w : σ} (hw : o.fresh w) :
    Answered (matching accepts multi ids doc) (fun w => o.fresh w ∨ o.listed w) o.failed
      (runQuery (matchQuery s condition multi) Cursor.items w) := by
  let first := Cursor.firstStages condition .nothing accepts Projection.identity.apply
  let chain := (if multi then [] else [.limit 1]) ++ first
  have hfirst : Fits none ids doc may first :=
    Cursor.fits_firstStages hcondition haccepts fun x hx ha e he => by cases he
  have hfits : Fits none ids doc may chain := by cases multi <;> exact hfirst
  have hanswer : answer chain (storedItems none ids doc) = matching accepts multi ids doc := by
    have hall : answer first (storedItems none ids doc) = _ :=
      Cursor.answer_firstStages hcondition rfl _
    rw [Cursor.firstItems, Cursor.map_projected_identity] at hall
    cases multi with
    | true => exact hall
    | false =>
      change (answer first _).take 1 = _
      rw [hall]
      rfl
  have hdrain := drain_drained hs hmay hfits (sound_rewound hw chain)
  have hrun : Cursor.items (Cursor.start s none chain, w) = _ := Cursor.items_apply rfl rfl
  rw [matchQuery_eq_start hcondition, runQuery, hrun]
  simp only [Cursor.start]
  generalize drain s none chain (Progress.rewound chain) w = r at hdrain ⊢
  cases hdrain with
  | failure may => exact .failure may
  | items after keeps =>
    rw [toCome_rewound, hanswer]
    exact .ok (Progress.sound_state chain keeps)

theorem matchQuery_waiting {e : QueryError} (hcondition : Condition.compile condition = .error e)
    (multi : Bool) : (matchQuery s condition multi).waiting = some e := by
  have hmake : (Cursor.make s condition .nothing none).waiting = some e :=
    Cursor.waiting_make hcondition
  cases multi <;> exact hmake

/-- A condition that does not compile fails its query before the store is asked. -/
theorem runQuery_refused {e : QueryError} (hcondition : Condition.compile condition = .error e)
    (multi : Bool) (w : σ) :
    runQuery (matchQuery s condition multi) Cursor.items w = (.error (.query e), w) := by
  rw [runQuery, Cursor.items, Action.bind_apply, Cursor.check]
  simp only [matchQuery_waiting hcondition]

/-- A store that does not list its identifiers fails the query at once. -/
theorem runQuery_unlisted (hcondition : Condition.compile condition = .ok accepts) (multi : Bool)
    {w w' : σ} {e : Failure} (hindex : s.index w = (.error e, w')) :
    runQuery (matchQuery s condition multi) Cursor.items w = (.error e, w') := by
  have hrun : Cursor.items (Cursor.start s none ((if multi then [] else [.limit 1]) ++
      Cursor.firstStages condition .nothing accepts Projection.identity.apply), w) = _ :=
    Cursor.items_apply rfl rfl
  rw [matchQuery_eq_start hcondition, runQuery, hrun, Cursor.firstStages]
  cases multi <;> cases condition.isNothing <;>
    simp [Cursor.start, drain, Stage.collect, pull, Stage.search, Stage.limitTo, Stage.source,
      Progress.rewound, Given.isNothing, hindex]

end Query

/-! ## A small update -/

/-- Adds one to each number. -/
def addOne : Given Transform :=
  .value (.object [(.text "$inc".toText, .object [(.text "n".toText, .int 1)])])

def addedOne : Transform := Update.mutate [(.inc, [(.text "n".toText, .int 1)])]

end Cabinet.Collection
