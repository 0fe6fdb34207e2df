import Cabinet.Cursor.Basic
import Cabinet.Query.Update

/-!
# Collections

A collection is a store with queries and updates of many documents.

* `Collection.find`, `Collection.findOne`, `Collection.count` : queries;
* `Collection.insert`, `Collection.save` : storing under the identifier in a document, or a new one;
* `Collection.update`, `Collection.findAndModify`, `Collection.remove` : all results of a query are
  read before the first document is written or erased.

Options are fields of an object; any value of a field counts as a truth value.
-/

namespace Cabinet

structure Collection (σ : Type) where
  store : Store σ
  /-- The field that identifiers are taken from. -/
  idField : Text
  /-- Makes an identifier that was not used before. -/
  freshId : Action σ Text

namespace Collection

variable {σ : Type}

/-- How a collection is shown. -/
def shown (c : Collection σ) : Text := "<Collection storage=".toText ++ c.store.name ++ ">".toText

/-! ## Queries -/

/-- A query for the documents that meet a condition, projected. -/
def find (c : Collection σ) (condition : Given Predicate) (projection : Given Transform)
    (idField : Option Text) : Cursor σ :=
  Cursor.make c.store condition projection idField

/-- The result of running a query to which nothing else holds on. -/
def runQuery {α : Type} (query : Cursor σ) (run : Cursor.Run σ α) : Action σ α := fun w =>
  let (r, _, w) := run (query, w)
  (r, w)

/-- How a message shows a condition. -/
def conditionShown : Given Predicate → Text
  | .value v => v.shown
  | .function _ => "<function>".toText

/-- The first document that meets a condition. -/
def findOne (c : Collection σ) (condition : Given Predicate) (projection : Given Transform) :
    Action σ Value := do
  match ← runQuery ((c.find condition projection none).addLimit 1) Cursor.toList with
  | d :: _ => return d
  | [] => throw (.noMatch (conditionShown condition))

/-- How many documents meet a condition. -/
def count (c : Collection σ) (condition : Given Predicate) : Action σ Nat :=
  runQuery (c.find condition .nothing none) Cursor.count

/-! ## Storing -/

/-- Stores a document under the identifier in it, or under a new one. -/
def insert (c : Collection σ) (document : Value) : Action σ Text := do
  let id ← match ← Action.ofExcept (document.field (.text c.idField)) with
    | .null => c.freshId
    | id => pure id.plain
  c.store.write id document
  return id

/-- Stores a document under the identifier in it. -/
def save (c : Collection σ) (document : Value) : Action σ Text := do
  if (← Action.ofExcept (document.field (.text c.idField))) = .null then
    throw (.noIdentifier c.idField)
  c.insert document

/-! ## Updating and removing -/

/-- Whether an option is on. -/
def option (options : Value) (name : String) (default : Bool) : Except Failure Bool :=
  if options.isTrue then
    match options with
    | .object fs => .ok (((Document.get? fs (.text name.toText)).map Value.isTrue).getD default)
    | v => .error (.noMember v.kind "get")
  else .ok default

/-- What an update makes of a document; an update that does nothing leaves it. -/
def changed (change : Option Transform) (d : Value) : Except Failure Value :=
  match change with
  | some t => t d
  | none => .ok d

/-- The transform of an update. -/
def transform (update : Given Transform) : Action σ (Option Transform) :=
  Action.ofExcept ((Update.compile update).mapError .query)

/-- Writes each item changed, and counts them. -/
def writeAll (s : Store σ) (change : Option Transform) : List Item → Action σ Nat
  | [] => return 0
  | item :: rest => do
    s.write item.id (← Action.ofExcept (changed change item.document))
    return (← writeAll s change rest) + 1

/-- Updates the documents that meet a condition, or with `multi` off the first. -/
def update (c : Collection σ) (condition : Given Predicate) (update : Given Transform)
    (options : Value) : Action σ Nat := do
  let change ← transform update
  let query := c.find condition .nothing none
  let query := if ← Action.ofExcept (option options "multi" true) then query else query.addLimit 1
  writeAll c.store change (← runQuery query Cursor.items)

/-- Updates or, with `remove` on, erases the first document that meets a condition, by a sort order
if one is given. Gives the document as it is afterwards, or with `new` off as it was before. -/
def findAndModify (c : Collection σ) (condition : Given Predicate) (order : Given Comparator)
    (update : Given Transform) (options : Value) : Action σ (Option Value) := do
  let remove ← Action.ofExcept (option options "remove" false)
  let change ← if remove then pure none else transform update
  let query := c.find condition .nothing none
  let query := if order.isNothing then query else query.sort order
  match ← runQuery (query.addLimit 1) Cursor.items with
  | [] => return none
  | item :: _ =>
    if remove then
      c.store.erase item.id
      return some item.document
    let document ← Action.ofExcept (changed change item.document)
    c.store.write item.id document
    return some (if ← Action.ofExcept (option options "new" true) then document else item.document)

/-- Erases each item's document, and counts them. -/
def eraseAll (s : Store σ) : List Item → Action σ Nat
  | [] => return 0
  | item :: rest => do
    s.erase item.id
    return (← eraseAll s rest) + 1

/-- Erases the documents that meet a condition, or with `single` or `justOne` on the first. -/
def remove (c : Collection σ) (condition : Given Predicate) (options : Value) : Action σ Nat := do
  let query := c.find condition .nothing none
  let single ← Action.ofExcept do
    return (← option options "single" false) || (← option options "justOne" false)
  eraseAll c.store (← runQuery (if single then query.addLimit 1 else query) Cursor.items)

end Collection

end Cabinet
