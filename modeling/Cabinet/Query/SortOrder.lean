import Cabinet.Order
import Cabinet.Query.Given
import Cabinet.Value.Compare

/-!
# Sort orders

A sort order names fields with a direction each, `1` for ascending and `-1` for descending; a later
field decides between documents that the earlier ones leave equal. It is given as an object or as a
list of pairs.

* `SortOrder.keys` : the fields and directions, or what is wrong first;
* `SortOrder.compile` : the comparator of a sort order;
* `SortOrder.sort` : sorts documents by a comparator.
-/

namespace Cabinet.SortOrder

/-- A field to sort by, and whether it sorts in descending order. -/
structure Key where
  field : Text
  descending : Bool
  deriving DecidableEq, Repr

/-- The pairs of a list. -/
def pairs (given : Value) : List Value → Except QueryError (List (Value × Value))
  | [] => .ok []
  | .list [a, b] :: rest => do return (a, b) :: (← pairs given rest)
  | _ => .error (.order given)

/-- The key that a field and a direction make. -/
def key (field direction : Value) : Except QueryError Key :=
  match field with
  | .text field =>
    let number := match direction with
      | .int n => some (Number.int n)
      | .float x => some (Number.float x)
      | _ => none
    match number with
    | none => .error (.direction field direction)
    | some n =>
      if n.same (.int 1) then .ok ⟨field, false⟩
      else if n.same (.int (-1)) then .ok ⟨field, true⟩
      else .error (.direction field direction)
  | field => .error (.orderName field)

/-- The keys of a sort order. -/
def keys (given : Value) : Except QueryError (List Key) := do
  let pairs ← match given with
    | .object fields => .ok (fields.map fun f => (.scalar f.1, f.2))
    | .list items => pairs given items
    | given => .error (.order given)
  pairs.mapM fun (field, direction) => key field direction

/-- The sign of an order. -/
def sign : Ordering → Int
  | .lt => -1
  | .eq => 0
  | .gt => 1

/-- Compares two documents key by key. -/
def compareBy : List Key → Comparator
  | [], _, _ => .ok 0
  | k :: ks, a, b => do
    match ← Value.compare (← a.field (.text k.field)) (← b.field (.text k.field)) with
    | .eq => compareBy ks a b
    | o => return if k.descending then -sign o else sign o

/-- The comparator of a sort order; without keys all documents are equal. -/
def compile : Given Comparator → Except QueryError Comparator
  | .function c => .ok c
  | .value .null => .ok (compareBy [])
  | .value given => do return compareBy (← keys given)

/-- Sorts a list by what a comparator makes of the documents in it. -/
def sort {α : Type} (document : α → Value) (compare : Comparator) (xs : List α) :
    Except Failure (List α) :=
  Order.sort (fun x y => do return (← compare (document x) (document y)) < 0) xs

end Cabinet.SortOrder
