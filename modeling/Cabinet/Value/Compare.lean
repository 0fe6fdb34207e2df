import Cabinet.Failure

/-!
# The order of values

`Value.compare` orders any two values: first by kind (null, numbers, texts, objects, lists, truth
values, all else), then within the kind. Objects are compared by their canonical texts, and so are
dates, times and bytes; lists item by item. A number that is neither equal to nor less than another
comes behind it, which makes not-a-number come behind every number.

Objects whose field names have no order in common have no canonical text, so comparing two objects
can fail.
-/

namespace Cabinet

/-- The place of a scalar's kind in the order. -/
def Scalar.rank : Scalar → Nat
  | .null => 0
  | .int _ | .float _ => 1
  | .text _ => 2
  | .bool _ => 5
  | .date _ | .timestamp _ | .bytes _ => 6

namespace Value

/-- The place of a value's kind in the order. -/
def rank : Value → Nat
  | .scalar s => s.rank
  | .object _ => 3
  | .list _ => 4

/-- The canonical text of a value, if it has one. -/
def canonical (v : Value) : Except Failure Text := (Json.canonical v).mapError .unwritable

/-- The order of the canonical texts of two values. -/
def compareCanonical (a b : Value) : Except Failure Ordering := do
  return (← a.canonical).compare (← b.canonical)

/-- The order of two scalars of one kind. -/
def compareScalars (a b : Scalar) : Except Failure Ordering :=
  match a, b with
  | .null, _ => .ok .eq
  | .text t, .text u => .ok (t.compare u)
  | a, b =>
    match a.number?, b.number? with
    | some x, some y => .ok ((x.compare y).getD .gt)
    | _, _ => compareCanonical (.scalar a) (.scalar b)

mutual

/-- The order of two values. -/
def compare (a b : Value) : Except Failure Ordering :=
  if a.rank ≠ b.rank then .ok (Ord.compare a.rank b.rank)
  else match a, b with
    | .scalar s, .scalar t => compareScalars s t
    | .list xs, .list ys => compareItems xs ys
    | a, b => compareCanonical a b

/-- The order of two lists: that of the first items that differ, or else the shorter one first. -/
def compareItems : List Value → List Value → Except Failure Ordering
  | [], [] => .ok .eq
  | [], _ :: _ => .ok .lt
  | _ :: _, [] => .ok .gt
  | x :: xs, y :: ys => do
    match ← compare x y with
    | .eq => compareItems xs ys
    | o => return o

end

end Value

end Cabinet
