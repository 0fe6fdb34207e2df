import Cabinet.Path.Function
import Cabinet.Path.Reader

/-!
# The value of a path expression

`Path.Expr.eval` applies an expression to a value. What is not there is null: a field of what is no
object, an item of what is no list. A projection drops the nulls among its results.
-/

namespace Cabinet.Path

/-- Whether a value counts as false in a path expression: null, false, and what is empty. -/
def isFalse : Value → Bool
  | .null | .bool false | .text [] | .list [] | .object [] => true
  | _ => false

/-- Whether a value is zero or one and no truth value. -/
def isBit (v : Value) : Bool :=
  match Call.number? v with
  | some n => n.same (.int 0) || n.same (.int 1)
  | none => false

def isBool : Value → Bool
  | .bool _ => true
  | _ => false

/-- Equality that keeps numbers and truth values apart, unless they are parts of a value. -/
def equalValues (a b : Value) : Bool :=
  if isBit a && isBool b || isBit b && isBool a then false else a.same b

/-- Whether a value has a place in the order of numbers or of texts. -/
def hasOrder (v : Value) : Bool := Kind.ofValue? v == some .number || Kind.ofValue? v == some .text

/-- A comparison; one that asks for an order of what has none is null. -/
def Comparison.apply (c : Comparison) (a b : Value) : Except EvalError Value :=
  let ordered (sign : String) (holds : Ordering → Bool) : Except EvalError Value :=
    if hasOrder a && hasOrder b then do
      return .bool ((← Call.order sign a b).any holds)
    else .ok .null
  match c with
  | .equal => .ok (.bool (equalValues a b))
  | .notEqual => .ok (.bool !(equalValues a b))
  | .less => ordered "<" (· == .lt)
  | .lessEqual => ordered "<=" (· != .gt)
  | .greater => ordered ">" (· == .gt)
  | .greaterEqual => ordered ">=" (· != .lt)

/-- The place that a number means in a list, which counts from the end if it is negative. -/
def placeOf? (length : Nat) (n : Int) : Option Nat :=
  let place := if n < 0 then n + length else n
  if 0 ≤ place ∧ place < length then some place.toNat else none

/-- The end of a slice, brought between `low` and `high`. -/
def sliceEnd (length : Nat) (low high : Int) (default : Int) : Option Int → Int
  | none => default
  | some n => max low (min high (if n < 0 then n + length else n))

/-- The items of a slice. -/
def sliceItems (start stop : Option Int) (step : Int) (xs : List Value) : List Value :=
  let length : Int := xs.length
  let places : List Int :=
    if 0 < step then
      let first := sliceEnd xs.length 0 length 0 start
      let last := sliceEnd xs.length 0 length length stop
      (List.range ((last - first + step - 1) / step).toNat).map fun (i : Nat) => first + i * step
    else
      let first := sliceEnd xs.length (-1) (length - 1) (length - 1) start
      let last := sliceEnd xs.length (-1) (length - 1) (-1) stop
      (List.range ((first - last - step - 1) / -step).toNat).map fun (i : Nat) => first + i * step
  places.filterMap fun n => xs[n.toNat]?

/-- The list with the items of the lists in it in their place. -/
def flattened : List Value → List Value
  | [] => []
  | .list ys :: xs => ys ++ flattened xs
  | x :: xs => x :: flattened xs

/-- Applies the right side of a projection to every item and drops the nulls. -/
def projectOver (right : Value → Except EvalError Value) (xs : List Value) :
    Except EvalError (List Value) := do
  return (← xs.mapM right).filter (· != .null)

/-- Applies the right side to every item that the condition holds of, and drops the nulls. -/
def filterOver (condition right : Value → Except EvalError Value) :
    List Value → Except EvalError (List Value)
  | [] => .ok []
  | x :: xs => do
    if isFalse (← condition x) then filterOver condition right xs
    else
      let y ← right x
      let ys ← filterOver condition right xs
      return if y = .null then ys else y :: ys

namespace Expr

mutual

/-- The value of an expression, applied to a value. -/
def eval : Expr → Value → Except EvalError Value
  | .current, v => .ok v
  | .field name, v =>
    match v with
    | .object fs => .ok (Document.getD fs (.text name))
    | _ => .ok .null
  | .literal x, _ => .ok x
  | .index n, v =>
    match v with
    | .list xs => .ok (((placeOf? xs.length n).bind (xs[·]?)).getD .null)
    | _ => .ok .null
  | .slice start stop step, v =>
    match v with
    | .list xs =>
      let step := step.getD 1
      if step = 0 then .error .zeroStep else .ok (.list (sliceItems start stop step xs))
    | _ => .ok .null
  | .andThen left right, v | .bracketed left right, v => do eval right (← eval left v)
  | .flatten list, v => do
    match ← eval list v with
    | .list xs => return .list (flattened xs)
    | _ => return .null
  | .project list right, v => do
    match ← eval list v with
    | .list xs => return .list (← projectOver (eval right) xs)
    | _ => return .null
  | .projectFields object right, v => do
    match ← eval object v with
    | .object fs => return .list (← projectOver (eval right) (fs.map (·.2)))
    | _ => return .null
  | .filter list right condition, v => do
    match ← eval list v with
    | .list xs => return .list (← filterOver (eval condition) (eval right) xs)
    | _ => return .null
  | .selectList items, v => do
    if v = .null then return .null
    return .list (← evalItems items v)
  | .selectObject fields, v => do
    if v = .null then return .null
    return .object (Document.ofPairs (← evalFields fields v))
  | .or left right, v => do
    let x ← eval left v
    if isFalse x then eval right v else return x
  | .and left right, v => do
    let x ← eval left v
    if isFalse x then return x else eval right v
  | .not e, v => do
    let x ← eval e v
    return .bool (!x.isTrue && (Call.number? x).isNone)
  | .compare c left right, v => do
    let x ← eval left v
    c.apply x (← eval right v)
  | .call name arguments, v => do Function.call name (← evalArguments arguments v)
  | .reference _, _ => .ok .null

def evalItems : List Expr → Value → Except EvalError (List Value)
  | [], _ => .ok []
  | e :: es, v => do return (← eval e v) :: (← evalItems es v)

def evalFields : List (Text × Expr) → Value → Except EvalError (List (Scalar × Value))
  | [], _ => .ok []
  | (name, e) :: fs, v => do return (.text name, ← eval e v) :: (← evalFields fs v)

def evalArguments : List Expr → Value → Except EvalError (List Argument)
  | [], _ => .ok []
  | .reference e :: es, v => do return .reference (eval e) :: (← evalArguments es v)
  | e :: es, v => do return .value (← eval e v) :: (← evalArguments es v)

end

end Expr

end Cabinet.Path
