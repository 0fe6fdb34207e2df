import Cabinet.Number.Numeral
import Cabinet.Query.Given

/-!
# Updates

An update names operators, each with arguments by field. The operators always run in the order of
`Update.Operator.all`, whatever their order in the update.

* `Update.toNumber` : the number that a value counts as when it is incremented;
* `Update.Operator.apply` : what an operator makes of a document;
* `Update.compile` : the transform of an update, if it does anything.
-/

namespace Cabinet.Update

inductive Operator where
  | set
  | unset
  | rename
  | push
  | pull
  | inc
  deriving DecidableEq, Repr

namespace Operator

/-- The operators in the order in which they run. -/
def all : List Operator := [.set, .unset, .rename, .push, .pull, .inc]

def name : Operator → String
  | .set => "$set"
  | .unset => "$unset"
  | .rename => "$rename"
  | .push => "$push"
  | .pull => "$pull"
  | .inc => "$inc"

def ofName? (name : Scalar) : Option Operator :=
  all.find? fun op => .text op.name.toText = name

end Operator

/-- The number a value counts as: a finite number itself, a text the numeral that it starts with,
anything else zero. -/
def toNumber : Value → Number
  | .int n => .int n
  | .float x => if x.isFinite then .float x else .int 0
  | .text t =>
    match (Numeral.leading? t).map Numeral.value with
    | some (.int n) => .int n
    | some (.float x) => if x.isFinite then .float x else .int 0
    | none => .int 0
  | _ => .int 0

/-! ## Operators on one field -/

/-- Moves a value to another field, which comes last unless it is there already. -/
def renameField (d : Document) (key : Scalar) (target : Value) : Except Failure Document :=
  match d.get? key with
  | none => .ok d
  | some x =>
    match target with
    | .scalar newKey => .ok ((d.erase key).set newKey x)
    | target => .error (.unhashable target.kind)

/-- Appends an item to a field; what is no list becomes one first. -/
def pushItem (d : Document) (key : Scalar) (item : Value) : Document :=
  let old := match d.get? key with
    | none => []
    | some (.list xs) => xs
    | some x => [x]
  d.set key (.list (old ++ [item]))

/-- Takes a value out of a field. -/
def pullItem (d : Document) (key : Scalar) (item : Value) : Document :=
  match d.get? key with
  | none => d
  | some (.list xs) => d.set key (.list (xs.filter fun x => !x.same item))
  | some x => if x.same item then d.set key (.list []) else d

/-- Adds a number to a field. -/
def increment (d : Document) (key : Scalar) (amount : Value) : Except Failure Document := do
  let sum ← ((toNumber (d.getD key)).add (toNumber amount)).mapError .number
  return d.set key (.ofNumber sum)

/-- What an operator with one argument makes of a document. -/
def Operator.applyTo (op : Operator) (d : Document) (key : Scalar) (x : Value) :
    Except Failure Document :=
  match op with
  | .set => .ok (d.set key x)
  | .unset => .ok (d.erase key)
  | .rename => renameField d key x
  | .push => .ok (pushItem d key x)
  | .pull => .ok (pullItem d key x)
  | .inc => increment d key x

/-- What an operator makes of a document, argument by argument. -/
def Operator.apply (op : Operator) : Document → (arguments : List (Scalar × Value)) →
    Except Failure Document
  | d, [] => .ok d
  | d, (key, x) :: rest => do op.apply (← op.applyTo d key x) rest

/-! ## Updates -/

/-- Operators with their arguments, in the order in which they run. -/
abbrev Steps := List (Operator × List (Scalar × Value))

/-- What steps make of a document. -/
def applySteps : Steps → Document → Except Failure Document
  | [], d => .ok d
  | (op, arguments) :: rest, d => do applySteps rest (← op.apply d arguments)

/-- What steps make of a value: only objects can be changed, and nothing stays nothing. -/
def mutate (steps : Steps) : Transform
  | .null => .ok .null
  | .object d => do return .object (← applySteps steps d)
  | v => .error (.noItems v.kind)

/-- The arguments that an update gives an operator. -/
def argumentsOf? (update : List (Scalar × Value)) (op : Operator) :
    Option (List (Scalar × Value)) :=
  match Document.get? update (.text op.name.toText) with
  | some (.object arguments) => some arguments
  | _ => none

/-- The first entry that is no operator with arguments by field. -/
def firstBad? (update : List (Scalar × Value)) : Option Scalar :=
  (update.find? fun (key, arguments) =>
    (Operator.ofName? key).isNone || match arguments with
      | .object _ => false
      | _ => true).map (·.1)

/-- The steps of an update. -/
def steps (update : List (Scalar × Value)) : Except QueryError Steps :=
  match firstBad? update with
  | some key => .error (.operator (.scalar key))
  | none => .ok (Operator.all.filterMap fun op => (argumentsOf? update op).map fun a => (op, a))

/-- The transform of an update; an update without operators has none. -/
def compile : Given Transform → Except QueryError (Option Transform)
  | .function f => .ok (some f)
  | .value .null | .value (.object []) => .ok none
  | .value (.object update) => do return some (mutate (← steps update))
  | .value given => .error (.operator given)

end Cabinet.Update
