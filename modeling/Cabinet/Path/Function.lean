import Cabinet.Json.Writer
import Cabinet.Number.Numeral
import Cabinet.Order
import Cabinet.Path.Expr

/-!
# Functions of path expressions

* `Path.Function` : the functions, looked up by `Function.ofName?`;
* `Function.parameters` : the kinds of argument that each takes;
* `Function.call` : checks the arguments and computes the value.

An argument is a value, or a reference to an expression that the function applies itself.
-/

namespace Cabinet.Path

/-- An argument, or a part of one, of a kind that does not belong there. -/
structure Mismatch where
  given : Text
  /-- The names of the kinds that are allowed. -/
  expected : List String
  received : String
  deriving DecidableEq, Repr

/-- What can go wrong when a path expression is applied to a value. -/
inductive EvalError where
  | unknownFunction (name : Text)
  | arity (function : Text) (expected received : Nat)
  /-- Fewer arguments than the least number. -/
  | variadicArity (function : Text) (expected received : Nat)
  | argument (function : Text) (m : Mismatch)
  /-- Two values without an order, and the sign that asks for it. -/
  | unordered (sign : String) (left right : String)
  | containsKind (kind : String)
  | noNumber (kind : String)
  | zeroStep
  | number (problem : Number.Problem)
  | notPairs (kind : String)
  | notPair (place : Nat)
  | pairLength (place length : Nat)
  | unhashable (kind : String)
  | unwritable (problem : Json.WriteError)
  deriving DecidableEq

inductive Argument where
  | value (v : Value)
  | reference (apply : Value → Except EvalError Value)

/-- The kinds of value that parameters ask for. -/
inductive Kind where
  | number
  | text
  | list
  | object
  | reference
  | listOf (item : Kind)
  deriving DecidableEq, Repr

/-- The name of a value's kind; dates, times and bytes have none. -/
def typeName? : Value → Option String
  | .null => some "null"
  | .text _ => some "string"
  | .bool _ => some "boolean"
  | .list _ => some "array"
  | .object _ => some "object"
  | .int _ | .float _ => some "number"
  | _ => none

/-- The name of a value's kind in messages. -/
def typeName (v : Value) : String := (typeName? v).getD "unknown"

namespace Kind

def name : Kind → String
  | .number => "number"
  | .text => "string"
  | .list => "array"
  | .object => "object"
  | .reference => "expref"
  | .listOf item => "array-" ++ item.name

/-- The kind of a value as far as parameters tell kinds apart. -/
def ofValue? : Value → Option Kind
  | .int _ | .float _ => some .number
  | .text _ => some .text
  | .list _ => some .list
  | .object _ => some .object
  | _ => none

/-- The kind of the items, if the kind asks for one. -/
def item? : Kind → Option Kind
  | .listOf k => some k
  | _ => none

/-- Whether the argument as a whole is of the kind. -/
def fits (a : Argument) : Kind → Bool
  | .reference => match a with
    | .reference _ => true
    | .value _ => false
  | .listOf _ | .list => match a with
    | .value (.list _) => true
    | _ => false
  | k => match a with
    | .value v => Kind.ofValue? v == some k
    | .reference _ => false

/-- The first item that is not of the kind that all have to be of: one of those that are allowed,
namely the one of the first item. -/
def misfit? (allowed : List Kind) : List Value → Option Value
  | [] => none
  | x :: xs =>
    match allowed.find? fun k => ofValue? x == some k with
    | none => some x
    | some k => xs.find? fun y => ofValue? y != some k

/-- What is wrong with an argument that has to be of one of the kinds; no kinds ask for nothing. -/
def mismatch? (kinds : List Kind) (a : Argument) : Option Mismatch :=
  let expected := kinds.map name
  if kinds.isEmpty then none
  else if !kinds.any (fits a) then
    match a with
    | .value v => some ⟨v.plain, expected, typeName v⟩
    | .reference _ => some ⟨"an expression".toText, expected, Kind.reference.name⟩
  else match a, kinds.filterMap item? with
    | _, [] => none
    | .value (.list xs), allowed =>
      (misfit? allowed xs).map fun x => ⟨x.plain, expected, x.kind⟩
    | _, _ => none

end Kind

inductive Function where
  | abs
  | avg
  | ceil
  | contains
  | endsWith
  | floor
  | join
  | keys
  | length
  | map
  | max
  | maxBy
  | merge
  | min
  | minBy
  | notNull
  | reverse
  | sort
  | sortBy
  | startsWith
  | sum
  | toArray
  | toNumber
  | toText
  | typeName
  | values
  deriving DecidableEq, Repr

namespace Function

def names : List (String × Function) :=
  [("abs", .abs), ("avg", .avg), ("ceil", .ceil), ("contains", .contains),
    ("ends_with", .endsWith), ("floor", .floor), ("join", .join), ("keys", .keys),
    ("length", .length), ("map", .map), ("max", .max), ("max_by", .maxBy), ("merge", .merge),
    ("min", .min), ("min_by", .minBy), ("not_null", .notNull), ("reverse", .reverse),
    ("sort", .sort), ("sort_by", .sortBy), ("starts_with", .startsWith), ("sum", .sum),
    ("to_array", .toArray), ("to_number", .toNumber), ("to_string", .toText),
    ("type", .typeName), ("values", .values)]

def ofName? (name : Text) : Option Function :=
  (names.find? fun entry => entry.1.toText = name).map (·.2)

/-- The kinds of each parameter. -/
def parameters : Function → List (List Kind)
  | .abs | .ceil | .floor => [[.number]]
  | .avg | .sum => [[.listOf .number]]
  | .contains => [[.list, .text], []]
  | .endsWith | .startsWith => [[.text], [.text]]
  | .join => [[.text], [.listOf .text]]
  | .keys | .values | .merge => [[.object]]
  | .length => [[.text, .list, .object]]
  | .map => [[.reference], [.list]]
  | .max | .min => [[.listOf .number, .listOf .text]]
  | .sort => [[.listOf .text, .listOf .number]]
  | .maxBy | .minBy | .sortBy => [[.list], [.reference]]
  | .reverse => [[.list, .text]]
  | .notNull | .toArray | .toNumber | .toText | .typeName => [[]]

/-- Whether the last parameter may have any number of arguments more. -/
def isVariadic : Function → Bool
  | .merge | .notNull => true
  | _ => false

end Function

namespace Call

/-! ## Comparing -/

def number? : Value → Option Number
  | .int n => some (.int n)
  | .float x => some (.float x)
  | _ => none

/-- The order of two numbers or two texts. `none` among numbers is for not-a-number. -/
def order (sign : String) (a b : Value) : Except EvalError (Option Ordering) :=
  match number? a, number? b with
  | some x, some y => .ok (x.compare y)
  | _, _ => match a, b with
    | .text t, .text u => .ok (some (t.compare u))
    | a, b => .error (.unordered sign a.kind b.kind)

def less (a b : Value) : Except EvalError Bool := do return (← order "<" a b) == some .lt

def greater (a b : Value) : Except EvalError Bool := do return (← order ">" a b) == some .gt

/-- The first item whose key is better than the key of every item before it. -/
def best (better : Value → Value → Except EvalError Bool)
    (key : Value → Except EvalError Value) : (soFar : Option (Value × Value)) → List Value →
    Except EvalError Value
  | none, [] => .ok .null
  | some (_, x), [] => .ok x
  | none, x :: xs => do best better key (some (← key x, x)) xs
  | some (k, x), y :: ys => do
    let l ← key y
    if ← better l k then best better key (some (l, y)) ys
    else best better key (some (k, x)) ys

/-- Refuses a value that is of none of the kinds that are allowed. -/
def refuse {α : Type} (function : String) (given : Value) (allowed : List Kind)
    (received : String) : Except EvalError α :=
  .error (.argument function.toText ⟨given.plain, allowed.map Kind.name, received⟩)

/-- The key of an item, which has to be of one of the kinds that are allowed. -/
def keyOf (function : String) (apply : Value → Except EvalError Value) (allowed : List Kind)
    (x : Value) : Except EvalError Value := do
  let k ← apply x
  if (Kind.ofValue? k).any allowed.elem then return k
  else refuse function k allowed (typeName k)

/-- The items in the order of their keys, which all are of the kind of the first one. -/
def sortBy (apply : Value → Except EvalError Value) : List Value → Except EvalError (List Value)
  | [] => .ok []
  | x :: xs => do
    let first ← apply x
    match (Kind.ofValue? first).filter [.number, .text].elem with
    | some kind =>
      let keyed ← (x :: xs).mapM fun y => do return (← keyOf "sort_by" apply [kind] y, y)
      return (← Order.sort (fun a b => less a.1 b.1) keyed).map (·.2)
    | none => refuse "sort_by" x [.text, .number] (typeName first)

/-! ## Numbers -/

def lift {α : Type} (r : Except Number.Problem α) : Except EvalError α := r.mapError .number

def sum : List Value → Except EvalError Number :=
  List.foldlM (fun total x => lift (total.add ((number? x).getD (.int 0)))) (.int 0)

def average (xs : List Value) : Except EvalError Value := do
  if xs.isEmpty then return .null
  return .float ((← lift (← sum xs).toDouble).divNat xs.length)

/-- The number that a text is the numeral of, or null. -/
def readNumber (t : Text) : Value :=
  match Number.readInt? t with
  | some n => .int n
  | none => match Number.readDouble? t with
    | some x => .float x
    | none => .null

def toNumber : Value → Except EvalError Value
  | .int n => .ok (.int n)
  | .float x => .ok (.float x)
  | .text t => .ok (readNumber t)
  | .scalar (.bytes content) =>
    if content.any (127 < ·) then .ok .null
    else .ok (readNumber (content.map fun b => .char (Char.ofNat b.toNat)))
  | .scalar (.date d) => .error (.noNumber (Value.scalar (.date d)).kind)
  | .scalar (.timestamp t) => .error (.noNumber (Value.scalar (.timestamp t)).kind)
  | _ => .ok .null

/-! ## Objects -/

/-- The two parts of a pair that a list or a text of two items makes. -/
def pair (place : Nat) : Value → Except EvalError (Value × Value)
  | .list [a, b] => .ok (a, b)
  | .list xs => .error (.pairLength place xs.length)
  | .text [p, q] => .ok (.text [p], .text [q])
  | .text t => .error (.pairLength place t.length)
  | .object [(k, _), (l, _)] => .ok (.scalar k, .scalar l)
  | .object fs => .error (.pairLength place fs.length)
  | _ => .error (.notPair place)

/-- The fields that an argument adds to an object: those of an object, or a list of pairs. -/
def fieldsOf : Value → Except EvalError (List (Scalar × Value))
  | .object fs => .ok fs
  | .list xs => xs.zipIdx.mapM field
  | .text t => (t.map fun p => Value.text [p]).zipIdx.mapM field
  | v => .error (.notPairs v.kind)
where
  /-- The field that a pair at a place makes. -/
  field : Value × Nat → Except EvalError (Scalar × Value)
    | (x, place) => do
      match ← pair place x with
      | (.scalar k, y) => return (k, y)
      | (k, _) => throw (.unhashable k.kind)

def merge : Document → List Value → Except EvalError Value
  | d, [] => .ok (.object d)
  | d, x :: xs => do merge ((← fieldsOf x).foldl (fun d (k, y) => d.set k y) d) xs

/-! ## Calls -/

def toText (v : Value) : Except EvalError Value :=
  match v with
  | .text t => .ok (.text t)
  | v => match Json.checkNames v with
    | .ok _ => .ok (.text (Json.render .dense 0 v))
    | .error e => .error (.unwritable e)

def contains : Value → Value → Except EvalError Value
  | .list xs, y => .ok (.bool (xs.any fun x => x.same y))
  | .text t, .text part => .ok (.bool (Text.contains part t))
  | _, y => .error (.containsKind y.kind)

/-- The value of a call whose arguments have the right number and the right kinds. -/
def apply (f : Function) (arguments : List Argument) : Except EvalError Value :=
  match f, arguments with
  | .abs, [.value v] => .ok (((number? v).map fun n => .ofNumber n.abs).getD .null)
  | .avg, [.value (.list xs)] => average xs
  | .ceil, [.value v] => do return .int (← lift ((number? v).getD (.int 0)).ceil)
  | .floor, [.value v] => do return .int (← lift ((number? v).getD (.int 0)).floor)
  | .contains, [.value v, .value x] => contains v x
  | .contains, [.value (.list _), .reference _] => .ok (.bool false)
  | .contains, [.value _, .reference _] => .error (.containsKind "_Expression")
  | .endsWith, [.value (.text t), .value (.text u)] => .ok (.bool (Text.endsWith t u))
  | .startsWith, [.value (.text t), .value (.text u)] => .ok (.bool (Text.startsWith t u))
  | .join, [.value (.text between), .value (.list xs)] =>
    .ok (.text (Text.join between (xs.filterMap fun
      | .text t => some t
      | _ => none)))
  | .keys, [.value (.object fs)] => .ok (.list (fs.map fun f => .scalar f.1))
  | .values, [.value (.object fs)] => .ok (.list (fs.map (·.2)))
  | .length, [.value (.text t)] => .ok (.int t.length)
  | .length, [.value (.list xs)] => .ok (.int xs.length)
  | .length, [.value (.object fs)] => .ok (.int fs.length)
  | .map, [.reference g, .value (.list xs)] => do return .list (← xs.mapM g)
  | .max, [.value (.list xs)] => best greater .ok none xs
  | .min, [.value (.list xs)] => best less .ok none xs
  | .maxBy, [.value (.list xs), .reference g] =>
    best greater (keyOf "max_by" g [.number, .text]) none xs
  | .minBy, [.value (.list xs), .reference g] =>
    best less (keyOf "min_by" g [.number, .text]) none xs
  | .merge, arguments => merge [] (arguments.map valueOf)
  | .notNull, arguments => .ok (((arguments.map valueOf).find? (· != .null)).getD .null)
  | .reverse, [.value (.text t)] => .ok (.text t.reverse)
  | .reverse, [.value (.list xs)] => .ok (.list xs.reverse)
  | .sort, [.value (.list xs)] => do return .list (← Order.sort less xs)
  | .sortBy, [.value (.list xs), .reference g] => do return .list (← sortBy g xs)
  | .sum, [.value (.list xs)] => do return .ofNumber (← sum xs)
  | .toArray, [.value (.list xs)] => .ok (.list xs)
  | .toArray, [.value v] => .ok (.list [v])
  | .toNumber, [.value v] => toNumber v
  | .toText, [.value v] => toText v
  | .typeName, [.value v] => .ok (((typeName? v).map fun kind => .text kind.toText).getD .null)
  | _, _ => .ok .null
where
  /-- The value of an argument; a reference has none. -/
  valueOf : Argument → Value
    | .value v => v
    | .reference _ => .null

end Call

namespace Function

/-- Calls the function of a name. -/
def call (name : Text) (arguments : List Argument) : Except EvalError Value := do
  match ofName? name with
  | none => throw (.unknownFunction name)
  | some f =>
    if f.isVariadic then
      if arguments.length < f.parameters.length then
        throw (.variadicArity name f.parameters.length arguments.length)
    else if arguments.length != f.parameters.length then
      throw (.arity name f.parameters.length arguments.length)
    match (f.parameters.zip arguments).findSome? fun (kinds, a) => Kind.mismatch? kinds a with
    | some m => throw (.argument name m)
    | none => Call.apply f arguments

end Function

def EvalError.message : EvalError → Text
  | .unknownFunction name => "Unknown function: ".toText ++ name ++ "()".toText
  | .arity name expected received =>
    "Expected ".toText ++ arityText name expected received
  | .variadicArity name expected received =>
    "Expected at least ".toText ++ arityText name expected received
  | .argument name m =>
    "In function ".toText ++ name ++ "(), invalid type for value: ".toText ++ m.given
      ++ ", expected one of: ".toText
      ++ (Value.list (m.expected.map fun kind => .text kind.toText)).shown
      ++ ", received: \"".toText ++ m.received.toText ++ "\"".toText
  | .unordered sign left right =>
    ("'" ++ sign ++ "' not supported between instances of '" ++ left ++ "' and '" ++ right
      ++ "'").toText
  | .containsKind kind =>
    ("'in <string>' requires string as left operand, not " ++ kind).toText
  | .noNumber kind =>
    ("int() argument must be a string, a bytes-like object or a real number, not '" ++ kind
      ++ "'").toText
  | .zeroStep => "slice step cannot be zero".toText
  | .number problem => problem.message
  | .notPairs kind => ("'" ++ kind ++ "' object is not iterable").toText
  | .notPair place =>
    "cannot convert dictionary update sequence element #".toText ++ Text.ofNat place
      ++ " to a sequence".toText
  | .pairLength place length =>
    "dictionary update sequence element #".toText ++ Text.ofNat place ++ " has length ".toText
      ++ Text.ofNat length ++ "; 2 is required".toText
  | .unhashable kind => ("unhashable type: '" ++ kind ++ "'").toText
  | .unwritable problem => problem.message
where
  /-- How many arguments there have to be, and how many there are. -/
  arityText (function : Text) (expected received : Nat) : Text :=
    Text.ofNat expected ++ (if expected = 1 then " argument" else " arguments").toText
      ++ " for function ".toText ++ function ++ "(), received ".toText ++ Text.ofNat received

end Cabinet.Path
