import Cabinet.Calendar
import Cabinet.Number.Basic

/-!
# Document values

* `Scalar` : a value without parts; what a field is named by is a scalar, too;
* `Value` : a scalar, a list, or an object with its fields in order;
* `Document` : the fields of an object;
* `Scalar.same`, `Value.same` : equality of values, by which `1`, `1.0` and `true` are equal and the
  order of fields does not count;
* `Scalar.differs`, `Value.differs` : difference of values, which is asked for on its own;
* `Document.get?`, `Document.set`, `Document.erase` : access by field name.

Field names are compared by `Scalar.same`. Setting a field that is there keeps its name and its
place; a new field comes last.
-/

namespace Cabinet

inductive Scalar where
  | null
  | bool (b : Bool)
  | int (n : Int)
  | float (x : Double)
  | text (t : Text)
  | date (d : Date)
  | timestamp (t : Timestamp)
  | bytes (content : List UInt8)
  deriving DecidableEq

instance : Inhabited Scalar := ⟨.null⟩

inductive Value where
  | scalar (s : Scalar)
  | list (items : List Value)
  | object (fields : List (Scalar × Value))

instance : Inhabited Value := ⟨.scalar .null⟩

/-- The fields of an object, in order. -/
abbrev Document := List (Scalar × Value)

namespace Scalar

/-- The number a scalar counts as: `true` is one, and `false` is zero. -/
def number? : Scalar → Option Number
  | .bool b => some (.int (if b then 1 else 0))
  | .int n => some (.int n)
  | .float x => some (.float x)
  | _ => none

/-- Equality of values; numbers of all kinds are compared by their exact values. -/
def same (a b : Scalar) : Bool :=
  match a.number?, b.number? with
  | some x, some y => x.same y
  | none, none => match a, b with
    | .timestamp t, .timestamp u => t.same u
    | _, _ => a == b
  | _, _ => false

/-- Difference of values; what is of two kinds that are not both numbers differs. -/
def differs (a b : Scalar) : Bool :=
  match a.number?, b.number? with
  | some x, some y => x.differs y
  | none, none => match a, b with
    | .timestamp t, .timestamp u => !t.same u
    | _, _ => a != b
  | _, _ => true

/-- Null, false, zero and what is empty count as false. -/
def isTrue : Scalar → Bool
  | .null => false
  | .bool b => b
  | .int n => n != 0
  | .float x => !x.isZero
  | .text t => !t.isEmpty
  | .date _ | .timestamp _ => true
  | .bytes content => !content.isEmpty

/-- The name of a scalar's kind. -/
def kind : Scalar → String
  | .null => "NoneType"
  | .bool _ => "bool"
  | .int _ => "int"
  | .float _ => "float"
  | .text _ => "str"
  | .date _ => "date"
  | .timestamp _ => "datetime"
  | .bytes _ => "bytes"

end Scalar

namespace Document

/-- The value of a field. -/
def get? : Document → Scalar → Option Value
  | [], _ => none
  | (name, value) :: rest, key => if name.same key then some value else get? rest key

def has (d : Document) (key : Scalar) : Bool := (d.get? key).isSome

/-- Gives a field a value. -/
def set : Document → Scalar → Value → Document
  | [], key, value => [(key, value)]
  | (name, old) :: rest, key, value =>
    if name.same key then (name, value) :: rest else (name, old) :: set rest key value

/-- Drops a field. -/
def erase : Document → Scalar → Document
  | [], _ => []
  | (name, value) :: rest, key =>
    if name.same key then rest else (name, value) :: erase rest key

/-- The document that results from setting fields one after another. -/
def ofPairs (pairs : List (Scalar × Value)) : Document :=
  pairs.foldl (fun d (key, value) => d.set key value) []

end Document

namespace Value

@[match_pattern] abbrev null : Value := .scalar .null
@[match_pattern] abbrev bool (b : Bool) : Value := .scalar (.bool b)
@[match_pattern] abbrev int (n : Int) : Value := .scalar (.int n)
@[match_pattern] abbrev float (x : Double) : Value := .scalar (.float x)
@[match_pattern] abbrev text (t : Text) : Value := .scalar (.text t)

/-- The value of a number. -/
def ofNumber : Number → Value
  | .int n => .int n
  | .float x => .float x

mutual

/-- Equality of values, whatever the order of the fields of objects. -/
def same : Value → Value → Bool
  | .scalar s, .scalar t => s.same t
  | .list xs, .list ys => sameItems xs ys
  | .object fs, .object gs => fs.length == gs.length && sameFields fs gs
  | _, _ => false

def sameItems : List Value → List Value → Bool
  | [], [] => true
  | x :: xs, y :: ys => same x y && sameItems xs ys
  | _, _ => false

/-- Whether each field is a field of the document with the same value. -/
def sameFields : List (Scalar × Value) → Document → Bool
  | [], _ => true
  | (key, x) :: fs, gs =>
    (match Document.get? gs key with
      | some y => same x y
      | none => false) && sameFields fs gs

end

/-- Difference of values. Lists and objects differ unless they have equally many items and each item
is the same. -/
def differs : Value → Value → Bool
  | .scalar s, .scalar t => s.differs t
  | .list xs, .list ys => !sameItems xs ys
  | .object fs, .object gs => fs.length != gs.length || !sameFields fs gs
  | _, _ => true

/-- Null, false, zero and what is empty count as false. -/
def isTrue : Value → Bool
  | .scalar s => s.isTrue
  | .list xs => !xs.isEmpty
  | .object fs => !fs.isEmpty

/-- The name of a value's kind. -/
def kind : Value → String
  | .scalar s => s.kind
  | .list _ => "list"
  | .object _ => "dict"

mutual

/-- Equality in every detail can be decided. -/
def decEq : (x y : Value) → Decidable (x = y)
  | .scalar s, .scalar t =>
    if h : s = t then .isTrue (by rw [h]) else .isFalse (by simp [h])
  | .list xs, .list ys => match decEqItems xs ys with
    | .isTrue h => .isTrue (by rw [h])
    | .isFalse h => .isFalse (by simp [h])
  | .object fs, .object gs => match decEqFields fs gs with
    | .isTrue h => .isTrue (by rw [h])
    | .isFalse h => .isFalse (by simp [h])
  | .scalar _, .list _ | .scalar _, .object _ | .list _, .scalar _ | .list _, .object _
  | .object _, .scalar _ | .object _, .list _ => .isFalse (by simp)

def decEqItems : (xs ys : List Value) → Decidable (xs = ys)
  | [], [] => .isTrue rfl
  | x :: xs, y :: ys => match decEq x y, decEqItems xs ys with
    | .isTrue h, .isTrue h' => .isTrue (by rw [h, h'])
    | .isFalse h, _ => .isFalse (by simp [h])
    | _, .isFalse h => .isFalse (by simp [h])
  | [], _ :: _ | _ :: _, [] => .isFalse (by simp)

def decEqFields : (fs gs : List (Scalar × Value)) → Decidable (fs = gs)
  | [], [] => .isTrue rfl
  | (k, x) :: fs, (l, y) :: gs =>
    if hk : k = l then
      match decEq x y, decEqFields fs gs with
      | .isTrue h, .isTrue h' => .isTrue (by rw [h, h', hk])
      | .isFalse h, _ => .isFalse (by simp [h])
      | _, .isFalse h => .isFalse (by simp [h])
    else .isFalse (by simp [hk])
  | [], _ :: _ | _ :: _, [] => .isFalse (by simp)

end

instance : DecidableEq Value := decEq

end Value

/-- The value of a field, or null if the document has no such field. -/
def Document.getD (d : Document) (key : Scalar) : Value := (d.get? key).getD .null

end Cabinet
