import Cabinet.Number.Shortest

/-!
# Numbers of either kind

A number is an integer of any size or a double. The two kinds are compared by their exact values,
so `1` and `1.0` are equal although they are not the same.

* `Number.compare` : the exact order, which not-a-number has no place in;
* `Number.add` : an integer if both operands are integers, otherwise the double sum;
* `Number.text` : digits for an integer, the shortest decimal form for a double.
-/

namespace Cabinet

inductive Number where
  | int (n : Int)
  | float (x : Double)
  deriving DecidableEq

namespace Number

/-- An integer beyond the doubles has no double nearest to it. -/
inductive Problem where
  | tooLarge
  | infinite
  | notANumber
  deriving DecidableEq, Repr

def compare : Number → Number → Option Ordering
  | .int n, .int m => some (Ord.compare n m)
  | .int n, .float y => (y.compareInt n).map Ordering.swap
  | .float x, .int m => x.compareInt m
  | .float x, .float y => x.compare y

/-- Equality of values. Not-a-number equals nothing. -/
def same (a b : Number) : Bool := compare a b == some .eq

/-- Difference of values. Not-a-number differs from everything. -/
def differs (a b : Number) : Bool :=
  match compare a b with
  | some o => o != .eq
  | none => true

def isZero : Number → Bool
  | .int n => n == 0
  | .float x => x.isZero

/-- The double nearest to a number. -/
def toDouble : Number → Except Problem Double
  | .float x => .ok x
  | .int n => match Double.ofInt? n with
    | some x => .ok x
    | none => .error .tooLarge

def add : Number → Number → Except Problem Number
  | .int n, .int m => .ok (.int (n + m))
  | a, b => do return .float ((← a.toDouble).add (← b.toDouble))

def abs : Number → Number
  | .int n => .int n.natAbs
  | .float x => .float x.abs

/-- Why a double has no integer part. -/
def Problem.ofDouble : Double → Problem
  | .nan => .notANumber
  | _ => .infinite

/-- Drops the fraction. -/
def truncate : Number → Except Problem Int
  | .int n => .ok n
  | .float x => x.truncate.mapError .ofDouble

def floor : Number → Except Problem Int
  | .int n => .ok n
  | .float x => x.floor.mapError .ofDouble

def ceil : Number → Except Problem Int
  | .int n => .ok n
  | .float x => x.ceil.mapError .ofDouble

def text : Number → Text
  | .int n => Text.ofInt n
  | .float x => x.text

def Problem.message : Problem → Text
  | .tooLarge => "int too large to convert to float".toText
  | .infinite => "cannot convert float infinity to integer".toText
  | .notANumber => "cannot convert float NaN to integer".toText

end Number

end Cabinet
