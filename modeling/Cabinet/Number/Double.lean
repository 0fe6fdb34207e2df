/-!
# Double-precision numbers

Every finite double is a whole number of units of `2 ^ -1074`, so the exact value of a double is a
sign and a natural number. Arithmetic is exact arithmetic on units, followed by one rounding to the
nearest double, a half going to the even neighbour.

* `Double` : a finite number with its sign (zero has two), an infinity, or not a number;
* `Double.ofRatio` : the double nearest to a quotient; it is infinite from the middle between the
  largest finite double and `2 ^ 1024` on;
* `Double.ofInt?`, `Double.ofDecimal` : the doubles nearest to an integer and to a decimal number;
* `Double.add`, `Double.divNat` : a sum, and a quotient by a natural number;
* `Double.compare`, `Double.compareInt` : exact comparison with a double and with an integer.
-/

namespace Cabinet

namespace Double

/-- The units that make up one. -/
def one : Nat := Nat.pow 2 1074

/-- The units of the least magnitude above every finite one. -/
def bound : Nat := Nat.pow 2 2098

/-- The exponent of the last binary place of a magnitude of `units`: a magnitude has 53 places, and
none is below the unit. -/
def lastPlace (units : Nat) : Nat := units.log2 - 52

/-- A magnitude below the bound whose places below the last are all zero. -/
def Representable (units : Nat) : Prop :=
  units < bound ∧ units % Nat.pow 2 (lastPlace units) = 0

instance (units : Nat) : Decidable (Representable units) :=
  inferInstanceAs (Decidable (_ ∧ _))

end Double

/-- A double-precision number. -/
inductive Double where
  | nan
  | infinity (negative : Bool)
  | finite (negative : Bool) (units : Nat) (representable : Double.Representable units)
  deriving DecidableEq

namespace Double

instance : Inhabited Double := ⟨.nan⟩

/-- A natural number with a sign. -/
def signed (negative : Bool) (n : Nat) : Int := if negative then -(n : Int) else n

/-- The nearest integer to a quotient; a half goes to the even neighbour. -/
def roundHalfEven (num den : Nat) : Nat :=
  let quotient := num / den
  let twice := 2 * (num % den)
  if twice < den then quotient
  else if den < twice then quotient + 1
  else if quotient % 2 = 0 then quotient else quotient + 1

/-- The quotient, which is a number of units, rounded to its last place. -/
def roundUnits (num den : Nat) : Nat :=
  let place := Nat.pow 2 (lastPlace (num / den))
  roundHalfEven num (den * place) * place

/-- The double of so many units; a magnitude out of reach is infinite. -/
def ofUnits (negative : Bool) (units : Nat) : Double :=
  if h : Representable units then .finite negative units h else .infinity negative

/-- The double nearest to `num / den`. -/
def ofRatio (negative : Bool) (num den : Nat) : Double :=
  ofUnits negative (roundUnits (num * one) den)

/-- The double nearest to an integer, unless that is infinite. -/
def ofInt? (n : Int) : Option Double :=
  match ofRatio (n < 0) n.natAbs 1 with
  | .infinity _ => none
  | x => some x

/-- Zero with a sign. -/
def zero (negative : Bool) : Double := ofUnits negative 0

/-- The double nearest to `digits * 10 ^ exponent`. The first two cases only spare the work: past
`10 ^ 400` every number is infinite, and one below a half unit is zero. -/
def ofDecimal (negative : Bool) (digits : Nat) (exponent : Int) : Double :=
  if digits = 0 then zero negative
  else match exponent with
    | .ofNat e => if 400 < e then .infinity negative else ofRatio negative (digits * Nat.pow 10 e) 1
    | .negSucc e =>
      if digits.log2 + 1077 < 3 * (e + 1) then zero negative
      else ofRatio negative digits (Nat.pow 10 (e + 1))

def isFinite : Double → Bool
  | .finite .. => true
  | _ => false

def isNegative : Double → Bool
  | .nan => false
  | .infinity negative => negative
  | .finite negative .. => negative

def neg : Double → Double
  | .nan => .nan
  | .infinity negative => .infinity !negative
  | .finite negative units h => .finite (!negative) units h

def abs : Double → Double
  | .nan => .nan
  | .infinity _ => .infinity false
  | .finite _ units h => .finite false units h

/-- The sum. A sum of zero is negative only if both operands are negative. -/
def add : Double → Double → Double
  | .finite n a _, .finite m b _ =>
    let sum := signed n a + signed m b
    if sum = 0 then zero (n && m) else ofUnits (sum < 0) (roundUnits sum.natAbs 1)
  | .infinity n, .infinity m => if n = m then .infinity n else .nan
  | .infinity n, .finite .. | .finite .., .infinity n => .infinity n
  | .nan, _ | _, .nan => .nan

/-- The product. Infinity times zero is not a number. -/
def mul : Double → Double → Double
  | .finite n a _, .finite m b _ => ofUnits (n != m) (roundUnits (a * b) one)
  | .infinity n, .infinity m => .infinity (n != m)
  | .infinity n, .finite m units _ | .finite m units _, .infinity n =>
    if units = 0 then .nan else .infinity (n != m)
  | .nan, _ | _, .nan => .nan

/-- The quotient by a natural number above zero. -/
def divNat (x : Double) (n : Nat) : Double :=
  match x with
  | .nan => .nan
  | .infinity negative => .infinity negative
  | .finite negative units _ => ofUnits negative (roundUnits units n)

/-- The order of two doubles, which only exists between numbers. -/
def compare : Double → Double → Option Ordering
  | .nan, _ | _, .nan => none
  | .infinity n, .infinity m => some (if n = m then .eq else if n then .lt else .gt)
  | .infinity n, .finite .. => some (if n then .lt else .gt)
  | .finite .., .infinity n => some (if n then .gt else .lt)
  | .finite n a _, .finite m b _ => some (Ord.compare (signed n a) (signed m b))

/-- The exact order of a double and an integer. -/
def compareInt : Double → Int → Option Ordering
  | .nan, _ => none
  | .infinity n, _ => some (if n then .lt else .gt)
  | .finite negative units _, n => some (Ord.compare (signed negative units) (n * one))

/-- The integer part, which drops the fraction; a number without one is the reason. -/
def truncate : Double → Except Double Int
  | .finite negative units _ => .ok (signed negative (units / one))
  | x => .error x

/-- The greatest integer that is not above the number. -/
def floor : Double → Except Double Int
  | .finite negative units _ => .ok (signed negative units / (one : Int))
  | x => .error x

/-- The least integer that is not below the number. -/
def ceil (x : Double) : Except Double Int := x.neg.floor.map (- ·)

/-- Whether the number is zero, of either sign. -/
def isZero : Double → Bool
  | .finite _ units _ => units == 0
  | _ => false

end Double

end Cabinet
