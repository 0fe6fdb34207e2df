import Cabinet.Number.Double
import Cabinet.Text.Basic

/-!
# The shortest decimal form of a double

A finite double is written with the fewest significant digits that read back as the same double; of
several such numbers the nearest is taken, and of two equally near ones the even one.

* `Shortest.interval` : the numbers that round to a magnitude, in quarters of a unit;
* `Shortest.digits` : the digits, and where the decimal point stands among them;
* `Double.text` : positional notation for exponents from `-4` to `15`, scientific notation
  otherwise; a whole number keeps `.0`.
-/

namespace Cabinet

namespace Shortest

/-- The quarters of a unit that make up one. -/
def one : Nat := 4 * Double.one

/-- The numbers that round to a magnitude, as quarters of a unit; the ends belong to them if the
last place is even. -/
structure Interval where
  low : Nat
  value : Nat
  high : Nat
  closed : Bool

/-- Below a power of two the doubles lie twice as close as above it. -/
def interval (units : Nat) : Interval :=
  let place := Nat.pow 2 (Double.lastPlace units)
  let mantissa := units / place
  let below := if mantissa = Nat.pow 2 52 && place != 1 then place else 2 * place
  ⟨4 * units - below, 4 * units, 4 * units + 2 * place, mantissa % 2 == 0⟩

/-- Whether `num / den` quarters of a unit lie in the interval. -/
def Interval.holds (i : Interval) (num den : Nat) : Bool :=
  if i.closed then i.low * den ≤ num && num ≤ i.high * den
  else i.low * den < num && num < i.high * den

/-- How many decimal digits a number has. -/
def width (n : Nat) : Nat := (Nat.toDigits 10 n).length

/-- The place of the decimal point: the magnitude is below ten to this power and at least a tenth
of it. -/
def point (units : Nat) : Int := (width (units * Nat.pow 10 400 / Double.one) : Int) - 400

/-- The number with `count` digits, on the grid of that many digits, that is nearest of those that
read back, if one does. -/
def onGrid? (i : Interval) (point : Int) (count : Nat) : Option Nat :=
  let step := point - count
  -- a grid point `n` is `n * num / den` quarters of a unit
  let num := one * Nat.pow 10 step.toNat
  let den := Nat.pow 10 (-step).toNat
  let lower := i.value * den / num
  let upper := lower + 1
  let holds (n : Nat) := i.holds (n * num) den
  let toLower := i.value * den - lower * num
  let toUpper := upper * num - i.value * den
  if holds lower && holds upper then
    some (if toLower < toUpper then lower else if toUpper < toLower then upper
      else if lower % 2 = 0 then lower else upper)
  else if holds lower then some lower
  else if holds upper then some upper
  else none

/-- The first grid from `count` digits on with a number that reads back. -/
def search (i : Interval) (point : Int) : (fuel count : Nat) → Nat × Nat
  | 0, count => ((onGrid? i point count).getD 0, count)
  | fuel + 1, count =>
    match onGrid? i point count with
    | some n => (n, count)
    | none => search i point fuel (count + 1)

/-- The digits of a magnitude above zero, and the place of the decimal point before which as many
of them stand. Seventeen digits always read back. -/
def digits (units : Nat) : List Char × Int :=
  let p := point units
  let (n, count) := search (interval units) p 16 1
  let all := Nat.toDigits 10 n
  let kept := (all.reverse.dropWhile (· == '0')).reverse
  (kept, p + (all.length - count : Int))

/-- Digits with the decimal point where it belongs, and at least one digit on either side. -/
def positional (digits : List Char) (point : Int) : List Char :=
  let zeros (n : Nat) := List.replicate n '0'
  if point ≤ 0 then '0' :: '.' :: zeros (-point).toNat ++ digits
  else
    let whole := point.toNat
    if digits.length ≤ whole then digits ++ zeros (whole - digits.length) ++ ['.', '0']
    else digits.take whole ++ '.' :: digits.drop whole

/-- One digit before the decimal point, and an exponent of at least two digits. -/
def scientific (digits : List Char) (point : Int) : List Char :=
  let exponent := point - 1
  let shown := Nat.toDigits 10 exponent.natAbs
  let fraction := match digits with
    | first :: second :: rest => first :: '.' :: second :: rest
    | _ => digits
  fraction ++ 'e' :: (if exponent < 0 then '-' else '+')
    :: (if shown.length < 2 then '0' :: shown else shown)

/-- A magnitude in decimal notation. -/
def magnitude (units : Nat) : List Char :=
  if units = 0 then ['0', '.', '0']
  else
    let (ds, p) := digits units
    if -4 < p && p ≤ 16 then positional ds p else scientific ds p

end Shortest

/-- The text of a double. -/
def Double.text : Double → Text
  | .nan => "nan".toText
  | .infinity negative => (if negative then "-inf" else "inf").toText
  | .finite negative units _ =>
    let shown := (Shortest.magnitude units).map CodePoint.char
    if negative then .char '-' :: shown else shown

end Cabinet
