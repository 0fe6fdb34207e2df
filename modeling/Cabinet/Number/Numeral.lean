import Cabinet.Number.Basic
import Cabinet.Text.Digit

/-!
# Decimal numerals

A numeral has a sign, a whole part, perhaps a fraction and perhaps an exponent; its digits may be
those of any script. A numeral of a sign and digits alone stands for an integer, any other for the
nearest double.

* `Numeral.leading?` : the longest numeral at the start of a text;
* `Number.readInt?`, `Number.readDouble?` : a whole text as an integer or as a double, where padding
  around the numeral and single underscores between digits are allowed;
* `Number.readIntIn?` : a whole text as an integer in another base.
-/

namespace Cabinet

/-- The parts of a decimal numeral. The fraction may have no digits: its point alone makes the
numeral a double. -/
structure Numeral where
  negative : Bool
  whole : List Nat
  fraction : Option (List Nat)
  exponent : Option Int
  deriving DecidableEq, Repr

namespace Numeral

/-- The number that decimal digits make up. -/
def ofDigits (digits : List Nat) : Nat := digits.foldl (fun n d => n * 10 + d) 0

/-- What a numeral stands for. -/
def value (n : Numeral) : Number :=
  match n.fraction, n.exponent with
  | none, none => .int (Double.signed n.negative (ofDigits n.whole))
  | fraction, exponent =>
    let places := fraction.getD []
    .float (Double.ofDecimal n.negative (ofDigits (n.whole ++ places))
      (exponent.getD 0 - places.length))

/-- The digits at the start of a text. -/
def takeDigits : Text → List Nat × Text
  | [] => ([], [])
  | p :: t =>
    match p.digit? with
    | none => ([], p :: t)
    | some d =>
      let (ds, rest) := takeDigits t
      (d :: ds, rest)

/-- The digits at the start of a text, which may have an underscore between any two of them;
`inside` tells whether a digit came before. -/
def takeGroups (inside : Bool) : Text → List Nat × Text
  | [] => ([], [])
  | p :: t =>
    match p.digit? with
    | some d =>
      let (ds, rest) := takeGroups true t
      (d :: ds, rest)
    | none =>
      if inside && p == .char '_' && t.head?.any CodePoint.isDigit then takeGroups false t
      else ([], p :: t)

/-- A sign if there is one, and whether it is a minus. -/
def takeSign : Text → Bool × Text
  | .char '-' :: t => (true, t)
  | .char '+' :: t => (false, t)
  | t => (false, t)

/-- An exponent if one with digits follows. -/
def takeExponent (digits : Text → List Nat × Text) (t : Text) : Option Int × Text :=
  match t with
  | .char c :: rest =>
    if c = 'e' || c = 'E' then
      let (negative, rest) := takeSign rest
      match digits rest with
      | ([], _) => (none, t)
      | (ds, rest) => (some (Double.signed negative (ofDigits ds)), rest)
    else (none, t)
  | _ => (none, t)

/-- The longest numeral at the start of a text, whose digits `digits` takes. -/
def take? (digits : Text → List Nat × Text) (t : Text) : Option (Numeral × Text) :=
  let (negative, t) := takeSign t
  match digits t with
  | ([], .char '.' :: rest) =>
    match digits rest with
    | ([], _) => none
    | (places, rest) =>
      let (exponent, rest) := takeExponent digits rest
      some (⟨negative, [], some places, exponent⟩, rest)
  | ([], _) => none
  | (whole, .char '.' :: rest) =>
    let (places, rest) := digits rest
    let (exponent, rest) := takeExponent digits rest
    some (⟨negative, whole, some places, exponent⟩, rest)
  | (whole, rest) =>
    let (exponent, rest) := takeExponent digits rest
    some (⟨negative, whole, none, exponent⟩, rest)

/-- The longest numeral after the blanks at the start of a text. -/
def leading? (t : Text) : Option Numeral :=
  (take? takeDigits (t.dropWhile CodePoint.isBlank)).map (·.1)

end Numeral

namespace Number

/-- A whole text as an integer. -/
def readInt? (t : Text) : Option Int :=
  let (negative, rest) := Numeral.takeSign (Text.trim CodePoint.isPadding t)
  match Numeral.takeGroups false rest with
  | ([], _) => none
  | (ds, []) => some (Double.signed negative (Numeral.ofDigits ds))
  | _ => none

/-- The letter that marks a base after a zero. -/
def baseMark? : (base : Nat) → Option CodePoint
  | 2 => some (.char 'b')
  | 8 => some (.char 'o')
  | 16 => some (.char 'x')
  | _ => none

/-- What remains after a zero and the letter of a base. -/
def dropBaseMark (base : Nat) : Text → Text
  | .char '0' :: p :: t => if baseMark? base = some p.asciiLower then t else .char '0' :: p :: t
  | t => t

/-- The value of a digit below a base of at most 16. -/
def digitIn? (base : Nat) (p : CodePoint) : Option Nat :=
  (p.digit?.orElse fun _ => p.hexDigit?).filter (· < base)

/-- A whole text as an integer in a base; the mark of the base may come before the digits. -/
def readIntIn? (base : Nat) (t : Text) : Option Int := do
  let (negative, rest) := Numeral.takeSign (Text.trim CodePoint.isPadding t)
  let digits := dropBaseMark base rest
  if digits.isEmpty then none
  let n ← digits.foldlM (fun n p => (digitIn? base p).map (n * base + ·)) 0
  return Double.signed negative n

/-- The words for the doubles that no numeral stands for. -/
def namedDouble? (negative : Bool) (word : Text) : Option Double :=
  if word = "inf".toText || word = "infinity".toText then some (.infinity negative)
  else if word = "nan".toText then some .nan
  else none

/-- A whole text as a double. -/
def readDouble? (t : Text) : Option Double :=
  let t := Text.trim CodePoint.isPadding t
  match Numeral.take? (Numeral.takeGroups false) t with
  | some (n, []) =>
    some (Double.ofDecimal n.negative (Numeral.ofDigits (n.whole ++ n.fraction.getD []))
      (n.exponent.getD 0 - (n.fraction.getD []).length))
  | some _ => none
  | none =>
    let (negative, word) := Numeral.takeSign t
    namedDouble? negative (word.map CodePoint.asciiLower)

end Number

end Cabinet
