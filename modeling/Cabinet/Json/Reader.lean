import Cabinet.Value.Basic

/-!
# Reading JSON

`Json.parse` reads a text as one JSON value. Besides the literals of JSON it takes `NaN`,
`Infinity` and `-Infinity`; a number without fraction and exponent is an integer of any size, any
other number the nearest double. A repeated field name keeps its first place and its last value. A
surrogate escape that has no partner stays alone.

A reader of a part takes the text that remains and gives back what remains after the part. A flaw
is located by how much text remained when it was met; `Json.parse` turns that into a place.
-/

namespace Cabinet

namespace Json

/-- What can be wrong with JSON text. -/
inductive Problem where
  | value
  | name
  | nameSeparator
  | itemSeparator
  | extraData
  | controlCharacter
  | escape
  | unicodeEscape
  | unterminated
  | byteOrderMark
  deriving DecidableEq, Repr

/-- A problem, and how much text remains from its place on. -/
structure Flaw where
  problem : Problem
  remaining : Nat
  deriving DecidableEq, Repr

/-- A problem at the start of a text. -/
def flaw {α : Type} (problem : Problem) (t : Text) : Except Flaw α := .error ⟨problem, t.length⟩

def isSpace : CodePoint → Bool
  | .char ' ' | .char '\t' | .char '\n' | .char '\r' => true
  | _ => false

def skipSpace (t : Text) : Text := t.dropWhile isSpace

/-! ## Text -/

/-- The number that four hexadecimal digits make up. -/
def hexNumber? (a b c d : CodePoint) : Option Nat := do
  return (((← a.hexDigit?) * 16 + (← b.hexDigit?)) * 16 + (← c.hexDigit?)) * 16 + (← d.hexDigit?)

/-- The character of an escape of two characters. -/
def simpleEscape? : CodePoint → Option CodePoint
  | .char '"' => some (.char '"')
  | .char '\\' => some (.char '\\')
  | .char '/' => some (.char '/')
  | .char 'b' => some (.char '\x08')
  | .char 'f' => some (.char '\x0c')
  | .char 'n' => some (.char '\n')
  | .char 'r' => some (.char '\r')
  | .char 't' => some (.char '\t')
  | _ => none

/-- One code point before what was found. -/
def push (p : CodePoint) (found : Except Flaw (Text × Text)) : Except Flaw (Text × Text) :=
  found.map fun (t, rest) => (p :: t, rest)

/-- The text up to the closing quote. The opening quote had `opening` code points from it on. -/
def readText (opening : Nat) : Text → Except Flaw (Text × Text)
  | [] => .error ⟨.unterminated, opening⟩
  | .char '"' :: rest => .ok ([], rest)
  | .char '\\' :: [] => .error ⟨.unterminated, opening⟩
  | .char '\\' :: .char 'u' :: a :: b :: c :: d :: rest =>
    let here := rest.length + 5
    match hexNumber? a b c d with
    | none => .error ⟨.unicodeEscape, here⟩
    | some n =>
      match rest with
      | [] => .error ⟨.unicodeEscape, here⟩
      | .char '\\' :: .char 'u' :: e :: f :: g :: h :: next :: after =>
        if 0xD800 ≤ n && n < 0xDC00 then
          match hexNumber? e f g h with
          | none => .error ⟨.unicodeEscape, after.length + 6⟩
          | some m =>
            match Text.joinSurrogates? n m with
            | some joined => push (.char joined) (readText opening (next :: after))
            | none =>
              push (.ofNat n)
                (readText opening (.char '\\' :: .char 'u' :: e :: f :: g :: h :: next :: after))
        else
          push (.ofNat n)
            (readText opening (.char '\\' :: .char 'u' :: e :: f :: g :: h :: next :: after))
      | rest => push (.ofNat n) (readText opening rest)
  | .char '\\' :: .char 'u' :: rest => .error ⟨.unicodeEscape, rest.length + 1⟩
  | .char '\\' :: p :: rest =>
    match simpleEscape? p with
    | some q => push q (readText opening rest)
    | none => .error ⟨.escape, rest.length + 2⟩
  | p :: rest =>
    if p.toNat < 0x20 then .error ⟨.controlCharacter, rest.length + 1⟩
    else push p (readText opening rest)
  termination_by t => t.length

/-! ## Numbers -/

/-- The natural number that decimal digits make up. -/
def natOfDigits (digits : Text) : Nat :=
  digits.foldl (fun n p => n * 10 + p.asciiDigit?.getD 0) 0

/-- The digits at the start of a text, and the rest. -/
def takeDigits (t : Text) : Text × Text := t.span CodePoint.isAsciiDigit

/-- The digits of a whole number, which has no zero before another digit. -/
def readWhole? : Text → Option (Text × Text)
  | .char '0' :: rest => some ([.char '0'], rest)
  | p :: rest => if p.isAsciiDigit then some (takeDigits (p :: rest)) else none
  | [] => none

/-- A point and at least one digit. -/
def readFraction? : Text → Option (Text × Text)
  | .char '.' :: p :: rest => if p.isAsciiDigit then some (takeDigits (p :: rest)) else none
  | _ => none

/-- The mark of an exponent, its sign if it has one, and at least one digit. -/
def readExponent? : Text → Option (Int × Text)
  | .char c :: rest =>
    if c = 'e' || c = 'E' then
      let (negative, digits) := match rest with
        | .char '-' :: t => (true, t)
        | .char '+' :: t => (false, t)
        | t => (false, t)
      match takeDigits digits with
      | ([], _) => none
      | (ds, after) => some (Double.signed negative (natOfDigits ds), after)
    else none
  | _ => none

/-- A number without its sign. -/
def readMagnitude? (negative : Bool) (t : Text) : Option (Value × Text) := do
  let (whole, rest) ← readWhole? t
  match readFraction? rest, readExponent? rest with
  | none, none => return (.int (Double.signed negative (natOfDigits whole)), rest)
  | none, some (e, after) => return (.float (Double.ofDecimal negative (natOfDigits whole) e), after)
  | some (fraction, rest), _ =>
    let digits := natOfDigits (whole ++ fraction)
    match readExponent? rest with
    | some (e, after) => return (.float (Double.ofDecimal negative digits (e - fraction.length)), after)
    | none => return (.float (Double.ofDecimal negative digits (-fraction.length)), rest)

/-- A number. -/
def readNumber? : Text → Option (Value × Text)
  | .char '-' :: rest => readMagnitude? true rest
  | t => readMagnitude? false t

/-! ## Values -/

/-- The literals, each with its value. -/
def literals : List (Text × Value) :=
  [("null".toText, .null), ("true".toText, .bool true), ("false".toText, .bool false),
    ("NaN".toText, .float .nan), ("Infinity".toText, .float (.infinity false)),
    ("-Infinity".toText, .float (.infinity true))]

def readLiteral? (t : Text) : Option (Value × Text) :=
  literals.findSome? fun (word, v) => (Text.dropLead? word t).map fun rest => (v, rest)

mutual

/-- The value at the start of a text. The fuel bounds the calls that lead to a part; twice
the length of the text is always enough, as at least every other call passes a code point. -/
def readValue : (fuel : Nat) → Text → Except Flaw (Value × Text)
  | 0, t => flaw .value t
  | fuel + 1, t =>
    match t with
    | .char '"' :: rest => (readText (rest.length + 1) rest).map fun (s, after) => (.text s, after)
    | .char '\x7b' :: rest =>
      match skipSpace rest with
      | .char '\x7d' :: after => .ok (.object [], after)
      | start => do
        let (fields, after) ← readFields fuel start
        return (.object (Document.ofPairs fields), after)
    | .char '[' :: rest =>
      match skipSpace rest with
      | .char ']' :: after => .ok (.list [], after)
      | start => do
        let (items, after) ← readItems fuel start
        return (.list items, after)
    | t =>
      match readLiteral? t with
      | some found => .ok found
      | none => match readNumber? t with
        | some found => .ok found
        | none => flaw .value t

/-- Items up to the closing bracket, at least one. -/
def readItems : (fuel : Nat) → Text → Except Flaw (List Value × Text)
  | 0, t => flaw .value t
  | fuel + 1, t => do
    let (x, rest) ← readValue fuel t
    match skipSpace rest with
    | .char ']' :: after => return ([x], after)
    | .char ',' :: after =>
      let (xs, after) ← readItems fuel (skipSpace after)
      return (x :: xs, after)
    | rest => flaw .itemSeparator rest

/-- Fields up to the closing brace, at least one. -/
def readFields : (fuel : Nat) → Text → Except Flaw (List (Scalar × Value) × Text)
  | 0, t => flaw .value t
  | fuel + 1, t =>
    match t with
    | .char '"' :: rest => do
      let (name, rest) ← readText (rest.length + 1) rest
      match skipSpace rest with
      | .char ':' :: rest =>
        let (x, rest) ← readValue fuel (skipSpace rest)
        match skipSpace rest with
        | .char '\x7d' :: after => return ([(.text name, x)], after)
        | .char ',' :: after =>
          let (fs, after) ← readFields fuel (skipSpace after)
          return ((.text name, x) :: fs, after)
        | rest => flaw .itemSeparator rest
      | rest => flaw .nameSeparator rest
    | t => flaw .name t

end

/-! ## Whole texts -/

/-- A problem and its place: the line, the column in the line, and the code points before it. -/
structure SyntaxError where
  problem : Problem
  line : Nat
  column : Nat
  position : Nat
  deriving DecidableEq, Repr

/-- Locates a problem in a text: lines end with a line feed. -/
def Flaw.locate (whole : Text) (f : Flaw) : SyntaxError :=
  let position := whole.length - f.remaining
  let before := whole.take position
  let lastLine := before.reverse.takeWhile (· != .char '\n')
  ⟨f.problem, before.count (.char '\n') + 1, lastLine.length + 1, position⟩

/-- The value that a whole text stands for, or the first flaw. -/
def readWholeText (t : Text) : Except Flaw Value := do
  if t.head? = some (.ofNat 0xFEFF) then flaw .byteOrderMark t
  let (v, rest) ← readValue (2 * t.length + 2) (skipSpace t)
  match skipSpace rest with
  | [] => return v
  | rest => flaw .extraData rest

/-- Reads a text as one JSON value. -/
def parse (t : Text) : Except SyntaxError Value := (readWholeText t).mapError (·.locate t)

def Problem.message : Problem → String
  | .value => "Expecting value"
  | .name => "Expecting property name enclosed in double quotes"
  | .nameSeparator => "Expecting ':' delimiter"
  | .itemSeparator => "Expecting ',' delimiter"
  | .extraData => "Extra data"
  | .controlCharacter => "Invalid control character at"
  | .escape => "Invalid \\escape"
  | .unicodeEscape => "Invalid \\uXXXX escape"
  | .unterminated => "Unterminated string starting at"
  | .byteOrderMark => "Unexpected UTF-8 BOM (decode using utf-8-sig)"

def SyntaxError.message (e : SyntaxError) : Text :=
  e.problem.message.toText ++ ": line ".toText ++ Text.ofNat e.line ++ " column ".toText
    ++ Text.ofNat e.column ++ " (char ".toText ++ Text.ofNat e.position ++ ")".toText

end Json

end Cabinet
