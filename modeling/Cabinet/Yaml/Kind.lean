import Cabinet.Yaml.Moment

/-!
# Kinds of nodes

* `Kind` : what a node stands for, as its tag says;
* `Kind.ofTag`, `Kind.name` : the kind of a full tag, and the other way round;
* `Kind.ofPlain` : the kind that a scalar without quotes has by its looks.

A plain scalar is a truth value, a number, a time, null or one of two special keys if it looks like
that, otherwise a text.
-/

namespace Cabinet.Yaml

/-- What a node stands for. -/
inductive Kind where
  | null
  | bool
  | int
  | float
  | timestamp
  | binary
  | text
  | sequence
  | mapping
  | set
  | pairs
  | orderedPairs
  /-- The key whose value is merged into the mapping. -/
  | merge
  /-- The key whose value stands for the mapping. -/
  | value
  | other (tag : Text)
  deriving DecidableEq, Repr

namespace Kind

/-- What the tags of all kinds but `other` start with. -/
def standard : Text := "tag:yaml.org,2002:".toText

def name : Kind → Text
  | .null => "null".toText
  | .bool => "bool".toText
  | .int => "int".toText
  | .float => "float".toText
  | .timestamp => "timestamp".toText
  | .binary => "binary".toText
  | .text => "str".toText
  | .sequence => "seq".toText
  | .mapping => "map".toText
  | .set => "set".toText
  | .pairs => "pairs".toText
  | .orderedPairs => "omap".toText
  | .merge => "merge".toText
  | .value => "value".toText
  | .other tag => tag

/-- The kinds that have a standard tag. -/
def all : List Kind := [.null, .bool, .int, .float, .timestamp, .binary, .text, .sequence, .mapping,
  .set, .pairs, .orderedPairs, .merge, .value]

/-- The kind of a full tag. -/
def ofTag (tag : Text) : Kind :=
  ((Text.dropLead? standard tag).bind fun word => all.find? fun k => k.name == word).getD (.other tag)

/-! ## Looks -/

def isSign (p : CodePoint) : Bool := p == .char '+' || p == .char '-'

/-- What remains after a sign, if there is one. -/
def dropSign : Text → Text
  | [] => []
  | p :: t => if isSign p then t else p :: t

/-- A digit or an underscore. -/
def isPlaced (p : CodePoint) : Bool := p.isAsciiDigit || p == .char '_'

/-- A digit, and then digits and underscores. -/
def isGrouped : Text → Bool
  | [] => false
  | p :: t => p.isAsciiDigit && t.all isPlaced

/-- The digits of a place of a sexagesimal number: one, or two that make up a number below 60. -/
def isPlace : Text → Bool
  | [a] => a.isAsciiDigit
  | [a, b] => a.asciiDigit?.any (· < 6) && b.isAsciiDigit
  | _ => false

/-- A sexagesimal number, which has at least two places. -/
def isSexagesimal (t : Text) : Bool :=
  match Text.splitOn ':' t with
  | first :: second :: others => isGrouped first && (second :: others).all isPlace
  | _ => false

/-- Digits below a base and underscores, at least one of either. -/
def isInBase (base : Nat) (t : Text) : Bool :=
  !t.isEmpty && t.all fun p => p.hexDigit?.any (· < base) || p == .char '_'

/-- Binary, octal, hexadecimal, decimal or sexagesimal; only a decimal or sexagesimal number may
start with a digit other than zero. -/
def looksLikeInt (t : Text) : Bool :=
  match dropSign t with
  | .char '0' :: .char 'b' :: t => isInBase 2 t
  | .char '0' :: .char 'x' :: t => isInBase 16 t
  | .char '0' :: t => t.isEmpty || isInBase 8 t
  | t => isGrouped t || isSexagesimal t

/-- An exponent with a sign, or nothing. -/
def isExponent : Text → Bool
  | [] => true
  | e :: sign :: t =>
    (e == .char 'e' || e == .char 'E') && isSign sign && !t.isEmpty && t.all CodePoint.isAsciiDigit
  | _ => false

/-- A number with a point. One without digits before the point has some after it; a sexagesimal one
has no exponent. -/
def isPointed (t : Text) : Bool :=
  match t.span (· != .char '.') with
  | (_, []) => false
  | (whole, _ :: rest) =>
    let exponent := rest.dropWhile isPlaced
    (isGrouped (dropSign whole) && isExponent exponent)
      || (whole.isEmpty && isGrouped (rest.take 1) && isExponent exponent)
      || (isSexagesimal (dropSign whole) && exponent.isEmpty)

def infinities : List Text := [".inf", ".Inf", ".INF"].map String.toText

def notNumbers : List Text := [".nan", ".NaN", ".NAN"].map String.toText

def looksLikeFloat (t : Text) : Bool :=
  isPointed t || infinities.elem (dropSign t) || notNumbers.elem t

/-- A day without a time has to be written in full. -/
def looksLikeTimestamp (t : Text) : Bool :=
  (Moment.read? t).any fun m => m.hasFullDate || m.clock.isSome

def truths : List Text := ["yes", "Yes", "YES", "no", "No", "NO", "true", "True", "TRUE", "false",
  "False", "FALSE", "on", "On", "ON", "off", "Off", "OFF"].map String.toText

def nulls : List Text := ["~", "null", "Null", "NULL", ""].map String.toText

/-- The looks of a text without a line feed at its end. -/
def ofLine (t : Text) : Kind :=
  if truths.elem t then .bool
  else if nulls.elem t then .null
  else if t = "<<".toText then .merge
  else if t = "=".toText then .value
  else if looksLikeFloat t then .float
  else if looksLikeInt t then .int
  else if looksLikeTimestamp t then .timestamp
  else .text

/-- A text without the line feed that it may end in. -/
def dropFinalBreak (t : Text) : Text :=
  if t.getLast? = some (.char '\n') then t.dropLast else t

/-- The kind that a scalar has by its looks; one line feed at its end does not count. -/
def ofPlain (t : Text) : Kind :=
  if t = [.char '\n'] then .text else ofLine (dropFinalBreak t)

end Kind

end Cabinet.Yaml
