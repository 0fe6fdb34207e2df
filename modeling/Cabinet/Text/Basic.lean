/-!
# Text as a list of code points

Document text may hold a code point that no character has: half of a surrogate pair, standing
alone. So text is kept as a list of code points rather than as a `String`.

* `CodePoint` : a character, or a lone surrogate;
* `Text` : a list of code points, ordered by `Text.compare` code point by code point;
* `String.toText`, `Text.toString?` : the two directions between `String` and `Text`;
* `Text.startsWith`, `Text.endsWith`, `Text.contains`, `Text.splitOn`, `Text.intercalate` : the
  usual operations.
-/

namespace Cabinet

/-- A code point: a character, or one of the 2048 surrogates standing alone. -/
inductive CodePoint where
  | char (c : Char)
  | surrogate (unit : Fin 0x800)
  deriving DecidableEq, Repr

instance : Coe Char CodePoint := ⟨.char⟩

instance : Inhabited CodePoint := ⟨.char 'A'⟩

namespace CodePoint

/-- The number of a code point. -/
def toNat : CodePoint → Nat
  | .char c => c.toNat
  | .surrogate unit => 0xD800 + unit.val

/-- The code point of a number; a number past the last code point stands for the replacement
character. -/
def ofNat (n : Nat) : CodePoint :=
  if h : 0xD800 ≤ n ∧ n < 0xE000 then .surrogate ⟨n - 0xD800, by omega⟩
  else if n < 0x110000 then .char (Char.ofNat n)
  else .char (Char.ofNat 0xFFFD)

/-- The character a code point is, unless it is a surrogate. -/
def toChar? : CodePoint → Option Char
  | .char c => some c
  | .surrogate _ => none

/-- An ASCII digit's value. -/
def asciiDigit? : CodePoint → Option Nat
  | .char c => if '0' ≤ c ∧ c ≤ '9' then some (c.toNat - '0'.toNat) else none
  | .surrogate _ => none

/-- A hexadecimal digit's value, in either case. -/
def hexDigit? : CodePoint → Option Nat
  | .char c =>
    if '0' ≤ c ∧ c ≤ '9' then some (c.toNat - '0'.toNat)
    else if 'a' ≤ c ∧ c ≤ 'f' then some (c.toNat - 'a'.toNat + 10)
    else if 'A' ≤ c ∧ c ≤ 'F' then some (c.toNat - 'A'.toNat + 10)
    else none
  | .surrogate _ => none

def isAsciiDigit (p : CodePoint) : Bool := p.asciiDigit?.isSome

/-- An ASCII letter, digit or underscore. -/
def isAsciiWord : CodePoint → Bool
  | .char c => ('a' ≤ c && c ≤ 'z') || ('A' ≤ c && c ≤ 'Z') || ('0' ≤ c && c ≤ '9') || c == '_'
  | .surrogate _ => false

/-- The lower-case form of an ASCII letter; any other code point itself. -/
def asciiLower : CodePoint → CodePoint
  | .char c => .char c.toLower
  | .surrogate unit => .surrogate unit

def compare (p q : CodePoint) : Ordering := Ord.compare p.toNat q.toNat

end CodePoint

/-- A text: its code points from left to right. -/
abbrev Text := List CodePoint

end Cabinet

/-- The text of a string. -/
def String.toText (s : String) : Cabinet.Text := s.toList.map Cabinet.CodePoint.char

namespace Cabinet

instance : Coe String Text := ⟨String.toText⟩

namespace Text

/-- The characters of a text without surrogates. -/
def toChars? (t : Text) : Option (List Char) := t.mapM CodePoint.toChar?

/-- The string with the characters of a text, which exists when it holds no surrogate. -/
def toString? (t : Text) : Option String := (toChars? t).map String.ofList

/-- Whether two adjacent surrogates make up one character. -/
def joinSurrogates? (high low : Nat) : Option Char :=
  if 0xD800 ≤ high ∧ high < 0xDC00 ∧ 0xDC00 ≤ low ∧ low < 0xE000 then
    some (Char.ofNat (0x10000 + (high - 0xD800) * 0x400 + (low - 0xDC00)))
  else none

/-- Code point by code point; a proper beginning comes before the longer text. -/
def compare : Text → Text → Ordering
  | [], [] => .eq
  | [], _ :: _ => .lt
  | _ :: _, [] => .gt
  | p :: t, q :: u => (p.compare q).then (compare t u)

/-- Texts from the smallest to the largest. -/
def sort (texts : List Text) : List Text :=
  texts.mergeSort fun t u => compare t u != .gt

/-- What remains of a text after a given beginning. -/
def dropLead? : (lead text : Text) → Option Text
  | [], t => some t
  | _ :: _, [] => none
  | p :: lead, q :: t => if p = q then dropLead? lead t else none

def startsWith (t lead : Text) : Bool := (dropLead? lead t).isSome

def endsWith (t tail : Text) : Bool := startsWith t.reverse tail.reverse

/-- Whether `part` occurs in the text; the empty part occurs everywhere. -/
def contains (part : Text) : Text → Bool
  | [] => part.isEmpty
  | p :: t => startsWith (p :: t) part || contains part t

/-- The pieces between the occurrences of `mark`; always at least one. -/
def splitOn (mark : CodePoint) : Text → List Text
  | [] => [[]]
  | p :: t =>
    let pieces := splitOn mark t
    if p = mark then [] :: pieces
    else match pieces with
      | [] => [[p]]
      | piece :: others => (p :: piece) :: others

/-- Texts one after another, with `between` in between. -/
def join (between : Text) : List Text → Text
  | [] => []
  | [t] => t
  | t :: u :: rest => t ++ between ++ join between (u :: rest)

/-- A text of `n` equal code points. -/
def repeated (n : Nat) (p : CodePoint) : Text := List.replicate n p

/-- Drops the code points of a class from both ends. -/
def trim (drop : CodePoint → Bool) (t : Text) : Text :=
  ((t.dropWhile drop).reverse.dropWhile drop).reverse

/-- A natural number in decimal digits. -/
def ofNat (n : Nat) : Text := (Nat.toDigits 10 n).map .char

/-- An integer in decimal digits, with a minus sign if it is negative. -/
def ofInt : Int → Text
  | .ofNat n => ofNat n
  | .negSucc n => .char '-' :: ofNat (n + 1)

/-- The last `width` hexadecimal digits of a number, in lower case. -/
def hex : (width n : Nat) → Text
  | 0, _ => []
  | width + 1, n => hex width (n / 16) ++ [.char (Nat.digitChar (n % 16))]

end Text

end Cabinet
