import Cabinet.Yaml.Source

/-!
# The text of scalars

How a scalar is written does not matter once its text is known. There are four ways:

* `Plain.read` : without quotes;
* `Quoted.readSingle`, `Quoted.readDouble` : between quotes;
* `Block.read` : as a block of lines, whose breaks are kept or folded.

In the first three ways the text may go on over several lines: a single line break between two parts
is read as a space, of several the first is dropped, and blanks around them do not count.
-/

namespace Cabinet.Yaml

/-- What stands for line breaks between two parts of a text: a lone line feed becomes a space, and
before other breaks it goes. -/
def foldBreaks (first others : List Char) : List Char :=
  if first != ['\n'] then first ++ others else if others.isEmpty then [' '] else others

/-! ## Without quotes -/

namespace Plain

/-- Whether a plain text stops before what comes next. In a flow collection its marks end the text,
too. -/
def stops (inFlow : Bool) : List Char → Bool
  | [] => true
  | c :: rest =>
    let follower := rest.headD endMark
    isGap c || (c == ':' && (isGap follower || (inFlow && ",[]\x7b\x7d".toList.elem follower)))
      || (inFlow && ",?[]\x7b\x7d".toList.elem c)

/-- How many characters of the text come next. -/
def length (inFlow : Bool) : List Char → Nat
  | [] => 0
  | c :: rest => if stops inFlow (c :: rest) then 0 else length inFlow rest + 1

/-- The line breaks and spaces that come next, of which the breaks are given; nothing is given if the
mark of a document comes after one of them. -/
def takeBreaks : (fuel : Nat) → Source → Option (List Char) × Source
  | 0, s => (some [], s)
  | fuel + 1, s =>
    if s.peek == ' ' then takeBreaks fuel s.next
    else if isBreak s.peek then
      let (first, s) := s.takeBreak
      if s.atMarker then (none, s)
      else
        let (others, s) := takeBreaks fuel s
        (others.map (first ++ ·), s)
    else (some [], s)

/-- What comes between two parts of the text. -/
structure Gap where
  text : List Char
  /-- Whether there is a line break in it. -/
  isBroken : Bool

/-- The gap after a part, with an empty text if there can be no other part. -/
def takeGap (s : Source) : Gap × Source :=
  let spaces := s.run (· == ' ')
  let s := s.skipSpaces
  if isBreak s.peek then
    let (first, s) := s.takeBreak
    if s.atMarker then (⟨[], true⟩, s)
    else match takeBreaks s.rest.length s with
      | (some others, s) => (⟨foldBreaks first others, true⟩, s)
      | (none, s) => (⟨[], true⟩, s)
  else (⟨spaces, false⟩, s)

/-- The parts of a text, whose continuation has to stand at column `indent` at least unless it is in a
flow collection; and whether the last gap has a line break in it. -/
def readParts (inFlow : Bool) (indent : Nat) : (fuel : Nat) → Source → List Char × Bool × Source
  | 0, s => ([], false, s)
  | fuel + 1, s =>
    let n := length inFlow s.rest
    let part := s.rest.take n
    let (gap, s) := takeGap (s.advance n)
    if gap.text.isEmpty || s.peek == '#' || (!inFlow && s.column < indent)
        || length inFlow s.rest == 0 then (part, gap.isBroken, s)
    else
      let (others, isBroken, s) := readParts inFlow indent fuel s
      (part ++ gap.text ++ others, isBroken, s)

/-- The plain text that starts here, whether a line break comes after it, and what remains. -/
def read (inFlow : Bool) (indent : Nat) (s : Source) : List Char × Bool × Source :=
  readParts inFlow indent s.rest.length s

end Plain

/-! ## Between quotes -/

namespace Quoted

/-- The line breaks that come next, and the blanks around them. -/
def takeBreaks : (fuel : Nat) → Source → Except Error (List Char × Source)
  | 0, s => .ok ([], s)
  | fuel + 1, s =>
    if s.atMarker then .error (.malformed .markerInQuote)
    else
      let s := s.skipWhile fun c => c == ' ' || c == '\t'
      if isBreak s.peek then do
        let (first, s) := s.takeBreak
        let (others, s) ← takeBreaks fuel s
        return (first ++ others, s)
      else .ok ([], s)

/-- The text of the blanks and line breaks that come next. -/
def takeGap (s : Source) : Except Error (List Char × Source) := do
  let isBlank (c : Char) : Bool := c == ' ' || c == '\t'
  let blanks := s.run isBlank
  let s := s.skipWhile isBlank
  if s.peek == endMark then throw (.malformed .unclosedQuote)
  else if isBreak s.peek then
    let (first, s) := s.takeBreak
    let (others, s) ← takeBreaks (s.rest.length + 1) s
    return (foldBreaks first others, s)
  else return (blanks, s)

/-- The character that a letter stands for after a backslash. -/
def escaped? : Char → Option Char
  | '0' => some '\x00'
  | 'a' => some '\x07'
  | 'b' => some '\x08'
  | 't' => some '\t'
  | '\t' => some '\t'
  | 'n' => some '\n'
  | 'v' => some '\x0b'
  | 'f' => some '\x0c'
  | 'r' => some '\r'
  | 'e' => some '\x1b'
  | ' ' => some ' '
  | '"' => some '"'
  | '\\' => some '\\'
  | '/' => some '/'
  | 'N' => some '\x85'
  | '_' => some '\xa0'
  | 'L' => some '\u2028'
  | 'P' => some '\u2029'
  | _ => none

/-- How many hexadecimal digits come after a letter that stands after a backslash. -/
def escapeWidth? : Char → Option Nat
  | 'x' => some 2
  | 'u' => some 4
  | 'U' => some 8
  | _ => none

/-- The number that some hexadecimal digits make up. -/
def hexNumber? (digits : List Char) : Option Nat :=
  digits.foldlM (fun n c => (CodePoint.char c).hexDigit?.map (n * 16 + ·)) 0

/-- The code point of so many hexadecimal digits. -/
def takeHex (width : Nat) (s : Source) : Except Error (Text × Source) :=
  if s.rest.length < width then .error (.malformed .badEscape)
  else match hexNumber? (s.rest.take width) with
    | none => .error (.malformed .badEscape)
    | some n =>
      if n < 0x110000 then .ok ([.ofNat n], s.advance width)
      else .error (.misread (.codePoint n))

/-- What an escape stands for; the backslash has been passed over. A line break is dropped together
with the blanks and the breaks after it, of which only the breaks count. -/
def takeEscape (s : Source) : Except Error (Text × Source) :=
  match escaped? s.peek, escapeWidth? s.peek with
  | some c, _ => .ok ([.char c], s.next)
  | none, some width => takeHex width s.next
  | none, none =>
    if isBreak s.peek then do
      let (_, s) := s.takeBreak
      let (others, s) ← takeBreaks (s.rest.length + 1) s
      return (others.map .char, s)
    else .error (.malformed .badEscape)

/-- The text up to a single quote, which is doubled in the text; the opening one has been passed
over. -/
def readSingle : (fuel : Nat) → Source → Except Error (Text × Source)
  | 0, _ => .error (.malformed .unclosedQuote)
  | fuel + 1, s => do
    match s.rest with
    | '\'' :: '\'' :: _ =>
      let (others, s) ← readSingle fuel (s.advance 2)
      return (.char '\'' :: others, s)
    | '\'' :: _ => return ([], s.next)
    | c :: _ =>
      if isGap c then
        let (gap, s) ← takeGap s
        let (others, s) ← readSingle fuel s
        return (gap.map .char ++ others, s)
      else
        let (others, s) ← readSingle fuel s.next
        return (.char c :: others, s)
    | [] => throw (.malformed .unclosedQuote)

/-- The text up to a double quote; the opening one has been passed over. -/
def readDouble : (fuel : Nat) → Source → Except Error (Text × Source)
  | 0, _ => .error (.malformed .unclosedQuote)
  | fuel + 1, s => do
    match s.rest with
    | '"' :: _ => return ([], s.next)
    | '\\' :: _ =>
      let (p, s) ← takeEscape s.next
      let (others, s) ← readDouble fuel s
      return (p ++ others, s)
    | c :: _ =>
      if isGap c then
        let (gap, s) ← takeGap s
        let (others, s) ← readDouble fuel s
        return (gap.map .char ++ others, s)
      else
        let (others, s) ← readDouble fuel s.next
        return (.char c :: others, s)
    | [] => throw (.malformed .unclosedQuote)

end Quoted

/-! ## As a block -/

namespace Block

/-- What becomes of the line breaks at the end of a block. -/
inductive Chomping where
  | strip
  | clip
  | keep
  deriving DecidableEq, Repr

/-- The first line of a block: the chomping, and how much the block is indented, if it says so. -/
structure Header where
  chomping : Chomping
  increment : Option Nat

/-- A sign for the chomping, if there is one. -/
def takeChomping (s : Source) : Option Chomping × Source :=
  match s.peek with
  | '+' => (some .keep, s.next)
  | '-' => (some .strip, s.next)
  | _ => (none, s)

/-- A digit for the indentation, if there is one; it may not be zero. -/
def takeIncrement (s : Source) : Except Problem (Option Nat × Source) :=
  match (CodePoint.char s.peek).asciiDigit? with
  | some 0 => .error .badBlockHeader
  | some n => .ok (some n, s.next)
  | none => .ok (none, s)

/-- A header, whose two parts may come in either order. -/
def takeHeader (s : Source) : Except Problem (Header × Source) := do
  let (before, s) := takeChomping s
  let (increment, s) ← takeIncrement s
  let (after, s) := if before.isNone && increment.isSome then takeChomping s else (none, s)
  if !isSpaceOrBreak s.peek then throw .badBlockHeader
  let s ← s.endLine .badBlockHeader
  return (⟨(before.orElse fun _ => after).getD .clip, increment⟩, s)

/-- Moves over the spaces left of a column. -/
def skipMargin (indent : Nat) (s : Source) : Source :=
  s.advance (min (indent - s.column) (s.run (· == ' ')).length)

/-- The line breaks that come next, where spaces left of a column do not count. -/
def takeBreaks (indent : Nat) : (fuel : Nat) → Source → List Char × Source
  | 0, s => ([], s)
  | fuel + 1, s =>
    let s := skipMargin indent s
    if isBreak s.peek then
      let (first, s) := s.takeBreak
      let (others, s) := takeBreaks indent fuel s
      (first ++ others, s)
    else ([], s)

/-- The line breaks before the first line with a text, and the greatest column that spaces reach up
to there. -/
def takeLeadingBreaks : (fuel greatest : Nat) → Source → List Char × Nat × Source
  | 0, greatest, s => ([], greatest, s)
  | fuel + 1, greatest, s =>
    if s.peek == ' ' then takeLeadingBreaks fuel (max greatest s.next.column) s.next
    else if isBreak s.peek then
      let (first, s) := s.takeBreak
      let (others, greatest, s) := takeLeadingBreaks fuel greatest s
      (first ++ others, greatest, s)
    else ([], greatest, s)

def isBlank (c : Char) : Bool := c == ' ' || c == '\t'

/-- The lines of a block that stands at column `indent`; `breaks` come before them. Given are the
text up to the end of the last line, its line break, and those after it. In a folded block a lone
line feed between two lines that start without a blank becomes a space. -/
def readLines (folded : Bool) (indent : Nat) : (fuel : Nat) → (breaks : List Char) → Source →
    List Char × List Char × List Char × Source
  | 0, breaks, s => ([], [], breaks, s)
  | fuel + 1, breaks, s =>
    if s.column != indent || s.peek == endMark then ([], [], breaks, s)
    else
      let startsBlank := isBlank s.peek
      let content := s.run fun c => !isBreakOrEnd c
      let (ending, s) := (s.skipWhile fun c => !isBreakOrEnd c).takeBreak
      let (after, s) := takeBreaks indent s.rest.length s
      if s.column == indent && s.peek != endMark then
        let between :=
          if folded && ending == ['\n'] && !startsBlank && !isBlank s.peek then
            if after.isEmpty then [' '] else []
          else ending
        let (others, last, final, s) := readLines folded indent fuel after s
        (breaks ++ content ++ between ++ others, last, final, s)
      else (breaks ++ content, ending, after, s)

/-- The text of a block whose mark has been passed over; `margin` is the least column it may stand
at. -/
def read (folded : Bool) (margin : Nat) (s : Source) : Except Problem (List Char × Source) := do
  let (header, s) ← takeHeader s
  let (breaks, indent, s) := match header.increment with
    | some n =>
      let indent := margin + n - 1
      let (breaks, s) := takeBreaks indent s.rest.length s
      (breaks, indent, s)
    | none =>
      let (breaks, greatest, s) := takeLeadingBreaks s.rest.length 0 s
      (breaks, max margin greatest, s)
  let (text, last, final, s) := readLines folded indent (s.rest.length + 1) breaks s
  return match header.chomping with
    | .strip => (text, s)
    | .clip => (text ++ last, s)
    | .keep => (text ++ last ++ final, s)

end Block

end Cabinet.Yaml
