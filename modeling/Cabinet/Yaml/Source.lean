import Cabinet.Yaml.Problem

/-!
# The text that is being read

* `Yaml.Source` : what remains of a text, and where that starts;
* `Source.next`, `Source.advance`, `Source.skipWhile` : move on;
* `Source.takeBreak` : moves over a line break;
* `Source.atMarker` : whether a line of three hyphens or three points starts here.

The text has been checked for characters that cannot be printed, so it holds no NUL, and NUL stands
for its end. Five characters end a line, and a carriage return with a line feed counts as one break.
-/

namespace Cabinet.Yaml

/-! ## Classes of characters -/

/-- The character that stands for the end. -/
def endMark : Char := '\x00'

def isBreak (c : Char) : Bool :=
  c == '\n' || c == '\r' || c == '\x85' || c == '\u2028' || c == '\u2029'

def isBreakOrEnd (c : Char) : Bool := isBreak c || c == endMark

/-- A blank in a line, a line break, or the end. -/
def isGap (c : Char) : Bool := isBreakOrEnd c || c == ' ' || c == '\t'

/-- A space, a line break, or the end. -/
def isSpaceOrBreak (c : Char) : Bool := isBreakOrEnd c || c == ' '

/-- A letter, a digit, a hyphen or an underscore, all of ASCII. -/
def isNameChar (c : Char) : Bool := c.isAlphanum || c == '-' || c == '_'

/-- Whether YAML text may hold a character as it is. -/
def isAllowed (c : Char) : Bool :=
  c == '\t' || c == '\n' || c == '\r' || (' ' ≤ c && c ≤ '~') || c == '\x85'
    || ('\xa0' ≤ c && c != '\ufffe' && c != '\uffff')

/-! ## Moving on -/

/-- What remains of a text, and where that starts: how many characters came before, and the line
and the column, both counted from zero. -/
structure Source where
  rest : List Char
  index : Nat
  line : Nat
  column : Nat

namespace Source

/-- A whole text. A byte order mark at its start is passed over. -/
def ofChars : List Char → Source
  | '\ufeff' :: rest => ⟨rest, 1, 0, 0⟩
  | rest => ⟨rest, 0, 0, 0⟩

/-- The character at a distance. -/
def peekAt (s : Source) (n : Nat) : Char := s.rest.getD n endMark

/-- The next character. -/
def peek (s : Source) : Char := s.rest.headD endMark

/-- Moves over one character. -/
def next (s : Source) : Source :=
  match s.rest with
  | [] => s
  | c :: rest =>
    if isBreak c && !(c == '\r' && rest.head? == some '\n') then ⟨rest, s.index + 1, s.line + 1, 0⟩
    else ⟨rest, s.index + 1, s.line, if c == '\ufeff' then s.column else s.column + 1⟩

def advance (s : Source) : Nat → Source
  | 0 => s
  | n + 1 => s.next.advance n

/-- The characters of a class that come next. -/
def run (s : Source) (p : Char → Bool) : List Char := s.rest.takeWhile p

/-- Moves over the characters of a class. -/
def skipWhile (s : Source) (p : Char → Bool) : Source := s.advance (s.run p).length

def skipSpaces (s : Source) : Source := s.skipWhile (· == ' ')

/-- Moves over a comment if one starts here. -/
def skipComment (s : Source) : Source :=
  if s.peek == '#' then s.skipWhile fun c => !isBreakOrEnd c else s

/-- Moves over a line break, which is read as a line feed unless it is one of the two separators.
Nothing is read if there is none. -/
def takeBreak (s : Source) : List Char × Source :=
  match s.rest with
  | '\r' :: '\n' :: _ => (['\n'], s.advance 2)
  | c :: _ =>
    if c == '\u2028' || c == '\u2029' then ([c], s.next)
    else if isBreak c then (['\n'], s.next)
    else ([], s)
  | [] => ([], s)

/-- Whether a word stands here with a gap after it. -/
def atWord (s : Source) (word : List Char) : Bool :=
  word.isPrefixOf s.rest && isGap (s.peekAt word.length)

/-- Whether the mark of the start or the end of a document stands here. -/
def atMarker (s : Source) : Bool := s.atWord ['-', '-', '-'] || s.atWord ['.', '.', '.']

/-- Moves over the spaces, a comment, and the line break that have to end a line; `flaw` is wrong
with what else is there. -/
def endLine (s : Source) (flaw : Problem) : Except Problem Source :=
  let s := s.skipSpaces.skipComment
  if isBreakOrEnd s.peek then .ok s.takeBreak.2 else .error flaw

end Source

end Cabinet.Yaml
