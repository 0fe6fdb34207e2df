import Cabinet.Yaml.Source

/-!
# Pages

A page is text under construction, which knows where its last line ends.

* `Page.put` : adds text to the last line;
* `Page.mark` : adds a mark, with a space before it unless there is a gap already;
* `Page.indentTo` : goes on at a column, on a new line unless nothing but marks came before it;
* `Shape` : how a text may be written, judged by its characters;
* `Page.plain`, `Page.singleQuoted`, `Page.doubleQuoted`, `Page.block` : add a text in one of the four
  ways. A text that may be folded goes on in a new line where a space stands past column 80.
-/

namespace Cabinet.Yaml

/-- Text under construction. -/
structure Page where
  /-- The text, from the last character to the first. -/
  reversed : Text
  /-- The length of the last line. -/
  column : Nat
  /-- Whether a gap comes last. -/
  endsInGap : Bool
  /-- Whether the last line has nothing but spaces and the marks of items and entries. -/
  isFresh : Bool

namespace Page

def empty : Page := ⟨[], 0, true, true⟩

def text (p : Page) : Text := p.reversed.reverse

/-- The column that no line with a place to fold goes past. -/
def width : Nat := 80

/-- Adds text to the last line. -/
def put (t : Text) (p : Page) : Page :=
  { p with reversed := t.reverse ++ p.reversed, column := p.column + t.length }

/-- Adds a mark. After an `opening` mark there is no need for a gap, and an `entry` mark leaves a fresh
line fresh. -/
def mark (needsGap opening entry : Bool) (t : String) (p : Page) : Page :=
  let t := if p.endsInGap || !needsGap then t.toText else .char ' ' :: t.toText
  { p.put t with endsInGap := opening, isFresh := p.isFresh && entry }

/-- Ends the line. -/
def breakLine (ending : CodePoint) (p : Page) : Page := ⟨ending :: p.reversed, 0, true, true⟩

/-- Goes on at a column. -/
def indentTo (column : Nat) (p : Page) : Page :=
  let p := if !p.isFresh || column < p.column || (p.column == column && !p.endsInGap) then
    p.breakLine (.char '\n') else p
  if p.column < column then
    { p.put (Text.repeated (column - p.column) ' ') with endsInGap := true }
  else p

/-- The text that comes next continues one on the line before. -/
def continued (p : Page) : Page := { p with endsInGap := false, isFresh := false }

end Page

/-! ## What a text looks like -/

/-- The characters that are written as line breaks. -/
def isWrittenBreak (p : CodePoint) : Bool :=
  p == .char '\n' || p == .char '\x85' || p == .char '\u2028' || p == .char '\u2029'

/-- A character that may be written as it is. -/
def isWritable (p : CodePoint) : Bool :=
  match p with
  | .surrogate _ => false
  | .char c => c == '\n' || (isAllowed c && c != '\t' && c != '\r' && c != '\ufeff'
      && c.toNat != 0x10FFFF)

/-- A blank in a line, a line break, or NUL. -/
def isGapPoint (p : CodePoint) : Bool := p.toChar?.any isGap

/-- How a text may be written, judged by its characters alone. -/
structure Shape where
  isMultiline : Bool
  allowsPlain : Bool
  allowsSingle : Bool

namespace Shape

/-- Whether a point of a class comes right after one of another. -/
def hasPair (first second : CodePoint → Bool) : Text → Bool
  | p :: q :: t => (first p && second q) || hasPair first second (q :: t)
  | _ => false

/-- Whether a text has a colon before a gap or at its end, or a number sign after a gap. -/
def hasInnerMark : Text → Bool
  | [] => false
  | [p] => p == .char ':'
  | p :: q :: t => (p == .char ':' && isGapPoint q) || (isGapPoint p && q == .char '#')
      || hasInnerMark (q :: t)

/-- Whether a text starts like a mark. -/
def startsLikeMark (t : Text) : Bool :=
  t.startsWith "---".toText || t.startsWith "...".toText || match t with
    | .char c :: rest => "#,[]\x7b\x7d&*!|>'\"%@\x60".toList.elem c
        || ("?:-".toList.elem c && rest.head?.all isGapPoint)
    | _ => false

def isSpace (p : CodePoint) : Bool := p == .char ' '

/-- The shape of a text. -/
def ofText (t : Text) : Shape :=
  let isMultiline := t.any isWrittenBreak
  let allowsSingle := t.all isWritable && !hasPair isWrittenBreak isSpace t
    && !hasPair isSpace isWrittenBreak t
  let allowsPlain := allowsSingle && !isMultiline && !t.head?.any isSpace && !t.getLast?.any isSpace
    && !startsLikeMark t && !hasInnerMark t
  ⟨isMultiline, allowsPlain, allowsSingle⟩

end Shape

/-! ## Pieces of a text -/

/-- What a piece of a text consists of. -/
inductive PieceKind where
  | word
  | spaces
  | breaks
  deriving DecidableEq, Repr

def PieceKind.of (p : CodePoint) : PieceKind :=
  if Shape.isSpace p then .spaces else if isWrittenBreak p then .breaks else .word

/-- A longest part of a text that consists of one kind of characters. -/
structure Piece where
  kind : PieceKind
  text : Text

/-- A character before some pieces. -/
def Piece.cons (p : CodePoint) : List Piece → List Piece
  | [] => [⟨.of p, [p]⟩]
  | x :: rest =>
    if x.kind = .of p then ⟨x.kind, p :: x.text⟩ :: rest else ⟨.of p, [p]⟩ :: x :: rest

/-- The pieces of a text. -/
def Piece.ofText (t : Text) : List Piece := t.foldr Piece.cons []

namespace Page

/-- Whether a piece is a single space past the last column, where a line can be folded. -/
def folds (x : Piece) (p : Page) : Bool := x.text.length == 1 && width < p.column

/-! ## The four ways -/

/-- Adds the pieces of a plain text. -/
def plainPieces (fold : Bool) (indent : Nat) : List Piece → Page → Page
  | [], p => p
  | x :: rest, p =>
    plainPieces fold indent rest <|
      if x.kind = .spaces && fold && p.folds x then (p.indentTo indent).continued else p.put x.text

/-- Adds a plain text, which has no line breaks. -/
def plain (fold : Bool) (indent : Nat) (t : Text) (p : Page) : Page :=
  if t.isEmpty then p
  else
    let p := if p.endsInGap then p else p.put [.char ' ']
    plainPieces fold indent (Piece.ofText t) p.continued

/-- A text with every single quote doubled. -/
def doubleQuotes (t : Text) : Text :=
  t.flatMap fun p => if p = .char '\'' then [.char '\'', .char '\''] else [p]

/-- Adds line breaks to a quoted text: a lone line feed would be read as a space, so one more comes
before it. -/
def quotedBreaks (indent : Nat) (t : Text) (p : Page) : Page :=
  let p := if t.head? = some (.char '\n') then p.breakLine (.char '\n') else p
  (t.foldl (fun p b => p.breakLine b) p).indentTo indent

/-- Adds the pieces of a text between single quotes. -/
def singlePieces (fold : Bool) (indent : Nat) : (isFirst : Bool) → List Piece → Page → Page
  | _, [], p => p
  | isFirst, x :: rest, p =>
    singlePieces fold indent false rest <|
      match x.kind with
      | .word => p.put (doubleQuotes x.text)
      | .breaks => p.quotedBreaks indent x.text
      | .spaces =>
        if fold && !isFirst && !rest.isEmpty && p.folds x then p.indentTo indent else p.put x.text

def singleQuoted (fold : Bool) (indent : Nat) (t : Text) (p : Page) : Page :=
  let p := p.mark true false false "'"
  (singlePieces fold indent true (Piece.ofText t) p).mark false false false "'"

/-- The character after the backslash of an escape of two characters. -/
def shortEscape? : CodePoint → Option Char
  | .surrogate _ => none
  | .char c => match c with
    | '\x00' => some '0'
    | '\x07' => some 'a'
    | '\x08' => some 'b'
    | '\t' => some 't'
    | '\n' => some 'n'
    | '\x0b' => some 'v'
    | '\x0c' => some 'f'
    | '\r' => some 'r'
    | '\x1b' => some 'e'
    | '"' => some '"'
    | '\\' => some '\\'
    | '\x85' => some 'N'
    | '\xa0' => some '_'
    | '\u2028' => some 'L'
    | '\u2029' => some 'P'
    | _ => none

/-- Whether a character stands for itself between double quotes. -/
def standsForItself (p : CodePoint) : Bool :=
  let n := p.toNat
  p != .char '"' && p != .char '\\' && n != 0x2028 && n != 0x2029 && n != 0xFEFF
    && ((0x20 ≤ n && n ≤ 0x7E) || (0xA0 ≤ n && n ≤ 0xD7FF) || (0xE000 ≤ n && n ≤ 0xFFFD))

def upperHex (width n : Nat) : Text :=
  (Text.hex width n).map fun
    | .char c => .char c.toUpper
    | p => p

/-- The escape of a character. -/
def escape (p : CodePoint) : Text :=
  match shortEscape? p with
  | some c => [.char '\\', .char c]
  | none =>
    let n := p.toNat
    if n ≤ 0xFF then "\\x".toText ++ upperHex 2 n
    else if n ≤ 0xFFFF then "\\u".toText ++ upperHex 4 n
    else "\\U".toText ++ upperHex 8 n

/-- Folds a text between double quotes, with a backslash at the end of the line; one more keeps a
space that the next line starts with. -/
def foldDouble (indent : Nat) (rest : Text) (p : Page) : Page :=
  let p := ((p.put [.char '\\']).indentTo indent).continued
  if rest.head?.any Shape.isSpace then p.put [.char '\\'] else p

/-- Adds a text between double quotes; `pending` are the characters that have been passed since the
last escape or fold, from the last to the first. A text is not folded before its second character
or its last. -/
def doublePieces (fold : Bool) (indent : Nat) : (isFirst : Bool) → (pending : Text) → Text → Page →
    Page
  | _, pending, [], p => p.put pending.reverse
  | isFirst, pending, c :: rest, p =>
    let mayFold := fold && !isFirst && !rest.isEmpty
    if standsForItself c then
      if mayFold && (Shape.isSpace c || pending.isEmpty) && width < p.column + pending.length then
        doublePieces fold indent false [c] rest
          (foldDouble indent (c :: rest) (p.put pending.reverse))
      else doublePieces fold indent false (c :: pending) rest p
    else
      let p := (p.put pending.reverse).put (escape c)
      doublePieces fold indent false [] rest
        (if mayFold && width + 1 < p.column then foldDouble indent rest p else p)

def doubleQuoted (fold : Bool) (indent : Nat) (t : Text) (p : Page) : Page :=
  let p := p.mark true false false "\""
  (doublePieces fold indent true [] t p).mark false false false "\""

/-- Adds a text as a block of lines. It has no blanks at the start or the end of a line, and ends in
one line feed. -/
def block (indent : Nat) (t : Text) (p : Page) : Page :=
  let p := (p.mark true false false "|").breakLine (.char '\n')
  ((Text.splitOn '\n' t).dropLast).foldl
    (fun p line => ((p.indentTo indent).put line).breakLine (.char '\n')) p

end Page

end Cabinet.Yaml
