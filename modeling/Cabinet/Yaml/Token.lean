import Cabinet.Yaml.Scalar
import Cabinet.Yaml.Tag

/-!
# Tokens

YAML text as a list of tokens, in which indentation has become marks for the start and the end of
block collections.

* `Token` : a mark, a property of a node, or a scalar;
* `Token.ofSource` : the tokens of a text.

That a scalar is a key of a mapping is only seen at the colon after it. So wherever a key may start,
the reader notes how many tokens came before, and at the colon puts the mark of a key in there. A
key without a mark of its own ends on the line it starts on, within 1024 characters.
-/

namespace Cabinet.Yaml

inductive Token where
  | directive (d : Directive)
  | documentStart
  | documentEnd
  | blockSequenceStart
  | blockMappingStart
  | blockEnd
  | flowSequenceStart
  | flowSequenceEnd
  | flowMappingStart
  | flowMappingEnd
  /-- The hyphen before an item of a block sequence. -/
  | item
  /-- The comma in a flow collection. -/
  | comma
  | key
  | value
  | alias (name : Text)
  | anchor (name : Text)
  | tag (t : Tag)
  | scalar (isPlain : Bool) (t : Text)
  deriving DecidableEq, Repr

namespace Token

/-- A place where a key may have started. -/
structure KeyStart where
  /-- How many flow collections it is in. -/
  level : Nat
  /-- How many tokens come before. -/
  count : Nat
  /-- Whether nothing but a key can stand there. -/
  isRequired : Bool
  index : Nat
  line : Nat
  column : Nat

/-- How far the text has been read. -/
structure Reader where
  source : Source
  /-- The tokens so far, from the last to the first. -/
  found : List Token
  /-- How many flow collections are open. -/
  level : Nat
  /-- The columns of the block collections that are open, from the innermost on. -/
  columns : List Nat
  /-- Whether a key without a mark of its own may start here. -/
  allowsKey : Bool
  /-- The places where a key may have started, at most one for each level. -/
  starts : List KeyStart

namespace Reader

def ofSource (s : Source) : Reader := ⟨s, [], 0, [], true, []⟩

def inFlow (r : Reader) : Bool := r.level != 0

def push (t : Token) (r : Reader) : Reader := { r with found := t :: r.found }

def moveTo (s : Source) (r : Reader) : Reader := { r with source := s }

/-- Puts a token in after the first `count`. -/
def insert (count : Nat) (t : Token) (r : Reader) : Reader :=
  let later := r.found.length - count
  { r with found := r.found.take later ++ t :: r.found.drop later }

/-! ## Indentation -/

/-- Closes the block collections right of a column. -/
def closeFrom (column : Nat) : List Nat → Nat × List Nat
  | [] => (0, [])
  | innermost :: rest =>
    if column < innermost then
      let (n, rest) := closeFrom column rest
      (n + 1, rest)
    else (0, innermost :: rest)

/-- Closes the block collections right of a column; flow collections do not depend on columns. -/
def unwind (column : Nat) (r : Reader) : Reader :=
  if r.inFlow then r
  else
    let (n, columns) := closeFrom column r.columns
    { r with found := List.replicate n .blockEnd ++ r.found, columns }

/-- Closes all block collections. -/
def unwindAll (r : Reader) : Reader :=
  if r.inFlow then r
  else { r with found := List.replicate r.columns.length .blockEnd ++ r.found, columns := [] }

/-- Whether a block collection at a column would be a new one. -/
def isDeeper (column : Nat) (r : Reader) : Bool := r.columns.head?.all (· < column)

/-- Opens a block collection at the place where the source stands, unless there is one. -/
def openBlock (t : Token) (r : Reader) : Reader :=
  if r.isDeeper r.source.column then
    { r.push t with columns := r.source.column :: r.columns }
  else r

/-! ## Keys -/

/-- Forgets the places where no key can have started, as they are too far back. -/
def dropStale (r : Reader) : Except Problem Reader := do
  let isStale (k : KeyStart) : Bool :=
    k.line != r.source.line || 1024 < r.source.index - k.index
  if r.starts.any fun k => isStale k && k.isRequired then throw .missingColon
  return { r with starts := r.starts.filter fun k => !isStale k }

/-- Forgets the place where a key may have started on the present level. -/
def dropStart (r : Reader) : Except Problem Reader := do
  if r.starts.any fun k => k.level == r.level && k.isRequired then throw .missingColon
  return { r with starts := r.starts.filter fun k => k.level != r.level }

/-- Notes that a key may start here. -/
def noteStart (r : Reader) : Except Problem Reader := do
  if r.allowsKey then
    let isRequired := !r.inFlow && r.columns.head? == some r.source.column
    let s := r.source
    let r ← r.dropStart
    return { r with
      starts := ⟨r.level, r.found.length, isRequired, s.index, s.line, s.column⟩ :: r.starts }
  else return r

/-! ## Tokens one by one -/

/-- A token of one character. -/
def single (t : Token) (r : Reader) : Reader := { r.push t with source := r.source.next }

def readDirective (r : Reader) : Except Problem Reader := do
  let r ← r.unwindAll.dropStart
  let (d, s) ← Directive.read r.source
  return { r.push (.directive d) with source := s, allowsKey := false }

/-- The mark of the start or the end of a document. -/
def readMarker (t : Token) (r : Reader) : Except Problem Reader := do
  let r ← r.unwindAll.dropStart
  return { r.push t with source := r.source.advance 3, allowsKey := false }

def readFlowStart (t : Token) (r : Reader) : Except Problem Reader := do
  let r ← r.noteStart
  return { r.single t with level := r.level + 1, allowsKey := true }

def readFlowEnd (t : Token) (r : Reader) : Except Problem Reader := do
  let r ← r.dropStart
  return { r.single t with level := r.level - 1, allowsKey := false }

def readComma (r : Reader) : Except Problem Reader := do
  let r ← r.dropStart
  return { r.single .comma with allowsKey := true }

def readItem (r : Reader) : Except Problem Reader := do
  if !r.inFlow && !r.allowsKey then throw .misplacedItem
  let r := if r.inFlow then r else r.openBlock .blockSequenceStart
  let r ← r.dropStart
  return { r.single .item with allowsKey := true }

/-- The mark of a key. -/
def readKey (r : Reader) : Except Problem Reader := do
  if !r.inFlow && !r.allowsKey then throw .misplacedKey
  let r := if r.inFlow then r else r.openBlock .blockMappingStart
  let r ← r.dropStart
  return { r.single .key with allowsKey := !r.inFlow }

/-- The colon before a value. If a key may have started on this level, it is one. -/
def readValue (r : Reader) : Except Problem Reader := do
  match r.starts.find? fun k => k.level == r.level with
  | some k =>
    let r := { r.insert k.count .key with starts := r.starts.filter fun k => k.level != r.level }
    let r := if !r.inFlow && r.isDeeper k.column then
      { r.insert k.count .blockMappingStart with columns := k.column :: r.columns }
    else r
    return { r.single .value with allowsKey := false }
  | none =>
    if !r.inFlow && !r.allowsKey then throw .misplacedValue
    let r := if r.inFlow then r else r.openBlock .blockMappingStart
    let r ← r.dropStart
    return { r.single .value with allowsKey := !r.inFlow }

/-- An anchor or an alias. -/
def readNamed (t : Text → Token) (r : Reader) : Except Problem Reader := do
  let r ← r.noteStart
  let (name, s) ← readName r.source.next
  return { r.push (t name) with source := s, allowsKey := false }

def readTag (r : Reader) : Except Problem Reader := do
  let r ← r.noteStart
  let (t, s) ← Tag.read r.source
  return { r.push (.tag t) with source := s, allowsKey := false }

def readBlock (folded : Bool) (r : Reader) : Except Problem Reader := do
  let r ← r.dropStart
  let margin := match r.columns with
    | [] => 1
    | column :: _ => column + 1
  let (t, s) ← Block.read folded margin r.source.next
  return { r.push (.scalar false (t.map .char)) with source := s, allowsKey := true }

def readQuoted (read : (fuel : Nat) → Source → Except Error (Text × Source)) (r : Reader) :
    Except Error Reader := do
  let r ← r.noteStart.mapError .malformed
  let (t, s) ← read r.source.rest.length r.source.next
  return { r.push (.scalar false t) with source := s, allowsKey := false }

def readPlain (r : Reader) : Except Problem Reader := do
  let r ← r.noteStart
  let indent := match r.columns with
    | [] => 0
    | column :: _ => column + 1
  let (t, isBroken, s) := Plain.read r.inFlow indent r.source
  return { r.push (.scalar true (t.map .char)) with source := s, allowsKey := isBroken }

/-- Whether a plain scalar starts here. -/
def startsPlain (r : Reader) : Bool :=
  let c := r.source.peek
  !(isGap c || "-?:,[]\x7b\x7d#&*!|>'\"%@\x60".toList.elem c)
    || (!isGap (r.source.peekAt 1) && (c == '-' || (!r.inFlow && (c == '?' || c == ':'))))

/-- The next token, where no gap stands; there is at least one character. -/
def readToken (r : Reader) : Except Error Reader :=
  let s := r.source
  let beforeGap := isGap (s.peekAt 1)
  let simple (result : Except Problem Reader) : Except Error Reader := result.mapError .malformed
  if s.column == 0 && s.peek == '%' then simple r.readDirective
  else if s.column == 0 && s.atWord "---".toList then simple (r.readMarker .documentStart)
  else if s.column == 0 && s.atWord "...".toList then simple (r.readMarker .documentEnd)
  else match s.peek with
  | '[' => simple (r.readFlowStart .flowSequenceStart)
  | '\x7b' => simple (r.readFlowStart .flowMappingStart)
  | ']' => simple (r.readFlowEnd .flowSequenceEnd)
  | '\x7d' => simple (r.readFlowEnd .flowMappingEnd)
  | ',' => simple r.readComma
  | '*' => simple (r.readNamed .alias)
  | '&' => simple (r.readNamed .anchor)
  | '!' => simple r.readTag
  | '\'' => r.readQuoted Quoted.readSingle
  | '"' => r.readQuoted Quoted.readDouble
  | c =>
    if c == '-' && beforeGap then simple r.readItem
    else if c == '?' && (r.inFlow || beforeGap) then simple r.readKey
    else if c == ':' && (r.inFlow || beforeGap) then simple r.readValue
    else if c == '|' && !r.inFlow then simple (r.readBlock false)
    else if c == '>' && !r.inFlow then simple (r.readBlock true)
    else if r.startsPlain then simple r.readPlain
    else .error (.malformed (.badStart c))

/-- Moves over spaces, comments and line breaks. After a break a key may start, unless that is in a
flow collection. -/
def skipGap : (fuel : Nat) → Reader → Reader
  | 0, r => r
  | fuel + 1, r =>
    let s := r.source.skipSpaces.skipComment
    if isBreak s.peek then
      skipGap fuel { r with source := s.takeBreak.2, allowsKey := r.allowsKey || !r.inFlow }
    else r.moveTo s

/-- All tokens of a text, from the last to the first. -/
def readAll : (fuel : Nat) → Reader → Except Error (List Token)
  | 0, r => .ok r.found
  | fuel + 1, r => do
    let r ← ((skipGap (r.source.rest.length + 1) r).dropStale).mapError .malformed
    let r := r.unwind r.source.column
    if r.source.rest.isEmpty then
      return (← (r.unwindAll.dropStart).mapError .malformed).found
    readAll fuel (← r.readToken)

end Reader

/-- The tokens of a text. -/
def ofSource (s : Source) : Except Error (List Token) := do
  return (← Reader.readAll (s.rest.length + 1) (.ofSource s)).reverse

end Token

end Cabinet.Yaml
