import Cabinet.Text.Utf8
import Cabinet.Yaml.Source

/-!
# Tags and directives

* `Tag` : a tag as it is written, which is a handle and a suffix, or a suffix alone;
* `Directive` : a line before a document that starts with a percent sign;
* `Tag.read`, `Directive.read` : what stands at a place;
* `readName` : the name of an anchor or an alias.
-/

namespace Cabinet.Yaml

/-- A tag as it is written. Without a handle the suffix is the whole tag. -/
structure Tag where
  handle : Option Text
  suffix : Text
  deriving DecidableEq, Repr

/-- A line before a document. -/
inductive Directive where
  | version (major minor : Nat)
  | handle (name lead : Text)
  | other
  deriving DecidableEq, Repr

/-- The name after the mark of an anchor or an alias. -/
def readName (s : Source) : Except Problem (Text × Source) :=
  let name := s.run isNameChar
  let s := s.advance name.length
  if name.isEmpty || !(isGap s.peek || "?:,]\x7d%@\x60".toList.elem s.peek) then .error .badName
  else .ok (name.map .char, s)

namespace Tag

/-- A character that may stand in a tag. -/
def isTagChar (c : Char) : Bool := c.isAlphanum || "-;/?:@&=+$,_.!~*'()[]%".toList.elem c

/-- The bytes that come next, each as a percent sign and two hexadecimal digits. -/
def takeBytes : List Char → Except Problem (List UInt8 × List Char)
  | '%' :: a :: b :: rest =>
    match (CodePoint.char a).hexDigit?, (CodePoint.char b).hexDigit? with
    | some x, some y => do
      let (bytes, rest) ← takeBytes rest
      return ((x * 16 + y).toUInt8 :: bytes, rest)
    | _, _ => .error .badTag
  | '%' :: _ => .error .badTag
  | rest => .ok ([], rest)

/-- The text of the tag characters that come next, where percent signs are escapes; and how many
characters that is written with. -/
def takeChars : (fuel : Nat) → List Char → Except Problem (Text × Nat)
  | 0, _ => .ok ([], 0)
  | fuel + 1, cs =>
    match cs with
    | [] => .ok ([], 0)
    | c :: rest =>
      if c == '%' then do
        let (bytes, rest) ← takeBytes cs
        match Text.ofUtf8 bytes with
        | .error _ => throw .badTag
        | .ok t =>
          let (others, n) ← takeChars fuel rest
          return (t ++ others, n + (cs.length - rest.length))
      else if isTagChar c then do
        let (others, n) ← takeChars fuel rest
        return (.char c :: others, n + 1)
      else .ok ([], 0)

/-- The tag characters that come next, at least one. -/
def readChars (s : Source) : Except Problem (Text × Source) := do
  let (t, n) ← takeChars s.rest.length s.rest
  if n = 0 then throw .badTag
  return (t, s.advance n)

/-- A handle: an exclamation mark, or a name between two. -/
def readHandle (s : Source) : Except Problem (Text × Source) :=
  if s.peek != '!' then .error .badTag
  else
    let name := s.next.run isNameChar
    if s.peekAt 1 == ' ' then .ok ("!".toText, s.next)
    else if s.peekAt (name.length + 1) != '!' then .error .badTag
    else .ok (.char '!' :: name.map .char ++ "!".toText, s.advance (name.length + 2))

/-- Whether a handle of more than one character starts a tag. -/
def hasHandle (s : Source) : Bool := (s.next.run fun c => !isSpaceOrBreak c).elem '!'

/-- The tag that starts here. -/
def readParts (s : Source) : Except Problem (Tag × Source) := do
  let follower := s.peekAt 1
  if follower == '<' then
    let (suffix, s) ← readChars (s.advance 2)
    if s.peek != '>' then throw .badTag
    return (⟨none, suffix⟩, s.next)
  else if isGap follower then return (⟨none, "!".toText⟩, s.next)
  else
    let (handle, s) ← if hasHandle s then readHandle s else pure ("!".toText, s.next)
    let (suffix, s) ← readChars s
    return (⟨some handle, suffix⟩, s)

/-- The tag that starts here, with a gap after it. -/
def read (s : Source) : Except Problem (Tag × Source) := do
  let (tag, s) ← readParts s
  if !isSpaceOrBreak s.peek then throw .badTag
  return (tag, s)

end Tag

namespace Directive

/-- A number in decimal digits. -/
def readNumber (s : Source) : Except Problem (Nat × Source) :=
  let digits := s.run Char.isDigit
  if digits.isEmpty then .error .badDirective
  else .ok (digits.foldl (fun n c => n * 10 + (c.toNat - '0'.toNat)) 0, s.advance digits.length)

def readVersion (s : Source) : Except Problem (Directive × Source) := do
  let (major, s) ← readNumber s.skipSpaces
  if s.peek != '.' then throw .badDirective
  let (minor, s) ← readNumber s.next
  if !isSpaceOrBreak s.peek then throw .badDirective
  return (.version major minor, s)

def readTagHandle (s : Source) : Except Problem (Directive × Source) := do
  let (name, s) ← Tag.readHandle s.skipSpaces
  if s.peek != ' ' then throw .badDirective
  let (lead, s) ← Tag.readChars s.skipSpaces
  if !isSpaceOrBreak s.peek then throw .badDirective
  return (.handle name lead, s)

/-- The directive whose percent sign stands here, up to the end of its line. -/
def read (s : Source) : Except Problem (Directive × Source) := do
  let s := s.next
  let name := s.run isNameChar
  let s := s.advance name.length
  if name.isEmpty || !isSpaceOrBreak s.peek then throw .badDirective
  let (directive, s) ←
    if name == "YAML".toList then readVersion s
    else if name == "TAG".toList then readTagHandle s
    else pure (.other, s.skipWhile fun c => !isBreakOrEnd c)
  return (directive, ← s.endLine .badDirective)

end Directive

end Cabinet.Yaml
