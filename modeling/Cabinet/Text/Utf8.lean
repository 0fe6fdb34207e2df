import Cabinet.Text.Basic

/-!
# UTF-8

* `Text.toUtf8` : the bytes of a text, unless it holds a surrogate;
* `Text.ofUtf8` : the text of a byte sequence, or the first place where it is malformed;
* `Utf8.EncodeError`, `Utf8.DecodeError` : what is wrong and where, with its wording.

Decoding follows the table of well-formed sequences: an overlong form, a surrogate and a number
past the last code point are all malformed at their first or second byte.
-/

namespace Cabinet

namespace Utf8

/-- The bytes of a character. -/
def encodeChar (c : Char) : List UInt8 :=
  let n := c.toNat
  if n < 0x80 then [n.toUInt8]
  else if n < 0x800 then [(0xC0 + n / 0x40).toUInt8, (0x80 + n % 0x40).toUInt8]
  else if n < 0x10000 then
    [(0xE0 + n / 0x1000).toUInt8, (0x80 + n / 0x40 % 0x40).toUInt8, (0x80 + n % 0x40).toUInt8]
  else
    [(0xF0 + n / 0x40000).toUInt8, (0x80 + n / 0x1000 % 0x40).toUInt8,
      (0x80 + n / 0x40 % 0x40).toUInt8, (0x80 + n % 0x40).toUInt8]

/-- A run of surrogates, from its place in the text on. -/
structure EncodeError where
  position : Nat
  first : CodePoint
  count : Nat
  deriving DecidableEq, Repr

/-- The bytes of a text whose first code point stands at `position`. -/
def encodeFrom (position : Nat) : Text → Except EncodeError (List UInt8)
  | [] => .ok []
  | .char c :: t => do return encodeChar c ++ (← encodeFrom (position + 1) t)
  | .surrogate u :: t =>
    .error ⟨position, .surrogate u, 1 + (t.takeWhile (·.toChar?.isNone)).length⟩

inductive Flaw where
  | start
  | continuation
  | ending
  deriving DecidableEq, Repr

/-- A malformed sequence: its first byte, its place, its length and what is wrong with it. -/
structure DecodeError where
  byte : UInt8
  position : Nat
  length : Nat
  flaw : Flaw
  deriving DecidableEq, Repr

/-- A byte that continues a character. -/
def isTail (b : UInt8) : Bool := 0x80 ≤ b && b < 0xC0

/-- Whether `b` may follow the first byte `a` of a character of three or four bytes. -/
def mayFollow (a b : UInt8) : Bool :=
  isTail b &&
    (if a == 0xE0 then 0xA0 ≤ b
    else if a == 0xED then b < 0xA0
    else if a == 0xF0 then 0x90 ≤ b
    else if a == 0xF4 then b < 0x90
    else true)

/-- The six low bits that a continuing byte adds. -/
def tailBits (b : UInt8) : Nat := b.toNat % 0x40

def two (a b : UInt8) : CodePoint := .char (Char.ofNat (a.toNat % 0x20 * 0x40 + tailBits b))

def three (a b c : UInt8) : CodePoint :=
  .char (Char.ofNat (a.toNat % 0x10 * 0x1000 + tailBits b * 0x40 + tailBits c))

def four (a b c d : UInt8) : CodePoint :=
  .char (Char.ofNat (a.toNat % 8 * 0x40000 + tailBits b * 0x1000 + tailBits c * 0x40 + tailBits d))

/-- The text of bytes of which the first stands at `position`. -/
def decodeFrom (position : Nat) : List UInt8 → Except DecodeError Text
  | [] => .ok []
  | a :: rest =>
    let refuse (length : Nat) (flaw : Flaw) : Except DecodeError Text :=
      .error ⟨a, position, length, flaw⟩
    if a < 0x80 then do
      return .char (Char.ofNat a.toNat) :: (← decodeFrom (position + 1) rest)
    else if a < 0xC2 then refuse 1 .start
    else if a < 0xE0 then
      match rest with
      | [] => refuse 1 .ending
      | b :: rest =>
        if isTail b then do return two a b :: (← decodeFrom (position + 2) rest)
        else refuse 1 .continuation
    else if a < 0xF0 then
      match rest with
      | [] => refuse 1 .ending
      | [b] => if mayFollow a b then refuse 2 .ending else refuse 1 .continuation
      | b :: c :: rest =>
        if !mayFollow a b then refuse 1 .continuation
        else if !isTail c then refuse 2 .continuation
        else do return three a b c :: (← decodeFrom (position + 3) rest)
    else if a < 0xF5 then
      match rest with
      | [] => refuse 1 .ending
      | [b] => if mayFollow a b then refuse 2 .ending else refuse 1 .continuation
      | [b, c] =>
        if !mayFollow a b then refuse 1 .continuation
        else if !isTail c then refuse 2 .continuation
        else refuse 3 .ending
      | b :: c :: d :: rest =>
        if !mayFollow a b then refuse 1 .continuation
        else if !isTail c then refuse 2 .continuation
        else if !isTail d then refuse 3 .continuation
        else do return four a b c d :: (← decodeFrom (position + 4) rest)
    else refuse 1 .start

/-- `one` place, or the span of several. -/
def places (one several : String) (position count : Nat) : Text :=
  if count = 1 then one.toText ++ " in position ".toText ++ Text.ofNat position
  else several.toText ++ " in position ".toText ++ Text.ofNat position ++ "-".toText
    ++ Text.ofNat (position + count - 1)

def EncodeError.message (e : EncodeError) : Text :=
  "'utf-8' codec can't encode ".toText
    ++ places ("character '\\u" ++ String.ofList ((Text.hex 4 e.first.toNat).filterMap CodePoint.toChar?)
        ++ "'") "characters" e.position e.count
    ++ ": surrogates not allowed".toText

def Flaw.message : Flaw → String
  | .start => "invalid start byte"
  | .continuation => "invalid continuation byte"
  | .ending => "unexpected end of data"

def DecodeError.message (e : DecodeError) : Text :=
  "'utf-8' codec can't decode ".toText
    ++ places ("byte 0x" ++ String.ofList ((Text.hex 2 e.byte.toNat).filterMap CodePoint.toChar?))
        "bytes" e.position e.length
    ++ ": ".toText ++ e.flaw.message.toText

end Utf8

namespace Text

/-- The bytes of a text without surrogates. -/
def toUtf8 (t : Text) : Except Utf8.EncodeError (List UInt8) := Utf8.encodeFrom 0 t

/-- The text that well-formed bytes stand for. -/
def ofUtf8 (bytes : List UInt8) : Except Utf8.DecodeError Text := Utf8.decodeFrom 0 bytes

/-- Ends every line with a line feed alone: a carriage return, with or without a line feed after
it, becomes one. -/
def withLineFeeds : Text → Text
  | [] => []
  | .char '\r' :: .char '\n' :: t => .char '\n' :: withLineFeeds t
  | .char '\r' :: t => .char '\n' :: withLineFeeds t
  | p :: t => p :: withLineFeeds t

end Text

end Cabinet
