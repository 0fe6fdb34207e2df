import Cabinet.Text.Quoted
import Cabinet.Value.Basic

/-!
# Values in messages

`Value.shown` is how a message shows a value: text in quotes, lists in square brackets, objects in
curly ones. `Value.plain` is the same but for text, dates and times standing alone, which are
written as they are.
-/

namespace Cabinet

namespace Shown

/-- One byte between two quotes. -/
def byte (quote : Char) (b : UInt8) : Text :=
  let c := Char.ofNat b.toNat
  if c = quote || c = '\\' then [.char '\\', .char c]
  else if c = '\n' then "\\n".toText
  else if c = '\r' then "\\r".toText
  else if c = '\t' then "\\t".toText
  else if ' ' ≤ c && c ≤ '~' then [.char c]
  else "\\x".toText ++ Text.hex 2 b.toNat

def bytes (content : List UInt8) : Text :=
  let quote := if content.elem 39 && !content.elem 34 then '"' else '\''
  [.char 'b', .char quote] ++ content.flatMap (byte quote) ++ [.char quote]

def date (d : Date) : List Text := [Text.ofNat d.year, Text.ofNat d.month, Text.ofNat d.day]

def offset (minutes : Int) : Text :=
  if minutes = 0 then "datetime.timezone.utc".toText
  else "datetime.timezone(".toText ++ Calendar.span minutes ++ ")".toText

def timestamp (t : Timestamp) : List Text :=
  date t.date ++ [Text.ofNat t.hour, Text.ofNat t.minute]
    ++ (if t.second = 0 && t.microsecond = 0 then [] else [Text.ofNat t.second])
    ++ (if t.microsecond = 0 then [] else [Text.ofNat t.microsecond])
    ++ (match t.offset with
      | none => []
      | some minutes => ["tzinfo=".toText ++ offset minutes])

/-- A name with arguments in parentheses. -/
def call (name : String) (arguments : List Text) : Text :=
  name.toText ++ "(".toText ++ Text.join ", ".toText arguments ++ ")".toText

end Shown

/-- A scalar as messages show it. -/
def Scalar.shown : Scalar → Text
  | .null => "None".toText
  | .bool b => (if b then "True" else "False").toText
  | .int n => Text.ofInt n
  | .float x => x.text
  | .text t => t.quoted
  | .date d => Shown.call "datetime.date" (Shown.date d)
  | .timestamp t => Shown.call "datetime.datetime" (Shown.timestamp t)
  | .bytes content => Shown.bytes content

/-- A scalar written as it is. -/
def Scalar.plain : Scalar → Text
  | .text t => t
  | .date d => d.text
  | .timestamp t => t.text ' '
  | s => s.shown

namespace Value

mutual

/-- A value as messages show it. -/
def shown : Value → Text
  | .scalar s => s.shown
  | .list xs => "[".toText ++ Text.join ", ".toText (shownItems xs) ++ "]".toText
  | .object fs => "\x7b".toText ++ Text.join ", ".toText (shownFields fs) ++ "\x7d".toText

def shownItems : List Value → List Text
  | [] => []
  | x :: xs => shown x :: shownItems xs

def shownFields : List (Scalar × Value) → List Text
  | [] => []
  | (key, x) :: fs => (key.shown ++ ": ".toText ++ shown x) :: shownFields fs

end

/-- A value written as it is, its parts as messages show them. -/
def plain : Value → Text
  | .scalar s => s.plain
  | v => v.shown

end Value

end Cabinet
