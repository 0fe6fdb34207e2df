import Cabinet.Value.Shown

/-!
# Writing JSON

* `Json.Style` : the separators, the indentation, and whether only ASCII is written;
* `Json.check` : whether a value can be written, and the first reason why not;
* `Json.render` : the JSON text of a value;
* `Json.write` : both together;
* `Json.canonical` : the text by which objects are compared, whose fields are sorted by name.

A number is written as `Number.text` has it; the doubles that JSON has no literal for are written
`NaN`, `Infinity` and `-Infinity`. A field name that is a number, a truth value or null is written
as the text of that literal.
-/

namespace Cabinet

namespace Json

/-- How JSON text is laid out. -/
structure Style where
  /-- The spaces a level is indented by; everything stands on one line if there is no such. -/
  indent : Option Nat
  itemSeparator : String
  nameSeparator : String
  asciiOnly : Bool
  deriving DecidableEq

/-- All on one line. -/
def Style.compact : Style := ⟨none, ", ", ": ", false⟩

/-- A line for each item, two spaces for each level. -/
def Style.indented : Style := ⟨some 2, ",", ": ", false⟩

/-- A line for each item, in ASCII. -/
def Style.indentedAscii : Style := ⟨some 2, ",", ": ", true⟩

/-- All on one line, in ASCII. -/
def Style.ascii : Style := ⟨none, ", ", ": ", true⟩

/-- No spaces at all, in ASCII. -/
def Style.dense : Style := ⟨none, ",", ":", true⟩

/-- Why a value has no JSON text. -/
inductive WriteError where
  | value (kind : String)
  | name (kind : String)
  | unordered (later earlier : Scalar)
  deriving DecidableEq

/-! ## Text -/

/-- A code point as one `\u` escape, or two for a character past the first plane. -/
def escapeNumber (n : Nat) : Text :=
  if n < 0x10000 then "\\u".toText ++ Text.hex 4 n
  else
    "\\u".toText ++ Text.hex 4 (0xD800 + (n - 0x10000) / 0x400) ++ "\\u".toText
      ++ Text.hex 4 (0xDC00 + (n - 0x10000) % 0x400)

/-- A code point between two quotes. -/
def escape (asciiOnly : Bool) (p : CodePoint) : Text :=
  match p with
  | .char '"' => "\\\"".toText
  | .char '\\' => "\\\\".toText
  | .char '\n' => "\\n".toText
  | .char '\r' => "\\r".toText
  | .char '\t' => "\\t".toText
  | p =>
    let n := p.toNat
    if n = 8 then "\\b".toText
    else if n = 12 then "\\f".toText
    else if n < 0x20 || (asciiOnly && 0x7E < n) then escapeNumber n
    else [p]

def renderText (asciiOnly : Bool) (t : Text) : Text :=
  .char '"' :: t.flatMap (escape asciiOnly) ++ [.char '"']

/-! ## Scalars -/

def renderDouble : Double → Text
  | .nan => "NaN".toText
  | .infinity negative => (if negative then "-Infinity" else "Infinity").toText
  | x => x.text

/-- The literal of a scalar; a scalar without one is written as its plain text. -/
def renderScalar (asciiOnly : Bool) : Scalar → Text
  | .null => "null".toText
  | .bool b => (if b then "true" else "false").toText
  | .int n => Text.ofInt n
  | .float x => renderDouble x
  | .text t => renderText asciiOnly t
  | s => renderText asciiOnly s.plain

/-- A field name, which is always in quotes. -/
def renderName (asciiOnly : Bool) : Scalar → Text
  | .text t => renderText asciiOnly t
  | s@(.date _) | s@(.timestamp _) | s@(.bytes _) => renderText asciiOnly s.plain
  | s => renderText asciiOnly (renderScalar asciiOnly s)

/-! ## Values -/

/-- The line break before an item `level` levels deep. -/
def Style.lineBreak (style : Style) (level : Nat) : Text :=
  match style.indent with
  | none => []
  | some width => .char '\n' :: Text.repeated (width * level) ' '

mutual

/-- The JSON text of a value that stands `level` levels deep. -/
def render (style : Style) (level : Nat) : Value → Text
  | .scalar s => renderScalar style.asciiOnly s
  | .list [] => "[]".toText
  | .list (x :: xs) =>
    .char '[' :: style.lineBreak (level + 1) ++ render style (level + 1) x
      ++ renderItems style (level + 1) xs ++ style.lineBreak level ++ [.char ']']
  | .object [] => "\x7b\x7d".toText
  | .object ((key, x) :: fs) =>
    .char '\x7b' :: style.lineBreak (level + 1) ++ renderName style.asciiOnly key
      ++ style.nameSeparator.toText ++ render style (level + 1) x
      ++ renderFields style (level + 1) fs ++ style.lineBreak level ++ [.char '\x7d']

/-- The items after the first. -/
def renderItems (style : Style) (level : Nat) : List Value → Text
  | [] => []
  | x :: xs =>
    style.itemSeparator.toText ++ style.lineBreak level ++ render style level x
      ++ renderItems style level xs

/-- The fields after the first. -/
def renderFields (style : Style) (level : Nat) : List (Scalar × Value) → Text
  | [] => []
  | (key, x) :: fs =>
    style.itemSeparator.toText ++ style.lineBreak level ++ renderName style.asciiOnly key
      ++ style.nameSeparator.toText ++ render style level x ++ renderFields style level fs

end

/-! ## What can be written -/

/-- Dates, times and bytes have no literal. -/
def checkScalar : Scalar → Except WriteError Unit
  | s@(.date _) | s@(.timestamp _) | s@(.bytes _) => .error (.value s.kind)
  | _ => .ok ()

/-- The full name of a kind that no field name can have. -/
def checkName : Scalar → Except WriteError Unit
  | .date _ => .error (.name "datetime.date")
  | .timestamp _ => .error (.name "datetime.datetime")
  | .bytes _ => .error (.name "bytes")
  | _ => .ok ()

mutual

/-- Whether a value has a JSON text, from left to right. -/
def check : Value → Except WriteError Unit
  | .scalar s => checkScalar s
  | .list xs => checkItems xs
  | .object fs => checkFields fs

def checkItems : List Value → Except WriteError Unit
  | [] => .ok ()
  | x :: xs => do check x; checkItems xs

def checkFields : List (Scalar × Value) → Except WriteError Unit
  | [] => .ok ()
  | (key, x) :: fs => do checkName key; check x; checkFields fs

end

mutual

/-- Whether all field names in a value have a JSON text, from left to right. -/
def checkNames : Value → Except WriteError Unit
  | .scalar _ => .ok ()
  | .list xs => checkNamesOfItems xs
  | .object fs => checkNamesOfFields fs

def checkNamesOfItems : List Value → Except WriteError Unit
  | [] => .ok ()
  | x :: xs => do checkNames x; checkNamesOfItems xs

def checkNamesOfFields : List (Scalar × Value) → Except WriteError Unit
  | [] => .ok ()
  | (key, x) :: fs => do checkName key; checkNames x; checkNamesOfFields fs

end

/-- The JSON text of a value. -/
def write (style : Style) (v : Value) : Except WriteError Text := do
  check v
  return render style 0 v

/-! ## The canonical text -/

/-- The order of two field names, if they are of kinds that have an order in common. -/
def compareNames? (a b : Scalar) : Option Ordering :=
  match a.number?, b.number? with
  | some x, some y => some ((x.compare y).getD .gt)
  | _, _ => match a, b with
    | .text t, .text u => some (t.compare u)
    | .bytes c, .bytes d => some (Ord.compare (c.map (·.toNat)) (d.map (·.toNat)))
    | .date d, .date e => some (Ord.compare d.dayNumber e.dayNumber)
    | .timestamp t, .timestamp u =>
      match t.offset, u.offset with
      | none, none => some (Ord.compare t.localMicroseconds u.localMicroseconds)
      | some i, some j =>
        some (Ord.compare (t.localMicroseconds - i * 60000000) (u.localMicroseconds - j * 60000000))
      | _, _ => none
    | _, _ => none

/-- The first two neighbours among field names that have no order in common, the later one first. -/
def firstUnordered? : List Scalar → Option (Scalar × Scalar)
  | a :: b :: rest =>
    if (compareNames? b a).isNone then some (b, a) else firstUnordered? (b :: rest)
  | _ => none

/-- Fields sorted by name. -/
def sortFields (fs : List (Scalar × Value)) : List (Scalar × Value) :=
  fs.mergeSort fun f g => compareNames? f.1 g.1 != some .gt

mutual

/-- Sorts the fields of every object by name and writes scalars without a literal as text. -/
def sorted : Value → Except WriteError Value
  | .scalar s => .ok <| match checkScalar s with
    | .ok _ => .scalar s
    | .error _ => .text s.plain
  | .list xs => do return .list (← sortedItems xs)
  | .object fs => do
    if let some (later, earlier) := firstUnordered? (fs.map (·.1)) then
      throw (.unordered later earlier)
    return .object (sortFields (← sortedFields fs))

def sortedItems : List Value → Except WriteError (List Value)
  | [] => .ok []
  | x :: xs => do return (← sorted x) :: (← sortedItems xs)

def sortedFields : List (Scalar × Value) → Except WriteError (List (Scalar × Value))
  | [] => .ok []
  | (key, x) :: fs => do checkName key; return (key, ← sorted x) :: (← sortedFields fs)

end

/-- The ASCII text of a value with all fields sorted by name. -/
def canonical (v : Value) : Except WriteError Text := do
  return render .ascii 0 (← sorted v)

/-- The wording for two field names without an order in common. -/
def unorderedMessage (later earlier : Scalar) : Text :=
  match later, earlier with
  | .timestamp _, .timestamp _ => "can't compare offset-naive and offset-aware datetimes".toText
  | .timestamp _, .date _ | .date _, .timestamp _ =>
    "can't compare datetime.datetime to datetime.date".toText
  | _, _ =>
    let kind (s : Scalar) : Text := match s with
      | .date _ => "datetime.date".toText
      | .timestamp _ => "datetime.datetime".toText
      | s => s.kind.toText
    "'<' not supported between instances of '".toText ++ kind later ++ "' and '".toText
      ++ kind earlier ++ "'".toText

def WriteError.message : WriteError → Text
  | .value kind => "Object of type ".toText ++ kind.toText ++ " is not JSON serializable".toText
  | .name kind => "keys must be str, int, float, bool or None, not ".toText ++ kind.toText
  | .unordered later earlier => unorderedMessage later earlier

end Json

end Cabinet
