import Cabinet.Text.Base64
import Cabinet.Value.Basic
import Cabinet.Yaml.Page
import Cabinet.Yaml.Kind

/-!
# Writing YAML

* `Written` : a scalar as a kind and a text;
* `Yaml.write` : the YAML text of a value.

Collections are written as blocks, two columns deeper for each level, except that a sequence in a
mapping stands at the column of the mapping; an empty collection is a pair of brackets or braces. A
scalar is plain if its text then looks like its kind, otherwise a text between single quotes if its
characters allow that, otherwise between double quotes. Bytes are blocks of lines in base 64. A key
longer than a line may be, or on several lines, has a question mark before it.
-/

namespace Cabinet.Yaml

/-- A scalar as a kind and a text. -/
structure Written where
  kind : Kind
  text : Text

namespace Written

/-- A double always has a point. -/
def double : Double → Text
  | .nan => ".nan".toText
  | .infinity false => ".inf".toText
  | .infinity true => "-.inf".toText
  | x =>
    let t := x.text
    if t.elem (.char '.') then t
    else match t.span (· != .char 'e') with
      | (whole, e :: exponent) => whole ++ ".0".toText ++ e :: exponent
      | (whole, []) => whole

def ofScalar : Scalar → Written
  | .null => ⟨.null, "null".toText⟩
  | .bool b => ⟨.bool, (if b then "true" else "false").toText⟩
  | .int n => ⟨.int, Text.ofInt n⟩
  | .float x => ⟨.float, double x⟩
  | .text t => ⟨.text, t⟩
  | .date d => ⟨.timestamp, d.text⟩
  | .timestamp t => ⟨.timestamp, t.text ' '⟩
  | .bytes content => ⟨.binary, Base64.encode content⟩

/-- The short form of the tag. -/
def tag (w : Written) : String := "!!" ++ (w.kind.name.toString?).getD ""

end Written

/-- How a text is written. -/
inductive Style where
  | plain
  | single
  | double
  | block
  deriving DecidableEq, Repr

/-- How a scalar is written. -/
def Written.style (isKey : Bool) (w : Written) : Style :=
  let shape := Shape.ofText w.text
  if w.kind = .ofPlain w.text && shape.allowsPlain then .plain
  else if w.kind = .binary && !w.text.isEmpty then .block
  else if shape.allowsSingle && !(isKey && shape.isMultiline) then .single
  else .double

/-- Whether a reader would take a scalar for another kind if there were no tag. -/
def Written.needsTag (style : Style) (w : Written) : Bool :=
  if style = .plain then w.kind != .ofPlain w.text else w.kind != .text

/-- Whether a key can stand on one line with its value. -/
def Written.isSimpleKey (w : Written) : Bool :=
  w.tag.length + w.text.length < 128 && !w.text.isEmpty && !(Shape.ofText w.text).isMultiline

/-- Adds a scalar; further lines of it start at column `indent`. -/
def Page.scalar (isKey : Bool) (indent : Nat) (w : Written) (p : Page) : Page :=
  let style := w.style isKey
  let p := if w.needsTag style then p.mark true false false w.tag else p
  match style with
  | .plain => p.plain (!isKey) indent w.text
  | .single => p.singleQuoted (!isKey) indent w.text
  | .double => p.doubleQuoted (!isKey) indent w.text
  | .block => p.block indent w.text

/-- The column of a part of a collection at column `parent`, or of a whole value. -/
def columnIn (whole : Nat) : (parent : Option Nat) → Nat
  | none => whole
  | some n => n + 2

namespace Page

mutual

/-- Adds a value that belongs to a collection at column `parent`. -/
def value (parent : Option Nat) (inMapping : Bool) : Value → Page → Page
  | .scalar s, p => p.scalar false (columnIn 2 parent) (.ofScalar s)
  | .list [], p => (p.mark true true false "[").mark false false false "]"
  | .list (x :: rest), p =>
    let column := if inMapping && !p.isFresh then parent.getD 0 else columnIn 0 parent
    items column (x :: rest) p
  | .object [], p => (p.mark true true false "\x7b").mark false false false "\x7d"
  | .object (f :: rest), p => fields (columnIn 0 parent) (f :: rest) p

/-- Adds the items of a sequence. -/
def items (column : Nat) : List Value → Page → Page
  | [], p => p
  | x :: rest, p =>
    items column rest (value (some column) false x ((p.indentTo column).mark true false true "-"))

/-- Adds the fields of a mapping. -/
def fields (column : Nat) : List (Scalar × Value) → Page → Page
  | [], p => p
  | (name, x) :: rest, p =>
    let key := Written.ofScalar name
    let p := p.indentTo column
    let p := if key.isSimpleKey then
      (p.scalar true (column + 2) key).mark false false false ":"
    else
      ((((p.mark true false true "?").scalar false (column + 2) key)).indentTo column).mark
        true false true ":"
    fields column rest (value (some column) true x p)

end

end Page

/-- Whether a value is written as a plain scalar, so that a reader could take what comes after it for
more of it. -/
def isOpenEnded : Value → Bool
  | .scalar s => (Written.ofScalar s).style false = .plain
  | _ => false

/-- The YAML text of a value. -/
def write (v : Value) : Text :=
  let p := (Page.empty.value none false v).indentTo 0
  if isOpenEnded v then ((p.mark true false false "...").indentTo 0).text else p.text

end Cabinet.Yaml
