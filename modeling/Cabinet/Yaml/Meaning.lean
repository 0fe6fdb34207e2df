import Cabinet.Number.Numeral
import Cabinet.Text.Base64
import Cabinet.Value.Basic
import Cabinet.Yaml.Node

/-!
# What nodes stand for

* `Scalar.ofYaml` : the scalar that a text of a kind stands for;
* `Node.value` : the value that a node stands for;
* `Yaml.parse` : the value that a text stands for, which is null if the text has no document.

Collections are gone through level by level: what is wrong with an entry itself is met before what is
wrong inside any entry. So every flaw has a rank, and of several flaws the one of the least rank is
reported; of those the first.

The value of the key `<<` is a mapping, or a sequence of mappings, whose entries are merged into the
mapping. They come first, and the mapping's own entries take precedence over them. A set is written
as a mapping and stands for the list of its keys.
-/

namespace Cabinet.Yaml

/-! ## Scalars -/

/-- A text without underscores. -/
def dropUnderscores (t : Text) : Text := t.filter (· != .char '_')

def integerIn (base : Nat) (t : Text) : Except Misread Int :=
  match if base = 10 then Number.readInt? t else Number.readIntIn? base t with
  | some n => .ok n
  | none => .error (.integer base t)

def doubleOf (t : Text) : Except Misread Double :=
  match Number.readDouble? t with
  | some x => .ok x
  | none => .error (.double t)

/-- The number that sexagesimal places make up. -/
def sexagesimal (places : List Int) : Int := places.foldl (fun n d => n * 60 + d) 0

/-- The double that sexagesimal places make up, added from the last to the first; `unit` is what the
last one counts. -/
def sexagesimalSum : (unit : Int) → (sum : Double) → (places : List Double) → Except Misread Double
  | _, sum, [] => .ok sum
  | unit, sum, x :: rest =>
    match Double.ofInt? unit with
    | none => .error .tooLarge
    | some u => sexagesimalSum (unit * 60) (sum.add (x.mul u)) rest

/-- An integer without its sign. -/
def magnitude (t : Text) : Except Misread Int :=
  match t with
  | [] => .error .noNumber
  | .char '0' :: [] => .ok 0
  | .char '0' :: .char 'b' :: rest => integerIn 2 rest
  | .char '0' :: .char 'x' :: rest => integerIn 16 rest
  | .char '0' :: _ => integerIn 8 t
  | t =>
    if t.elem (.char ':') then (((Text.splitOn ':' t).mapM (integerIn 10))).map sexagesimal
    else integerIn 10 t

def readInteger (t : Text) : Except Misread Int :=
  match dropUnderscores t with
  | [] => .error .noNumber
  | p :: t =>
    if p = .char '-' then (magnitude t).map (- ·)
    else if p = .char '+' then magnitude t
    else magnitude (p :: t)

/-- A double without its sign. -/
def doubleMagnitude (t : Text) : Except Misread Double :=
  if t = ".inf".toText then .ok (.infinity false)
  else if t = ".nan".toText then .ok .nan
  else if t.elem (.char ':') then do
    sexagesimalSum 1 (Double.zero false) (← (Text.splitOn ':' t).mapM doubleOf).reverse
  else doubleOf t

def readDouble (t : Text) : Except Misread Double :=
  match (dropUnderscores t).map CodePoint.asciiLower with
  | [] => .error .noNumber
  | p :: t =>
    if p = .char '-' then (doubleMagnitude t).map Double.neg
    else if p = .char '+' then doubleMagnitude t
    else doubleMagnitude (p :: t)

def readBool (t : Text) : Except Misread Bool :=
  let t := t.map CodePoint.asciiLower
  if ["yes".toText, "true".toText, "on".toText].elem t then .ok true
  else if ["no".toText, "false".toText, "off".toText].elem t then .ok false
  else .error (.bool t)

/-- A day, or a moment. -/
def readTimestamp (t : Text) : Except Misread Scalar :=
  match Moment.read? (Kind.dropFinalBreak t) with
  | none => .error .timestamp
  | some m => match m.clock with
    | none => (m.date.mapError .calendar).map .date
    | some c => ((m.timestamp c).mapError .calendar).map .timestamp

/-- The bytes of a text in base 64. -/
def readBytes (t : Text) : Except Problem (List UInt8) :=
  if t.all fun p => p.toNat < 0x80 then
    match Base64.decode? t with
    | some bytes => .ok bytes
    | none => .error .badBase64
  else .error .badBase64

/-- The scalar that a text of a kind stands for. -/
def scalarOf (kind : Kind) (t : Text) : Except Error Scalar :=
  match kind with
  | .null => .ok .null
  | .bool => ((readBool t).mapError .misread).map .bool
  | .int => ((readInteger t).mapError .misread).map .int
  | .float => ((readDouble t).mapError .misread).map .float
  | .timestamp => (readTimestamp t).mapError .misread
  | .binary => ((readBytes t).mapError .malformed).map .bytes
  | .text => .ok (.text t)
  | .other tag => .error (.malformed (.unknownTag tag))
  | kind => .error (.malformed (.unknownTag (Kind.standard ++ kind.name)))

/-! ## Flaws and their ranks -/

/-- What is wrong, and how soon it is met. -/
structure Flaw where
  rank : Nat
  error : Error

/-- Both of two results, or the flaw that is met first. -/
def both {α β : Type} (x : Except Flaw α) (y : Except Flaw β) : Except Flaw (α × β) :=
  match x, y with
  | .ok a, .ok b => .ok (a, b)
  | .error e, .ok _ => .error e
  | .ok _, .error f => .error f
  | .error e, .error f => .error (if f.rank < e.rank then f else e)

def flawed {α : Type} (rank : Nat) (p : Problem) : Except Flaw α := .error ⟨rank, .malformed p⟩

namespace Node

/-- Whether nodes of a kind stand for collections. -/
def isCollection : Kind → Bool
  | .sequence | .mapping | .set | .pairs | .orderedPairs => true
  | _ => false

mutual

/-- The text of a scalar, or of the mapping that it stands for. -/
def text? : Node → Option Text
  | .scalar _ t => some t
  | .sequence .. => none
  | .mapping _ entries => textOfEntries? entries

def textOfEntries? : List (Node × Node) → Option Text
  | [] => none
  | (key, x) :: rest => if key.kind = .value then text? x else textOfEntries? rest

end

/-- The scalar that a node of a kind stands for. -/
def scalarAt (rank : Nat) (kind : Kind) (n : Node) : Except Flaw Scalar :=
  match n.text? with
  | none => flawed rank .noScalar
  | some t => (scalarOf kind t).mapError (⟨rank, ·⟩)

/-- The name that a key stands for. -/
def nameAt (rank : Nat) (key : Node) : Except Flaw Scalar :=
  if isCollection key.kind then flawed rank .unhashableKey
  else scalarAt rank (if key.kind = .value then .text else key.kind) key

/-- Fields that are merged into an object, and its own ones. -/
abbrev Fields := List (Scalar × Value) × List (Scalar × Value)

/-- All fields, of which later ones take precedence. -/
def Fields.all (fs : Fields) : List (Scalar × Value) := fs.1 ++ fs.2

mutual

/-- The value of a node. A flaw of merging has rank `rank`, a flaw of the node the next one, and
those of the nodes in it have later ones. -/
def valueAt (rank : Nat) : Node → Except Flaw Value
  | .scalar kind t =>
    if isCollection kind then
      flawed (rank + 3) (if kind = .mapping ∨ kind = .set then .noMapping else .noSequence)
    else (scalarAt (rank + 1) kind (.scalar kind t)).map .scalar
  | .sequence kind items => match kind with
    | .sequence => (itemsAt (rank + 2) items).map .list
    | .pairs | .orderedPairs => (pairsAt (rank + 2) items).map .list
    | .mapping | .set => flawed (rank + 3) .noMapping
    | kind => (scalarAt (rank + 1) kind (.sequence kind items)).map .scalar
  | .mapping kind entries => match kind with
    | .mapping => (fieldsAt (rank + 2) entries).map fun fs => .object (Document.ofPairs fs.all)
    | .set => (fieldsAt (rank + 2) entries).map fun fs =>
      .list ((Document.ofPairs fs.all).map fun f => .scalar f.1)
    | .sequence | .pairs | .orderedPairs => flawed (rank + 3) .noSequence
    | kind => (scalarAt (rank + 1) kind (.mapping kind entries)).map .scalar

def itemsAt (rank : Nat) : List Node → Except Flaw (List Value)
  | [] => .ok []
  | x :: rest => (both (valueAt rank x) (itemsAt rank rest)).map fun (v, vs) => v :: vs

/-- Pairs, each written as a mapping with one entry. -/
def pairsAt (rank : Nat) : List Node → Except Flaw (List Value)
  | [] => .ok []
  | .mapping _ [(key, x)] :: rest =>
    (both (both (valueAt rank key) (valueAt rank x)) (pairsAt rank rest)).map
      fun ((k, v), vs) => .list [k, v] :: vs
  | _ :: _ => flawed (rank + 1) .noSinglePair

def fieldsAt (rank : Nat) : List (Node × Node) → Except Flaw Fields
  | [] => .ok ([], [])
  | (key, x) :: rest =>
    if key.kind = .merge then
      (both (mergedAt rank x) (fieldsAt rank rest)).map
        fun (fs, (merged, own)) => (fs ++ merged, own)
    else
      (both (both (nameAt (rank + 1) key) (valueAt rank x)) (fieldsAt rank rest)).map
        fun (f, (merged, own)) => (merged, f :: own)

/-- The fields that a node merges into an object. -/
def mergedAt (rank : Nat) : Node → Except Flaw (List (Scalar × Value))
  | .scalar .. => flawed rank .noMerge
  | .mapping _ entries => (fieldsAt rank entries).map Fields.all
  | .sequence _ items => mergedItemsAt rank items

/-- The fields that several mappings merge into an object; earlier mappings take precedence. -/
def mergedItemsAt (rank : Nat) : List Node → Except Flaw (List (Scalar × Value))
  | [] => .ok []
  | .mapping _ entries :: rest =>
    (both (fieldsAt rank entries) (mergedItemsAt rank rest)).map fun (fs, later) => later ++ fs.all
  | _ :: _ => flawed rank .noMerge

end

/-- The value that a node stands for. -/
def value (n : Node) : Except Error Value := (valueAt 0 n).mapError Flaw.error

end Node

/-- The value that a text stands for. -/
def parse (t : Text) : Except Error Value := do
  match ← Node.ofText t with
  | some n => n.value
  | none => return .null

end Cabinet.Yaml
