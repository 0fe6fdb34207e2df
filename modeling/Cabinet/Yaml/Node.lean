import Cabinet.Yaml.Kind
import Cabinet.Yaml.Token

/-!
# Nodes

* `Node` : a scalar, a sequence or a mapping, with its kind;
* `Node.ofTokens` : the node that the only document of a text consists of, if there is a document;
* `Node.ofText` : the same from the text.

An alias is replaced by the node whose anchor it names. That node comes earlier in the text, and an
alias within the node that it names is refused.
-/

namespace Cabinet.Yaml

inductive Node where
  | scalar (kind : Kind) (t : Text)
  | sequence (kind : Kind) (items : List Node)
  | mapping (kind : Kind) (entries : List (Node × Node))

instance : Inhabited Node := ⟨.scalar .null []⟩

namespace Node

def kind : Node → Kind
  | .scalar kind _ | .sequence kind _ | .mapping kind _ => kind

/-- The scalar where nothing is written. -/
def empty : Node := .scalar (.ofPlain []) []

/-- What remains of a document. -/
structure Draft where
  tokens : List Token
  /-- The full form of each handle. -/
  handles : List (Text × Text)
  /-- The nodes that have an anchor, as far as they are complete. -/
  anchors : List (Text × Option Node)

abbrev Reading := StateT Draft (Except Problem)

/-- The handles of a document without directives. -/
def standardHandles : List (Text × Text) := [("!".toText, "!".toText), ("!!".toText, Kind.standard)]

namespace Reading

def peek : Reading (Option Token) := return (← get).tokens.head?

def skip : Reading Unit := modify fun d => { d with tokens := d.tokens.drop 1 }

/-- Moves over a token if it comes next, and tells whether it does. -/
def takes (t : Token) : Reading Bool := do
  if (← peek) = some t then
    skip
    return true
  else return false

/-- Whether one of some tokens comes next. -/
def isAt (ts : List Token) : Reading Bool := do
  match ← peek with
  | some t => return ts.elem t
  | none => return false

end Reading

open Reading

/-! ## Properties -/

/-- The anchor and the tag that a node may have. -/
structure Properties where
  anchor : Option Text
  tag : Option Tag

def readAnchor : Reading (Option Text) := do
  match ← peek with
  | some (.anchor name) =>
    skip
    return some name
  | _ => return none

def readTag : Reading (Option Tag) := do
  match ← peek with
  | some (.tag t) =>
    skip
    return some t
  | _ => return none

/-- The properties in either order. -/
def readProperties : Reading Properties := do
  match ← readAnchor with
  | some name => return ⟨some name, ← readTag⟩
  | none =>
    match ← readTag with
    | some t => return ⟨← readAnchor, some t⟩
    | none => return ⟨none, none⟩

/-- A full tag. -/
def fullTag (t : Tag) : Reading Text := do
  match t.handle with
  | none => return t.suffix
  | some handle =>
    match (← get).handles.find? fun e => e.1 = handle with
    | some (_, lead) => return lead ++ t.suffix
    | none => throw (.unknownHandle handle)

/-- The full tag of a node, where the tag `!` only asks for what is usual. -/
def Properties.tag? (p : Properties) : Reading (Option Text) := do
  match p.tag with
  | none => return none
  | some t => return some (← fullTag t)

/-- The kind that a tag gives, with `usual` for a node without one. -/
def kindOf (usual : Kind) : Option Text → Kind
  | none => usual
  | some tag => if tag = "!".toText then usual else .ofTag tag

/-- The kind of a scalar: without a tag its looks count if it is plain, and with the tag `!` they
count in any case. -/
def scalarKind (isPlain : Bool) (t : Text) : Option Text → Kind
  | none => if isPlain then .ofPlain t else .text
  | some tag => if tag = "!".toText then .ofPlain t else .ofTag tag

/-- Notes that a node with an anchor begins. -/
def openAnchor (anchor : Option Text) : Reading Unit := do
  if let some name := anchor then
    if (← get).anchors.any fun e => e.1 = name then throw (.repeatedAnchor name)
    modify fun d => { d with anchors := (name, none) :: d.anchors }

/-- Notes that the node with an anchor is complete. -/
def closeAnchor (anchor : Option Text) (n : Node) : Reading Node := do
  if let some name := anchor then
    modify fun d => { d with anchors := (name, some n) :: d.anchors.filter fun e => e.1 != name }
  return n

/-- The node that an alias names. -/
def resolve (name : Text) : Reading Node := do
  match (← get).anchors.find? fun e => e.1 = name with
  | some (_, some n) => return n
  | some (_, none) => throw (.recursiveAnchor name)
  | none => throw (.unknownAnchor name)

/-! ## Nodes -/

/-- The tokens after which no node is written where a key or a value of a block mapping may be. -/
def ends : List Token := [.key, .value, .blockEnd]

mutual

/-- The node that comes next. Within a block it may be a block collection, and where `hanging` is set
a sequence that is not indented. The fuel bounds the calls that lead to a part; at least every
other one takes a token, so twice their number is always enough. -/
def read : (fuel : Nat) → (inBlock hanging : Bool) → Reading Node
  | 0, _, _ => throw .noContent
  | fuel + 1, inBlock, hanging => do
    if let some (.alias name) ← peek then
      skip
      return ← resolve name
    let properties ← readProperties
    let tag ← properties.tag?
    let collection (usual : Kind) (contents : Reading (Kind → Node)) : Reading Node := do
      openAnchor properties.anchor
      closeAnchor properties.anchor ((← contents) (kindOf usual tag))
    let next ← peek
    if hanging && next = some .item then
      collection .sequence do return (.sequence · (← readHanging fuel))
    else match next, inBlock with
    | some (.scalar isPlain t), _ =>
      skip
      openAnchor properties.anchor
      closeAnchor properties.anchor (.scalar (scalarKind isPlain t tag) t)
    | some .flowSequenceStart, _ =>
      skip
      collection .sequence do return (.sequence · (← readFlowItems fuel true))
    | some .flowMappingStart, _ =>
      skip
      collection .mapping do return (.mapping · (← readFlowEntries fuel true))
    | some .blockSequenceStart, true =>
      skip
      collection .sequence do return (.sequence · (← readItems fuel))
    | some .blockMappingStart, true =>
      skip
      collection .mapping do return (.mapping · (← readEntries fuel))
    | _, _ =>
      if properties.anchor.isNone && tag.isNone then throw .noContent
      openAnchor properties.anchor
      closeAnchor properties.anchor (.scalar (scalarKind true [] tag) [])

/-- The node that comes next, or an empty one before some tokens. -/
def readBefore : (fuel : Nat) → (stops : List Token) → (inBlock hanging : Bool) → Reading Node
  | 0, _, _, _ => throw .noContent
  | fuel + 1, stops, inBlock, hanging => do
    if ← isAt stops then return empty else read fuel inBlock hanging

/-- The items of a block sequence up to its end. -/
def readItems : (fuel : Nat) → Reading (List Node)
  | 0 => throw .noContent
  | fuel + 1 => do
    if ← takes .item then
      let x ← readBefore fuel [.item, .blockEnd] true false
      return x :: (← readItems fuel)
    else if ← takes .blockEnd then return []
    else throw .noBlockEnd

/-- The items of a sequence that is not indented. -/
def readHanging : (fuel : Nat) → Reading (List Node)
  | 0 => throw .noContent
  | fuel + 1 => do
    if ← takes .item then
      let x ← readBefore fuel (.item :: ends) true false
      return x :: (← readHanging fuel)
    else return []

/-- The entries of a block mapping up to its end. -/
def readEntries : (fuel : Nat) → Reading (List (Node × Node))
  | 0 => throw .noContent
  | fuel + 1 => do
    if ← takes .key then
      let key ← readBefore fuel ends true true
      let x ← if ← takes .value then readBefore fuel ends true true else pure empty
      return (key, x) :: (← readEntries fuel)
    else if ← takes .blockEnd then return []
    else throw .noBlockEnd

/-- The items of a flow sequence up to its end. An item with a key is a mapping with one entry. -/
def readFlowItems : (fuel : Nat) → (isFirst : Bool) → Reading (List Node)
  | 0, _ => throw .noContent
  | fuel + 1, isFirst => do
    if ← takes .flowSequenceEnd then return []
    if !isFirst then
      unless ← takes .comma do throw .noFlowEnd
    if ← takes .key then
      let key ← readBefore fuel [.value, .comma, .flowSequenceEnd] false false
      let x ← if ← takes .value then readBefore fuel [.comma, .flowSequenceEnd] false false
        else pure empty
      return .mapping .mapping [(key, x)] :: (← readFlowItems fuel false)
    else if ← takes .flowSequenceEnd then return []
    else
      let x ← read fuel false false
      return x :: (← readFlowItems fuel false)

/-- The entries of a flow mapping up to its end. -/
def readFlowEntries : (fuel : Nat) → (isFirst : Bool) → Reading (List (Node × Node))
  | 0, _ => throw .noContent
  | fuel + 1, isFirst => do
    if ← takes .flowMappingEnd then return []
    if !isFirst then
      unless ← takes .comma do throw .noFlowEnd
    if ← takes .key then
      let key ← readBefore fuel [.value, .comma, .flowMappingEnd] false false
      let x ← if ← takes .value then readBefore fuel [.comma, .flowMappingEnd] false false
        else pure empty
      return (key, x) :: (← readFlowEntries fuel false)
    else if ← takes .flowMappingEnd then return []
    else
      let key ← read fuel false false
      return (key, empty) :: (← readFlowEntries fuel false)

end

/-! ## Documents -/

/-- What directives say: the version, and the handles from the last to the first. -/
structure Header where
  version : Option Nat
  handles : List (Text × Text)

/-- Takes a directive into account. -/
def Header.add (h : Header) : Directive → Except Problem Header
  | .version major _ =>
    if h.version.isSome then .error .repeatedDirective
    else if major != 1 then .error .badVersion
    else .ok { h with version := some major }
  | .handle name lead =>
    if h.handles.any fun e => e.1 = name then .error .repeatedDirective
    else .ok { h with handles := (name, lead) :: h.handles }
  | .other => .ok h

/-- The directives that come first, and the tokens after them. -/
def readHeader (h : Header) : List Token → Except Problem (Header × List Token)
  | .directive d :: rest => do readHeader (← h.add d) rest
  | rest => .ok (h, rest)

/-- The node of a document, whose tokens come next, and the tokens after it. -/
def readDocument (tokens : List Token) : Except Problem (Node × List Token) := do
  let fuel := 3 * tokens.length + 3
  match tokens with
  | .directive _ :: _ | .documentStart :: _ =>
    match ← readHeader ⟨none, []⟩ tokens with
    | (h, .documentStart :: rest) =>
      let isEmpty := match rest with
        | [] | .directive _ :: _ | .documentStart :: _ | .documentEnd :: _ => true
        | _ => false
      if isEmpty then return (empty, rest)
      let (n, d) ← (read fuel true false).run ⟨rest, h.handles ++ standardHandles, []⟩
      return (n, d.tokens)
    | _ => throw .noDocumentStart
  | tokens =>
    let (n, d) ← (read fuel true false).run ⟨tokens, standardHandles, []⟩
    return (n, d.tokens)

/-- The node of the only document, unless there is none. -/
def ofTokens (tokens : List Token) : Except Problem (Option Node) :=
  match tokens with
  | [] => .ok none
  | tokens => do
    let (n, rest) ← readDocument tokens
    if !(rest.dropWhile (· == .documentEnd)).isEmpty then throw .severalDocuments
    return some n

/-- The node of the only document of a text, unless there is none. -/
def ofText (t : Text) : Except Error (Option Node) :=
  match Text.toChars? t with
  | none => .error (.malformed .unprintable)
  | some cs =>
    if cs.all isAllowed then do
      (ofTokens (← Token.ofSource (.ofChars cs))).mapError .malformed
    else .error (.malformed .unprintable)

end Node

end Cabinet.Yaml
