import Cabinet.Json.Reader
import Cabinet.Path.Function
import Cabinet.Path.Reader
import Cabinet.Store.Disk
import Cabinet.Yaml.Problem

/-!
# Failures

* `QueryError` : why a condition, a projection, a sort order or an update means nothing;
* `Failure` : everything that an operation on documents can fail by, one constructor per cause;
* `QueryError.message`, `Failure.message` : their wording.
-/

namespace Cabinet

/-- Why a condition, a projection, a sort order or an update means nothing. -/
inductive QueryError where
  | condition (given : Value)
  | projection (given : Value)
  | projectionName (name : Scalar)
  | projectionEntry (field : Text) (given : Value)
  | expression (field : Text) (flaw : Path.SyntaxError)
  | mixedProjection
  | order (given : Value)
  | orderName (name : Value)
  | direction (field : Text) (given : Value)
  | operator (name : Value)
  deriving DecidableEq

/-- What a store can be asked to do. -/
inductive Operation where
  | read
  | write
  | erase
  | exist
  | index
  deriving DecidableEq, Repr

def Operation.name : Operation → String
  | .read => "read"
  | .write => "write"
  | .erase => "erase"
  | .exist => "exist"
  | .index => "index"

/-- The operations in a row. -/
def Operation.all : List Operation := [.read, .write, .erase, .exist, .index]

/-- Why a value cannot be stored. -/
inductive EncodeError where
  | json (e : Json.WriteError)
  | surrogate (e : Utf8.EncodeError)
  deriving DecidableEq

/-- Why stored text is no value. -/
inductive DecodeError where
  | json (e : Json.SyntaxError)
  | yaml (p : Yaml.Problem)
  deriving DecidableEq

/-- What a store was about to do with a file when the system refused. -/
inductive FileAction where
  | read
  | write
  | erase
  | list
  deriving DecidableEq, Repr

def FileAction.name : FileAction → String
  | .read => "read"
  | .write => "write"
  | .erase => "erase"
  | .list => "list"

inductive Failure where
  | query (e : QueryError)
  /-- No document is stored under an identifier. -/
  | notFound (id : Text)
  /-- No document meets a condition. -/
  | noMatch (condition : Text)
  /-- A store's folder is not there. -/
  | noFolder (path : Text)
  | encode (store : Text) (e : EncodeError)
  | decode (store : Text) (e : DecodeError)
  /-- Stored text is a value, but no object. -/
  | notDocument (store : Text)
  /-- A key that no identifier has. -/
  | badKey (key : Text)
  | denied (operation : Operation)
  /-- A failure that a store was told to feign. -/
  | feigned (message : Text)
  /-- The system refused what a store was about to do with a path. -/
  | file (store : Text) (action : FileAction) (path : Text) (e : Disk.Error)
  | system (e : Disk.Error)
  | badIdentifier (given : Text)
  | noIdentifier (field : Text)
  | malformedBytes (e : Utf8.DecodeError)
  | loneSurrogate (e : Utf8.EncodeError)
  | json (e : Json.SyntaxError)
  | number (e : Number.Problem)
  | badInteger (given : Text)
  | noInteger (kind : String)
  /-- Stored text has a scalar that cannot be read as what it has to be. -/
  | misread (m : Yaml.Misread)
  | expression (e : Path.EvalError)
  | unwritable (e : Json.WriteError)
  /-- A value of a kind without an operation. -/
  | noMember (kind member : String)
  | noItems (kind : String)
  | unhashable (kind : String)
  | badArguments (message : Text)
  /-- A function that the caller supplied failed. -/
  | callback (message : Text)
  | unknownBackend (name : Text)
  | noPath (backend : Text)
  | noRegistry
  | unknownOperations (names : List Text)
  deriving DecidableEq

/-! ## Wording -/

def QueryError.message : QueryError → Text
  | .condition given => "invalid condition: ".toText ++ given.shown
  | .projection given => "invalid projection: ".toText ++ given.shown
  | .projectionName name => "invalid projection field: ".toText ++ name.shown
  | .projectionEntry field given =>
    "invalid projection for ".toText ++ field.quoted ++ ": ".toText ++ given.shown
  | .expression field flaw =>
    "invalid projection expression for ".toText ++ field.quoted ++ ": ".toText ++ flaw.message
  | .mixedProjection => "projection can't mix included and excluded fields".toText
  | .order given => "invalid order: ".toText ++ given.shown
  | .orderName name => "invalid sort field: ".toText ++ name.shown
  | .direction field given =>
    "invalid sort direction for ".toText ++ field.quoted ++ ": ".toText ++ given.shown
  | .operator name => "invalid update operator: ".toText ++ name.shown

def EncodeError.message : EncodeError → Text
  | .json e => e.message
  | .surrogate e => e.message

def DecodeError.message : DecodeError → Text
  | .json e => e.message
  | .yaml p => p.message

def Failure.message : Failure → Text
  | .query e => e.message
  | .notFound id => "Item not found: ".toText ++ id.quoted
  | .noMatch condition => "No document matches ".toText ++ condition
  | .noFolder path => "Storage directory not found: ".toText ++ path
  | .encode store e => store ++ ": can't encode document: ".toText ++ e.message
  | .decode store e => store ++ ": can't decode document: ".toText ++ e.message
  | .notDocument store => store ++ ": stored value is not a document".toText
  | .badKey key => "invalid storage key: ".toText ++ key.quoted
  | .denied operation => ("method denied: " ++ operation.name).toText
  | .feigned message => message
  | .file store action path e =>
    store ++ (": can't " ++ action.name ++ " ").toText ++ path ++ ": ".toText ++ e.message
  | .system e => e.message
  | .badIdentifier given => "identifier must be a non-empty string: ".toText ++ given
  | .noIdentifier field =>
    "Document has no ".toText ++ field.quoted ++ " field to save under".toText
  | .malformedBytes e => e.message
  | .loneSurrogate e => e.message
  | .json e => e.message
  | .number e => e.message
  | .badInteger given => "invalid literal for int() with base 10: ".toText ++ given.quoted
  | .noInteger kind =>
    ("int() argument must be a string, a bytes-like object or a real number, not '" ++ kind
      ++ "'").toText
  | .misread m => m.message
  | .expression e => e.message
  | .unwritable e => e.message
  | .noMember kind member => ("'" ++ kind ++ "' object has no attribute '" ++ member ++ "'").toText
  | .noItems kind => ("'" ++ kind ++ "' object does not support item assignment").toText
  | .unhashable kind => ("unhashable type: '" ++ kind ++ "'").toText
  | .badArguments message => message
  | .callback message => message
  | .unknownBackend name =>
    "Unknown storage backend: ".toText ++ name ++ " (choose from json, memory, yaml)".toText
  | .noPath backend => "Storage backend ".toText ++ backend ++ " requires a path".toText
  | .noRegistry => "a memory namespace requires a NamespaceRegistry".toText
  | .unknownOperations names =>
    "Unknown storage methods: ".toText ++ Text.join ", ".toText names

end Cabinet
