import Cabinet.Json.Writer
import Cabinet.Failure

/-!
# Stores

A store keeps documents under identifiers. Whatever its state is, it is asked in the same way:

* `Action` : an operation on a state that may fail; what it did before it failed stays done;
* `Action.focus` : an operation on a part of a state, as one on the whole;
* `Store` : the operations of a store over states of a type, and how it writes keys and documents;
* `Store.encodeJson`, `Store.decodeJson` : documents as JSON text on one line.
-/

namespace Cabinet

/-- An operation on a state that may fail. -/
abbrev Action (σ α : Type) := ExceptT Failure (StateM σ) α

namespace Action

/-- An operation that is no more than its result. -/
def ofExcept {σ α : Type} (r : Except Failure α) : Action σ α := fun s => (r, s)

/-- An operation on the part of a state that `get` takes out and `put` puts back. -/
def focus {σ τ α : Type} (get : σ → τ) (put : τ → σ → σ) (a : Action τ α) : Action σ α :=
  fun s => let (r, t) := a (get s); (r, put t s)

end Action

/-- A store over states of a type. -/
structure Store (σ : Type) where
  name : Text
  read : (id : Text) → Action σ Document
  write : (id : Text) → (document : Value) → Action σ Unit
  erase : (id : Text) → Action σ Unit
  exist : (id : Text) → Action σ Bool
  /-- The identifiers of all documents. -/
  index : Action σ (List Text)
  /-- The key of an identifier. -/
  escape : (id : Text) → Except Failure Text
  /-- The identifier of a key. -/
  unescape : (key : Text) → Except Failure Text
  /-- The text that a document is kept as. -/
  encode : (document : Value) → Except Failure Text
  decode : (kept : Text) → Except Failure Document

namespace Store

/-- The text of a document as JSON. -/
def encodeJson (style : Json.Style) (name : Text) (v : Value) : Except Failure Text :=
  (Json.write style v).mapError fun e => .encode name (.json e)

/-- The document of a JSON text, which has to be an object. -/
def decodeJson (name kept : Text) : Except Failure Document :=
  match Json.parse kept with
  | .error e => .error (.decode name (.json e))
  | .ok (.object d) => .ok d
  | .ok _ => .error (.notDocument name)

/-- The same store over a state of which its own is a part. -/
def focus {σ τ : Type} (get : σ → τ) (put : τ → σ → σ) (s : Store τ) : Store σ where
  name := s.name
  read id := (s.read id).focus get put
  write id d := (s.write id d).focus get put
  erase id := (s.erase id).focus get put
  exist id := (s.exist id).focus get put
  index := s.index.focus get put
  escape := s.escape
  unescape := s.unescape
  encode := s.encode
  decode := s.decode

end Store

end Cabinet
