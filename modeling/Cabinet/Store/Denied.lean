import Cabinet.Store.Basic

/-!
# Stores that refuse operations

`Store.deny` puts a store behind a wrapper that refuses some of its operations and passes on all
others. Keys are the store's own; documents are encoded as JSON, under the wrapper's name.
-/

namespace Cabinet.Store

/-- An operation, unless it is among those refused. -/
def unlessDenied {σ α : Type} (denied : List Operation) (op : Operation) (a : Action σ α) :
    Action σ α :=
  if denied.elem op then .ofExcept (.error (.denied op)) else a

/-- The name of the wrapper around a store of a name. -/
def deniedName (name : Text) : Text := "deny(".toText ++ name ++ ")".toText

/-- The store with some operations refused. -/
def deny {σ : Type} (s : Store σ) (denied : List Operation) : Store σ where
  name := deniedName s.name
  read id := unlessDenied denied .read (s.read id)
  write id d := unlessDenied denied .write (s.write id d)
  erase id := unlessDenied denied .erase (s.erase id)
  exist id := unlessDenied denied .exist (s.exist id)
  index := unlessDenied denied .index s.index
  escape := s.escape
  unescape := s.unescape
  encode := encodeJson .compact (deniedName s.name)
  decode := decodeJson (deniedName s.name)

/-- The operations of some names, all of which have to be known. -/
def operationsOf (names : List Text) : Except Failure (List Operation) :=
  let named? (name : Text) := Operation.all.find? fun op => op.name.toText = name
  let unknown := names.filter fun name => (named? name).isNone
  if unknown.isEmpty then .ok (names.filterMap named?)
  else .error (.unknownOperations (Text.sort unknown.eraseDups))

end Cabinet.Store
