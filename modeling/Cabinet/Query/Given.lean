import Cabinet.Failure

/-!
# What a caller hands in

A condition, a projection, a sort order or an update is given as a value, which is compiled, or as a
function, which is used as it is. Null stands for nothing given.

The four kinds of function work on documents as values: a function that a caller supplied may make
anything of a document.
-/

namespace Cabinet

/-- A value to compile, or a function to use. -/
inductive Given (α : Type) where
  | value (v : Value)
  | function (f : α)

/-- Nothing given. -/
abbrev Given.nothing {α : Type} : Given α := .value .null

def Given.isNothing {α : Type} : Given α → Bool
  | .value .null => true
  | _ => false

instance {α : Type} : Inhabited (Given α) := ⟨.nothing⟩

/-- Tells whether a document is accepted. -/
abbrev Predicate := Value → Except Failure Bool

/-- Makes a document of a document. -/
abbrev Transform := Value → Except Failure Value

/-- Compares two documents: the first is less if the result is negative. -/
abbrev Comparator := Value → Value → Except Failure Int

/-- Looks up a field; a field that is not there is null. Only objects have fields. -/
def Value.field (v : Value) (key : Scalar) : Except Failure Value :=
  match v with
  | .object fs => .ok (Document.getD fs key)
  | v => .error (.noMember v.kind "get")

end Cabinet
