import Cabinet.Path.Eval
import Cabinet.Query.Given

/-!
# Projections

A projection says for each field it names whether it is kept, dropped, copied from another field or
computed by a path expression. Dropping does not mix with the rest: a projection drops fields and
keeps all others, or it makes a new document of the fields it names.

* `Projection` : a compiled projection;
* `Projection.compile` : compiles a value, or says what is wrong with it first;
* `Projection.apply` : the projected document.
-/

namespace Cabinet

/-- Where a field of the new document comes from. -/
inductive Projection.Source where
  /-- The field of the same name, if there is one. -/
  | same
  | field (name : Text)
  | expression (e : Path.Expr)

inductive Projection where
  | identity
  | keep (fields : List (Text × Projection.Source))
  | drop (fields : List Text)

namespace Projection

/-- What an entry says: a source to keep the field from, or none to drop it. -/
def entry (field : Text) (given : Value) : Except QueryError (Option Source) :=
  match given with
  | .scalar (.text t) =>
    match t with
    | .char '$' :: p :: rest => .ok (some (.field (p :: rest)))
    | _ => .error (.projectionEntry field given)
  | .object [(.text key, .text expression)] =>
    if key = "$expr".toText then
      match Path.Expr.ofText expression with
      | .ok e => .ok (some (.expression e))
      | .error flaw => .error (.expression field flaw)
    else .error (.projectionEntry field given)
  | .scalar s =>
    if s.number?.isNone then .error (.projectionEntry field given)
    else if s.isTrue then .ok (some .same)
    else .ok none
  | given => .error (.projectionEntry field given)

/-- The entries of a projection, in order. -/
def entries : List (Scalar × Value) → Except QueryError (List (Text × Option Source))
  | [] => .ok []
  | (.text field, given) :: rest => do
    let source ← entry field given
    return (field, source) :: (← entries rest)
  | (name, _) :: _ => .error (.projectionName name)

/-- The projection of the entries. -/
def ofEntries (es : List (Text × Option Source)) : Except QueryError Projection :=
  let kept := es.filterMap fun (field, source) => source.map fun s => (field, s)
  let dropped := (es.filter fun e => e.2.isNone).map (·.1)
  if kept.isEmpty then .ok (if dropped.isEmpty then .identity else .drop dropped)
  else if dropped.isEmpty then .ok (.keep kept)
  else .error .mixedProjection

/-- The field of a document that is to be kept, if it is there. -/
def kept? (v : Value) (field : Text) : Except Failure (Option Value) :=
  match v with
  | .object fs => .ok (Document.get? fs (.text field))
  | .list xs =>
    if xs.any fun x => x.same (.text field) then
      .error (.badArguments "list indices must be integers or slices, not str".toText)
    else .ok none
  | .text t =>
    if Text.contains field t then
      .error (.badArguments "string indices must be integers, not 'str'".toText)
    else .ok none
  | v => .error (.badArguments ("argument of type '" ++ v.kind ++ "' is not iterable").toText)

/-- The fields of the new document that come from the sources. -/
def keepFields (v : Value) : (made : Document) → List (Text × Source) → Except Failure Document
  | made, [] => .ok made
  | made, (field, source) :: rest => do
    let x ← match source with
      | .same => kept? v field
      | .field name => do pure (some (← v.field (.text name)))
      | .expression e => do pure (some (← (e.eval v).mapError .expression))
    match x with
    | some x => keepFields v (made.set (.text field) x) rest
    | none => keepFields v made rest

/-- The document without some fields. -/
def dropFields (v : Value) (fields : List Text) : Except Failure Value :=
  match v with
  | .object fs => .ok (.object (fields.foldl (fun d field => Document.erase d (.text field)) fs))
  | .list _ => .error (.badArguments "pop expected at most 1 argument, got 2".toText)
  | v => .error (.noMember v.kind "pop")

/-- The projected document. -/
def apply : Projection → Transform
  | .identity, v => .ok v
  | .keep fields, v => do return .object (← keepFields v [] fields)
  | .drop fields, v => dropFields v fields

/-- The transform of a projection. -/
def compile : Given Transform → Except QueryError Transform
  | .function f => .ok f
  | .value .null => .ok Projection.identity.apply
  | .value (.object fields) => do return (← ofEntries (← entries fields)).apply
  | .value given => .error (.projection given)

end Projection

end Cabinet
