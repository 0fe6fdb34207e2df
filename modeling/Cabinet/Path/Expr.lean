import Cabinet.Value.Basic

/-!
# Path expressions

A path expression computes a value from a document: it selects fields and items, projects over
lists and objects, filters, and calls functions. `Path.Expr` is its syntax tree.
-/

namespace Cabinet.Path

inductive Comparison where
  | equal
  | notEqual
  | less
  | lessEqual
  | greater
  | greaterEqual
  deriving DecidableEq, Repr

/-- A path expression. A projection has a right side, which is applied to every item. -/
inductive Expr where
  /-- The current value. -/
  | current
  | field (name : Text)
  | literal (v : Value)
  /-- The item at a place, from the end if the number is negative. -/
  | index (n : Int)
  /-- The items from a place up to another, by steps. -/
  | slice (start stop step : Option Int)
  /-- The right side, applied to the value of the left one. -/
  | andThen (left right : Expr)
  /-- The same, where the right side is an index or a slice in brackets. -/
  | bracketed (left right : Expr)
  /-- The list, with the items of the lists in it in their place. -/
  | flatten (list : Expr)
  | project (list right : Expr)
  | projectFields (object right : Expr)
  | filter (list right condition : Expr)
  | selectList (items : List Expr)
  | selectObject (fields : List (Text × Expr))
  | or (left right : Expr)
  | and (left right : Expr)
  | not (e : Expr)
  | compare (c : Comparison) (left right : Expr)
  | call (name : Text) (arguments : List Expr)
  /-- The expression itself, as an argument of a function. -/
  | reference (e : Expr)

instance : Inhabited Expr := ⟨.current⟩

end Cabinet.Path
