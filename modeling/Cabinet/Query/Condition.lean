import Cabinet.Query.Given

/-!
# Conditions

A condition asks fields for values: a document meets it if each field named has the value asked for,
where a field that is not there has the value null. `Condition.compile` turns a condition into a
predicate.

* `Condition.meetsOne` : the predicate for one field, which asks whether the values are the same;
* `Condition.meetsAll` : the predicate for any number, which gives up at the first value that differs;
* `Condition.meets` : the one that is used, by the number of fields.
-/

namespace Cabinet.Condition

/-- Every document is accepted. -/
def always : Predicate := fun _ => .ok true

/-- Whether a field has the value asked for. -/
def meetsOne (key : Scalar) (x : Value) : Predicate := fun v => do
  return (← v.field key).same x

/-- Whether none of the fields has another value than the one asked for. -/
def meetsAll : (expected : List (Scalar × Value)) → Predicate
  | [], _ => .ok true
  | (key, x) :: rest, v => do
    if (← v.field key).differs x then return false else meetsAll rest v

/-- Whether each field has the value asked for. -/
def meets : (expected : List (Scalar × Value)) → Predicate
  | [] => always
  | [(key, x)] => meetsOne key x
  | expected => meetsAll expected

/-- The predicate of a condition. -/
def compile : Given Predicate → Except QueryError Predicate
  | .function p => .ok p
  | .value .null => .ok always
  | .value (.object expected) => .ok (meets expected)
  | .value given => .error (.condition given)

end Cabinet.Condition
