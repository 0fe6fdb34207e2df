/-!
# Stable sorting by a comparison that may fail

`Order.sort` takes the longest run at the start of a list that is already in order, or strictly in
reverse order, and inserts the remaining elements into it one after another, each by binary search
behind all elements that it is not less than. So elements of equal rank keep their order. A
comparison that fails ends the sorting with its error.

A comparison that is no order at all still gives a permutation of the list, and a definite one.
-/

namespace Cabinet.Order

variable {α ε : Type}

/-- Whether the second element is less than the first, and so on: how many elements after `prev`
are each less than the one before. -/
def fallingRun (less : α → α → Except ε Bool) (prev : α) : List α → Except ε Nat
  | [] => .ok 0
  | x :: xs => do
    if ← less x prev then return (← fallingRun less x xs) + 1
    else return 0

/-- How many elements after `prev` are each not less than the one before. -/
def risingRun (less : α → α → Except ε Bool) (prev : α) : List α → Except ε Nat
  | [] => .ok 0
  | x :: xs => do
    if ← less x prev then return 0
    else return (← risingRun less x xs) + 1

/-- The initial run of a list in increasing order, and the rest of the list. -/
def splitRun (less : α → α → Except ε Bool) : List α → Except ε (List α × List α)
  | [] => .ok ([], [])
  | [x] => .ok ([x], [])
  | x :: y :: rest => do
    if ← less y x then
      let n ← fallingRun less y rest
      return ((x :: y :: rest.take n).reverse, rest.drop n)
    else
      let n ← risingRun less y rest
      return (x :: y :: rest.take n, rest.drop n)

/-- The place, between `low` and `high`, of the first element that `x` is less than. The fuel is
the width of the range. -/
def place (less : α → α → Except ε Bool) (x : α) (sorted : List α) :
    (fuel low high : Nat) → Except ε Nat
  | 0, low, _ => .ok low
  | fuel + 1, low, high => do
    if high ≤ low then return low
    let middle := low + (high - low) / 2
    match sorted[middle]? with
    | none => return low
    | some y =>
      if ← less x y then place less x sorted fuel low middle
      else place less x sorted fuel (middle + 1) high

/-- Inserts an element behind all elements that it is not less than. -/
def insert (less : α → α → Except ε Bool) (x : α) (sorted : List α) : Except ε (List α) := do
  let n ← place less x sorted sorted.length 0 sorted.length
  return sorted.take n ++ x :: sorted.drop n

/-- Inserts elements one after another. -/
def insertAll (less : α → α → Except ε Bool) (sorted : List α) : List α → Except ε (List α)
  | [] => .ok sorted
  | x :: xs => do insertAll less (← insert less x sorted) xs

/-- Sorts a list. -/
def sort (less : α → α → Except ε Bool) (xs : List α) : Except ε (List α) := do
  let (run, rest) ← splitRun less xs
  insertAll less run rest

end Cabinet.Order
