import Cabinet.Cursor.Stage
import Cabinet.Number.Numeral
import Cabinet.Query.Condition
import Cabinet.Query.Projection

/-!
# Cursors

A cursor is a query that has not yet run: a chain of stages over a store. Sorting, leaving out and
limiting add a stage in front of the chain as it is, so their order matters.

* `Cursor` : the chain and its progress, an error that waits, and the results kept;
* `Cursor.make`, `Cursor.sort`, `Cursor.offset`, `Cursor.limit` : building a query. What does not
  compile is not refused here: the first such error waits until a result is asked for;
* `Cursor.next`, `Cursor.iterate`, `Cursor.index`, `Cursor.items`, `Cursor.toList`, `Cursor.each`,
  `Cursor.count` : results. The identifiers and the items are kept once they are complete;
* `Cursor.rewind` : starts anew and forgets the results.
-/

namespace Cabinet

structure Cursor (σ : Type) where
  store : Store σ
  /-- The field that identifiers are put into. -/
  idField : Option Text
  chain : List Stage
  progress : Progress chain
  /-- The first error of what was asked for. -/
  waiting : Option QueryError
  /-- The identifiers, once they were listed. -/
  identifiers : Option (List Text)
  /-- The items, once all were pulled. -/
  results : Option (List Item)

/-- The integer that a value stands for: a number without its fraction, or a numeral. -/
def Value.toInteger : Value → Except Failure Int
  | .text t => match Number.readInt? t with
    | some n => .ok n
    | none => .error (.badInteger t)
  | .scalar s => match s.number? with
    | some n => n.truncate.mapError .number
    | none => .error (.noInteger s.kind)
  | v => .error (.noInteger v.kind)

namespace Cursor

variable {σ : Type}

/-! ## Building -/

/-- Keeps an error waiting, unless an earlier one waits already. -/
def latch (c : Cursor σ) (e : QueryError) : Cursor σ :=
  match c.waiting with
  | none => { c with waiting := some e }
  | some _ => c

/-- Puts a stage that has made no progress in front of the chain. -/
def addCondition (c : Cursor σ) (accepts : Predicate) : Cursor σ :=
  { c with chain := .condition accepts :: c.chain, progress := c.progress }

def addProjection (c : Cursor σ) (transform : Transform) : Cursor σ :=
  { c with chain := .projection transform :: c.chain, progress := c.progress }

def addSort (c : Cursor σ) (compare : Comparator) : Cursor σ :=
  { c with chain := .sort compare :: c.chain, progress := (none, c.progress) }

def addOffset (c : Cursor σ) (count : Int) : Cursor σ :=
  { c with chain := .offset count :: c.chain, progress := (false, c.progress) }

def addLimit (c : Cursor σ) (count : Int) : Cursor σ :=
  { c with chain := .limit count :: c.chain, progress := (count, c.progress) }

/-- Adds a stage for what was given, or keeps its error waiting; nothing given adds none. -/
def add {α β : Type} (c : Cursor σ) (given : Given α) (compile : Given α → Except QueryError β)
    (stage : Cursor σ → β → Cursor σ) : Cursor σ :=
  if given.isNothing then c
  else match compile given with
    | .ok compiled => stage c compiled
    | .error e => c.latch e

/-- A query for the documents that meet a condition, projected. -/
def make (s : Store σ) (condition : Given Predicate) (projection : Given Transform)
    (idField : Option Text) : Cursor σ :=
  let bare : Cursor σ := ⟨s, idField, [], none, none, none, none⟩
  (bare.add condition Condition.compile addCondition).add projection Projection.compile
    addProjection

/-- Sorts the results. -/
def sort (c : Cursor σ) (order : Given Comparator) : Cursor σ :=
  match SortOrder.compile order with
  | .ok compare => c.addSort compare
  | .error e => c.latch e

/-- Leaves out the first results. -/
def offset (c : Cursor σ) (count : Value) : Except Failure (Cursor σ) := do
  return c.addOffset (← count.toInteger)

/-- Limits how many results there are. -/
def limit (c : Cursor σ) (count : Value) : Except Failure (Cursor σ) := do
  return c.addLimit (← count.toInteger)

/-- Starts anew and forgets the results. The error that waits stays. -/
def rewind (c : Cursor σ) : Cursor σ :=
  { c with progress := Progress.rewound c.chain, identifiers := none, results := none }

/-- The names of the stages, from the one that items pass last to the one that reads. -/
def stageNames (c : Cursor σ) : List String := c.chain.map Stage.name ++ ["Source"]

/-! ## Results -/

/-- An operation on a cursor and the state of its store. -/
abbrev Run (σ α : Type) := Action (Cursor σ × σ) α

/-- Fails with the error that waits. -/
def check : Run σ Unit := fun (c, w) =>
  match c.waiting with
  | some e => (.error (.query e), c, w)
  | none => (.ok (), c, w)

/-- Does something with the store. -/
def onStore {α : Type} (a : Store σ → Action σ α) : Run σ α := fun (c, w) =>
  let (r, w) := a c.store w
  (r, c, w)

/-- Takes the next item out of the chain. -/
def pullItem : Run σ (Option Item) := fun (c, w) =>
  let (r, p, w) := pull c.store c.idField c.chain c.progress w
  (r, { c with progress := p }, w)

/-- Takes all items that remain out of the chain. -/
def drainItems : Run σ (List Item) := fun (c, w) =>
  let (r, p, w) := drain c.store c.idField c.chain c.progress w
  (r, { c with progress := p }, w)

/-- How often the chain can be asked until it has nothing more. -/
def fuel : Run σ Nat := fun (c, w) =>
  (.ok (Progress.remaining c.store c.chain c.progress w + 1), c, w)

/-- The next document, or null at the end. -/
def next : Run σ Value := do
  check
  return ((← pullItem).map Item.document).getD .null

/-- Documents up to the end, or up to a null. -/
def iterateFor : (fuel : Nat) → Run σ (List Value)
  | 0 => return []
  | fuel + 1 => do
    let d ← next
    if d = .null then return []
    return d :: (← iterateFor fuel)

/-- The documents that remain. -/
def iterate : Run σ (List Value) := do
  iterateFor (← fuel)

/-- The identifiers of all documents in the store, whatever the query. -/
def index : Run σ (List Text) := do
  check
  match (← get).1.identifiers with
  | some ids => return ids
  | none =>
    let ids ← onStore Store.index
    modify fun (c, w) => ({ c with identifiers := some ids }, w)
    return ids

/-- All results with their identifiers. -/
def items : Run σ (List Item) := do
  check
  match (← get).1.results with
  | some items => return items
  | none =>
    let items ← drainItems
    modify fun (c, w) => ({ c with results := some items }, w)
    return items

/-- All results. -/
def toList : Run σ (List Value) := do
  return (← items).map Item.document

/-- Pulls up to `fuel` items and hands each to a function; gives the items. -/
def handOver (callback : Value → Action σ Unit) : (fuel : Nat) → Run σ (List Item)
  | 0 => return []
  | fuel + 1 => do
    match ← pullItem with
    | none => return []
    | some item =>
      onStore fun _ => callback item.document
      return item :: (← handOver callback fuel)

/-- Hands each result to a function. Results that are not kept are pulled one at a time; after a
failure the chain starts anew. -/
def each (callback : Value → Action σ Unit) : Run σ Unit := do
  check
  match (← get).1.results with
  | some items => items.forM fun item => onStore fun _ => callback item.document
  | none =>
    let items ← tryCatch (do handOver callback (← fuel)) fun e => do
      modify fun (c, w) => ({ c with progress := Progress.rewound c.chain }, w)
      throw e
    modify fun (c, w) => ({ c with results := some items }, w)

/-- How many results there are. A query for everything only counts identifiers. -/
def count : Run σ Nat := do
  check
  if (← get).1.chain.isEmpty then return (← index).length
  return (← items).length

end Cursor

end Cabinet
