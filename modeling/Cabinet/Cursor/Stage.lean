import Cabinet.Query.SortOrder
import Cabinet.Store.Basic

/-!
# The stages of a cursor

A cursor pulls items one at a time through a chain of stages, of which the last reads the store.
Each stage keeps some progress of its own, and what it has done to it before a failure stays done.

* `Item`, `Stage` : what travels through a chain, and what it passes;
* `Progress` : the progress of all stages of a chain;
* `Pull` : one step of a chain, which gives an item or tells that there is none;
* `pull` : the step of a whole chain, built from one step per stage;
* `Progress.remaining` : at least as many items as can still come;
* `drain` : all items that remain;
* `Progress.rewound` : the progress of a chain that starts anew.

A loop inside a stage ends because every item that comes leaves fewer remaining.
-/

namespace Cabinet

/-- A document on its way, with its identifier. -/
structure Item where
  id : Text
  document : Value
  deriving DecidableEq

/-- What items pass on their way. -/
inductive Stage where
  /-- Passes on the documents that are accepted. -/
  | condition (accepts : Predicate)
  /-- Passes on what is made of each document. -/
  | projection (transform : Transform)
  /-- Takes in all items and passes them on sorted. -/
  | sort (compare : Comparator)
  /-- Leaves out the first items. -/
  | offset (count : Int)
  /-- Ends after some items. -/
  | limit (count : Int)

/-- The name of a stage's kind. -/
def Stage.name : Stage → String
  | .condition _ => "Condition"
  | .projection _ => "Projection"
  | .sort _ => "Sort"
  | .offset _ => "Offset"
  | .limit _ => "Limit"

/-- The progress of a chain, whose first stage is the last that items pass. At its end stand the
identifiers that are still to be read, once they are known. A sort keeps the items that it has
sorted, an offset whether it has left out its items, a limit how many items it still passes on. -/
def Progress : List Stage → Type
  | [] => Option (List Text)
  | .condition _ :: rest => Progress rest
  | .projection _ :: rest => Progress rest
  | .sort _ :: rest => Option (List Item) × Progress rest
  | .offset _ :: rest => Bool × Progress rest
  | .limit _ :: rest => Int × Progress rest

/-- Takes one item out of a chain in some progress over a store in some state. -/
abbrev Pull (S σ : Type) := S → σ → Except Failure (Option Item) × S × σ

namespace Stage

variable {S σ : Type}

/-! ## One step of each stage -/

/-- The document as the chain sees it: with its identifier in a field, if one is named. -/
def embed (idField : Option Text) (id : Text) (d : Document) : Document :=
  match idField with
  | none | some [] => d
  | some field => d.set (.text field) (.text id)

/-- Reads the next identifier's document. -/
def readNext (s : Store σ) (idField : Option Text) : List Text → σ →
    Except Failure (Option Item) × Option (List Text) × σ
  | [], w => (.ok none, some [], w)
  | id :: rest, w =>
    match s.read id w with
    | (.ok d, w) => (.ok (some ⟨id, .object (embed idField id d)⟩), some rest, w)
    | (.error e, w) => (.error e, some rest, w)

/-- Lists the identifiers when it is first asked, and reads one document each time. -/
def source (s : Store σ) (idField : Option Text) : Pull (Option (List Text)) σ := fun pending w =>
  match pending with
  | some ids => readNext s idField ids w
  | none =>
    match s.index w with
    | (.ok ids, w) => readNext s idField ids w
    | (.error e, w) => (.error e, none, w)

/-- Pulls up to `fuel` items until one is accepted. -/
def search (up : Pull S σ) (accepts : Predicate) : (fuel : Nat) → Pull S σ
  | 0, p, w => (.ok none, p, w)
  | fuel + 1, p, w =>
    match up p w with
    | (.ok (some item), p, w) =>
      match accepts item.document with
      | .ok true => (.ok (some item), p, w)
      | .ok false => search up accepts fuel p w
      | .error e => (.error e, p, w)
    | ended => ended

/-- Makes something of the next document. -/
def project (up : Pull S σ) (transform : Transform) : Pull S σ := fun p w =>
  match up p w with
  | (.ok (some item), p, w) =>
    match transform item.document with
    | .ok d => (.ok (some { item with document := d }), p, w)
    | .error e => (.error e, p, w)
  | ended => ended

/-- Pulls up to `fuel` items, as long as some come. -/
def collect (up : Pull S σ) : (fuel : Nat) → S → σ → Except Failure (List Item) × S × σ
  | 0, p, w => (.ok [], p, w)
  | fuel + 1, p, w =>
    match up p w with
    | (.ok none, p, w) => (.ok [], p, w)
    | (.error e, p, w) => (.error e, p, w)
    | (.ok (some item), p, w) =>
      match collect up fuel p w with
      | (.ok items, p, w) => (.ok (item :: items), p, w)
      | failed => failed

/-- The first of the items in stock. -/
def serve (p : S) (w : σ) : List Item →
    Except Failure (Option Item) × (Option (List Item) × S) × σ
  | [] => (.ok none, (some [], p), w)
  | item :: rest => (.ok (some item), (some rest, p), w)

/-- Sorts all items when it is first asked, and gives one each time. -/
def sortAll (up : Pull S σ) (remaining : S → σ → Nat) (compare : Comparator) :
    Pull (Option (List Item) × S) σ := fun (stock, p) w =>
  match stock with
  | some items => serve p w items
  | none =>
    match collect up (remaining p w + 1) p w with
    | (.error e, p, w) => (.error e, (none, p), w)
    | (.ok items, p, w) =>
      match SortOrder.sort Item.document compare items with
      | .error e => (.error e, (none, p), w)
      | .ok items => serve p w items

/-- Pulls a number of items and leaves them out; tells whether all of them came. -/
def skip (up : Pull S σ) : (count : Nat) → S → σ → Except Failure Bool × S × σ
  | 0, p, w => (.ok true, p, w)
  | count + 1, p, w =>
    match up p w with
    | (.ok (some _), p, w) => skip up count p w
    | (.ok none, p, w) => (.ok false, p, w)
    | (.error e, p, w) => (.error e, p, w)

/-- Leaves out items when it is first asked. -/
def offsetBy (up : Pull S σ) (count : Int) : Pull (Bool × S) σ := fun (ready, p) w =>
  let pass (p : S) (w : σ) : Except Failure (Option Item) × (Bool × S) × σ :=
    let (r, p, w) := up p w
    (r, (true, p), w)
  if ready then pass p w
  else match skip up count.toNat p w with
    | (.ok true, p, w) => pass p w
    | (.ok false, p, w) => (.ok none, (false, p), w)
    | (.error e, p, w) => (.error e, (false, p), w)

/-- Asks no more often than it may; also an item that does not come counts. -/
def limitTo (up : Pull S σ) : Pull (Int × S) σ := fun (rest, p) w =>
  if rest ≤ 0 then (.ok none, (rest, p), w)
  else
    let (r, p, w) := up p w
    (r, (rest - 1, p), w)

end Stage

/-! ## Chains -/

namespace Progress

/-- A bound on the items that can still come. Where the identifiers are not yet known, it is as many
as the store would list now. -/
def remaining {σ : Type} (s : Store σ) : (chain : List Stage) → Progress chain → σ → Nat
  | [], pending, w =>
    match pending with
    | some ids => ids.length
    | none => match (s.index w).1 with
      | .ok ids => ids.length
      | .error _ => 0
  | .condition _ :: rest, p, w => remaining s rest p w
  | .projection _ :: rest, p, w => remaining s rest p w
  | .sort _ :: rest, (stock, p), w =>
    match stock with
    | some items => items.length
    | none => remaining s rest p w
  | .offset _ :: rest, (_, p), w => remaining s rest p w
  | .limit _ :: rest, (_, p), w => remaining s rest p w

/-- The progress of a chain that starts anew. -/
def rewound : (chain : List Stage) → Progress chain
  | [] => none
  | .condition _ :: rest => rewound rest
  | .projection _ :: rest => rewound rest
  | .sort _ :: rest => (none, rewound rest)
  | .offset _ :: rest => (false, rewound rest)
  | .limit count :: rest => (count, rewound rest)

end Progress

/-- One step of a chain over a store. -/
def pull {σ : Type} (s : Store σ) (idField : Option Text) :
    (chain : List Stage) → Pull (Progress chain) σ
  | [] => Stage.source s idField
  | .condition accepts :: rest => fun p w =>
    Stage.search (pull s idField rest) accepts (Progress.remaining s rest p w + 1) p w
  | .projection transform :: rest => Stage.project (pull s idField rest) transform
  | .sort compare :: rest =>
    Stage.sortAll (pull s idField rest) (Progress.remaining s rest) compare
  | .offset count :: rest => Stage.offsetBy (pull s idField rest) count
  | .limit _ :: rest => Stage.limitTo (pull s idField rest)

/-- All items that remain in a chain. -/
def drain {σ : Type} (s : Store σ) (idField : Option Text) (chain : List Stage)
    (p : Progress chain) (w : σ) : Except Failure (List Item) × Progress chain × σ :=
  Stage.collect (pull s idField chain) (Progress.remaining s chain p w + 1) p w

end Cabinet
