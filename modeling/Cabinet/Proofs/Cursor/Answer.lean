import Cabinet.Cursor.Stage
import Cabinet.Proofs.Order.Stable
import Cabinet.Proofs.Store.Action

/-!
# The answer of a query, as a list

What a chain of stages means, without any progress: each stage makes a list of a list.

* `accepted`, `made`, `atMost` : a predicate, a transform and a comparator as plain functions;
* `Comparator.IsPreorder` : a comparator that never fails and is a total preorder on some documents;
* `storedItems` : the documents of a store with their identifiers, as a query first sees them;
* `Stage.onList`, `answer` : the list that a stage, or a whole chain, makes of a list;
* `sort_eq` : sorting items by a total preorder is the stable sort.
-/

namespace Cabinet

/-- Whether a predicate accepts a document. -/
def accepted (accepts : Predicate) (d : Value) : Bool := (accepts d).toOption.getD false

/-- What a transform makes of a document. -/
def made (transform : Transform) (d : Value) : Value := (transform d).toOption.getD .null

/-- What a comparator says of two documents. -/
def comparison (compare : Comparator) (d e : Value) : Int := (compare d e).toOption.getD 0

/-- Whether a comparator puts the first document before the second, or at the same rank. -/
def atMost (compare : Comparator) (d e : Value) : Bool := comparison compare d e ≤ 0

/-- On the documents of a class the comparator never fails and is a total preorder: of two
documents one is less than the other exactly if the other is greater, and order is transitive. -/
structure Comparator.IsPreorder (compare : Comparator) (P : Value → Prop) : Prop where
  defined : ∀ d e, P d → P e → ∃ n, compare d e = .ok n
  swap : ∀ d e, P d → P e → (comparison compare d e < 0 ↔ 0 < comparison compare e d)
  trans : ∀ d e f, P d → P e → P f → atMost compare d e = true → atMost compare e f = true →
    atMost compare d f = true

theorem Comparator.IsPreorder.ranks {compare : Comparator} {P : Value → Prop}
    (h : Comparator.IsPreorder compare P) : Order.Ranks (atMost compare) P := by
  refine ⟨fun d e hd he => ?_, h.trans⟩
  have hswap := h.swap e d he hd
  simp only [atMost, decide_eq_true_eq]
  omega

/-- On some items a comparator is checked to be a preorder. -/
theorem Comparator.isPreorder_documents {compare : Comparator} {items : List Item}
    (hdefined : ∀ x ∈ items, ∀ y ∈ items, (compare x.document y.document).toOption.isSome)
    (hswap : ∀ x ∈ items, ∀ y ∈ items, comparison compare x.document y.document < 0 ↔
      0 < comparison compare y.document x.document)
    (htrans : ∀ x ∈ items, ∀ y ∈ items, ∀ z ∈ items, atMost compare x.document y.document = true →
      atMost compare y.document z.document = true → atMost compare x.document z.document = true) :
    IsPreorder compare fun d => ∃ x ∈ items, x.document = d where
  defined := by
    rintro _ _ ⟨x, hx, rfl⟩ ⟨y, hy, rfl⟩
    exact ok_of_isSome (hdefined x hx y hy)
  swap := by
    rintro _ _ ⟨x, hx, rfl⟩ ⟨y, hy, rfl⟩
    exact hswap x hx y hy
  trans := by
    rintro _ _ _ ⟨x, hx, rfl⟩ ⟨y, hy, rfl⟩ ⟨z, hz, rfl⟩
    exact htrans x hx y hy z hz

/-- A query's view of a store: its identifiers in order, with their documents. -/
def storedItems (idField : Option Text) (ids : List Text) (doc : Text → Document) : List Item :=
  ids.map fun id => ⟨id, .object (Stage.embed idField id (doc id))⟩

/-- The item with its document projected. -/
def Item.projected (transform : Transform) (x : Item) : Item :=
  { x with document := made transform x.document }

/-- Items in the order of a comparator. -/
def Item.sorted (compare : Comparator) (items : List Item) : List Item :=
  items.mergeSort fun x y => atMost compare x.document y.document

/-- What a stage makes of all items that reach it. -/
def Stage.onList : Stage → List Item → List Item
  | .condition accepts, items => items.filter fun x => accepted accepts x.document
  | .projection transform, items => items.map (Item.projected transform)
  | .sort compare, items => Item.sorted compare items
  | .offset count, items => items.drop count.toNat
  | .limit count, items => items.take count.toNat

/-- Whether a stage passes on documents as they are, if it passes them on. -/
def Stage.keepsDocuments : Stage → Bool
  | .condition _ | .projection _ => false
  | .sort _ | .offset _ | .limit _ => true

/-- What a chain makes of the items in a store; the last stage is the one that items pass first. -/
def answer (chain : List Stage) (items : List Item) : List Item := chain.foldr Stage.onList items

@[simp] theorem answer_cons (stage : Stage) (rest : List Stage) (items : List Item) :
    answer (stage :: rest) items = stage.onList (answer rest items) := rfl

/-- Items that later calls act on, one call after another. -/
theorem answer_reverse_append (calls chain : List Stage) (items : List Item) :
    answer (calls.reverse ++ chain) items =
      calls.foldl (fun items stage => stage.onList items) (answer chain items) := by
  rw [answer, List.foldr_append, List.foldr_reverse]
  rfl

theorem comparison_of_eq {compare : Comparator} {d e : Value} {n : Int}
    (h : compare d e = .ok n) : comparison compare d e = n := by
  simp [comparison, h, Except.toOption]

/-- By a total preorder, items are sorted stably. -/
theorem sort_eq {compare : Comparator} {P : Value → Prop} (h : Comparator.IsPreorder compare P)
    (items : List Item) (hP : ∀ x ∈ items, P x.document) :
    SortOrder.sort Item.document compare items = .ok (Item.sorted compare items) := by
  have hranks : Order.Ranks (fun x y : Item => atMost compare x.document y.document)
      (fun x => P x.document) :=
    ⟨fun x y => h.ranks.total x.document y.document,
      fun x y z => h.ranks.trans x.document y.document z.document⟩
  refine Order.sort_eq_mergeSort hranks (fun x y hx hy => ?_) items hP
  obtain ⟨n, hn⟩ := h.defined x.document y.document hx hy
  have hswap := h.swap x.document y.document hx hy
  rw [comparison_of_eq hn] at hswap
  have hless : decide (n < 0) = !atMost compare y.document x.document := by
    rw [atMost, ← decide_not, decide_eq_decide]
    omega
  rw [hn, ← hless]
  rfl

end Cabinet
