import Cabinet.Proofs.Cursor.Guard
import Cabinet.Proofs.Cursor.Results
import Cabinet.Proofs.Query.Kept

/-!
# Sorting after projecting

A sort stands in front of the chain as it is when it is asked for, so behind a projection it compares
what the projection has made.

* `drain_sort`, `drain_projection_ok` : what a sort and a projection make of all items, whatever the
  store and the comparator do;
* `source_objects` : what is read is an object;
* `sort_after_projection` : the documents of a projected and sorted query are the projected documents
  sorted; where the projection keeps every field of the order, they are the sorted documents projected;
* `sort_by_dropped_year` : otherwise they need not be.
-/

namespace Cabinet

variable {S σ : Type}

namespace Stage

variable {up : Pull S σ}

/-- Where all items come, there was none, or one came and then all others. -/
theorem collect_ok {fuel : Nat} {p p' : S} {w w' : σ} {xs : List Item}
    (h : collect up (fuel + 1) p w = (.ok xs, p', w')) :
    (up p w = (.ok none, p', w') ∧ xs = []) ∨
    ∃ x rest p₁ w₁, up p w = (.ok (some x), p₁, w₁) ∧
      collect up fuel p₁ w₁ = (.ok rest, p', w') ∧ xs = x :: rest := by
  rw [collect] at h
  generalize up p w = r at h
  rcases r with ⟨_ | _ | x, p₁, w₁⟩
  · cases h
  · cases h
    exact .inl ⟨rfl, rfl⟩
  · simp only at h
    generalize hrest : collect up fuel p₁ w₁ = r at h
    rcases r with ⟨_ | rest, p₂, w₂⟩
    · cases h
    · cases h
      exact .inr ⟨x, rest, p₁, w₁, rfl, hrest, rfl⟩

theorem length_collect_le {fuel : Nat} : ∀ {p p' : S} {w w' : σ} {xs : List Item},
    collect up fuel p w = (.ok xs, p', w') → xs.length ≤ fuel := by
  induction fuel with
  | zero =>
    intro p p' w w' xs h
    cases h
    exact Nat.le_refl 0
  | succ fuel ih =>
    intro p p' w w' xs h
    rcases collect_ok h with ⟨-, rfl⟩ | ⟨x, rest, p₁, w₁, -, hrest, rfl⟩
    · exact Nat.zero_le _
    · exact Nat.succ_le_succ (ih hrest)

/-- Behind a projection an item only comes if one came from below, and it is that item projected. -/
theorem project_ok {transform : Transform} {p p' : S} {w w' : σ} {y : Option Item}
    (h : project up transform p w = (.ok y, p', w')) : ∃ x, up p w = (.ok x, p', w') ∧
      y = x.map (Item.projected transform) ∧ ∀ i ∈ x, ∃ d, transform i.document = .ok d := by
  rw [project] at h
  generalize up p w = r at h
  rcases r with ⟨_ | _ | x, p₁, w₁⟩
  · cases h
  · cases h
    exact ⟨none, rfl, rfl, known_none⟩
  · cases ht : transform x.document with
    | error e =>
      simp only [ht] at h
      cases h
    | ok d =>
      simp only [ht] at h
      cases h
      refine ⟨some x, rfl, ?_, known_some ⟨d, ht⟩⟩
      rw [Option.map_some, Item.projected, made, ht]
      rfl

/-- All items behind a projection are those that come from below, projected. -/
theorem collect_project_ok {transform : Transform} {fuel : Nat} : ∀ {p p' : S} {w w' : σ}
    {ys : List Item}, collect (project up transform) fuel p w = (.ok ys, p', w') →
    ∃ xs, collect up fuel p w = (.ok xs, p', w') ∧ ys = xs.map (Item.projected transform) ∧
      ∀ x ∈ xs, ∃ d, transform x.document = .ok d := by
  induction fuel with
  | zero =>
    intro p p' w w' ys h
    cases h
    exact ⟨[], rfl, rfl, fun _ hx => absurd hx List.not_mem_nil⟩
  | succ fuel ih =>
    intro p p' w w' ys h
    rw [collect]
    rcases collect_ok h with ⟨hnone, rfl⟩ | ⟨y, rest, p₁, w₁, hitem, hrest, rfl⟩
    · obtain ⟨x, hup, hx, -⟩ := project_ok hnone
      obtain rfl := Option.map_eq_none_iff.mp hx.symm
      rw [hup]
      exact ⟨[], rfl, rfl, fun _ hx => absurd hx List.not_mem_nil⟩
    · obtain ⟨x, hup, hx, hdefined⟩ := project_ok hitem
      obtain ⟨x, rfl, rfl⟩ := Option.map_eq_some_iff.mp hx.symm
      obtain ⟨xs, hxs, rfl, hall⟩ := ih hrest
      simp only [hup, hxs]
      exact ⟨x :: xs, rfl, rfl, List.forall_mem_cons.mpr ⟨hdefined x rfl, hall⟩⟩

/-- A sort with a stock gives the stock. -/
theorem collect_stock {remaining : S → σ → Nat} {compare : Comparator} {p : S} {w : σ}
    {items : List Item} : ∀ {fuel : Nat}, items.length ≤ fuel →
    collect (sortAll up remaining compare) fuel (some items, p) w = (.ok items, (some [], p), w) := by
  induction items with
  | nil =>
    intro fuel _
    cases fuel <;> rfl
  | cons x items ih =>
    intro fuel hfuel
    cases fuel with
    | zero => exact absurd hfuel (by simp)
    | succ fuel =>
      rw [collect, sortAll, serve]
      simp only [ih (Nat.le_of_succ_le_succ hfuel)]

/-- All items behind a sort, in every case. -/
theorem collect_sortAll {remaining : S → σ → Nat} {compare : Comparator} (p : S) (w : σ) :
    collect (sortAll up remaining compare) (remaining p w + 1) (none, p) w =
      match collect up (remaining p w + 1) p w with
      | (.error e, p, w) => (.error e, (none, p), w)
      | (.ok xs, p, w) => match SortOrder.sort Item.document compare xs with
        | .error e => (.error e, (none, p), w)
        | .ok ys => (.ok ys, (some [], p), w) := by
  rw [collect, sortAll]
  generalize hcollect : collect up (remaining p w + 1) p w = r
  rcases r with ⟨_ | xs, p', w'⟩
  · rfl
  cases hsort : SortOrder.sort Item.document compare xs with
  | error e => simp only [hsort]
  | ok ys =>
    have hlength : ys.length ≤ remaining p w + 1 := by
      rw [(Order.sort_perm hsort).length_eq]
      exact length_collect_le hcollect
    simp only [hsort]
    cases ys with
    | nil => rfl
    | cons y ys =>
      rw [serve]
      simp only [collect_stock (Nat.le_of_succ_le_succ hlength)]

end Stage

/-! ## Chains -/

section Chains
variable {s : Store σ} {idField : Option Text} {rest : List Stage}

theorem drain_sort (compare : Comparator) (p : Progress rest) (w : σ) :
    drain s idField (.sort compare :: rest) (none, p) w =
      match drain s idField rest p w with
      | (.error e, p, w) => (.error e, (none, p), w)
      | (.ok xs, p, w) => match SortOrder.sort Item.document compare xs with
        | .error e => (.error e, (none, p), w)
        | .ok ys => (.ok ys, (some [], p), w) := by
  show Stage.collect (Stage.sortAll (pull s idField rest) (Progress.remaining s rest) compare)
    (Progress.remaining s rest p w + 1) (none, p) w = _
  rw [Stage.collect_sortAll]
  unfold drain
  generalize Stage.collect (pull s idField rest) (Progress.remaining s rest p w + 1) p w = r
  rcases r with ⟨_ | xs, p', w'⟩
  · rfl
  · cases SortOrder.sort Item.document compare xs <;> rfl

theorem drain_sort_ok {compare : Comparator} {p : Progress rest}
    {q : Progress (.sort compare :: rest)} {w w' : σ} {ys : List Item}
    (h : drain s idField (.sort compare :: rest) (none, p) w = (.ok ys, q, w')) :
    ∃ xs p', drain s idField rest p w = (.ok xs, p', w') ∧
      SortOrder.sort Item.document compare xs = .ok ys := by
  rw [drain_sort] at h
  generalize drain s idField rest p w = r at h
  rcases r with ⟨_ | xs, p', w₁⟩
  · cases h
  · cases hsort : SortOrder.sort Item.document compare xs with
    | error e =>
      simp only [hsort] at h
      cases h
    | ok sorted =>
      simp only [hsort] at h
      cases h
      exact ⟨xs, p', rfl, hsort⟩

theorem drain_projection_ok {transform : Transform} {p p' : Progress rest} {w w' : σ}
    {ys : List Item}
    (h : drain s idField (.projection transform :: rest) p w = (.ok ys, p', w')) :
    ∃ xs, drain s idField rest p w = (.ok xs, p', w') ∧ ys = xs.map (Item.projected transform) ∧
      ∀ x ∈ xs, ∃ d, transform x.document = .ok d :=
  Stage.collect_project_ok h

/-- What is read is an object. -/
theorem source_objects : Guards (Stage.source s idField) (fun _ _ => True)
    (fun x => ∃ d, x.document = .object d) fun _ _ _ => True := by
  have hreads : s.Reads (fun _ => True) fun _ => True := ⟨by simp, by simp, by simp⟩
  refine (source_reads hreads idField).mono (fun x hx => ?_) fun _ _ _ h => h
  obtain ⟨d, -, hd⟩ := hx
  exact ⟨_, hd⟩

/-- The stage of a condition, if one is given. -/
abbrev conditionStages (condition : Given Predicate) (accepts : Predicate) : List Stage :=
  if condition.isNothing then [] else [.condition accepts]

/-- Behind a condition come only items that are known, if only such are read. -/
theorem known_of_drain {condition : Given Predicate} {accepts : Predicate} {keeps : σ → Prop}
    {known : Item → Prop}
    (hsource : Guards (Stage.source s idField) (fun _ w => keeps w) known fun _ _ w => keeps w)
    {p p' : Progress (conditionStages condition accepts)} {w w' : σ} (hw : keeps w) {xs : List Item}
    (h : drain s idField (conditionStages condition accepts) p w = (.ok xs, p', w')) :
    ∀ x ∈ xs, known x := by
  have hguards : Guards (pull s idField (conditionStages condition accepts)) (fun _ w => keeps w)
      known fun _ _ w => keeps w := by
    unfold conditionStages
    cases condition.isNothing with
    | true => exact hsource
    | false =>
      intro p w hw
      exact Stage.search_guards hsource (fun _ _ _ _ _ _ hw => hw) _ p w hw
  have hends := Stage.collect_guards hguards
    (Progress.remaining s (conditionStages condition accepts) p w + 1) p w hw
  unfold drain at h
  rw [h] at hends
  cases hends with
  | ok h => exact h.1

/-- Behind a condition come objects. -/
theorem objects_of_drain {condition : Given Predicate} {accepts : Predicate}
    {p p' : Progress (conditionStages condition accepts)} {w w' : σ} {xs : List Item}
    (h : drain s idField (conditionStages condition accepts) p w = (.ok xs, p', w')) :
    ∀ x ∈ xs, ∃ d, x.document = .object d :=
  known_of_drain source_objects trivial h

end Chains

namespace Cursor

theorem toList_apply_ok {c : Cursor σ} {w w' : σ} {xs : List Item} {p : Progress c.chain}
    (hc : c.waiting = none) (hr : c.results = none)
    (h : drain c.store c.idField c.chain c.progress w = (.ok xs, p, w')) :
    ∃ c', toList (c, w) = (.ok (xs.map Item.document), c') := by
  obtain ⟨c', hlist⟩ := (toList_iff hc hr).mpr ⟨xs, p, h, rfl⟩
  exact ⟨_, hlist⟩

section Query
variable {s : Store σ} {idField : Option Text} {condition : Given Predicate}
  {projection : Given Transform} {order : Given Comparator} {accepts : Predicate}
  {transform : Transform} {compare : Comparator}

/-- All items of a new query are those of its condition, projected. -/
theorem drain_firstStages_ok (hprojection : Projection.compile projection = .ok transform)
    {p : Progress (firstStages condition projection accepts transform)} {w w' : σ} {ys : List Item}
    (h : drain s idField (firstStages condition projection accepts transform)
      (Progress.rewound _) w = (.ok ys, p, w')) :
    ∃ xs p', drain s idField (conditionStages condition accepts) (Progress.rewound _) w =
        (.ok xs, p', w') ∧
      ys = xs.map (Item.projected transform) ∧ ∀ x ∈ xs, ∃ d, transform x.document = .ok d := by
  revert p
  unfold firstStages
  generalize hnothing : projection.isNothing = noProjection
  intro p h
  cases noProjection with
  | true =>
    obtain rfl := transform_of_nothing hprojection hnothing
    exact ⟨ys, p, h, (map_projected_identity ys).symm, fun x _ => ⟨x.document, rfl⟩⟩
  | false =>
    obtain ⟨xs, hxs, hys, hdefined⟩ := drain_projection_ok h
    exact ⟨xs, p, hxs, hys, hdefined⟩

theorem sort_start (horder : SortOrder.compile order = .ok compare) (chain : List Stage) :
    (start s idField chain).sort order = start s idField (.sort compare :: chain) := by
  rw [sort, horder]
  rfl

/-- The items of a sorted query, if it does not fail: those of its condition are projected, and then
sorted. -/
theorem toList_sort_ok (hcondition : Condition.compile condition = .ok accepts)
    (hprojection : Projection.compile projection = .ok transform)
    (horder : SortOrder.compile order = .ok compare) {w : σ} {docs : List Value}
    {after : Cursor σ × σ}
    (h : toList ((make s condition projection idField).sort order, w) = (.ok docs, after)) :
    ∃ xs ys p w', drain s idField (conditionStages condition accepts) (Progress.rewound _) w =
        (.ok xs, p, w') ∧
      SortOrder.sort Item.document compare (xs.map (Item.projected transform)) = .ok ys ∧
      docs = ys.map Item.document ∧ ∀ x ∈ xs, ∃ d, transform x.document = .ok d := by
  rw [make_eq_start hcondition hprojection, sort_start horder] at h
  obtain ⟨after, w₁⟩ := after
  obtain ⟨ys, q, hdrain, rfl⟩ := (toList_iff rfl rfl).mp ⟨after, h⟩
  obtain ⟨items, p₁, hitems, hys⟩ := drain_sort_ok hdrain
  obtain ⟨xs, p₂, hxs, rfl, hdefined⟩ := drain_firstStages_ok hprojection hitems
  exact ⟨xs, ys, p₂, w₁, hxs, hys, rfl, hdefined⟩

theorem sort_documents (xs : List Item) :
    SortOrder.sort (fun d => d) compare (xs.map Item.document) =
      (SortOrder.sort Item.document compare xs).map (List.map Item.document) :=
  Order.sort_map (fun _ _ => rfl) xs

/-- A projection that keeps every field of an order does not change how documents are sorted. -/
theorem sort_projected {p : Projection} {keys : List SortOrder.Key} {xs : List Item}
    (hobject : ∀ x ∈ xs, ∃ d, x.document = .object d)
    (hdefined : ∀ x ∈ xs, ∃ d, p.apply x.document = .ok d)
    (hkeeps : ∀ k ∈ keys, p.Keeps k.field) :
    SortOrder.sort Item.document (SortOrder.compareBy keys) (xs.map (Item.projected p.apply)) =
      (SortOrder.sort Item.document (SortOrder.compareBy keys) xs).map
        (List.map (Item.projected p.apply)) := by
  have hfield : ∀ x ∈ xs, ∀ k ∈ keys, (Item.projected p.apply x).document.field (.text k.field) =
      x.document.field (.text k.field) := by
    intro x hx k hk
    obtain ⟨d, hd⟩ := hobject x hx
    obtain ⟨v, hv⟩ := hdefined x hx
    have hmade : (Item.projected p.apply x).document = v := by
      rw [Item.projected, made, hv]
      rfl
    rw [hd] at hv ⊢
    rw [hmade, Projection.apply_field (hkeeps k hk) hv]
  refine Order.sort_map_of_mem fun x hx y hy => ?_
  rw [SortOrder.compareBy_congr (hfield x hx) (hfield y hy)]

/-- A query that is projected and sorted takes the documents that its condition finds, projects them,
and then sorts what that gives. It gives the documents of the query without the projection, projected,
if the projection keeps every field of the order. -/
theorem sort_after_projection (hcondition : Condition.compile condition = .ok accepts)
    (hprojection : Projection.compile projection = .ok transform)
    (horder : SortOrder.compile order = .ok compare) {w : σ} {docs bare : List Value}
    {after after' : Cursor σ × σ}
    (hprojected : toList ((make s condition projection idField).sort order, w) = (.ok docs, after))
    (hbare : toList ((make s condition .nothing idField).sort order, w) = (.ok bare, after')) :
    ∃ found, (∃ c, toList (make s condition .nothing idField, w) = (.ok found, c)) ∧
      SortOrder.sort (fun d => d) compare found = .ok bare ∧
      SortOrder.sort (fun d => d) compare (found.map (made transform)) = .ok docs ∧
      ∀ (p : Projection) (keys : List SortOrder.Key), transform = p.apply →
        compare = SortOrder.compareBy keys → (∀ k ∈ keys, p.Keeps k.field) →
        docs = bare.map (made transform) := by
  obtain ⟨xs, ys, p, w₁, hxs, hys, rfl, hdefined⟩ :=
    toList_sort_ok hcondition hprojection horder hprojected
  obtain ⟨xs', zs, p', w₂, hxs', hzs, rfl, -⟩ := toList_sort_ok hcondition rfl horder hbare
  obtain rfl : xs = xs' := Except.ok.inj (Prod.mk.inj (hxs.symm.trans hxs')).1
  rw [map_projected_identity] at hzs
  refine ⟨xs.map Item.document, ?_, ?_, ?_, ?_⟩
  · rw [make_eq_start hcondition rfl]
    exact toList_apply_ok rfl rfl hxs
  · rw [sort_documents, hzs]
    rfl
  · have hmade : (xs.map Item.document).map (made transform) =
        (xs.map (Item.projected transform)).map Item.document := by
      rw [List.map_map, List.map_map]
      rfl
    rw [hmade, sort_documents, hys]
    rfl
  · rintro q keys rfl rfl hkeeps
    rw [sort_projected (objects_of_drain hxs) hdefined hkeeps, hzs] at hys
    obtain rfl := Except.ok.inj hys
    rw [List.map_map, List.map_map]
    rfl

end Query

/-! ## Two books -/

/-- A memory with two books, the later one first. -/
def books : Memory :=
  [("sicp".toText,
      "\x7b\"title\": \"SICP\", \"year\": 1985, \"language\": \"en\"\x7d".toText),
    ("taocp".toText,
      "\x7b\"title\": \"TAOCP\", \"year\": 1968, \"language\": \"en\"\x7d".toText)]

def english : Given Predicate := .value (.object [(.text "language".toText, .text "en".toText)])

/-- Only some fields. -/
def only (fields : List Text) : Given Transform :=
  .value (.object (fields.map fun field => (.text field, .int 1)))

def byYear : Given Comparator := .value (.object [(.text "year".toText, .int 1)])

/-- The titles and years of the books in English, by year: the projection keeps the year. -/
theorem sort_after_projection_books :
    ∃ docs bare after after',
      toList ((make Memory.store english (only ["title".toText, "year".toText]) none).sort byYear,
        books) = (.ok docs, after) ∧
      toList ((make Memory.store english .nothing none).sort byYear, books) = (.ok bare, after') ∧
      docs = bare.map (made (Projection.apply
        (.keep [("title".toText, .same), ("year".toText, .same)]))) := by
  let keys : List SortOrder.Key := [⟨"year".toText, false⟩]
  let query := (make Memory.store english (only ["title".toText, "year".toText]) none).sort byYear
  let whole := (make Memory.store english .nothing none).sort byYear
  have hdocs : ((toList (query, books)).1).toOption.isSome := by cbv
  have hbare : ((toList (whole, books)).1).toOption.isSome := by cbv
  obtain ⟨docs, hdocs⟩ := ok_of_isSome hdocs
  obtain ⟨bare, hbare⟩ := ok_of_isSome hbare
  have hdocs : toList (query, books) = (.ok docs, (toList (query, books)).2) := Prod.ext hdocs rfl
  have hbare : toList (whole, books) = (.ok bare, (toList (whole, books)).2) := Prod.ext hbare rfl
  obtain ⟨-, -, -, -, hsame⟩ := sort_after_projection
    (rfl : Condition.compile english = .ok (Condition.meets
      [(.text "language".toText, .text "en".toText)]))
    (rfl : Projection.compile (only ["title".toText, "year".toText]) = .ok (Projection.apply
      (.keep [("title".toText, .same), ("year".toText, .same)])))
    (rfl : SortOrder.compile byYear = .ok (SortOrder.compareBy keys)) hdocs hbare
  refine ⟨docs, bare, _, _, hdocs, hbare, hsame _ keys rfl rfl fun k hk => ?_⟩
  obtain rfl := List.mem_singleton.mp hk
  exact ⟨by decide, by simp⟩

/-- Without their years the books stay as they were, although the year was asked for: the earlier
book comes first only if the projection comes last. -/
theorem sort_by_dropped_year :
    (toList ((make Memory.store english (only ["title".toText]) none).sort byYear, books)).1 =
      .ok [.object [(.text "title".toText, .text "SICP".toText)],
        .object [(.text "title".toText, .text "TAOCP".toText)]] ∧
    ((toList ((make Memory.store english .nothing none).sort byYear, books)).1.map
      (List.map (made (Projection.apply (.keep [("title".toText, .same)]))))) =
      .ok [.object [(.text "title".toText, .text "TAOCP".toText)],
        .object [(.text "title".toText, .text "SICP".toText)]] := by
  constructor
  · cbv
  · cbv

end Cursor

end Cabinet
