import Cabinet.Proofs.Collection.OneDocument
import Cabinet.Proofs.Cursor.SortedProjection

/-!
# Changing the first match by an order

* `Collection.firstQuery`, `runQuery_sorted` : the query for the first match, which with an order takes
  and sorts all matches before it gives one;
* `firstQuery_answered` : what answers it, if everything is read;
* `Collection.modify`, `findAndModify_eq` : what is done with the item that was found;
* `Modified` : what then has become of the store, and the result;
* `findAndModify_cases`, `bulk_first` : what a call does, and the bulk change that it agrees with;
* `findAndModify_first` : one document changes, the first by the order, and no other.
-/

namespace Cabinet

variable {σ : Type}

/-! ## The query -/

/-- Through a limit of one comes one item at most. -/
theorem Stage.collect_limitTo_one {S : Type} {up : Pull S σ} (fuel : Nat) (p : S) (w : σ) :
    collect (limitTo up) (fuel + 1) (1, p) w = match up p w with
      | (.ok x, p, w) => (.ok x.toList, (0, p), w)
      | (.error e, p, w) => (.error e, (0, p), w) := by
  have hend : ∀ p w, collect (limitTo up) fuel (0, p) w = (.ok [], (0, p), w) := by
    intro p w
    cases fuel <;> rfl
  have hone : limitTo up (1, p) w = ((up p w).1, (0, (up p w).2.1), (up p w).2.2) := rfl
  rw [collect, hone]
  rcases up p w with ⟨_ | _ | x, p, w⟩
  · rfl
  · rfl
  · simp only [hend]
    rfl

/-- A sort that has no stock yet takes in all items that come from below. -/
theorem pull_sort_start {s : Store σ} {idField : Option Text} {compare : Comparator}
    {rest : List Stage} (p : Progress rest) (w : σ) :
    pull s idField (.sort compare :: rest) (none, p) w =
      match drain s idField rest p w with
      | (.ok items, p, w) =>
        match SortOrder.sort Item.document compare items with
        | .ok items => Stage.serve p w items
        | .error e => (.error e, (none, p), w)
      | (.error e, p, w) => (.error e, (none, p), w) := by
  change Stage.sortAll (pull s idField rest) (Progress.remaining s rest) compare (none, p) w = _
  rw [Stage.sortAll, drain]
  generalize Stage.collect (pull s idField rest) _ p w = r
  rcases r with ⟨e | items, p, w⟩
  · rfl
  · simp only
    cases SortOrder.sort Item.document compare items <;> rfl

namespace Collection

/-- The query for the first item that meets a condition, by an order if one is given. -/
def firstQuery (s : Store σ) (condition : Given Predicate) (order : Given Comparator) : Cursor σ :=
  let query := Cursor.make s condition .nothing none
  (if order.isNothing then query else query.sort order).addLimit 1

section Query
variable {s : Store σ} {condition : Given Predicate} {accepts : Predicate}
  {order : Given Comparator} {compare : Comparator}

/-- With an order, all matches are taken and sorted before the first of them is. -/
theorem runQuery_sorted (hcondition : Condition.compile condition = .ok accepts)
    (horder : SortOrder.compile order = .ok compare) (hgiven : order.isNothing = false) (w : σ) :
    runQuery (firstQuery s condition order) Cursor.items w =
      match runQuery (matchQuery s condition true) Cursor.items w with
      | (.ok xs, w) => ((SortOrder.sort Item.document compare xs).map (List.take 1), w)
      | (.error e, w) => (.error e, w) := by
  let first := Cursor.firstStages condition .nothing accepts Projection.identity.apply
  have hall : matchQuery s condition true = Cursor.start s none first :=
    matchQuery_eq_start hcondition true
  have hfirst : firstQuery s condition order =
      Cursor.start s none (.limit 1 :: .sort compare :: first) := by
    rw [firstQuery, hgiven, Cursor.make_eq_start hcondition rfl]
    simp only [Bool.false_eq_true, if_false, Cursor.sort_start horder]
    rfl
  rw [runQuery, runQuery, hall, hfirst, Cursor.items_apply rfl rfl, Cursor.items_apply rfl rfl]
  have hlimit : drain s none (.limit 1 :: .sort compare :: first)
      (Progress.rewound (.limit 1 :: .sort compare :: first)) w = _ :=
    Stage.collect_limitTo_one _ (Progress.rewound (.sort compare :: first)) w
  have hsort : pull s none (.sort compare :: first) (Progress.rewound (.sort compare :: first)) w =
      _ := pull_sort_start (Progress.rewound first) w
  simp only [Cursor.start]
  rw [hlimit, hsort]
  generalize drain s none first (Progress.rewound first) w = r
  rcases r with ⟨e | xs, p, w₁⟩
  · rfl
  · simp only
    cases SortOrder.sort Item.document compare xs with
    | error e => rfl
    | ok ys => cases ys <;> rfl

/-- Without an order items stay as they are. -/
theorem sort_unordered (items : List Item) :
    SortOrder.sort Item.document (SortOrder.compareBy []) items = .ok items := by
  have hpreorder : Comparator.IsPreorder (SortOrder.compareBy []) fun _ => True :=
    ⟨fun _ _ _ _ => ⟨0, rfl⟩, fun _ _ _ _ => Iff.rfl, fun _ _ _ _ _ _ _ _ => rfl⟩
  rw [sort_eq hpreorder items fun _ _ => trivial, Item.sorted]
  exact congrArg Except.ok (List.mergeSort_of_pairwise (List.pairwise_of_forall fun _ _ => rfl))

/-- The first item by an order is found, and the store is as before, unless the condition fails on a
document or the matches cannot be sorted. -/
theorem firstQuery_answered {w : σ} {ids : List Text} {doc : Text → Document} (hs : Persists s)
    (hindex : (s.index w).1 = .ok ids) (hread : ∀ id ∈ ids, (s.read id w).1 = .ok (doc id))
    (hcondition : Condition.compile condition = .ok accepts)
    (horder : SortOrder.compile order = .ok compare) :
    (∃ sorted, SortOrder.sort Item.document compare (matching accepts true ids doc) = .ok sorted ∧
      runQuery (firstQuery s condition order) Cursor.items w = (.ok (sorted.take 1), w)) ∨
    (∃ e w', runQuery (firstQuery s condition order) Cursor.items w = (.error e, w')) ∧
      ((∃ x ∈ storedItems none ids doc, ∃ e, accepts x.document = .error e) ∨
        ∃ e, SortOrder.sort Item.document compare (matching accepts true ids doc) = .error e) := by
  have hanswered := fun multi => runQuery_answered (hs.answers hindex hread fun _ _ =>
      ∃ x ∈ storedItems none ids doc, ∃ e, accepts x.document = .error e)
    (fun e he _ _ => he) hcondition (fun x hx e he => ⟨x, hx, e, he⟩) multi rfl
  cases hgiven : order.isNothing with
  | true =>
    obtain rfl := Cursor.eq_nothing hgiven
    obtain rfl : SortOrder.compareBy [] = compare := Except.ok.inj horder
    have hfound := hanswered false
    change _ ∨ (∃ e w', runQuery (matchQuery s condition false) Cursor.items w = (.error e, w')) ∧ _
    generalize hrun : runQuery (matchQuery s condition false) Cursor.items w = r at hfound
    cases hfound with
    | failure may => exact .inr ⟨⟨_, _, rfl⟩, .inl may⟩
    | ok good =>
      obtain rfl := good.elim id id
      exact .inl ⟨_, sort_unordered _, hrun⟩
  | false =>
    have hall := hanswered true
    rw [runQuery_sorted hcondition horder hgiven]
    generalize runQuery (matchQuery s condition true) Cursor.items w = r at hall
    cases hall with
    | failure may => exact .inr ⟨⟨_, _, rfl⟩, .inl may⟩
    | ok good =>
      obtain rfl := good.elim id id
      simp only
      cases hsort : SortOrder.sort Item.document compare (matching accepts true ids doc) with
      | error e => exact .inr ⟨⟨e, _, rfl⟩, .inr ⟨e, rfl⟩⟩
      | ok sorted => exact .inl ⟨sorted, rfl, rfl⟩

end Query

/-! ## What is done with the first match -/

/-- Erases or replaces an item's document, and gives it as it was or as it is afterwards. -/
def modify (s : Store σ) (remove new : Bool) (change : Option Transform) (x : Item) :
    Action σ Value := do
  if remove then
    s.erase x.id
    return x.document
  let document ← Action.ofExcept (changed change x.document)
  s.write x.id document
  return if new then document else x.document

theorem findAndModify_eq (c : Collection σ) (condition : Given Predicate) (order : Given Comparator)
    {update : Given Transform} {change : Option Transform} {options : Value} {remove new : Bool}
    (hremove : option options "remove" false = .ok remove)
    (hnew : option options "new" true = .ok new)
    (hupdate : remove = false → Update.compile update = .ok change) :
    c.findAndModify condition order update options = do
      match ← runQuery (firstQuery c.store condition order) Cursor.items with
      | [] => return none
      | x :: _ => return some (← modify c.store remove new change x) := by
  have hok {α : Type} (a : α) : Action.ofExcept (.ok a) = (pure a : Action σ α) := rfl
  cases remove with
  | true =>
    rw [findAndModify, hremove, hok, pure_bind, if_pos rfl, pure_bind]
    refine bind_congr fun found => ?_
    cases found with
    | nil => rfl
    | cons x rest => simp only [modify, if_true, bind_assoc, pure_bind]
  | false =>
    have htransform : transform update = (pure change : Action σ _) := by
      rw [transform, hupdate rfl]
      rfl
    rw [findAndModify, hremove, hok, pure_bind, if_neg Bool.false_ne_true, htransform, pure_bind]
    refine bind_congr fun found => ?_
    cases found with
    | nil => rfl
    | cons x rest =>
      simp only [modify, hnew, hok, Bool.false_eq_true, if_false, bind_assoc, pure_bind]

/-- What becomes of a store and what the result is, if the first of some items is modified. -/
inductive Modified (s : Store σ) (remove new : Bool) (change : Option Transform) :
    List Item → Option Value → σ → σ → Prop where
  | none (w : σ) : Modified s remove new change [] none w w
  | erased {x : Item} {rest : List Item} {w w' : σ} (hremove : remove = true)
    (herased : s.ErasedAt x.id w w') : Modified s remove new change (x :: rest) (some x.document) w w'
  | replaced {x : Item} {rest : List Item} {w w' : σ} {v : Value} (hremove : remove = false)
    (hchanged : changed change x.document = .ok v) (hreplaced : s.ReplacedAt x.id v w w') :
    Modified s remove new change (x :: rest) (some (if new then v else x.document)) w w'

section Modify
variable {s : Store σ} {remove new : Bool} {change : Option Transform} {x : Item} {v : Value} {w w' : σ}

theorem modify_true (h : modify s true new change x w = (.ok v, w')) :
    s.erase x.id w = (.ok (), w') ∧ v = x.document := by
  simp only [modify, if_true, Action.bind_apply] at h
  rcases herase : s.erase x.id w with ⟨e | _, w₁⟩
  · rw [herase] at h
    cases h
  · rw [herase] at h
    obtain ⟨hv, rfl⟩ := Prod.mk.inj h
    exact ⟨rfl, (Except.ok.inj hv).symm⟩

theorem modify_false (h : modify s false new change x w = (.ok v, w')) :
    ∃ d, changed change x.document = .ok d ∧ s.write x.id d w = (.ok (), w') ∧
      v = if new then d else x.document := by
  simp only [modify, Bool.false_eq_true, if_false, Action.bind_apply, Action.ofExcept_apply] at h
  cases hd : changed change x.document with
  | error e =>
    rw [hd] at h
    cases h
  | ok d =>
    simp only [hd] at h
    rcases hwrite : s.write x.id d w with ⟨e | _, w₁⟩
    · rw [hwrite] at h
      cases h
    · rw [hwrite] at h
      obtain ⟨hv, rfl⟩ := Prod.mk.inj h
      exact ⟨d, rfl, hwrite, (Except.ok.inj hv).symm⟩

theorem modify_modified (hs : IsPlain s) {ids : List Text} (hindex : (s.index w).1 = .ok ids)
    (hx : x.id ∈ ids) (h : modify s remove new change x w = (.ok v, w')) (rest : List Item) :
    Modified s remove new change (x :: rest) (some v) w w' := by
  cases remove with
  | true =>
    obtain ⟨herase, rfl⟩ := modify_true h
    exact .erased rfl (hs.erasedAt hindex herase)
  | false =>
    obtain ⟨d, hd, hwrite, rfl⟩ := modify_false h
    exact .replaced rfl hd (hs.replacedAt hindex hx hwrite)

end Modify

/-- A call modifies the first match by the order, if there is one, unless the condition fails on a
document or the matches cannot be sorted. -/
theorem findAndModify_cases {c : Collection σ} (hs : Persists c.store) {condition : Given Predicate}
    {accepts : Predicate} (hcondition : Condition.compile condition = .ok accepts)
    {order : Given Comparator} {compare : Comparator}
    (horder : SortOrder.compile order = .ok compare) {update : Given Transform}
    {change : Option Transform} {options : Value} {remove new : Bool}
    (hremove : option options "remove" false = .ok remove)
    (hnew : option options "new" true = .ok new)
    (hupdate : remove = false → Update.compile update = .ok change) {w : σ} {ids : List Text}
    {doc : Text → Document} (hindex : (c.store.index w).1 = .ok ids)
    (hread : ∀ id ∈ ids, (c.store.read id w).1 = .ok (doc id)) :
    (∃ sorted, SortOrder.sort Item.document compare (matching accepts true ids doc) = .ok sorted ∧
      runQuery (firstQuery c.store condition order) Cursor.items w = (.ok (sorted.take 1), w) ∧
      c.findAndModify condition order update options w = match sorted with
        | [] => (.ok none, w)
        | x :: _ => (some <$> modify c.store remove new change x) w) ∨
    (∃ e w', c.findAndModify condition order update options w = (.error e, w')) ∧
      ((∃ x ∈ storedItems none ids doc, ∃ e, accepts x.document = .error e) ∨
        ∃ e, SortOrder.sort Item.document compare (matching accepts true ids doc) = .error e) := by
  rw [findAndModify_eq c condition order hremove hnew hupdate, Action.bind_apply]
  obtain ⟨sorted, hsorted, hquery⟩ | ⟨⟨e, w', hquery⟩, hfails⟩ :=
    firstQuery_answered hs hindex hread hcondition horder
  · refine .inl ⟨sorted, hsorted, hquery, ?_⟩
    rw [hquery]
    cases sorted with
    | nil => rfl
    | cons x rest => simp only [List.take_succ_cons, map_eq_pure_bind]
  · rw [hquery]
    exact .inr ⟨⟨e, w', rfl⟩, hfails⟩

/-- Modifying the first of some items and nothing else, if there is one. -/
theorem modify_first_ok {s : Store σ} {remove new : Bool} {change : Option Transform} {w w' : σ}
    {items : List Item} {r : Option Value}
    (h : (match items with
      | [] => (.ok none, w)
      | x :: _ => (some <$> modify s remove new change x) w) = (.ok r, w')) :
    items = [] ∧ r = none ∧ w' = w ∨ ∃ x rest v, items = x :: rest ∧ r = some v ∧
      modify s remove new change x w = (.ok v, w') := by
  cases items with
  | nil =>
    obtain ⟨hr, rfl⟩ := Prod.mk.inj h
    exact .inl ⟨rfl, (Except.ok.inj hr).symm, rfl⟩
  | cons x rest =>
    simp only [Action.map_apply] at h
    obtain ⟨hr, hw⟩ := Prod.mk.inj h
    obtain ⟨v, hv, rfl⟩ := ok_of_map hr
    exact .inr ⟨x, rest, v, rfl, rfl, Prod.ext hv hw⟩

/-- A bulk change of the first match does what an action does that has modified it. -/
theorem bulk_first {s : Store σ} {condition : Given Predicate} {act : Item → Action σ Unit}
    {remove new : Bool} {change : Option Transform} {w w' : σ} {items : List Item} {r : Option Value}
    (hquery : runQuery (matchQuery s condition false) Cursor.items w = (.ok (items.take 1), w))
    (hact : ∀ x v, modify s remove new change x w = (.ok v, w') → act x w = (.ok (), w'))
    (hcases : items = [] ∧ r = none ∧ w' = w ∨ ∃ x rest v, items = x :: rest ∧ r = some v ∧
      modify s remove new change x w = (.ok v, w')) :
    bulk s condition (.ok false) act w = (.ok r.toList.length, w') := by
  simp only [bulk, Action.bind_apply, Action.ofExcept_apply, hquery]
  obtain ⟨rfl, rfl, rfl⟩ | ⟨x, rest, v, rfl, rfl, hmodify⟩ := hcases
  · rfl
  · simp only [List.take_succ_cons, List.take_zero, actAll, Action.bind_apply, hact x v hmodify]
    rfl

/-- A call gives nothing and changes nothing if no document matches. Otherwise, if it succeeds, it has
modified the first match as the order sorts them: that one is erased, or replaced by what the update
makes of it, and every other document stays as it is. By a total preorder the matches are sorted
stably. Without an order a call does what an update, or a removal, does that is about one document. -/
theorem findAndModify_first {c : Collection σ} (hc : IsPlain c.store) {condition : Given Predicate}
    {accepts : Predicate} (hcondition : Condition.compile condition = .ok accepts)
    {order : Given Comparator} {compare : Comparator}
    (horder : SortOrder.compile order = .ok compare) {update : Given Transform}
    {change : Option Transform} {options : Value} {remove new : Bool}
    (hremove : option options "remove" false = .ok remove)
    (hnew : option options "new" true = .ok new)
    (hupdate : remove = false → Update.compile update = .ok change) {w : σ} {ids : List Text}
    {doc : Text → Document} (hindex : (c.store.index w).1 = .ok ids)
    (hread : ∀ id ∈ ids, (c.store.read id w).1 = .ok (doc id)) :
    let items := matching accepts true ids doc
    (items = [] → (∀ x ∈ storedItems none ids doc, ∃ b, accepts x.document = .ok b) →
      c.findAndModify condition order update options w = (.ok none, w)) ∧
    ∀ r w', c.findAndModify condition order update options w = (.ok r, w') →
      (∃ sorted, SortOrder.sort Item.document compare items = .ok sorted ∧
        (Comparator.IsPreorder compare (fun d => ∃ x ∈ items, x.document = d) →
          sorted = Item.sorted compare items) ∧
        (sorted = [] ↔ items = []) ∧ Modified c.store remove new change sorted r w w') ∧
      (order.isNothing = true →
        SortOrder.sort Item.document compare items = .ok items ∧
        (remove = false → ∀ only, option only "multi" true = .ok false →
          c.update condition update only w = (.ok r.toList.length, w')) ∧
        (remove = true → ∀ only, eraseMulti only = .ok false →
          c.remove condition only w = (.ok r.toList.length, w'))) := by
  intro items
  have hcall := findAndModify_cases hc.persists hcondition horder hremove hnew hupdate hindex hread
  refine ⟨fun hnone haccepts => ?_, fun r w' hrun => ?_⟩
  · obtain ⟨sorted, hsorted, -, hcall⟩ | ⟨-, ⟨x, hx, e, he⟩ | ⟨e, he⟩⟩ := hcall
    · rw [show matching accepts true ids doc = [] from hnone] at hsorted
      obtain rfl : [] = sorted := Except.ok.inj hsorted
      exact hcall
    · obtain ⟨b, hb⟩ := haccepts x hx
      cases hb.symm.trans he
    · rw [show matching accepts true ids doc = [] from hnone] at he
      cases he
  obtain ⟨sorted, hsorted, hquery, hcall⟩ | ⟨⟨e, w₁, hcall⟩, -⟩ := hcall
  · have hperm : sorted.Perm items := Order.sort_perm hsorted
    have hcases := modify_first_ok (hcall.symm.trans hrun)
    refine ⟨⟨sorted, hsorted, fun hpreorder => ?_, ?_, ?_⟩, fun hnothing => ?_⟩
    · have hstable := sort_eq hpreorder items fun x hx => ⟨x, hx, rfl⟩
      exact Except.ok.inj (hsorted.symm.trans hstable)
    · exact ⟨fun h => List.nil_perm.mp (h ▸ hperm), fun h => List.perm_nil.mp (h ▸ hperm)⟩
    · obtain ⟨rfl, rfl, rfl⟩ | ⟨x, rest, v, rfl, rfl, hmodify⟩ := hcases
      · exact .none w'
      · have hx : x.id ∈ ids := id_mem_of_matching (hperm.mem_iff.mp List.mem_cons_self)
        exact modify_modified hc hindex hx hmodify rest
    · obtain rfl := Cursor.eq_nothing hnothing
      obtain rfl : SortOrder.compareBy [] = compare := Except.ok.inj horder
      refine ⟨sort_unordered items, ?_, ?_⟩
      · rintro rfl only hmulti
        rw [update_eq c condition (hupdate rfl), hmulti]
        refine bulk_first hquery (fun x v hmodify => ?_) hcases
        obtain ⟨d, hd, hwrite, -⟩ := modify_false hmodify
        rw [writeChanged, Action.bind_apply, Action.ofExcept_apply, hd]
        exact hwrite
      · rintro rfl only hmulti
        rw [remove_eq, hmulti]
        exact bulk_first hquery (fun x v hmodify => (modify_true hmodify).1) hcases
  · cases hcall.symm.trans hrun

/-! ## Lamps that are on -/

def lampMemory : Collection Memory := ⟨Memory.store, "id".toText, fun m => (.ok [], m)⟩

/-- The largest number first. -/
def largest : Given Comparator := .value (.object [(.text "n".toText, .int (-1))])

def optionOn (name : String) (on : Bool) : Value := .object [(.text name.toText, .bool on)]

/-- A query for a lamp that is not there. -/
def isNine : Given Predicate := .value (.object [(.text "n".toText, .int 9)])

theorem findAndModify_first_lamps :
    (∃ m, lampMemory.findAndModify Cursor.isOn largest addOne (optionOn "new" false) Cursor.lamps =
        (.ok (some (.object (Cursor.lamp "c".toText))), m) ∧
      (lampMemory.store.read "c".toText m).1 =
        .ok [(.text "n".toText, .int 3), (.text "on".toText, .bool true)] ∧
      (lampMemory.store.read "a".toText m).1 = .ok (Cursor.lamp "a".toText)) ∧
    lampMemory.findAndModify isNine largest addOne .null Cursor.lamps = (.ok none, Cursor.lamps) ∧
    ∃ m, lampMemory.findAndModify Cursor.isOn .nothing addOne (optionOn "remove" true) Cursor.lamps =
        (.ok (some (.object (Cursor.lamp "a".toText))), m) ∧
      (lampMemory.store.index m).1 = .ok ["b".toText, "c".toText] ∧
      lampMemory.remove Cursor.isOn (optionOn "single" true) Cursor.lamps = (.ok 1, m) := by
  have hcondition : Condition.compile Cursor.isOn =
      .ok (Condition.meets [(.text "on".toText, .bool true)]) := rfl
  have hindex : (lampMemory.store.index Cursor.lamps).1 = .ok (Cursor.lamps.map Prod.fst) := rfl
  have hread : ∀ id ∈ Cursor.lamps.map Prod.fst,
      (lampMemory.store.read id Cursor.lamps).1 = .ok (Cursor.lamp id) := fun id hid =>
    congrArg Prod.fst (Cursor.read_lamp id hid)
  have hmodified : (lampMemory.findAndModify Cursor.isOn largest addOne (optionOn "new" false)
      Cursor.lamps).1 = .ok (some (.object (Cursor.lamp "c".toText))) := by cbv
  have herased : (lampMemory.findAndModify Cursor.isOn .nothing addOne (optionOn "remove" true)
      Cursor.lamps).1 = .ok (some (.object (Cursor.lamp "a".toText))) := by cbv
  have hsort : SortOrder.sort Item.document (SortOrder.compareBy [⟨"n".toText, true⟩])
      (matching (Condition.meets [(.text "on".toText, .bool true)]) true
        (Cursor.lamps.map Prod.fst) Cursor.lamp) =
      .ok [⟨"c".toText, .object (Cursor.lamp "c".toText)⟩,
        ⟨"a".toText, .object (Cursor.lamp "a".toText)⟩] := by cbv
  obtain ⟨⟨sorted, hsorted, -, -, hafter⟩, -⟩ := (findAndModify_first (c := lampMemory) .memory
    hcondition (rfl : SortOrder.compile largest = .ok (SortOrder.compareBy [⟨"n".toText, true⟩]))
    (rfl : option (optionOn "new" false) "remove" false = .ok false) rfl
    (fun _ => (rfl : Update.compile addOne = .ok (some addedOne))) hindex hread).2 _ _
    (Prod.ext hmodified rfl)
  obtain ⟨⟨sorted', hsorted', -, -, hafter'⟩, hnone⟩ := (findAndModify_first (c := lampMemory)
    .memory hcondition (rfl : SortOrder.compile .nothing = .ok (SortOrder.compareBy []))
    (rfl : option (optionOn "remove" true) "remove" false = .ok true) rfl
    (fun _ => (rfl : Update.compile addOne = .ok (some addedOne))) hindex hread).2 _ _
    (Prod.ext herased rfl)
  obtain ⟨hunsorted, -, hremove⟩ := hnone rfl
  have haccepts : ∀ x ∈ storedItems none (Cursor.lamps.map Prod.fst) Cursor.lamp,
      (Condition.meets [(.text "n".toText, .int 9)] x.document).toOption.isSome := by decide
  have hmissing := (findAndModify_first (c := lampMemory) .memory
    (rfl : Condition.compile isNine = .ok (Condition.meets [(.text "n".toText, .int 9)]))
    (rfl : SortOrder.compile largest = .ok (SortOrder.compareBy [⟨"n".toText, true⟩]))
    (rfl : option .null "remove" false = .ok false) rfl
    (fun _ => (rfl : Update.compile addOne = .ok (some addedOne))) hindex hread).1 rfl
    fun x hx => ok_of_isSome (haccepts x hx)
  refine ⟨⟨_, Prod.ext hmodified rfl, ?_⟩, hmissing, _, Prod.ext herased rfl, ?_,
    hremove rfl _ rfl⟩
  · obtain rfl := Except.ok.inj (hsort.symm.trans hsorted)
    cases hafter with
    | erased hremove => cases hremove
    | replaced _ hchanged hreplaced =>
      obtain rfl := Except.ok.inj hchanged
      obtain ⟨t, ht, hread'⟩ := hreplaced.document
      obtain rfl : "\x7b\"n\": 3, \"on\": true\x7d".toText = t := Except.ok.inj ht
      refine ⟨hread'.trans (by cbv), (hreplaced.others _ (by decide)).trans ?_⟩
      exact hread _ (by decide)
  · obtain rfl := Except.ok.inj (hunsorted.symm.trans hsorted')
    cases hafter' with
    | erased _ herased =>
      rw [herased.index, hindex]
      rfl
    | replaced hremove => cases hremove

end Collection

end Cabinet
