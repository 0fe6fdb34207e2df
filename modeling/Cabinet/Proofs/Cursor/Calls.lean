import Cabinet.Proofs.Cursor.Results
import Cabinet.Proofs.Store.Ensures

/-!
# Calls of a cursor, one after another

* `Cursor.SameQuery`, `Cursor.KeepsQuery` : cursors for the same query, and operations that leave the
  query of a cursor as it is;
* `Cursor.Lasting` : what goes on holding through the steps that calls are made of, and so through each
  call that takes results; one such thing is the query;
* `Cursor.push`, `Cursor.addTo_cases` : a stage that is put in front, and what a clause does to a cursor;
* `Cursor.Call`, `Cursor.Call.run`, `Cursor.after` : a call of a cursor or a change of its store, and
  what calls leave behind; `Cursor.run_cases`, `Cursor.after_keeps` : all but clauses keep the query, and
  these only ever add stages;
* `Cursor.index_apply`, `Cursor.each_apply`, `Cursor.count_apply` : calls of a cursor in which nothing
  is kept.
-/

namespace Cabinet

variable {σ α β : Type}

open Cabinet.Action

namespace Cursor

/-! ## The query of a cursor -/

/-- Two cursors for the same query, which may differ in their progress and in what they keep. -/
structure SameQuery (c c' : Cursor σ) : Prop where
  store : c'.store = c.store
  idField : c'.idField = c.idField
  chain : c'.chain = c.chain
  waiting : c'.waiting = c.waiting

theorem SameQuery.refl (c : Cursor σ) : SameQuery c c := ⟨rfl, rfl, rfl, rfl⟩

theorem SameQuery.trans {c₁ c₂ c₃ : Cursor σ} (h : SameQuery c₁ c₂) (h' : SameQuery c₂ c₃) :
    SameQuery c₁ c₃ :=
  ⟨h'.store.trans h.store, h'.idField.trans h.idField, h'.chain.trans h.chain,
    h'.waiting.trans h.waiting⟩

/-- An operation that leaves the query of the cursor as it is. -/
def KeepsQuery (a : Run σ α) : Prop := ∀ c w, SameQuery c (a (c, w)).2.1

theorem KeepsQuery.map {a : Run σ α} (ha : KeepsQuery a) (f : α → β) : KeepsQuery (f <$> a) := by
  intro c w
  rw [Action.map_apply]
  exact ha c w

/-! ## What the steps of calls keep -/

/-- What holds of a cursor and the state of its store goes on holding when items are taken out of the
chain, when the identifiers are listed, and when something is kept in the cursor. -/
structure Lasting (good : Cursor σ × σ → Prop) : Prop where
  pulls : Ensures good pullItem fun _ => True
  drains : Ensures good drainItems fun _ => True
  lists : Ensures good (onStore Store.index) fun _ => True
  keeps : ∀ {c c' w}, SameQuery c c' → good (c, w) → good (c', w)

section Lasting
variable {good : Cursor σ × σ → Prop}

theorem ensures_check : Ensures good check fun _ => True := by
  refine ensures_of_state fun (c, w) hx => ?_
  simp only [check]
  cases c.waiting <;> exact hx

theorem ensures_get : Ensures good (get : Run σ _) fun _ => True := ensures_of_state fun _ hx => hx

theorem ensures_fuel : Ensures good fuel fun _ => True := ensures_of_state fun _ hx => hx

variable (h : Lasting good)
include h

theorem Lasting.modify {f : Cursor σ × σ → Cursor σ × σ}
    (hf : ∀ c w, SameQuery c (f (c, w)).1 ∧ (f (c, w)).2 = w) :
    Ensures good (modify f : Run σ PUnit) fun _ => True := by
  refine ensures_of_state fun (c, w) hx => ?_
  obtain ⟨hsame, hstate⟩ := hf c w
  exact h.keeps hsame (hstate.symm ▸ hx)

theorem Lasting.next : Ensures good next fun _ => True :=
  ensures_check.bind fun _ _ => h.pulls.bind fun _ _ => ensures_pure trivial

theorem Lasting.iterateFor (fuel : Nat) : Ensures good (iterateFor fuel) fun _ => True := by
  induction fuel with
  | zero => exact ensures_pure trivial
  | succ fuel ih =>
    refine h.next.bind fun d _ => ?_
    by_cases hd : d = .null
    · rw [if_pos hd]
      exact ensures_pure trivial
    · rw [if_neg hd]
      exact ih.bind fun _ _ => ensures_pure trivial

theorem Lasting.iterate : Ensures good iterate fun _ => True :=
  ensures_fuel.bind fun n _ => h.iterateFor n

theorem Lasting.index : Ensures good index fun _ => True := by
  refine ensures_check.bind fun _ _ => ensures_get.bind fun x _ => ?_
  cases x.1.identifiers with
  | some ids => exact ensures_pure trivial
  | none =>
    refine h.lists.bind fun ids _ => ?_
    exact (h.modify fun _ _ => ⟨⟨rfl, rfl, rfl, rfl⟩, rfl⟩).bind fun _ _ => ensures_pure trivial

theorem Lasting.items : Ensures good items fun _ => True := by
  refine ensures_check.bind fun _ _ => ensures_get.bind fun x _ => ?_
  cases x.1.results with
  | some items => exact ensures_pure trivial
  | none =>
    refine h.drains.bind fun items _ => ?_
    exact (h.modify fun _ _ => ⟨⟨rfl, rfl, rfl, rfl⟩, rfl⟩).bind fun _ _ => ensures_pure trivial

theorem Lasting.toList : Ensures good toList fun _ => True :=
  h.items.bind fun _ _ => ensures_pure trivial

theorem Lasting.count : Ensures good count fun _ => True := by
  refine ensures_check.bind fun _ _ => ensures_get.bind fun x _ => ?_
  cases x.1.chain.isEmpty with
  | true => exact h.index.bind fun _ _ => ensures_pure trivial
  | false => exact h.items.bind fun _ _ => ensures_pure trivial

variable {callback : Value → Action σ Unit}
  (hcallback : ∀ d, Ensures good (onStore fun _ => callback d) fun _ => True)
include hcallback

theorem Lasting.handOver (fuel : Nat) : Ensures good (handOver callback fuel) fun _ => True := by
  induction fuel with
  | zero => exact ensures_pure trivial
  | succ fuel ih =>
    refine h.pulls.bind fun item _ => ?_
    cases item with
    | none => exact ensures_pure trivial
    | some item =>
      exact (hcallback item.document).bind fun _ _ => ih.bind fun _ _ => ensures_pure trivial

/-- Where handing over fails the chain starts anew. -/
theorem Lasting.each : Ensures good (each callback) fun _ => True := by
  refine ensures_check.bind fun _ _ => ensures_get.bind fun x _ => ?_
  cases x.1.results with
  | some items => exact .forM fun item _ => hcallback item.document
  | none =>
    have hhand : Ensures good (do Cursor.handOver callback (← fuel)) fun _ => True :=
      ensures_fuel.bind fun n _ => h.handOver hcallback n
    refine (hhand.tryCatch fun e => ?_).bind fun _ _ =>
      h.modify fun _ _ => ⟨⟨rfl, rfl, rfl, rfl⟩, rfl⟩
    exact (h.modify fun _ _ => ⟨⟨rfl, rfl, rfl, rfl⟩, rfl⟩).bind fun _ _ => ensures_throw e

end Lasting

/-! ## Calls keep the query -/

theorem lasting_sameQuery (c : Cursor σ) : Lasting fun x => SameQuery c x.1 where
  pulls := ensures_of_state fun _ hx => hx.trans ⟨rfl, rfl, rfl, rfl⟩
  drains := ensures_of_state fun _ hx => hx.trans ⟨rfl, rfl, rfl, rfl⟩
  lists := ensures_of_state fun _ hx => hx
  keeps hsame hx := hx.trans hsame

theorem keepsQuery_of_ensures {a : Run σ α}
    (h : ∀ c, Ensures (fun x => SameQuery c x.1) a fun _ => True) : KeepsQuery a :=
  fun c w => (h c (c, w) (.refl c)).1

theorem keepsQuery_next : KeepsQuery (next : Run σ Value) :=
  keepsQuery_of_ensures fun c => (lasting_sameQuery c).next

theorem keepsQuery_iterate : KeepsQuery (iterate : Run σ (List Value)) :=
  keepsQuery_of_ensures fun c => (lasting_sameQuery c).iterate

theorem keepsQuery_index : KeepsQuery (index : Run σ (List Text)) :=
  keepsQuery_of_ensures fun c => (lasting_sameQuery c).index

theorem keepsQuery_items : KeepsQuery (items : Run σ (List Item)) :=
  keepsQuery_of_ensures fun c => (lasting_sameQuery c).items

theorem keepsQuery_toList : KeepsQuery (toList : Run σ (List Value)) :=
  keepsQuery_of_ensures fun c => (lasting_sameQuery c).toList

theorem keepsQuery_each (callback : Value → Action σ Unit) : KeepsQuery (each callback) :=
  keepsQuery_of_ensures fun c =>
    (lasting_sameQuery c).each fun _ => ensures_of_state fun _ hx => hx

theorem keepsQuery_count : KeepsQuery (count : Run σ Nat) :=
  keepsQuery_of_ensures fun c => (lasting_sameQuery c).count

/-! ## What a clause changes -/

/-- Puts a stage that has made no progress in front of the chain. -/
def push (c : Cursor σ) : Stage → Cursor σ
  | .condition accepts => c.addCondition accepts
  | .projection transform => c.addProjection transform
  | .sort compare => c.addSort compare
  | .offset count => c.addOffset count
  | .limit count => c.addLimit count

section Push
variable (c : Cursor σ) (stage : Stage)

@[simp] theorem push_store : (c.push stage).store = c.store := by cases stage <;> rfl

@[simp] theorem push_idField : (c.push stage).idField = c.idField := by cases stage <;> rfl

@[simp] theorem push_chain : (c.push stage).chain = stage :: c.chain := by cases stage <;> rfl

@[simp] theorem push_waiting : (c.push stage).waiting = c.waiting := by cases stage <;> rfl

@[simp] theorem push_results : (c.push stage).results = c.results := by cases stage <;> rfl

variable {c} in
theorem push_progress (h : c.progress = Progress.rewound c.chain) :
    (c.push stage).progress = Progress.rewound (c.push stage).chain := by
  cases stage with
  | condition accepts | projection transform => exact h
  | sort compare | offset count | limit count => exact congrArg (Prod.mk _) h

end Push

/-- To every cursor a clause adds its stage, or the same error that waits, or it is refused. -/
theorem addTo_cases (clause : Clause) :
    (∃ stage, clause.stage = .ok stage ∧
      ∀ c : Cursor σ, (clause.addTo c).toOption.getD c = c.push stage) ∨
    (∃ e, ∀ c : Cursor σ, (clause.addTo c).toOption.getD c = c.latch e) ∨
    ∀ c : Cursor σ, (clause.addTo c).toOption.getD c = c := by
  cases clause with
  | sort order =>
    simp only [Clause.addTo, Clause.stage, sort]
    cases SortOrder.compile order with
    | ok compare => exact .inl ⟨.sort compare, rfl, fun c => rfl⟩
    | error e => exact .inr (.inl ⟨e, fun c => rfl⟩)
  | offset count =>
    simp only [Clause.addTo, Clause.stage, offset]
    cases count.toInteger with
    | ok n => exact .inl ⟨.offset n, rfl, fun c => rfl⟩
    | error e => exact .inr (.inr fun c => rfl)
  | limit count =>
    simp only [Clause.addTo, Clause.stage, limit]
    cases count.toInteger with
    | ok n => exact .inl ⟨.limit n, rfl, fun c => rfl⟩
    | error e => exact .inr (.inr fun c => rfl)

/-! ## Calls -/

/-- A call of a cursor, or a change of its store by something else. -/
inductive Call (σ : Type) where
  | build (clause : Clause)
  | next
  | index
  | toList
  | each (callback : Value → Action σ Unit)
  | count
  | rewind
  | change (f : σ → σ)

/-- What a call leaves behind, whether it fails or not. -/
def Call.run : Call σ → Cursor σ × σ → Cursor σ × σ
  | .build clause, (c, w) => ((clause.addTo c).toOption.getD c, w)
  | .next, x => (Cursor.next x).2
  | .index, x => (Cursor.index x).2
  | .toList, x => (Cursor.toList x).2
  | .each callback, x => (Cursor.each callback x).2
  | .count, x => (Cursor.count x).2
  | .rewind, (c, w) => (c.rewind, w)
  | .change f, (c, w) => (c, f w)

/-- What calls leave behind, one after another. -/
def after (calls : List (Call σ)) (x : Cursor σ × σ) : Cursor σ × σ :=
  calls.foldl (fun x call => call.run x) x

/-- Keeping an error waiting changes nothing else. -/
theorem latch_eq (c : Cursor σ) (e : QueryError) :
    ∃ waiting, c.latch e = { c with waiting := waiting } := by
  unfold latch
  cases c.waiting with
  | none => exact ⟨some e, rfl⟩
  | some e' => exact ⟨c.waiting, rfl⟩

/-- A cursor to which a stage may be added keeps what keeping an error and the stage itself keep. -/
theorem add_keeps (good : Cursor σ → Prop) {given : Given α} {compile : Given α → Except QueryError β}
    {stage : Cursor σ → β → Cursor σ} {c : Cursor σ} (hc : good c) (hlatch : ∀ e, good (c.latch e))
    (hstage : ∀ compiled, good (stage c compiled)) : good (c.add given compile stage) := by
  unfold add
  split
  · exact hc
  · cases compile given with
    | error e => exact hlatch e
    | ok compiled => exact hstage compiled

/-- A call builds the query further, or leaves it as it is. -/
theorem run_cases (call : Call σ) :
    (∃ clause, call = .build clause) ∨ ∀ x, SameQuery x.1 (call.run x).1 := by
  cases call with
  | build clause => exact .inl ⟨clause, rfl⟩
  | next => exact .inr fun (c, w) => keepsQuery_next c w
  | index => exact .inr fun (c, w) => keepsQuery_index c w
  | toList => exact .inr fun (c, w) => keepsQuery_toList c w
  | each callback => exact .inr fun (c, w) => keepsQuery_each callback c w
  | count => exact .inr fun (c, w) => keepsQuery_count c w
  | rewind => exact .inr fun _ => ⟨rfl, rfl, rfl, rfl⟩
  | change f => exact .inr fun (c, _) => .refl c

/-- A call only ever adds stages to the chain, and stays with the store. -/
theorem run_keeps (call : Call σ) (x : Cursor σ × σ) :
    x.1.chain <:+ (call.run x).1.chain ∧ (call.run x).1.store = x.1.store := by
  obtain ⟨c, w⟩ := x
  obtain ⟨clause, rfl⟩ | hsame := run_cases call
  · simp only [Call.run]
    obtain ⟨stage, -, hadd⟩ | ⟨e, hadd⟩ | hadd := addTo_cases clause
    · rw [hadd, push_chain]
      exact ⟨List.suffix_cons stage c.chain, push_store c stage⟩
    · obtain ⟨waiting, hwaiting⟩ := latch_eq c e
      rw [hadd, hwaiting]
      exact ⟨List.suffix_refl _, rfl⟩
    · rw [hadd]
      exact ⟨List.suffix_refl _, rfl⟩
  · have h := hsame (c, w)
    exact ⟨h.chain ▸ List.suffix_refl _, h.store⟩

theorem after_append (calls more : List (Call σ)) (x : Cursor σ × σ) :
    after (calls ++ more) x = after more (after calls x) := List.foldl_append

theorem after_keeps (calls : List (Call σ)) (x : Cursor σ × σ) :
    x.1.chain <:+ (after calls x).1.chain ∧ (after calls x).1.store = x.1.store := by
  induction calls generalizing x with
  | nil => exact ⟨List.suffix_refl _, rfl⟩
  | cons call calls ih =>
    obtain ⟨hchain, hstore⟩ := run_keeps call x
    obtain ⟨hrest, hsame⟩ := ih (call.run x)
    exact ⟨hchain.trans hrest, hsame.trans hstore⟩

/-! ## Results of calls -/

section Results
variable {c : Cursor σ} {w : σ}

/-- Where an error waits, an operation that checks for one first gives it and does nothing else. -/
theorem check_bind_waiting {e : QueryError} (hc : c.waiting = some e) (f : Unit → Run σ α) :
    (check >>= f) (c, w) = (.error (.query e), c, w) := by
  have hcheck : check (c, w) = (.error (.query e), c, w) := by
    simp only [check, hc]
  rw [Action.bind_apply, hcheck]

theorem index_apply (hc : c.waiting = none) (hi : c.identifiers = none) :
    index (c, w) = match c.store.index w with
      | (.ok ids, w) => (.ok ids, { c with identifiers := some ids }, w)
      | (.error e, w) => (.error e, c, w) := by
  simp only [index, Action.bind_apply, check_apply hc, Action.get_apply, hi, onStore]
  generalize c.store.index w = r
  rcases r with ⟨_ | ids, w'⟩ <;> rfl

theorem each_apply (hc : c.waiting = none) (hr : c.results = none)
    (callback : Value → Action σ Unit) :
    each callback (c, w) =
      match handOver callback (Progress.remaining c.store c.chain c.progress w + 1) (c, w) with
      | (.ok items, c, w) => (.ok (), { c with results := some items }, w)
      | (.error e, c, w) => (.error e, { c with progress := Progress.rewound c.chain }, w) := by
  simp only [each, fuel, Action.bind_apply, check_apply hc, Action.get_apply, hr,
    Action.tryCatch_apply]
  generalize handOver callback (Progress.remaining c.store c.chain c.progress w + 1) (c, w) = r
  rcases r with ⟨_ | items, c', w'⟩ <;> rfl

/-- Counting takes the identifiers of a bare chain, and otherwise all items. -/
theorem count_apply (hc : c.waiting = none) :
    count (c, w) = if c.chain.isEmpty then ((index (c, w)).1.map List.length, (index (c, w)).2)
      else ((items (c, w)).1.map List.length, (items (c, w)).2) := by
  simp only [count, Action.bind_apply, check_apply hc, Action.get_apply]
  cases c.chain.isEmpty with
  | true =>
    simp only [if_true, Action.bind_apply]
    generalize index (c, w) = r
    rcases r with ⟨_ | ids, c', w'⟩ <;> rfl
  | false =>
    simp only [Bool.false_eq_true, if_false, Action.bind_apply]
    generalize items (c, w) = r
    rcases r with ⟨_ | items, c', w'⟩ <;> rfl

end Results

end Cursor

end Cabinet
