import Cabinet.Proofs.Cursor.Counting
import Cabinet.Proofs.Cursor.Feed
import Cabinet.Proofs.Cursor.Rewinding
import Cabinet.Proofs.Cursor.Waiting

/-!
# Building a query that was already asked

A cursor keeps its results once all of them were taken. Sorting, leaving out and limiting put a stage
in front of the chain also then, but the results stay, and they are all that is ever given.

* `untilTaken` : the query that calls have built when results are first taken;
* `Call.Completes` : calls that build a query or take all its results, and do not fail;
* `Unasked`, `found` : a cursor that was only built, and its items;
* `handOver_follows`, `after_asked`, `after_unasked` : handing over all items, calls of a cursor that
  keeps its results, and calls of one that was only built;
* `toList_untilTaken` : after any such calls, taking all results gives what a new cursor gives that is
  built by the calls until results were first taken;
* `toList_ignores_limit` : a limit that comes later is ignored.
-/

namespace Cabinet

variable {σ : Type}

namespace Cursor

/-! ## Calls that build and take -/

/-- The query that calls have built when results are first taken. Counting the identifiers of a bare
chain takes none. -/
def untilTaken : Cursor σ → List (Call σ) → Cursor σ
  | c, .build clause :: calls => untilTaken ((clause.addTo c).toOption.getD c) calls
  | c, .count :: calls => if c.chain.isEmpty then untilTaken c calls else c
  | c, _ => c

/-- A comparator that does not fail on the documents of some items. -/
def Compares (items : List Item) (compare : Comparator) : Prop :=
  ∀ x ∈ items, ∀ y ∈ items, ∃ n, compare x.document y.document = .ok n

/-- A call that builds the query further or takes all results, where neither a comparator fails on
some items nor a callback on any document, and the store stays as it is. -/
def Call.Completes (I : σ → Prop) (items : List Item) : Call σ → Prop
  | .build (.sort order) => ∀ compare, SortOrder.compile order = .ok compare → Compares items compare
  | .build _ | .toList | .count => True
  | .each callback => ∀ d w, I w → ∃ w', callback d w = (.ok (), w') ∧ I w'
  | .next | .index | .rewind | .change _ => False

theorem untilTaken_builds (clauses : List Clause) (calls : List (Call σ)) (c : Cursor σ) :
    untilTaken c (clauses.map .build ++ calls) = untilTaken (built c clauses) calls := by
  induction clauses generalizing c with
  | nil => rfl
  | cons clause clauses ih => exact ih _

/-- Where nothing builds the query further, it stays as it is. -/
theorem untilTaken_takes (c : Cursor σ) : ∀ {calls : List (Call σ)},
    (∀ clause, Call.build clause ∉ calls) → untilTaken c calls = c
  | [], _ => rfl
  | call :: calls, h => by
    have hrest := untilTaken_takes c fun clause hmem => h clause (List.mem_cons_of_mem call hmem)
    cases call with
    | build clause => exact absurd List.mem_cons_self (h clause)
    | count =>
      rw [untilTaken, hrest, ite_self]
    | next | index | toList | each callback | rewind | change f => rfl

/-! ## What a clause keeps -/

section Clause
variable {c c' : Cursor σ}

theorem results_addTo (clause : Clause) (c : Cursor σ) :
    ((clause.addTo c).toOption.getD c).results = c.results := by
  obtain ⟨stage, -, hadd⟩ | ⟨e, hadd⟩ | hadd := addTo_cases clause
  · rw [hadd, push_results]
  · obtain ⟨waiting, hwaiting⟩ := latch_eq c e
    rw [hadd, hwaiting]
  · rw [hadd]

theorem SameQuery.latch (h : SameQuery c c') (e : QueryError) :
    SameQuery (c.latch e) (c'.latch e) := by
  unfold Cursor.latch
  rw [h.waiting]
  cases c.waiting with
  | none => exact ⟨h.store, h.idField, h.chain, rfl⟩
  | some e' => exact h

theorem SameQuery.addTo (h : SameQuery c c') (clause : Clause) :
    SameQuery ((clause.addTo c).toOption.getD c) ((clause.addTo c').toOption.getD c') := by
  obtain ⟨stage, -, hadd⟩ | ⟨e, hadd⟩ | hadd := addTo_cases clause
  · rw [hadd, hadd]
    exact ⟨by simp [h.store], by simp [h.idField], by simp [h.chain], by simp [h.waiting]⟩
  · rw [hadd, hadd]
    exact h.latch e
  · rw [hadd, hadd]
    exact h

/-- An error that waits goes on waiting. -/
theorem waiting_run {e : QueryError} {x : Cursor σ × σ} (h : x.1.waiting = some e)
    (call : Call σ) : (call.run x).1.waiting = some e := by
  obtain ⟨clause, rfl⟩ | hsame := run_cases call
  · exact (waiting_built clause x.1).trans (congrArg (Option.or · _) h)
  · exact (hsame x).waiting.trans h

/-- Where no error waits after some calls, none has waited before. -/
theorem waiting_of_after {calls : List (Call σ)} {x : Cursor σ × σ}
    (h : (after calls x).1.waiting = none) : x.1.waiting = none := by
  cases hx : x.1.waiting with
  | none => rfl
  | some e =>
    have hkeeps : (after calls x).1.waiting = some e := by
      clear h
      induction calls generalizing x with
      | nil => exact hx
      | cons call calls ih => exact ih (waiting_run hx call)
    rw [hkeeps] at h
    cases h

end Clause

/-! ## Cursors that were only built -/

/-- The items of a query over a store. -/
def found (c : Cursor σ) (ids : List Text) (doc : Text → Document) : List Item :=
  (feed c.chain (Feed.source c.idField ids doc)).items

/-- A cursor over a store that was not asked for any result: on top of its first stages stand such
that keep documents, and no comparator among them fails on the items that reach it. -/
structure Unasked (s : Store σ) (idField : Option Text) (first : List Stage) (items : List Item)
    (c : Cursor σ) : Prop where
  store : c.store = s
  idField : c.idField = idField
  chain : ∃ stages, c.chain = stages ++ first ∧ (∀ stage ∈ stages, stage.keepsDocuments = true) ∧
    ∀ compare, Stage.sort compare ∈ stages → Compares items compare
  progress : c.progress = Progress.rewound c.chain
  results : c.results = none

section Unasked
variable {s : Store σ} {I : σ → Prop} {ids : List Text} {doc : Text → Document}
  {idField : Option Text} {first : List Stage} {c b : Cursor σ} {w : σ}

theorem SameQuery.found_eq (h : SameQuery b c) : c.found ids doc = b.found ids doc := by
  rw [found, found, h.chain, h.idField]

theorem Unasked.addTo {items : List Item} (h : Unasked s idField first items c) {clause : Clause}
    (hclause : (Call.build clause).Completes I items) :
    Unasked s idField first items ((clause.addTo c).toOption.getD c) := by
  obtain ⟨stage, hstage, hadd⟩ | ⟨e, hadd⟩ | hadd := addTo_cases clause
  · rw [hadd]
    obtain ⟨stages, hchain, hkeeps, hcompares⟩ := h.chain
    refine ⟨by simp [h.store], by simp [h.idField], ⟨stage :: stages, by simp [hchain], ?_, ?_⟩,
      push_progress stage h.progress, by simp [h.results]⟩
    · exact List.forall_mem_cons.mpr ⟨Clause.stage_keepsDocuments hstage, hkeeps⟩
    · intro compare hmem
      obtain rfl | hmem := List.mem_cons.mp hmem
      · cases clause with
        | sort order =>
          obtain ⟨_, hcompile, heq⟩ := ok_of_map (ok_of_mapError hstage)
          cases heq
          exact hclause _ hcompile
        | offset count | limit count =>
          obtain ⟨n, -, heq⟩ := ok_of_map hstage
          cases heq
      · exact hcompares compare hmem
  · obtain ⟨waiting, hwaiting⟩ := latch_eq c e
    rw [hadd, hwaiting]
    exact ⟨h.store, h.idField, h.chain, h.progress, h.results⟩
  · rw [hadd]
    exact h

theorem sort_compares {items xs : List Item} {compare : Comparator} (h : Compares items compare)
    (hxs : ∀ x ∈ xs, x ∈ items) : ∃ ys, SortOrder.sort Item.document compare xs = .ok ys := by
  refine Order.sort_ok_of_mem fun x hx y hy => ?_
  obtain ⟨n, hn⟩ := h x (hxs x hx) y (hxs y hy)
  exact ⟨decide (n < 0), by rw [hn]; rfl⟩

/-- A steady store can be asked at any time. -/
theorem lists_steady (hs : Steady s I (fun _ => []) ids doc) :
    s.Lists (fun _ => True) (fun _ w => I w) ids doc where
  index _ w hw := by
    obtain ⟨w', hrun, hw', -⟩ := hs.index w hw
    exact ⟨w', hrun, hw'⟩
  read id hid _ _ w hw := by
    obtain ⟨w', hrun, hw', -⟩ := hs.read id hid w hw
    exact ⟨w', hrun, hw'⟩

/-- Handing over all items that come. -/
theorem handOver_follows {callback : Value → Action σ Unit}
    (hcallback : ∀ d w, I w → ∃ w', callback d w = (.ok (), w') ∧ I w') : ∀ {f : Feed}
    {past : List Cabinet.Call} {fuel : Nat} {c : Cursor σ} {w : σ},
    Follows (fun _ => True) (fun _ w => I w) (pull c.store c.idField c.chain)
      (Progress.remaining c.store c.chain) f past c.progress → I w → f.items.length < fuel →
    ∃ p w', handOver callback fuel (c, w) = (.ok f.items, { c with progress := p }, w') ∧ I w'
  | _, _, 0, _, _, _, _, hfuel => absurd hfuel (Nat.not_lt_zero _)
  | .ends calls, past, fuel + 1, c, w, h, hw, _ => by
    obtain ⟨p, w', hpull, hw'⟩ := h w hw fun _ _ => trivial
    refine ⟨p, w', ?_, hw'⟩
    rw [handOver, Action.bind_apply, pullItem, hpull]
    rfl
  | .gives calls x rest, past, fuel + 1, c, w, h, hw, hfuel => by
    obtain ⟨p₁, w₁, hpull, hw₁, hnext⟩ := (h w hw).2 fun _ _ => trivial
    obtain ⟨w₂, hcall, hw₂⟩ := hcallback x.document w₁ hw₁
    obtain ⟨p, w', hrest, hw'⟩ := handOver_follows hcallback (c := { c with progress := p₁ }) hnext hw₂
      (Nat.lt_of_succ_lt_succ hfuel)
    refine ⟨p, w', ?_, hw'⟩
    rw [handOver, Action.bind_apply, pullItem, hpull]
    simp only [onStore, Action.bind_apply, hcall, hrest, Action.pure_apply]
    rfl

/-- Listing the identifiers leaves the store as it is, and only the identifiers are kept. -/
theorem index_state (hs : Steady s I (fun _ => []) ids doc) (hstore : c.store = s)
    (hc : c.waiting = none) (hw : I w) :
    ∃ kept w', (index (c, w)).2 = ({ c with identifiers := kept }, w') ∧ I w' := by
  cases hi : c.identifiers with
  | some kept =>
    have hindex : index (c, w) = (.ok kept, c, w) := by
      simp only [index, Action.bind_apply, check_apply hc, Action.get_apply, hi, Action.pure_apply]
    exact ⟨c.identifiers, w, congrArg Prod.snd hindex, hw⟩
  | none =>
    obtain ⟨w', hindex, hw', -⟩ := hs.index w hw
    rw [← hstore] at hindex
    refine ⟨some ids, w', ?_, hw'⟩
    rw [index_apply hc hi, hindex]

/-! ## Calls of a cursor that keeps its results -/

section Asked
variable {xs items : List Item}

/-- Results that are kept are all that calls give. -/
theorem items_kept (hc : c.waiting = none) (hr : c.results = some xs) :
    Cursor.items (c, w) = (.ok xs, c, w) := by
  simp only [Cursor.items, Action.bind_apply, check_apply hc, Action.get_apply, hr,
    Action.pure_apply]

theorem run_asked (hs : Steady s I (fun _ => []) ids doc) {call : Call σ}
    (hcall : call.Completes I items) (hstore : c.store = s) (hc : c.waiting = none)
    (hr : c.results = some xs) (hw : I w) :
    (call.run (c, w)).1.results = some xs ∧ I (call.run (c, w)).2 := by
  cases call with
  | next | index | rewind | change f => exact hcall.elim
  | build clause => exact ⟨(results_addTo clause c).trans hr, hw⟩
  | toList =>
    rw [Call.run, toList, Action.bind_apply, items_kept hc hr]
    exact ⟨hr, hw⟩
  | each callback =>
    have hstate : ∀ d w, I w → I (callback d w).2 := fun d w hw => by
      obtain ⟨w', hrun, hw'⟩ := hcall d w hw
      rwa [hrun]
    obtain ⟨r, w', hrun, hw'⟩ := forM_state hstate c xs hw
    have heach : each callback (c, w) = (r, c, w') := by
      simp only [each, Action.bind_apply, check_apply hc, Action.get_apply, hr, hrun]
    rw [Call.run, heach]
    exact ⟨hr, hw'⟩
  | count =>
    rw [Call.run, count_apply hc]
    cases c.chain.isEmpty with
    | true =>
      obtain ⟨kept, w', hindex, hw'⟩ := index_state hs hstore hc hw
      simp only [if_true, hindex]
      exact ⟨hr, hw'⟩
    | false =>
      rw [items_kept hc hr]
      exact ⟨hr, hw⟩

/-- What is kept stays, whatever is built in front of it. -/
theorem after_asked (hs : Steady s I (fun _ => []) ids doc) {calls : List (Call σ)}
    (hcalls : ∀ call ∈ calls, call.Completes I items) {x : Cursor σ × σ} (hstore : x.1.store = s)
    (hc : (after calls x).1.waiting = none) (hr : x.1.results = some xs) (hw : I x.2) :
    (after calls x).1.results = some xs ∧ I (after calls x).2 := by
  induction calls generalizing x with
  | nil => exact ⟨hr, hw⟩
  | cons call calls ih =>
    obtain ⟨hcall, hcalls⟩ := List.forall_mem_cons.mp hcalls
    have hwaiting : x.1.waiting = none := waiting_of_after hc
    obtain ⟨hr', hw'⟩ := run_asked hs hcall hstore hwaiting hr hw
    exact ih hcalls ((run_keeps call x).2.trans hstore) hc hr' hw'

end Asked

/-! ## Calls of a cursor that was only built -/

section First
variable (hs : Steady s I (fun _ => []) ids doc)
  (hfirst : Defined (fun _ => True) first (Feed.source idField ids doc))
  (hc : Unasked s idField first (feed first (Feed.source idField ids doc)).items c)
include hs hfirst hc

theorem Unasked.follows (past : List Cabinet.Call) :
    Follows (fun _ => True) (fun _ w => I w) (pull c.store c.idField c.chain)
      (Progress.remaining c.store c.chain) (feed c.chain (Feed.source c.idField ids doc)) past
      c.progress := by
  obtain ⟨stages, hchain, hkeeps, hcompares⟩ := hc.chain
  rw [hc.progress, hc.store, hc.idField]
  refine pull_follows (lists_steady hs) past c.chain ?_
  rw [hchain]
  exact defined_append hfirst stages hkeeps fun compare hmem xs hxs =>
    sort_compares (hcompares compare hmem) hxs

/-- A cursor that was only built gives all its items, and keeps them. -/
theorem Unasked.items_eq (hwaiting : c.waiting = none) (hw : I w) :
    ∃ c' w', items (c, w) = (.ok (c.found ids doc), c', w') ∧
      c'.results = some (c.found ids doc) ∧ I w' := by
  have h := hc.follows hs hfirst []
  obtain ⟨p, w', hdrain, hw'⟩ := Stage.collect_follows h hw
    (Nat.lt_succ_of_le (follows_iff.mp h w hw).1) fun _ _ => trivial
  rw [items_apply hwaiting hc.results, drain, hdrain]
  exact ⟨_, w', rfl, rfl, hw'⟩

theorem Unasked.each_eq (hwaiting : c.waiting = none) (hw : I w) {callback : Value → Action σ Unit}
    (hcallback : ∀ d w, I w → ∃ w', callback d w = (.ok (), w') ∧ I w') :
    ∃ c' w', each callback (c, w) = (.ok (), c', w') ∧ c'.results = some (c.found ids doc) ∧
      I w' := by
  have h := hc.follows hs hfirst []
  obtain ⟨p, w', hall, hw'⟩ := handOver_follows hcallback h hw
    (Nat.lt_succ_of_le (follows_iff.mp h w hw).1)
  rw [each_apply hwaiting hc.results, hall]
  exact ⟨_, w', rfl, rfl, hw'⟩

end First

/-- Calls of a cursor that was only built. It stays so, or it keeps the items of the query that had been
built when results were first taken. -/
theorem after_unasked (hs : Steady s I (fun _ => []) ids doc)
    (hfirst : Defined (fun _ => True) first (Feed.source idField ids doc)) {calls : List (Call σ)}
    (hcalls : ∀ call ∈ calls,
      call.Completes I (feed first (Feed.source idField ids doc)).items)
    (hb : Unasked s idField first (feed first (Feed.source idField ids doc)).items b)
    (hc : Unasked s idField first (feed first (Feed.source idField ids doc)).items c)
    (hsame : SameQuery b c) (hw : I w) (hwaiting : (after calls (c, w)).1.waiting = none) :
    I (after calls (c, w)).2 ∧ (untilTaken b calls).waiting = none ∧
      Unasked s idField first (feed first (Feed.source idField ids doc)).items
        (untilTaken b calls) ∧
      (Unasked s idField first (feed first (Feed.source idField ids doc)).items
          (after calls (c, w)).1 ∧ SameQuery (untilTaken b calls) (after calls (c, w)).1 ∨
        (after calls (c, w)).1.results = some ((untilTaken b calls).found ids doc)) := by
  induction calls generalizing b c w with
  | nil => exact ⟨hw, hsame.waiting.symm.trans hwaiting, hb, .inl ⟨hc, hsame⟩⟩
  | cons call calls ih =>
    obtain ⟨hcall, hothers⟩ := List.forall_mem_cons.mp hcalls
    have hcwaiting : c.waiting = none := waiting_of_after hwaiting
    have hbwaiting : b.waiting = none := hsame.waiting.symm.trans hcwaiting
    -- once results are kept, the query that they belong to is the one built so far
    have htaken : ∀ c' w', call.run (c, w) = (c', w') → c'.results = some (c.found ids doc) →
        I w' → I (after (call :: calls) (c, w)).2 ∧
          (after (call :: calls) (c, w)).1.results = some (b.found ids doc) := by
      intro c' w' hrun hr hw'
      have hstore : (call.run (c, w)).1.store = s := (run_keeps call (c, w)).2.trans hc.store
      have hafter : after (call :: calls) (c, w) = after calls (c', w') := by
        rw [after, List.foldl_cons, hrun]
        rfl
      rw [hrun] at hstore
      rw [hafter] at hwaiting ⊢
      rw [hsame.found_eq] at hr
      exact (after_asked hs hothers hstore hwaiting hr hw').symm
    cases call with
    | next | index | rewind | change f => exact hcall.elim
    | build clause =>
      exact ih hothers (hb.addTo hcall) (hc.addTo hcall) (hsame.addTo clause) hw hwaiting
    | toList =>
      obtain ⟨c', w', hitems, hr, hw'⟩ := hc.items_eq hs hfirst hcwaiting hw
      have hrun : Call.toList.run (c, w) = (c', w') := by
        rw [Call.run, toList, Action.bind_apply, hitems]
        rfl
      obtain ⟨hend, hkept⟩ := htaken c' w' hrun hr hw'
      exact ⟨hend, hbwaiting, hb, .inr hkept⟩
    | each callback =>
      obtain ⟨c', w', heach, hr, hw'⟩ := hc.each_eq hs hfirst hcwaiting hw hcall
      have hrun : (Call.each callback).run (c, w) = (c', w') := by
        rw [Call.run, heach]
      obtain ⟨hend, hkept⟩ := htaken c' w' hrun hr hw'
      exact ⟨hend, hbwaiting, hb, .inr hkept⟩
    | count =>
      rw [untilTaken, ← hsame.chain]
      cases hbare : c.chain.isEmpty with
      | true =>
        obtain ⟨kept, w', hindex, hw'⟩ := index_state hs hc.store hcwaiting hw
        have hrun : Call.count.run (c, w) = ({ c with identifiers := kept }, w') := by
          rw [Call.run, count_apply hcwaiting, hbare]
          exact hindex
        have hafter : after (.count :: calls) (c, w) =
            after calls ({ c with identifiers := kept }, w') := by
          rw [after, List.foldl_cons, hrun]
          rfl
        rw [hafter] at hwaiting ⊢
        exact ih hothers hb ⟨hc.store, hc.idField, hc.chain, hc.progress, hc.results⟩
          ⟨hsame.store, hsame.idField, hsame.chain, hsame.waiting⟩ hw' hwaiting
      | false =>
        obtain ⟨c', w', hitems, hr, hw'⟩ := hc.items_eq hs hfirst hcwaiting hw
        have hrun : Call.count.run (c, w) = (c', w') := by
          rw [Call.run, count_apply hcwaiting, hbare, hitems]
          rfl
        obtain ⟨hend, hkept⟩ := htaken c' w' hrun hr hw'
        exact ⟨hend, hbwaiting, hb, .inr hkept⟩

end Unasked

/-! ## Taking all results -/

/-- A query over a store that stays as it is was built and asked for all its results in any order, and
no clause waits as an error. Taking all results gives the documents of the query that was built when
results were first taken, as a new cursor gives them that is built by the calls until then. So there are
not more than its last limit allows; and where nothing was built later, a new cursor that all calls have
built gives the same. -/
theorem toList_untilTaken {s : Store σ} {I : σ → Prop} {ids : List Text} {doc : Text → Document}
    (hs : Steady s I (fun _ => []) ids doc) {condition : Given Predicate}
    {projection : Given Transform} {accepts : Predicate} {transform : Transform}
    (hcondition : Condition.compile condition = .ok accepts)
    (hprojection : Projection.compile projection = .ok transform) (idField : Option Text)
    (haccepts : ∀ x ∈ storedItems idField ids doc, ∃ b, accepts x.document = .ok b)
    (htransform : ∀ x ∈ storedItems idField ids doc, accepted accepts x.document = true →
      ∃ d, transform x.document = .ok d)
    {calls : List (Call σ)} (hcalls : ∀ call ∈ calls,
      call.Completes I (firstItems accepts transform (storedItems idField ids doc)))
    {w₀ w : σ} (hw₀ : I w₀) {c : Cursor σ}
    (hafter : after calls (make s condition projection idField, w₀) = (c, w))
    (hwaiting : c.waiting = none) :
    let new := make s condition projection idField
    ∃ docs, (toList (c, w)).1 = .ok docs ∧
      docs = ((untilTaken new calls).found ids doc).map Item.document ∧
      (∀ w', I w' → (toList (untilTaken new calls, w')).1 = .ok docs) ∧
      (∀ n rest, (untilTaken new calls).chain = .limit n :: rest → docs.length ≤ n.toNat) ∧
      ∀ clauses taking, calls = clauses.map .build ++ taking →
        (∀ clause, Call.build clause ∉ taking) →
        ∀ w', I w' → (toList (built new clauses, w')).1 = .ok docs := by
  intro new
  let first := firstStages condition projection accepts transform
  let source := Feed.source idField ids doc
  have hitems : (feed first source).items =
      firstItems accepts transform (storedItems idField ids doc) := by
    rw [items_firstStages hcondition hprojection, Feed.items_source]
  have hfirst : Defined (fun _ => True) first source :=
    defined_firstStages hcondition (fun id hid _ => haccepts _ (List.mem_map_of_mem hid))
      fun id hid _ => htransform _ (List.mem_map_of_mem hid)
  have hnew : Unasked s idField first (feed first source).items new := by
    show Unasked _ _ _ _ (make s condition projection idField)
    rw [make_eq_start hcondition hprojection]
    exact ⟨rfl, rfl, ⟨[], rfl, by simp, by simp⟩, rfl, rfl⟩
  rw [← hitems] at hcalls
  obtain ⟨hw, hasked, hbuilt, hleft⟩ := after_unasked hs hfirst hcalls hnew hnew (.refl new) hw₀
    (by rw [hafter]; exact hwaiting)
  rw [hafter] at hw hleft
  have hgives : ∀ {b : Cursor σ} {w' : σ}, Unasked s idField first (feed first source).items b →
      b.waiting = none → I w' →
      (toList (b, w')).1 = .ok ((b.found ids doc).map Item.document) := by
    intro b w' hb hb' hw'
    obtain ⟨c', w₁, hrun, -, -⟩ := hb.items_eq hs hfirst hb' hw'
    rw [toList, Action.bind_apply, hrun]
    rfl
  refine ⟨((untilTaken new calls).found ids doc).map Item.document, ?_, rfl,
    fun w' hw' => hgives hbuilt hasked hw', fun n rest hchain => ?_,
    fun clauses taking hsplit htaking w' hw' => ?_⟩
  · obtain ⟨hc, hsame⟩ | hkept := hleft
    · rw [← hsame.found_eq]
      exact hgives hc hwaiting hw
    · rw [toList, Action.bind_apply, items_kept hwaiting hkept]
      rfl
  · rw [List.length_map, found, hchain]
    show ((feed rest _).limit n.toNat).items.length ≤ _
    rw [Feed.items_limit]
    exact List.length_take_le _ _
  · have huntil : untilTaken new calls = built new clauses := by
      rw [hsplit, untilTaken_builds, untilTaken_takes _ htaking]
    rw [← huntil]
    exact hgives hbuilt hasked hw'

/-! ## Lamps that are limited too late -/

/-- The first two lamps are taken, then one more is left out and they are counted. -/
def limitedLamps : List (Call Memory) :=
  [.build (.limit (.int 2)), .each fun _ => pure (), .build (.offset (.int 1)), .count]

theorem toList_untilTaken_lamps :
    ∃ c, after limitedLamps (allLamps, lamps) = (c, lamps) ∧ c.chain.length = 2 ∧
      (toList (c, lamps)).1 = .ok [.object (lamp "a".toText), .object (lamp "b".toText)] ∧
      (toList (built allLamps [.limit (.int 2)], lamps)).1 =
        .ok [.object (lamp "a".toText), .object (lamp "b".toText)] := by
  obtain ⟨⟨c, m⟩, hafter⟩ : ∃ x, after limitedLamps (allLamps, lamps) = x := ⟨_, rfl⟩
  obtain rfl : m = lamps := (congrArg Prod.snd hafter).symm.trans (by cbv)
  have hwaiting : c.waiting = none :=
    (congrArg (fun x => x.1.waiting) hafter).symm.trans (by cbv)
  have hchain : c.chain.length = 2 :=
    (congrArg (fun x => x.1.chain.length) hafter).symm.trans (by cbv)
  have hcalls : ∀ call ∈ limitedLamps, call.Completes (fun m => m = lamps)
      (firstItems Condition.always Projection.identity.apply
        (storedItems none (lamps.map Prod.fst) lamp)) := by
    simp only [limitedLamps, List.forall_mem_cons, Call.Completes]
    exact ⟨trivial, fun d m hm => ⟨m, rfl, hm⟩, trivial, trivial, fun _ h => by cases h⟩
  obtain ⟨docs, hdocs, -, hbuilt, -, -⟩ := toList_untilTaken steady_lamps
    (rfl : Condition.compile .nothing = .ok Condition.always)
    (rfl : Projection.compile .nothing = .ok Projection.identity.apply) none
    (fun _ _ => ⟨true, rfl⟩) (fun x _ _ => ⟨x.document, rfl⟩) hcalls rfl hafter hwaiting
  have htwo : (toList (built allLamps [.limit (.int 2)], lamps)).1 =
      .ok [.object (lamp "a".toText), .object (lamp "b".toText)] := by
    cbv
  obtain rfl := Except.ok.inj ((hbuilt lamps rfl).symm.trans htwo)
  exact ⟨c, hafter, hchain, hdocs, htwo⟩

/-- All lamps were taken, so a limit that comes later is ignored. On a new cursor it is not. -/
theorem toList_ignores_limit :
    let late := after [.toList, .build (.limit (.int 1))] (allLamps, lamps)
    (toList late).1.map List.length = .ok 3 ∧
      (toList (built allLamps [.limit (.int 1)], lamps)).1.map List.length = .ok 1 := by
  constructor
  · cbv
  · cbv

end Cursor

end Cabinet
