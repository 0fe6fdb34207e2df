import Cabinet.Proofs.Collection.FindAndModify
import Cabinet.Proofs.Cursor.Calls

/-!
# What the query of a change finds

Before it changes anything, a collection runs one query, which has no projection. What that gives was
read from the store just before, even if other documents cannot be read.

* `Cursor.Untouched` : a query over a store that nothing was asked of yet and that projects nothing;
* `untouched_matchQuery`, `untouched_firstQuery` : the queries of a collection's changes are such;
* `ensures_runQuery` : what they give was read from the store, which stays within some states.
-/

namespace Cabinet

variable {σ : Type} {s : Store σ}

namespace Cursor

/-- A query over a store that has no projection and was not asked for anything. -/
structure Untouched (s : Store σ) (c : Cursor σ) : Prop where
  store : c.store = s
  idField : c.idField = none
  progress : c.progress = Progress.rewound c.chain
  results : c.results = none
  whole : ∀ transform, .projection transform ∉ c.chain

section
variable {c : Cursor σ}

theorem Untouched.latch (h : c.Untouched s) (e : QueryError) : (c.latch e).Untouched s := by
  obtain ⟨waiting, hwaiting⟩ := latch_eq c e
  rw [hwaiting]
  exact ⟨h.store, h.idField, h.progress, h.results, h.whole⟩

theorem Untouched.push (h : c.Untouched s) {stage : Stage}
    (hstage : ∀ transform, stage ≠ .projection transform) : (c.push stage).Untouched s where
  store := (push_store c stage).trans h.store
  idField := (push_idField c stage).trans h.idField
  progress := push_progress stage h.progress
  results := (push_results c stage).trans h.results
  whole transform hmem := by
    rw [push_chain] at hmem
    exact (List.mem_cons.mp hmem).elim (fun heq => hstage transform heq.symm) (h.whole transform)

theorem Untouched.addLimit (h : c.Untouched s) (count : Int) : (c.addLimit count).Untouched s :=
  h.push fun _ (heq : Stage.limit count = _) => nomatch heq

theorem Untouched.sort (h : c.Untouched s) (order : Given Comparator) : (c.sort order).Untouched s := by
  unfold Cursor.sort
  cases SortOrder.compile order with
  | error e => exact h.latch e
  | ok compare => exact h.push fun _ (heq : Stage.sort compare = _) => nomatch heq

theorem untouched_make (s : Store σ) (condition : Given Predicate) :
    (make s condition .nothing none).Untouched s := by
  have hbare : Untouched s ⟨s, none, [], none, none, none, none⟩ :=
    ⟨rfl, rfl, rfl, rfl, fun _ => List.not_mem_nil⟩
  exact add_keeps (Untouched s) hbare hbare.latch fun accepts =>
    hbare.push fun _ (heq : Stage.condition accepts = _) => nomatch heq

end

end Cursor

namespace Collection

open Cursor (Untouched)

theorem untouched_matchQuery (s : Store σ) (condition : Given Predicate) (multi : Bool) :
    (matchQuery s condition multi).Untouched s := by
  cases multi with
  | true => exact Cursor.untouched_make s condition
  | false => exact (Cursor.untouched_make s condition).addLimit 1

theorem untouched_firstQuery (s : Store σ) (condition : Given Predicate) (order : Given Comparator) :
    (firstQuery s condition order).Untouched s := by
  have hfound := Cursor.untouched_make s condition
  unfold firstQuery
  cases order.isNothing with
  | true => exact hfound.addLimit 1
  | false => exact (hfound.sort order).addLimit 1

/-- What the query gives was read under an identifier that was listed, and the state of the store is one
that listing and reading lead to. -/
theorem ensures_runQuery {states : σ → Prop} {listed : Text → Prop} {known : Item → Prop}
    (hindex : Action.Ensures states s.index fun ids => ∀ id ∈ ids, listed id)
    (hread : ∀ id, listed id → Action.Ensures states (s.read id) fun d => known ⟨id, .object d⟩)
    {query : Cursor σ} (hquery : query.Untouched s) :
    Action.Ensures states (runQuery query Cursor.items) fun items => ∀ x ∈ items, known x := by
  intro w hw
  rw [runQuery]
  cases hwaiting : query.waiting with
  | some e =>
    have hrun : Cursor.items (query, w) = _ := Cursor.check_bind_waiting hwaiting _
    rw [hrun]
    exact ⟨hw, Action.good_of_failed⟩
  | none =>
    obtain ⟨hstore, hid, hprogress, hresults, hwhole⟩ := hquery
    have hstart : Progress.Each (Stage.Stocked known) (Pending listed states) query.chain
        query.progress w := by
      rw [hprogress]
      exact Progress.each_rewound (fun _ h => absurd h (Option.not_mem_none _))
        ⟨fun _ h => absurd h (Option.not_mem_none _), hw⟩ _
    have hend : ∀ {p : Progress query.chain} {w : σ},
        Progress.Each (Stage.Stocked known) (Pending listed states) query.chain p w → states w :=
      fun h => (Progress.each_state (fun _ => trivial) query.chain).mp
        (Progress.each_mono (fun _ _ => trivial) (fun _ hp => hp.2) query.chain h)
    have hsource : Guards (Stage.source s none) _ known _ := source_listed hindex hread
    have hdrain := drain_keeps hsource (fun transform h => absurd h (hwhole transform)) hstart
    rw [Cursor.items_apply hwaiting hresults, hstore, hid]
    generalize drain s none query.chain query.progress w = r at hdrain
    cases hdrain with
    | ok h => exact ⟨hend h.2, fun _ hxs => Except.ok.inj hxs ▸ h.1⟩
    | error h => exact ⟨hend h, Action.good_of_failed⟩

end Collection

end Cabinet
