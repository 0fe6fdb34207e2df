import Cabinet.Proofs.Cursor.Building

/-!
# The first error of a query waits

What does not compile is not refused where it is given. Its error waits in the cursor, and from then on
every request for results fails by it.

* `firstError?` : the first error among a condition, a projection and the clauses that come later;
* `waiting_request`, `waiting_serve` : what waits after one request, and after many;
* `Request.refusedBy`, `Request.outside` : what a request gives where an error waits, and what becomes
  of the store;
* `run_waiting`, `serve_waiting` : one request where an error waits, and many;
* `first_error_waits` : after any requests, the first error is what all later requests for results give.
-/

namespace Cabinet

variable {σ α : Type}

namespace Cursor

/-! ## The first error -/

/-- The first error of a query: that of its condition, or else of its projection, or else of the first
clause that has one. -/
def firstError? (condition : Given Predicate) (projection : Given Transform) (clauses : List Clause) :
    Option QueryError :=
  (errorOf? (Condition.compile condition)).or <|
    (errorOf? (Projection.compile projection)).or (clauses.findSome? Clause.error?)

/-! ## What waits -/

/-- A request makes an error wait only if it builds the query further, and takes none away. -/
theorem waiting_request (q : Request σ) (c : Cursor σ) (w : σ) :
    (q.run (c, w)).2.1.waiting = c.waiting.or (q.clause?.bind Clause.error?) := by
  obtain ⟨clause, rfl⟩ | ⟨hclause, hkeeps⟩ := request_cases q
  · exact waiting_built clause c
  · rw [hclause]
    exact (hkeeps c w).waiting.trans Option.or_none.symm

/-- What waits after some requests is what has waited before, or else the first error among theirs. -/
theorem waiting_serve (requests : List (Request σ)) (c : Cursor σ) (w : σ) :
    (serve requests (c, w)).2.1.waiting =
      c.waiting.or ((requests.filterMap Request.clause?).findSome? Clause.error?) := by
  induction requests generalizing c w with
  | nil => exact Option.or_none.symm
  | cons q qs ih =>
    have hrest := ih (q.run (c, w)).2.1 (q.run (c, w)).2.2
    rw [waiting_request, Option.or_assoc] at hrest
    refine hrest.trans (congrArg c.waiting.or ?_)
    cases hclause : q.clause? with
    | none => rw [List.filterMap_cons_none hclause]; rfl
    | some clause =>
      rw [List.filterMap_cons_some hclause, List.findSome?_cons]
      simp only [Option.bind_some]
      cases clause.error? <;> rfl

/-! ## Requests where an error waits -/

/-- What a request gives where an error waits: results are refused by the error, and a query can be
built further as ever. -/
def Request.refusedBy (e : QueryError) : Request σ → Except Failure Reply
  | .call (.build (.sort _)) | .call .rewind | .call (.change _) => .ok .done
  | .call (.build (.offset count)) | .call (.build (.limit count)) =>
    count.toInteger.map fun _ => .done
  | .call .next | .call .index | .call .toList | .call (.each _) | .call .count | .items | .iterate =>
    .error (.query e)

/-- What becomes of a store that is not asked for anything: only something else changes it. -/
def Request.outside : Request σ → σ → σ
  | .call (.change f), w => f w
  | _, w => w

section Refused
variable {c : Cursor σ} {w : σ} {e : QueryError}

/-- Results that are mapped are refused as they are. -/
theorem map_refused {a : Run σ α} (ha : a (c, w) = (.error (.query e), c, w)) (f : α → Reply) :
    (f <$> a) (c, w) = (.error (.query e), c, w) := by
  rw [Action.map_apply, ha]
  rfl

theorem next_waiting (hc : c.waiting = some e) : next (c, w) = (.error (.query e), c, w) :=
  check_bind_waiting hc _

theorem iterate_waiting (hc : c.waiting = some e) : iterate (c, w) = (.error (.query e), c, w) := by
  rw [iterate, Action.bind_apply]
  simp only [fuel, iterateFor, Action.bind_apply, next_waiting hc]

/-- Where an error waits, no request asks the store for anything or calls a callback: each gives what
the error and its own argument say, and the store stays as it is unless something else changes it. -/
theorem run_waiting (hc : c.waiting = some e) (q : Request σ) :
    (q.run (c, w)).1 = q.refusedBy e ∧ (q.run (c, w)).2.2 = q.outside w := by
  have hrefused : ∀ {a : Run σ Reply}, a (c, w) = (.error (.query e), c, w) →
      (a (c, w)).1 = .error (.query e) ∧ (a (c, w)).2.2 = w := by
    intro a ha
    rw [ha]
    exact ⟨rfl, rfl⟩
  cases q with
  | items => exact hrefused (map_refused (check_bind_waiting hc _) _)
  | iterate => exact hrefused (map_refused (iterate_waiting hc) _)
  | call asked =>
    cases asked with
    | build clause =>
      refine ⟨?_, rfl⟩
      cases clause with
      | sort order => rfl
      | offset count | limit count =>
        simp only [Request.run, Call.reply, Clause.addTo, offset, limit, Request.refusedBy]
        cases count.toInteger <;> rfl
    | next => exact hrefused (map_refused (next_waiting hc) _)
    | index => exact hrefused (map_refused (check_bind_waiting hc _) _)
    | toList => exact hrefused (map_refused (toList_waiting hc) _)
    | each callback => exact hrefused (map_refused (check_bind_waiting hc _) _)
    | count => exact hrefused (map_refused (check_bind_waiting hc _) _)
    | rewind | change f => exact ⟨rfl, rfl⟩

theorem serve_waiting (hc : c.waiting = some e) (requests : List (Request σ)) :
    ∃ c', serve requests (c, w) =
        (requests.map (Request.refusedBy e), c', requests.foldl (fun w q => q.outside w) w) ∧
      c'.waiting = some e := by
  induction requests generalizing c w with
  | nil => exact ⟨c, rfl, hc⟩
  | cons q qs ih =>
    obtain ⟨hreply, hstate⟩ := run_waiting (w := w) hc q
    have hwaiting : (q.run (c, w)).2.1.waiting = some e := by
      rw [waiting_request, hc]
      rfl
    obtain ⟨c', hrest, hc'⟩ := ih (w := (q.run (c, w)).2.2) hwaiting
    refine ⟨c', ?_, hc'⟩
    rw [hstate] at hrest
    have hrun : q.run (c, w) = (q.refusedBy e, (q.run (c, w)).2.1, q.outside w) :=
      Prod.ext hreply (Prod.ext rfl hstate)
    rw [serve, hrun]
    simp only [hrest]
    rfl

end Refused

/-- A query was asked for anything, over a store that may fail and change at any time, and among its
condition, its projection and its clauses some do not compile. From then on every request for results
gives the first of their errors, whatever is built, rewound or asked for later, and that error goes on
waiting. No request asks the store for anything or calls a callback, so the store stays as something else
leaves it; clauses are refused only for an argument of their own that is no number. -/
theorem first_error_waits (s : Store σ) (condition : Given Predicate) (projection : Given Transform)
    (idField : Option Text) {before : List (Request σ)} {w₀ w : σ} {c : Cursor σ}
    (hbefore : (serve before (make s condition projection idField, w₀)).2 = (c, w)) {e : QueryError}
    (hfirst : firstError? condition projection (before.filterMap Request.clause?) = some e)
    (after : List (Request σ)) :
    ∃ c', serve after (c, w) =
        (after.map (Request.refusedBy e), c', after.foldl (fun w q => q.outside w) w) ∧
      c'.waiting = some e := by
  have hwaiting := waiting_serve before (make s condition projection idField) w₀
  rw [hbefore, waiting_new, Option.or_assoc] at hwaiting
  exact serve_waiting (hwaiting.trans hfirst) after

/-! ## Lamps that are sorted wrongly -/

/-- One lamp is taken, then two orders come that are none, and the cursor is rewound. -/
def wrongOrders : List (Request (Memory × List Cabinet.Call)) :=
  [.call .next, .call (.build (.sort (.value (.int 5)))), .call (.build (.sort (.value (.bool true)))),
    .call .rewind]

/-- All lamps are asked for in several ways. -/
def askAll : List (Request (Memory × List Cabinet.Call)) :=
  [.call .toList, .call (.build (.limit (.text "1".toText))), .call (.each refuse), .call .rewind,
    .call .count, .iterate]

theorem first_error_waits_lamps :
    ∃ c w c', (serve wrongOrders (watchedLamps, lamps, [])).2 = (c, w) ∧
      w.2 = [⟨.index, none⟩, ⟨.read, some "a".toText⟩] ∧
      serve askAll (c, w) = ([.error (.query (.order (.int 5))), .ok .done,
        .error (.query (.order (.int 5))), .ok .done, .error (.query (.order (.int 5))),
        .error (.query (.order (.int 5)))], c', w) := by
  obtain ⟨⟨c, w⟩, hbefore⟩ : ∃ x, (serve wrongOrders (watchedLamps, lamps, [])).2 = x := ⟨_, rfl⟩
  have hrecord : w.2 = [⟨.index, none⟩, ⟨.read, some "a".toText⟩] :=
    (congrArg (fun x => x.2.2) hbefore).symm.trans (by cbv)
  obtain ⟨c', hserve, -⟩ := first_error_waits watched .nothing .nothing none hbefore
    (rfl : firstError? .nothing .nothing (wrongOrders.filterMap Request.clause?) =
      some (.order (.int 5))) askAll
  exact ⟨c, w, c', hbefore, hrecord, hserve⟩

end Cursor

end Cabinet
