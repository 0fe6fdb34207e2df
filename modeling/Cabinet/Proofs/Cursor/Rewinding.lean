import Cabinet.Proofs.Cursor.Calls
import Cabinet.Store.Traced

/-!
# Starting anew

All that a cursor hides is forgotten when it is rewound, under any nesting of stages and also where a
pull, a sort or a callback has failed half-way. What is left is the query that was built.

* `Request`, `Reply`, `serve` : what a cursor can be asked for, what it gives, and requests one after
  another, which go on after one that fails;
* `built`, `Request.clause?` : the cursor that clauses build, and the clause of a request;
* `rewind_addTo`, `rewind_make` : rewinding and building commute, and a new cursor is as if rewound;
* `rewind_run` : a request that builds nothing makes no difference to a cursor that is then rewound;
* `rewind_serve` : after any requests, a cursor that is rewound is the one that was only built;
* `rewind_like_new` : so from then on it does what a new cursor does, and taking all results does so
  once handing them over has failed.
-/

namespace Cabinet

variable {σ α β : Type}

namespace Cursor

/-! ## Requests -/

/-- What a cursor can be asked for, and changes of its store by something else. -/
inductive Request (σ : Type) where
  | call (call : Call σ)
  | items
  | iterate

/-- What a request gives if it does not fail. -/
inductive Reply where
  | done
  | document (d : Value)
  | documents (docs : List Value)
  | identifiers (ids : List Text)
  | items (items : List Item)
  | number (n : Nat)

/-- What a call gives, and what it leaves behind. A clause that is refused builds nothing. -/
def Call.reply : Call σ → Run σ Reply
  | .build clause => fun (c, w) =>
    ((clause.addTo c).map fun _ => .done, (clause.addTo c).toOption.getD c, w)
  | .next => .document <$> Cursor.next
  | .index => .identifiers <$> Cursor.index
  | .toList => .documents <$> Cursor.toList
  | .each callback => (fun _ => .done) <$> Cursor.each callback
  | .count => .number <$> Cursor.count
  | .rewind => fun (c, w) => (.ok .done, c.rewind, w)
  | .change f => fun (c, w) => (.ok .done, c, f w)

def Request.run : Request σ → Run σ Reply
  | .call asked => asked.reply
  | .items => .items <$> Cursor.items
  | .iterate => .documents <$> Cursor.iterate

/-- The results of requests, one after another, and what they leave behind. -/
def serve : List (Request σ) → Cursor σ × σ → List (Except Failure Reply) × Cursor σ × σ
  | [], x => ([], x)
  | q :: qs, x =>
    let (r, x) := q.run x
    let (rs, x) := serve qs x
    (r :: rs, x)

/-- The clause that a request builds the query further by. -/
def Request.clause? : Request σ → Option Clause
  | .call (.build clause) => some clause
  | _ => none

/-- The cursor that clauses build, each of them unless it is refused. -/
def built (c : Cursor σ) (clauses : List Clause) : Cursor σ :=
  clauses.foldl (fun c clause => (clause.addTo c).toOption.getD c) c

/-! ## Rewinding and building -/

/-- Of a cursor that is rewound only its query is left. -/
theorem SameQuery.rewind_eq {c c' : Cursor σ} (h : SameQuery c c') : c'.rewind = c.rewind := by
  obtain ⟨s, idField, chain, progress, waiting, identifiers, results⟩ := c
  obtain ⟨s', idField', chain', progress', waiting', identifiers', results'⟩ := c'
  obtain ⟨hstore, hid, hchain, hwaiting⟩ := h
  simp only at hstore hid hchain hwaiting
  subst hstore hid hchain hwaiting
  rfl

theorem rewind_latch (c : Cursor σ) (e : QueryError) : (c.latch e).rewind = c.rewind.latch e := by
  unfold latch
  cases c with
  | mk s idField chain progress waiting identifiers results => cases waiting <;> rfl

theorem rewind_push (c : Cursor σ) (stage : Stage) : (c.push stage).rewind = c.rewind.push stage := by
  cases stage <;> rfl

/-- A stage that is put in front has made no progress, so rewinding may as well come before. -/
theorem rewind_addTo (clause : Clause) (c : Cursor σ) :
    ((clause.addTo c).toOption.getD c).rewind = (clause.addTo c.rewind).toOption.getD c.rewind := by
  obtain ⟨stage, -, hadd⟩ | ⟨e, hadd⟩ | hadd := addTo_cases clause
  · rw [hadd, hadd, rewind_push]
  · rw [hadd, hadd, rewind_latch]
  · rw [hadd, hadd]

theorem rewind_add {given : Given α} {compile : Given α → Except QueryError β}
    {stage : Cursor σ → β → Cursor σ}
    (hstage : ∀ c compiled, (stage c compiled).rewind = stage c.rewind compiled) (c : Cursor σ) :
    (c.add given compile stage).rewind = c.rewind.add given compile stage := by
  unfold add
  split
  · rfl
  · cases compile given with
    | error e => exact rewind_latch c e
    | ok compiled => exact hstage c compiled

/-- A new cursor is as if it were rewound. -/
theorem rewind_make (s : Store σ) (condition : Given Predicate) (projection : Given Transform)
    (idField : Option Text) :
    (make s condition projection idField).rewind = make s condition projection idField := by
  unfold make
  rw [rewind_add fun _ _ => rfl, rewind_add fun _ _ => rfl]
  rfl

/-! ## Requests before rewinding -/

/-- A request builds the query further, or leaves it as it is. -/
theorem request_cases (q : Request σ) :
    (∃ clause, q = .call (.build clause)) ∨ q.clause? = none ∧ KeepsQuery q.run := by
  cases q with
  | items => exact .inr ⟨rfl, keepsQuery_items.map _⟩
  | iterate => exact .inr ⟨rfl, keepsQuery_iterate.map _⟩
  | call asked =>
    cases asked with
    | build clause => exact .inl ⟨clause, rfl⟩
    | next => exact .inr ⟨rfl, keepsQuery_next.map _⟩
    | index => exact .inr ⟨rfl, keepsQuery_index.map _⟩
    | toList => exact .inr ⟨rfl, keepsQuery_toList.map _⟩
    | each callback => exact .inr ⟨rfl, (keepsQuery_each callback).map _⟩
    | count => exact .inr ⟨rfl, keepsQuery_count.map _⟩
    | rewind => exact .inr ⟨rfl, fun _ _ => ⟨rfl, rfl, rfl, rfl⟩⟩
    | change f => exact .inr ⟨rfl, fun c _ => .refl c⟩

/-- Before a cursor is rewound, a request either builds the query further or makes no difference. -/
theorem rewind_run (q : Request σ) (c : Cursor σ) (w : σ) :
    (q.run (c, w)).2.1.rewind = built c.rewind q.clause?.toList := by
  obtain ⟨clause, rfl⟩ | ⟨hclause, hkeeps⟩ := request_cases q
  · exact rewind_addTo clause c
  · rw [hclause]
    exact (hkeeps c w).rewind_eq

/-- A cursor that is rewound after any requests is the one that those building it have built. -/
theorem rewind_serve (requests : List (Request σ)) (c : Cursor σ) (w : σ) :
    (serve requests (c, w)).2.1.rewind =
      built c.rewind (requests.filterMap Request.clause?) := by
  induction requests generalizing c w with
  | nil => rfl
  | cons q qs ih =>
    have hfirst := rewind_run q c w
    have hrest := ih (q.run (c, w)).2.1 (q.run (c, w)).2.2
    rw [hfirst] at hrest
    refine hrest.trans ?_
    cases hclause : q.clause? with
    | none => rw [List.filterMap_cons_none hclause]; rfl
    | some clause => rw [List.filterMap_cons_some hclause]; rfl

/-! ## Handing over that fails -/

/-- Handing over items makes progress and changes nothing else in the cursor. -/
theorem handOver_progress (callback : Value → Action σ Unit) (fuel : Nat) (c : Cursor σ) (w : σ) :
    ∃ p, (handOver callback fuel (c, w)).2.1 = { c with progress := p } := by
  induction fuel generalizing c w with
  | zero => exact ⟨c.progress, rfl⟩
  | succ fuel ih =>
    rw [handOver, Action.bind_apply, pullItem]
    generalize pull c.store c.idField c.chain c.progress w = r
    rcases r with ⟨_ | _ | x, p, w₁⟩
    · exact ⟨p, rfl⟩
    · exact ⟨p, rfl⟩
    · simp only [Action.bind_apply, onStore]
      generalize callback x.document w₁ = r
      rcases r with ⟨_ | _, w₂⟩
      · exact ⟨p, rfl⟩
      · obtain ⟨q, hq⟩ := ih { c with progress := p } w₂
        simp only
        generalize handOver callback fuel ({ c with progress := p }, w₂) = r at hq
        rcases r with ⟨_ | _, c', w₃⟩
        · exact ⟨q, hq⟩
        · exact ⟨q, hq⟩

/-- Where no result is kept, a cursor whose handing over has failed differs from the rewound one at
most in the identifiers that it keeps, or an error waits in it. -/
theorem each_error {callback : Value → Action σ Unit} {c c' : Cursor σ} {w w' : σ} {e : Failure}
    (hresults : c.results = none) (h : each callback (c, w) = (.error e, c', w')) :
    c' = { c.rewind with identifiers := c.identifiers } ∨
      c' = c ∧ ∃ waiting, c.waiting = some waiting := by
  cases hwaiting : c.waiting with
  | some waiting =>
    have hrun : each callback (c, w) = (.error (.query waiting), c, w) :=
      check_bind_waiting hwaiting _
    rw [hrun] at h
    cases h
    exact .inr ⟨rfl, waiting, rfl⟩
  | none =>
    rw [each_apply hwaiting hresults] at h
    obtain ⟨p, hp⟩ := handOver_progress callback
      (Progress.remaining c.store c.chain c.progress w + 1) c w
    generalize handOver callback (Progress.remaining c.store c.chain c.progress w + 1) (c, w) = r
      at h hp
    rcases r with ⟨_ | _, c₁, w₁⟩
    · simp only at hp
      subst hp
      cases h
      obtain ⟨s, idField, chain, progress, waiting, identifiers, results⟩ := c
      simp only at hresults
      subst hresults
      exact .inl rfl
    · cases h

theorem toList_waiting {c : Cursor σ} {w : σ} {e : QueryError} (hc : c.waiting = some e) :
    toList (c, w) = (.error (.query e), c, w) := by
  have hitems : items (c, w) = (.error (.query e), c, w) := check_bind_waiting hc _
  rw [toList, Action.bind_apply, hitems]

/-- Where nothing is kept and no error waits, taking all results drains the chain. -/
theorem toList_apply {c : Cursor σ} (hc : c.waiting = none) (hr : c.results = none) (w : σ) :
    (toList (c, w)).1 =
        (drain c.store c.idField c.chain c.progress w).1.map (List.map Item.document) ∧
      (toList (c, w)).2.2 = (drain c.store c.idField c.chain c.progress w).2.2 := by
  rw [toList, Action.bind_apply, items_apply hc hr]
  generalize drain c.store c.idField c.chain c.progress w = r
  rcases r with ⟨_ | _, p, w'⟩
  · exact ⟨rfl, rfl⟩
  · exact ⟨rfl, rfl⟩

/-- Which identifiers are kept makes no difference to taking all results. -/
theorem toList_identifiers (c : Cursor σ) (ids : Option (List Text)) (w : σ) :
    (toList ({ c.rewind with identifiers := ids }, w)).1 = (toList (c.rewind, w)).1 ∧
      (toList ({ c.rewind with identifiers := ids }, w)).2.2 = (toList (c.rewind, w)).2.2 := by
  cases hwaiting : c.waiting with
  | some e =>
    rw [toList_waiting (c := { c.rewind with identifiers := ids }) hwaiting,
      toList_waiting (c := c.rewind) hwaiting]
    exact ⟨rfl, rfl⟩
  | none =>
    obtain ⟨hresult, hstate⟩ := toList_apply (c := c.rewind) hwaiting rfl w
    rw [hresult, hstate]
    exact toList_apply (c := { c.rewind with identifiers := ids }) hwaiting rfl w

/-! ## Like a new cursor -/

/-- Whatever a cursor was asked for, over a store that may fail and change at any time, once it is
rewound it does what a cursor does that was built by the same clauses and asked for nothing yet: all
later requests have the same results and lead to the same states, which may hold a record of what the
store is asked for. Where no result is kept and handing over has failed, taking all results gives and
does what it does for that new cursor, too. -/
theorem rewind_like_new (s : Store σ) (condition : Given Predicate) (projection : Given Transform)
    (idField : Option Text) {before : List (Request σ)} {w₀ w : σ} {c : Cursor σ}
    (hbefore : (serve before (make s condition projection idField, w₀)).2 = (c, w)) :
    let fresh := built (make s condition projection idField) (before.filterMap Request.clause?)
    (∀ after, serve after (c.rewind, w) = serve after (fresh, w)) ∧
    ∀ callback e c' w₁, c.results = none → each callback (c, w) = (.error e, c', w₁) →
      ∀ w₂, (toList (c', w₂)).1 = (toList (fresh, w₂)).1 ∧
        (toList (c', w₂)).2.2 = (toList (fresh, w₂)).2.2 := by
  intro fresh
  have hfresh : c.rewind = fresh := by
    have hserve := rewind_serve before (make s condition projection idField) w₀
    rwa [hbefore, rewind_make] at hserve
  rw [← hfresh]
  refine ⟨fun after => rfl, fun callback e c' w₁ hresults hfails w₂ => ?_⟩
  obtain rfl | ⟨rfl, waiting, hwaiting⟩ := each_error hresults hfails
  · exact toList_identifiers c c.identifiers w₂
  · rw [toList_waiting hwaiting, toList_waiting (c := c'.rewind) hwaiting]
    exact ⟨rfl, rfl⟩

/-! ## Lamps that are watched -/

/-- A memory with a record of what it is asked for, in which one document cannot be read. -/
def watched : Store (Memory × List Cabinet.Call) :=
  (Memory.store.focus Prod.fst fun m w => (m, w.2)).traced
    ⟨fun call w => (w.1, w.2 ++ [call]), fun _ => 0, id⟩ ⟨["b".toText], none⟩

def watchedLamps : Cursor (Memory × List Cabinet.Call) := make watched .nothing .nothing none

/-- One lamp is taken, taking the others fails on the next one, and only one is to come from now on. -/
def troubles : List (Request (Memory × List Cabinet.Call)) :=
  [.call .next, .call .toList, .call (.build (.limit (.int 1)))]

/-- A callback that fails. -/
def refuse {α : Type} (_ : Value) : Action α Unit := throw (.callback "stop".toText)

theorem rewind_like_new_lamps :
    ∃ c w, (serve troubles (watchedLamps, lamps, [])).2 = (c, w) ∧
      w.2 = [⟨.index, none⟩, ⟨.read, some "a".toText⟩, ⟨.read, some "b".toText⟩] ∧
      serve [.call .count, .call .toList] (c.rewind, w) =
        serve [.call .count, .call .toList] (built watchedLamps [.limit (.int 1)], w) ∧
      ∃ e c' w₁, c.results = none ∧ each refuse (c, w) = (.error e, c', w₁) ∧
        (toList (c', w₁)).1 = (toList (built watchedLamps [.limit (.int 1)], w₁)).1 ∧
        (toList (c', w₁)).2.2.2 = w.2 ++ [⟨.read, some "c".toText⟩, ⟨.index, none⟩,
          ⟨.read, some "a".toText⟩] := by
  obtain ⟨⟨c, w⟩, hbefore⟩ : ∃ x, (serve troubles (watchedLamps, lamps, [])).2 = x := ⟨_, rfl⟩
  have hrecord : w.2 = [⟨.index, none⟩, ⟨.read, some "a".toText⟩, ⟨.read, some "b".toText⟩] :=
    (congrArg (fun x => x.2.2) hbefore).symm.trans (by cbv)
  have hresults : c.results = none := (congrArg (fun x => x.1.results) hbefore).symm.trans (by cbv)
  have hfails : (each refuse (c, w)).1 = .error (.callback "stop".toText) := by
    rw [← hbefore]
    cbv
  obtain ⟨hlike, hafter⟩ := rewind_like_new watched .nothing .nothing none hbefore
  obtain ⟨⟨c', w₁⟩, hleft⟩ : ∃ x, (each refuse (c, w)).2 = x := ⟨_, rfl⟩
  have heach : each refuse (c, w) = (.error (.callback "stop".toText), c', w₁) :=
    Prod.ext hfails hleft
  obtain ⟨hresult, hcalls⟩ := hafter refuse _ c' w₁ hresults heach w₁
  refine ⟨c, w, hbefore, hrecord, hlike _, _, c', w₁, hresults, heach, hresult, ?_⟩
  have hw₁ : w₁ = (each refuse (serve troubles (watchedLamps, lamps, [])).2).2.2 := by
    rw [hbefore, hleft]
  rw [hcalls, hrecord, hw₁]
  cbv

end Cursor

end Cabinet
