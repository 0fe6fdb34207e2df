import Cabinet.Proofs.Cursor.Results

/-!
# What waits in a cursor

What does not compile is not refused where it is given: its error waits in the cursor, unless one that
came earlier does.

* `errorOf?`, `Clause.error?` : the error of what does not compile, and of a clause;
* `waiting_new`, `waiting_make` : what waits in a new cursor;
* `waiting_built`, `waiting_sort` : what waits after a clause.
-/

namespace Cabinet

variable {σ α β : Type}

namespace Cursor

/-- The error of what does not compile. -/
def errorOf? : Except QueryError α → Option QueryError
  | .ok _ => none
  | .error e => some e

/-- The error of a clause. A number of results that is none is refused at once and does not wait. -/
def Clause.error? : Clause → Option QueryError
  | .sort order => errorOf? (SortOrder.compile order)
  | .offset _ | .limit _ => none

theorem waiting_latch (c : Cursor σ) (e : QueryError) : (c.latch e).waiting = c.waiting.or (some e) := by
  unfold latch
  cases h : c.waiting with
  | none => rfl
  | some e' => exact h

/-! ## New cursors -/

theorem waiting_add {given : Given α} {compile : Given α → Except QueryError β}
    {stage : Cursor σ → β → Cursor σ} (hnothing : errorOf? (compile .nothing) = none)
    (hstage : ∀ c compiled, (stage c compiled).waiting = c.waiting) (c : Cursor σ) :
    (c.add given compile stage).waiting = c.waiting.or (errorOf? (compile given)) := by
  unfold add
  split
  · next hgiven => rw [eq_nothing hgiven, hnothing, Option.or_none]
  · cases compile given with
    | error e => exact waiting_latch c e
    | ok compiled => exact (hstage c compiled).trans Option.or_none.symm

/-- In a new cursor the error of the condition waits, or else that of the projection. -/
theorem waiting_new (s : Store σ) (condition : Given Predicate) (projection : Given Transform)
    (idField : Option Text) : (make s condition projection idField).waiting =
      (errorOf? (Condition.compile condition)).or (errorOf? (Projection.compile projection)) := by
  have hcondition : ∀ c : Cursor σ, (c.add condition Condition.compile addCondition).waiting =
      c.waiting.or (errorOf? (Condition.compile condition)) := waiting_add rfl fun _ _ => rfl
  have hprojection : ∀ c : Cursor σ, (c.add projection Projection.compile addProjection).waiting =
      c.waiting.or (errorOf? (Projection.compile projection)) := waiting_add rfl fun _ _ => rfl
  unfold make
  exact (hprojection _).trans (congrArg (Option.or · _) (hcondition _))

/-- A condition that does not compile waits as an error. -/
theorem waiting_make {s : Store σ} {condition : Given Predicate} {idField : Option Text} {e : QueryError}
    (h : Condition.compile condition = .error e) :
    (make s condition .nothing idField).waiting = some e := by
  rw [waiting_new, h]
  rfl

/-! ## Clauses -/

theorem waiting_built (clause : Clause) (c : Cursor σ) :
    ((clause.addTo c).toOption.getD c).waiting = c.waiting.or clause.error? := by
  cases clause with
  | sort order =>
    simp only [Clause.addTo, Clause.error?, sort, Except.toOption, Option.getD_some]
    cases SortOrder.compile order with
    | error e => exact waiting_latch c e
    | ok compare => exact Option.or_none.symm
  | offset count =>
    simp only [Clause.addTo, offset, Clause.error?, Option.or_none]
    cases count.toInteger <;> rfl
  | limit count =>
    simp only [Clause.addTo, limit, Clause.error?, Option.or_none]
    cases count.toInteger <;> rfl

/-- An error that waits goes on waiting. -/
theorem waiting_sort {c : Cursor σ} {e : QueryError} (h : c.waiting = some e) (order : Given Comparator) :
    (c.sort order).waiting = some e :=
  (waiting_built (.sort order) c).trans (congrArg (Option.or · _) h)

end Cursor

end Cabinet
