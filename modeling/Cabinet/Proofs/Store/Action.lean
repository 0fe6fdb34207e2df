import Mathlib
import Cabinet.Store.Basic

/-!
# Running actions

The result of an action built from others, as the results of those: `Action.bind_apply` for one
after another, `Action.map_apply` for one whose result is changed, `Action.tryCatch_apply` for one
that takes care of another's failure. Where a result
was made of another and is no failure, `ok_of_map`, `ok_of_mapError` and `ok_of_bind` give the other.
What an action on a part of a state does to the part is told by `focus_run`.
A run that is written out as a failure is one by `failed_of_eq`.
-/

namespace Cabinet

variable {σ α β ε ε' : Type}

theorem ok_of_isSome {r : Except ε α} (h : r.toOption.isSome = true) :
    ∃ a, r = .ok a := by
  cases r with
  | ok a => exact ⟨a, rfl⟩
  | error e => cases h

theorem ok_of_map {f : α → β} {r : Except ε α} {y : β} (h : r.map f = .ok y) :
    ∃ x, r = .ok x ∧ f x = y := by
  cases r with
  | error e => cases h
  | ok x => exact ⟨x, rfl, Except.ok.inj h⟩

theorem ok_of_mapError {f : ε → ε'} {r : Except ε α} {x : α} (h : r.mapError f = .ok x) :
    r = .ok x := by
  cases r with
  | error e => cases h
  | ok y => exact congrArg _ (Except.ok.inj h)

theorem ok_of_bind {f : α → Except ε β} {r : Except ε α} {y : β} (h : (r >>= f) = .ok y) :
    ∃ x, r = .ok x ∧ f x = .ok y := by
  cases r with
  | error e => cases h
  | ok x => exact ⟨x, rfl, h⟩

/-- A run that is a failure in a state has failed and has led to that state. -/
theorem failed_of_eq {r : Except ε α} {e : ε} {w w' : σ} (h : (.error e, w) = (r, w')) :
    ∃ e, r = .error e ∧ w' = w := by
  obtain ⟨rfl, rfl⟩ := Prod.mk.inj h
  exact ⟨e, rfl, rfl⟩

namespace Action

theorem bind_apply (a : ExceptT ε (StateM σ) α) (f : α → ExceptT ε (StateM σ) β) (w : σ) :
    (a >>= f) w = match a w with
      | (.ok x, w) => f x w
      | (.error e, w) => (.error e, w) := by
  simp only [bind, ExceptT.bind, ExceptT.mk, StateT.bind]
  generalize a w = r
  rcases r with ⟨_ | _, w⟩ <;> rfl

theorem tryCatch_apply (a : ExceptT ε (StateM σ) α) (f : ε → ExceptT ε (StateM σ) α) (w : σ) :
    (tryCatch a f) w = match a w with
      | (.ok x, w) => (.ok x, w)
      | (.error e, w) => f e w := by
  simp only [tryCatch, tryCatchThe, MonadExceptOf.tryCatch, ExceptT.tryCatch, ExceptT.mk,
    StateT.bind, bind]
  generalize a w = r
  rcases r with ⟨_ | _, w⟩ <;> rfl

theorem map_apply (f : α → β) (a : Action σ α) (w : σ) :
    (f <$> a) w = ((a w).1.map f, (a w).2) := by
  simp only [Functor.map, ExceptT.map, ExceptT.mk, bind, StateT.bind]
  generalize a w = r
  rcases r with ⟨_ | _, w⟩ <;> rfl

theorem pure_apply (x : α) (w : σ) : (pure x : Action σ α) w = (.ok x, w) := rfl

theorem get_apply (w : σ) : (get : Action σ σ) w = (.ok w, w) := rfl

theorem modify_apply (f : σ → σ) (w : σ) : (modify f : Action σ PUnit) w = (.ok ⟨⟩, f w) := rfl

theorem ofExcept_apply (r : Except Failure α) (w : σ) : (ofExcept r : Action σ α) w = (r, w) := rfl

end Action

/-- An operation on a part does to the part what it does by itself. -/
theorem focus_run {τ : Type} {get : τ → σ} {put : σ → τ → τ} (hget : ∀ w t, get (put w t) = w)
    {a : Action σ α} {t t' : τ} {r : Except Failure α} (h : a.focus get put t = (r, t')) :
    a (get t) = (r, get t') := by
  rcases ha : a (get t) with ⟨r', w⟩
  rw [Action.focus, ha] at h
  obtain ⟨rfl, rfl⟩ := Prod.mk.inj h
  rw [hget]

end Cabinet
