import Cabinet.Proofs.Store.Ensures
import Cabinet.Proofs.Store.Method

/-!
# Actions that do not see a difference

Two states may differ in something that an action does not look at.

* `Action.Blind` : an action that gives the same in any two states that are related, and leads to related
  ones, whether it fails or not;
* `Blind.bind`, `Blind.bind_good`, `Blind.get_bind`, `Blind.map`, `Blind.tryCatch`, `Blind.focus` : so do
  actions that are built from such actions;
* `Store.Hides` : a store none of whose calls sees the difference, and that lets no document be read.
-/

namespace Cabinet

variable {σ τ α β : Type}

namespace Action

/-- In two states that are related the action gives the same, and leads to two that are related. -/
def Blind (R : σ → σ → Prop) (a : Action σ α) : Prop :=
  ∀ w v, R w v → (a w).1 = (a v).1 ∧ R (a w).2 (a v).2

variable {R : σ → σ → Prop} {a : Action σ α}

theorem blind_ofExcept (r : Except Failure α) : Blind R (ofExcept r : Action σ α) :=
  fun _ _ h => ⟨rfl, h⟩

theorem blind_pure (x : α) : Blind R (pure x : Action σ α) := fun _ _ h => ⟨rfl, h⟩

theorem blind_throw (e : Failure) : Blind R (throw e : Action σ α) := fun _ _ h => ⟨rfl, h⟩

/-- Both runs end in the same way. -/
theorem Blind.cases (ha : Blind R a) {w v : σ} (h : R w v) :
    ∃ r w' v', a w = (r, w') ∧ a v = (r, v') ∧ R w' v' := by
  obtain ⟨hresult, hstate⟩ := ha w v h
  exact ⟨(a w).1, (a w).2, (a v).2, rfl, Prod.ext hresult.symm rfl, hstate⟩

theorem Blind.map (ha : Blind R a) (f : α → β) : Blind R (f <$> a) := by
  intro w v h
  obtain ⟨hresult, hstate⟩ := ha w v h
  rw [map_apply, map_apply]
  exact ⟨congrArg (Except.map f) hresult, hstate⟩

/-- What follows an action only has to be blind to a difference after results that the action gives. -/
theorem Blind.bind_good {states : σ → Prop} {good : α → Prop} {f : α → Action σ β} (ha : Blind R a)
    (hstates : ∀ w v, R w v → states w) (hgood : Ensures states a good)
    (hf : ∀ x, good x → Blind R (f x)) : Blind R (a >>= f) := by
  intro w v h
  obtain ⟨r, w', v', hw, hv, h'⟩ := ha.cases h
  have hresult := (hgood w (hstates w v h)).2
  rw [bind_apply, bind_apply, hw, hv]
  cases r with
  | error e => exact ⟨rfl, h'⟩
  | ok x => exact hf x (hresult x (congrArg Prod.fst hw)) w' v' h'

theorem Blind.bind {f : α → Action σ β} (ha : Blind R a) (hf : ∀ x, Blind R (f x)) :
    Blind R (a >>= f) := by
  have hall : Ensures (fun _ : σ => True) a fun _ => True := ensures_of_state fun _ _ => trivial
  exact ha.bind_good (fun _ _ _ => trivial) hall fun x _ => hf x

/-- What depends on the state has to depend on what related states have in common. -/
theorem Blind.get_bind {f : σ → Action σ β} (hsame : ∀ w v, R w v → f w = f v)
    (hf : ∀ w v, R w v → Blind R (f w)) : Blind R (get >>= f) := by
  intro w v h
  rw [bind_apply, bind_apply, get_apply, get_apply]
  simp only
  rw [← hsame w v h]
  exact hf w v h w v h

theorem Blind.tryCatch {f : Failure → Action σ α} (ha : Blind R a) (hf : ∀ e, Blind R (f e)) :
    Blind R (tryCatch a f) := by
  intro w v h
  obtain ⟨r, w', v', hw, hv, h'⟩ := ha.cases h
  rw [tryCatch_apply, tryCatch_apply, hw, hv]
  cases r with
  | error e => exact hf e w' v' h'
  | ok x => exact ⟨rfl, h'⟩

/-- An action on a part of a state does not see what it does not see in the part, and leaves the rest
as it is. -/
theorem Blind.focus {T : τ → τ → Prop} {get : τ → σ} {put : σ → τ → τ} (ha : Blind R a)
    (hget : ∀ t u, T t u → R (get t) (get u))
    (hput : ∀ t u w v, T t u → R w v → T (put w t) (put v u)) : Blind T (a.focus get put) := by
  intro t u h
  obtain ⟨r, w, v, hw, hv, h'⟩ := ha.cases (hget t u h)
  rw [Action.focus, Action.focus, hw, hv]
  exact ⟨rfl, hput t u w v h h'⟩

end Action

open Cabinet.Action

/-- None of the store's calls sees a difference between related states, and no document can be read. -/
structure Store.Hides (s : Store σ) (R : σ → σ → Prop) : Prop where
  index : Blind R s.index
  read : ∀ id, Blind R (s.read id)
  exist : ∀ id, Blind R (s.exist id)
  write : ∀ id v, Blind R (s.write id v)
  erase : ∀ id, Blind R (s.erase id)
  unread : ∀ id w d, (s.read id w).1 ≠ .ok d

end Cabinet
