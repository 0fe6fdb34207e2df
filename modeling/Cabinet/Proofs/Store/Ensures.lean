import Cabinet.Proofs.Store.Action

/-!
# What actions ensure

* `Action.Ensures` : an action that stays within some states, also where it fails, and whose result has
  a property;
* `Ensures.bind`, `Ensures.map`, `Ensures.tryCatch`, `Ensures.forM`, `Ensures.focus` : so do actions that
  are built from such actions;
* `Store.Upholds` : a store all of whose calls stay within some states, as long as what is written has a
  property.
-/

namespace Cabinet

variable {σ τ α β : Type}

namespace Action

/-- From one of the states the action leads to one of them, whether it fails or not, and what it gives is
good. -/
def Ensures (states : σ → Prop) (a : Action σ α) (good : α → Prop) : Prop :=
  ∀ w, states w → states (a w).2 ∧ ∀ x, (a w).1 = .ok x → good x

/-- A failure gives nothing that could be bad. -/
theorem good_of_failed {good : α → Prop} {e : Failure} :
    ∀ x, (.error e : Except Failure α) = .ok x → good x :=
  fun _ h => nomatch h

section
variable {states : σ → Prop} {good good' : α → Prop} {better : β → Prop} {a : Action σ α}

theorem ensures_of_state (h : ∀ w, states w → states (a w).2) : Ensures states a fun _ => True :=
  fun w hw => ⟨h w hw, fun _ _ => trivial⟩

theorem Ensures.mono (ha : Ensures states a good) (h : ∀ x, good x → good' x) :
    Ensures states a good' :=
  fun w hw => ⟨(ha w hw).1, fun x hx => h x ((ha w hw).2 x hx)⟩

theorem ensures_pure {x : α} (hx : good x) : Ensures states (pure x : Action σ α) good :=
  fun _ hw => ⟨hw, fun _ hy => Except.ok.inj hy ▸ hx⟩

theorem ensures_ofExcept {r : Except Failure α} (hr : ∀ x, r = .ok x → good x) :
    Ensures states (ofExcept r : Action σ α) good :=
  fun _ hw => ⟨hw, hr⟩

theorem ensures_throw (e : Failure) : Ensures states (throw e : Action σ α) good :=
  fun _ hw => ⟨hw, good_of_failed⟩

theorem Ensures.bind {f : α → Action σ β} (ha : Ensures states a good)
    (hf : ∀ x, good x → Ensures states (f x) better) : Ensures states (a >>= f) better := by
  intro w hw
  obtain ⟨hstate, hresult⟩ := ha w hw
  rw [bind_apply]
  generalize a w = r at hstate hresult
  rcases r with ⟨e | x, w'⟩
  · exact ⟨hstate, good_of_failed⟩
  · exact hf x (hresult x rfl) w' hstate

theorem Ensures.map {f : α → β} (ha : Ensures states a fun x => better (f x)) :
    Ensures states (f <$> a) better := by
  intro w hw
  obtain ⟨hstate, hresult⟩ := ha w hw
  rw [map_apply]
  refine ⟨hstate, fun y hy => ?_⟩
  obtain ⟨x, hx, rfl⟩ := ok_of_map hy
  exact hresult x hx

theorem Ensures.tryCatch {f : Failure → Action σ α} (ha : Ensures states a good)
    (hf : ∀ e, Ensures states (f e) good) : Ensures states (tryCatch a f) good := by
  intro w hw
  obtain ⟨hstate, hresult⟩ := ha w hw
  rw [tryCatch_apply]
  generalize a w = r at hstate hresult
  rcases r with ⟨e | x, w'⟩
  · exact hf e w' hstate
  · exact ⟨hstate, hresult⟩

theorem Ensures.forM {f : α → Action σ Unit} {xs : List α}
    (hf : ∀ x ∈ xs, Ensures states (f x) fun _ => True) :
    Ensures states (xs.forM f) fun _ => True := by
  induction xs with
  | nil => exact ensures_pure trivial
  | cons x xs ih =>
    obtain ⟨hx, hxs⟩ := List.forall_mem_cons.mp hf
    exact hx.bind fun _ _ => ih hxs

/-- An action on a part of a state stays within the states whose part it stays within. -/
theorem Ensures.focus {get : τ → σ} {put : σ → τ → τ} (ha : Ensures states a good)
    (hget : ∀ w t, get (put w t) = w) :
    Ensures (fun t => states (get t)) (a.focus get put) good := by
  intro t ht
  obtain ⟨hstate, hresult⟩ := ha (get t) ht
  refine ⟨?_, hresult⟩
  change states (get (put (a (get t)).2 t))
  rw [hget]
  exact hstate

end

end Action

/-- Whatever the store is asked for, it stays within some states, as long as what is written is good. -/
structure Store.Upholds (s : Store σ) (states : σ → Prop) (good : Value → Prop) : Prop where
  index : Action.Ensures states s.index fun _ => True
  read : ∀ id, Action.Ensures states (s.read id) fun _ => True
  exist : ∀ id, Action.Ensures states (s.exist id) fun _ => True
  write : ∀ id v, good v → Action.Ensures states (s.write id v) fun _ => True
  erase : ∀ id, Action.Ensures states (s.erase id) fun _ => True

/-- A store over a part of a state stays within the states whose part it stays within. -/
theorem Store.Upholds.focus {s : Store σ} {states : σ → Prop} {good : Value → Prop}
    (hs : s.Upholds states good) {get : τ → σ} {put : σ → τ → τ} (hget : ∀ w t, get (put w t) = w) :
    (s.focus get put).Upholds (fun t => states (get t)) good where
  index := hs.index.focus hget
  read id := (hs.read id).focus hget
  exist id := (hs.exist id).focus hget
  write id v hv := (hs.write id v hv).focus hget
  erase id := (hs.erase id).focus hget

end Cabinet
