import Cabinet.Proofs.Store.Ensures

/-!
# Runs that give something or stop

What is left behind by an operation may be of one kind where it gives something and of another where it
stops.

* `Ended` : what a run came to;
* `Runs` : what all runs of an operation from some states come to;
* `Runs.mono`, `Runs.stopping`, `Runs.and`, `Runs.bind`, `runs_pure`, `runs_ofExcept` : how operations are
  put together;
* `Runs.focus` : an operation on a part of a state runs as it does by itself;
* `Ensures.runs` : an action that stays within some states.
-/

namespace Cabinet

variable {σ τ α β ε : Type}

/-- What a run came to: it gave something and led to a state in which `post` holds, or it stopped in one in
which `stop` holds. -/
inductive Ended (post : α → σ → Prop) (stop : ε → σ → Prop) : Except ε α × σ → Prop where
  | ok {x : α} {w : σ} (h : post x w) : Ended post stop (.ok x, w)
  | error {e : ε} {w : σ} (h : stop e w) : Ended post stop (.error e, w)

/-- What all runs from some states come to. -/
def Runs (pre : σ → Prop) (a : ExceptT ε (StateM σ) α) (post : α → σ → Prop)
    (stop : ε → σ → Prop) : Prop :=
  ∀ w, pre w → Ended post stop (a w)

section
variable {pre pre' : σ → Prop} {post post' : α → σ → Prop} {stop stop' : ε → σ → Prop}
  {a : ExceptT ε (StateM σ) α}

theorem Ended.of_ok {r : Except ε α × σ} (h : Ended post stop r) {x : α} {w : σ} (hr : r = (.ok x, w)) :
    post x w := by
  subst hr
  cases h with
  | ok h => exact h

theorem Ended.of_error {r : Except ε α × σ} (h : Ended post stop r) {e : ε} {w : σ}
    (hr : r = (.error e, w)) : stop e w := by
  subst hr
  cases h with
  | error h => exact h

theorem Ended.mono {r : Except ε α × σ} (h : Ended post stop r) (hpost : ∀ x w, post x w → post' x w)
    (hstop : ∀ e w, stop e w → stop' e w) : Ended post' stop' r := by
  cases h with
  | ok h => exact .ok (hpost _ _ h)
  | error h => exact .error (hstop _ _ h)

theorem Runs.mono (ha : Runs pre a post stop) (hpost : ∀ x w, post x w → post' x w)
    (hstop : ∀ e w, stop e w → stop' e w) : Runs pre a post' stop' :=
  fun w hw => (ha w hw).mono hpost hstop

/-- Less may be said of where an operation stops. -/
theorem Runs.stopping (ha : Runs pre a post stop) (hstop : ∀ e w, stop e w → stop' e w) :
    Runs pre a post stop' :=
  ha.mono (fun _ _ h => h) hstop

/-- From fewer states an operation runs as well. -/
theorem Runs.weaken (ha : Runs pre a post stop) (h : ∀ w, pre' w → pre w) : Runs pre' a post stop :=
  fun w hw => ha w (h w hw)

/-- What is known of an operation in two ways is known of it together. -/
theorem Runs.and (ha : Runs pre a post stop) (ha' : Runs pre a post' stop') :
    Runs pre a (fun x w => post x w ∧ post' x w) fun e w => stop e w ∧ stop' e w := by
  intro w hw
  have hend := ha w hw
  have hend' := ha' w hw
  generalize a w = r at hend hend' ⊢
  cases hend with
  | ok h => exact .ok ⟨h, hend'.of_ok rfl⟩
  | error h => exact .error ⟨h, hend'.of_error rfl⟩

/-- What does not depend on the state may be told before the run. -/
theorem runs_and {p : Prop} (ha : p → Runs pre a post stop) :
    Runs (fun w => p ∧ pre w) a post stop :=
  fun w hw => ha hw.1 w hw.2

theorem Runs.bind {mid : β → σ → Prop} {b : ExceptT ε (StateM σ) β} {f : β → ExceptT ε (StateM σ) α}
    (hb : Runs pre b mid stop) (hf : ∀ y, Runs (mid y) (f y) post stop) :
    Runs pre (b >>= f) post stop := by
  intro w hw
  have hend := hb w hw
  rw [Action.bind_apply]
  generalize b w = r at hend ⊢
  cases hend with
  | ok h => exact hf _ _ h
  | error h => exact .error h

theorem runs_pure {x : α} (h : ∀ w, pre w → post x w) :
    Runs pre (pure x : ExceptT ε (StateM σ) α) post stop :=
  fun w hw => .ok (h w hw)

theorem runs_throw {e : ε} (h : ∀ w, pre w → stop e w) :
    Runs pre (throw e : ExceptT ε (StateM σ) α) post stop :=
  fun w hw => .error (h w hw)

/-- An operation on a part of a state runs as it does by itself, and only that part may be another. -/
theorem Runs.focus {a : Action σ α} {stop : Failure → σ → Prop} (ha : Runs pre a post stop) {get : τ → σ}
    {put : σ → τ → τ} {t : τ} (ht : pre (get t)) :
    Runs (· = t) (a.focus get put) (fun x t' => ∃ w, post x w ∧ put w t = t')
      fun e t' => ∃ w, stop e w ∧ put w t = t' := by
  rintro t rfl
  have hend := ha (get t) ht
  rw [Action.focus]
  generalize a (get t) = r at hend ⊢
  cases hend with
  | ok h => exact .ok ⟨_, h, rfl⟩
  | error h => exact .error ⟨_, h, rfl⟩

namespace Action
variable {a : Action σ α} {good : α → Prop}

theorem runs_ofExcept {stop : Failure → σ → Prop} {r : Except Failure α}
    (hok : ∀ x w, pre w → r = .ok x → post x w) (herror : ∀ e w, pre w → r = .error e → stop e w) :
    Runs pre (ofExcept r : Action σ α) post stop := by
  intro w hw
  rw [ofExcept_apply]
  cases r with
  | ok x => exact .ok (hok x w hw rfl)
  | error e => exact .error (herror e w hw rfl)

/-- An action that stays within some states does so whether it gives something or stops. -/
theorem Ensures.runs (ha : Ensures pre a good) :
    Runs pre a (fun x w => good x ∧ pre w) fun _ => pre := by
  intro w hw
  obtain ⟨hstate, hgood⟩ := ha w hw
  generalize a w = r at hstate hgood ⊢
  rcases r with ⟨e | x, w'⟩
  · exact .error hstate
  · exact .ok ⟨hgood x rfl, hstate⟩

end Action

end

end Cabinet
