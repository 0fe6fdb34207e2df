import Cabinet.Proofs.Collection.Rejecting

/-!
# Where a command stops

* `Halt.IsRejection` : why a command stops that was asked for something that means nothing or is not there;
* `Script.Looks` : a part of a command that leaves the shell within some states, whether it gives something or
  stops;
* `Script.Clean` : a part that leaves the premises of stores as they were where it is rejected;
* `Script.Accepted` : a part that is never rejected;
* `Looks.bind_clean`, `Clean.bind` : how a command is made of such parts: it looks, then it changes something,
  and after that it is not rejected any more;
* `Command.openPlace_runs`, `Command.openPlace_looks` : what opening a store comes to.
-/

namespace Cabinet

/-- The command line is wrong, or what it asks for means nothing or is not there. -/
def Halt.IsRejection : Halt → Prop
  | .usage _ => True
  | .failure e => e.IsRejection
  | .exit code => code = 2
  | .endOfInput => False

namespace Script

variable {α β : Type}

/-- The premises of the shell are these. -/
abbrev Has (p : Premises) (sh : Shell) : Prop := sh.premises = p

/-! ## Parts that look -/

/-- What is printed makes no difference to whether a shell is in one of the states. -/
def Unprinted (states : Shell → Prop) : Prop :=
  ∀ sh t, states sh → states { sh with output := t }

/-- From one of the states the part leads to one of them, whether it stops or not, and what it gives is good. -/
def Looks (states : Shell → Prop) (a : Script α) (good : α → Prop) : Prop :=
  Runs states a (fun x sh => good x ∧ states sh) fun _ => states

section
variable {states : Shell → Prop} {good : α → Prop} {better : β → Prop}

theorem Looks.bind {a : Script α} {f : α → Script β} (ha : Looks states a good)
    (hf : ∀ x, good x → Looks states (f x) better) : Looks states (a >>= f) better :=
  Runs.bind ha fun x => runs_and (hf x)

theorem looks_pure {x : α} (hx : good x) : Looks states (pure x) good := runs_pure fun _ h => ⟨hx, h⟩

theorem looks_throw (h : Halt) : Looks states (throw h : Script α) good := runs_throw fun _ h => h

theorem looks_ofUsage {r : Except Usage α} (hr : ∀ x, r = .ok x → good x) :
    Looks states (ofUsage r) good := by
  intro sh hsh
  cases r with
  | error u => exact .error hsh
  | ok x => exact .ok ⟨hr x rfl, hsh⟩

theorem looks_ofExcept {r : Except Failure α} (hr : ∀ x, r = .ok x → good x) :
    Looks states (ofExcept r) good := by
  intro sh hsh
  cases r with
  | error e => exact .error hsh
  | ok x => exact .ok ⟨hr x rfl, hsh⟩

theorem runs_onPremises {a : Action Premises α} {pre : Premises → Prop} {post : α → Premises → Prop}
    {stop : Failure → Premises → Prop} (ha : Runs pre a post stop) :
    Runs (fun sh => pre sh.premises) (onPremises a) (fun x sh => post x sh.premises)
      fun h sh => ∃ e, h = .failure e ∧ stop e sh.premises := by
  intro sh hsh
  have hend := ha sh.premises hsh
  rw [onPremises]
  generalize a sh.premises = r at hend ⊢
  cases hend with
  | ok h => exact .ok h
  | error h => exact .error ⟨_, rfl, h⟩

theorem looks_onPremises {p : Premises} {a : Action Premises α}
    (ha : Runs (· = p) a (fun x p' => good x ∧ p' = p) fun _ p' => p' = p) :
    Looks (Has p) (onPremises a) good :=
  (runs_onPremises ha).stopping fun _ _ ⟨_, _, h⟩ => h

/-- Reading the configuration changes nothing. -/
theorem looks_load : Looks states (onPremises Config.load) fun _ => True := by
  intro sh hsh
  have hsame := Command.load_premises sh.premises
  rw [onPremises]
  generalize Config.load sh.premises = r at hsame ⊢
  obtain ⟨r, p⟩ := r
  obtain rfl : p = sh.premises := hsame
  cases r with
  | error e => exact .error hsh
  | ok config => exact .ok ⟨trivial, hsh⟩

/-- A line is printed, or there are no bytes for it, and that is no rejection. -/
theorem printLine_runs (hstates : Unprinted states) (t : Text) :
    Runs states (printLine t) (fun _ => states) fun h sh => ¬ h.IsRejection ∧ states sh := by
  intro sh hsh
  rw [printLine]
  cases hbytes : (t ++ "\n".toText).toUtf8 with
  | ok bytes =>
    exact .ok (hstates sh _ hsh)
  | error e =>
    exact .error ⟨Failure.not_isRejection rfl, hsh⟩

theorem looks_printLine (hstates : Unprinted states) (t : Text) :
    Looks states (printLine t) fun _ => True :=
  (printLine_runs hstates t).mono (fun _ _ h => ⟨trivial, h⟩) fun _ _ h => h.2

theorem looks_quit (hstates : Unprinted states) (line : Text) (code : Nat) :
    Looks states (quit line code : Script α) good :=
  (looks_printLine hstates _).bind fun _ _ => looks_throw _

theorem looks_forM {f : α → Script Unit} (hf : ∀ x, Looks states (f x) fun _ => True) :
    ∀ xs : List α, Looks states (xs.forM f) fun _ => True
  | [] => looks_pure trivial
  | x :: xs => (hf x).bind fun _ _ => looks_forM hf xs

end

/-! ## Parts that change something -/

/-- Where the part is rejected, the premises are as they were. -/
def Clean (p : Premises) (a : Script α) : Prop :=
  Runs (Has p) a (fun _ _ => True) fun h sh => h.IsRejection → Has p sh

/-- The part is never rejected. -/
def Accepted (a : Script α) : Prop :=
  Runs (fun _ => True) a (fun _ _ => True) fun h _ => ¬ h.IsRejection

section
variable {p : Premises} {good : α → Prop}

theorem unprinted_premises (p : Premises) : Unprinted (Has p) := fun _ _ h => h

theorem Looks.clean {a : Script α} (ha : Looks (Has p) a good) : Clean p a :=
  Runs.mono ha (fun _ _ _ => trivial) fun _ _ h _ => h

theorem Looks.bind_clean {a : Script α} {f : α → Script β} (ha : Looks (Has p) a good)
    (hf : ∀ x, good x → Clean p (f x)) : Clean p (a >>= f) :=
  Runs.bind (Runs.stopping ha fun _ _ h _ => h) fun x => runs_and (hf x)

/-- What is never rejected may come after a change, from whatever states the change was made in. -/
theorem runs_accepted {states : Shell → Prop} {a : Script α} {f : α → Script β}
    (ha : Runs states a (fun _ _ => True) fun h sh => h.IsRejection → Has p sh)
    (hf : ∀ x, Accepted (f x)) :
    Runs states (a >>= f) (fun _ _ => True) fun h sh => h.IsRejection → Has p sh :=
  Runs.bind ha fun x => (hf x).stopping fun _ _ h hrejected => absurd hrejected h

theorem Clean.bind {a : Script α} {f : α → Script β} (ha : Clean p a) (hf : ∀ x, Accepted (f x)) :
    Clean p (a >>= f) :=
  runs_accepted ha hf

theorem Accepted.bind {a : Script α} {f : α → Script β} (ha : Accepted a) (hf : ∀ x, Accepted (f x)) :
    Accepted (a >>= f) :=
  Runs.bind ha hf

theorem clean_onPremises {a : Action Premises α}
    (ha : Runs (· = p) a (fun _ _ => True) fun e p' => e.IsRejection → p' = p) :
    Clean p (onPremises a) := by
  refine (runs_onPremises ha).mono (fun _ _ _ => trivial) ?_
  rintro _ sh ⟨e, rfl, h⟩
  exact h

theorem accepted_printLine (t : Text) : Accepted (printLine t) :=
  (printLine_runs (fun _ _ h => h) t).stopping fun _ _ h => h.1

theorem accepted_ofExcept {r : Except Failure α} (hr : FailsOnly (fun e => ¬ e.IsRejection) r) :
    Accepted (ofExcept r) := by
  intro sh _
  cases r with
  | error e => exact .error (hr e rfl)
  | ok x => exact .ok trivial

end

end Script

/-! ## Opening a store -/

namespace Command

open Script
open Premises (IsOpen)

variable {p : Premises}

theorem folderOf_looks (place : Place) (config : Config) :
    Looks (Has p) (folderOf place config) fun _ => True := by
  have hsay := fun t => looks_printLine (unprinted_premises p) (Screen.shown t)
  have hquit : ∀ line code, Looks (Has p) (quit line code : Script PUnit) fun _ => True :=
    looks_quit (unprinted_premises p)
  unfold folderOf
  split
  · exact looks_pure trivial
  · dsimp only
    split
    · refine (hsay _).bind fun _ _ => (hsay _).bind fun _ _ => (hquit _ 1).bind fun _ _ => ?_
      split
      · exact looks_pure trivial
      · exact looks_throw _
    · split
      · exact looks_pure trivial
      · exact looks_throw _

/-- A backend with a folder writes in one of the formats. -/
theorem format_of_backend {name : Text} {format : Format}
    (h : Backend.ofName? name = some (.folder format)) : format ∈ Format.all := by
  unfold Backend.ofName? at h
  split at h
  · cases h
  · obtain ⟨found, hfound, hfolder⟩ := Option.map_eq_some_iff.mp h
    obtain rfl := Backend.folder.inj hfolder
    exact List.mem_of_find?_eq_some hfound

/-- The store of a command is open once it is opened. This changes nothing unless its folder may be made, and
nothing if it stops. -/
theorem openPlace_runs (place : Place) (create : Bool) (p : Premises) :
    Runs (Has p) (openPlace place create)
      (fun c sh => IsOpen c.store sh.premises ∧ (create = false → Has p sh))
      fun _ => Has p := by
  refine Runs.bind looks_load fun config => runs_and fun _ => ?_
  refine Runs.bind (looks_ofUsage fun _ h => backendOf_ok h) fun backend => runs_and fun hbackend => ?_
  obtain ⟨format, hformat⟩ := hbackend
  refine Runs.bind (folderOf_looks place config) fun folder => runs_and fun _ => ?_
  have hopen := runs_onPremises
    (Premises.openStore_runs (format_of_backend hformat) hformat folder create p)
  exact Runs.bind (hopen.stopping fun _ _ ⟨_, _, h⟩ => h) fun s => runs_pure fun _ h => h

theorem openPlace_looks (place : Place) :
    Looks (Has p) (openPlace place false) fun c => IsOpen c.store p :=
  (openPlace_runs place false p).mono (fun _ _ h => ⟨h.2 rfl ▸ h.1, h.2 rfl⟩) fun _ _ h => h

end Command

end Cabinet
