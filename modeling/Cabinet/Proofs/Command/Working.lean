import Cabinet.Proofs.Command.Finding
import Cabinet.Proofs.Command.Halting

/-!
# What a command does until it is rejected

* `Command.work` : what a command does before its failures are reported;
* `Command.find_looks`, `Command.count_looks`, `Command.index_looks`, `Command.get_looks` : some commands only
  look;
* `Command.put_clean`, `Command.erase_clean`, `Command.update_clean`, `Command.modify_clean`,
  `Command.removal_clean`, `Command.config_clean` : the others change nothing before they are rejected;
* `Command.configure`, `Command.performConfig_cases` : what is done to the configuration, once the backend is known;
* `Command.ask_runs` : the first line that is an answer answers a question; `Command.remove_declined` : without
  a yes nothing is removed;
* `Command.work_clean` : no command changes anything before it is rejected.
-/

namespace Cabinet

namespace Command

open Script
open Premises (IsOpen)

variable {p : Premises}

/-! ## What a command does -/

/-- Asks whether documents may be erased, and stops unless they may. -/
def question : Script Unit := do
  Script.say "This will permanently erase the matching documents.".toText
  if !(← Script.confirm) then Script.quit "Operation cancelled".toText 0

/-- Erases the documents that meet a condition. -/
def removal (condition : Option Text) (single : Bool) (place : Place) : Script Unit := do
  let c ← openPlace place false
  let condition ← Script.ofUsage (parseOption "--condition" condition)
  sayCount "Removed"
    (← Script.onPremises (c.remove (.value condition) (optionOf "single" single)))

theorem performRemove_eq (condition : Option Text) (single confirmed : Bool) (place : Place) :
    performRemove condition single confirmed place =
      if confirmed then removal condition single place
      else (do question; removal condition single place) := by
  cases confirmed with
  | true => rfl
  | false =>
    simp only [performRemove, question, bind_assoc, ite_bind, pure_bind]
    rfl

/-- What a command does, before its failures are reported. -/
def work : Command → Script Unit
  | .index place => do
    let c ← openPlace place false
    (← Script.onPremises c.store.index).forM Script.echo
  | .get id place => do
    let c ← openPlace place false
    let d ← Script.onPremises (c.store.read id)
    Script.echo (← Script.ofExcept (jsonText (.object d)))
  | .put id document place => performPut id document place
  | .erase id place => do
    let c ← openPlace place false
    Script.onPremises (c.store.erase id)
    sayDone ("Erased ".toText ++ id)
  | .find search place => performFind search place
  | .count condition place => do
    let c ← openPlace place false
    let condition ← Script.ofUsage (parseOption "--condition" condition)
    Script.echo (Text.ofNat (← Script.onPremises (c.count (.value condition))))
  | .update condition operators single place => performUpdate condition operators single place
  | .modify condition operators order old place => performModify condition operators order old place
  | .remove condition single confirmed place => performRemove condition single confirmed place
  | .config changes => performConfig changes

/-- Only failures of the configuration are not reported. -/
theorem perform_eq (command : Command) :
    command.perform = match command with
      | .config _ => command.work
      | _ => command.work.reporting := by
  cases command <;> rfl

/-! ## Commands that look -/

theorem looks_echo (t : Text) : Looks (Has p) (Script.echo t) fun _ => True :=
  looks_printLine (unprinted_premises p) _

theorem looks_say (t : Text) : Looks (Has p) (Script.say t) fun _ => True :=
  looks_printLine (unprinted_premises p) _

/-- An argument that is not understood stops a command before anything is done. -/
theorem looks_parsed {α : Type} (r : Except Usage α) :
    Looks (Has p) (Script.ofUsage r) fun _ => True :=
  looks_ofUsage fun _ _ => trivial

/-- What cannot be shown stops a command. -/
theorem looks_shown {α : Type} (r : Except Failure α) :
    Looks (Has p) (Script.ofExcept r) fun _ => True :=
  looks_ofExcept fun _ _ => trivial

theorem index_looks (place : Place) :
    Looks (Has p) (work (.index place)) fun _ => True := by
  refine (openPlace_looks place).bind fun c hc => ?_
  have hindex : Runs (· = p) c.store.index (fun _ p' => True ∧ p' = p) fun _ p' => p' = p :=
    (Action.ensures_of_state (hc.isFolder.reads p).index).runs
  exact (looks_onPremises hindex).bind fun ids _ => looks_forM looks_echo ids

theorem get_looks (id : Text) (place : Place) :
    Looks (Has p) (work (.get id place)) fun _ => True := by
  refine (openPlace_looks place).bind fun c hc => ?_
  have hread : Runs (· = p) (c.store.read id) (fun _ p' => True ∧ p' = p) fun _ p' => p' = p :=
    (Action.ensures_of_state ((hc.isFolder.reads p).read id)).runs
  exact (looks_onPremises hread).bind fun d _ => (looks_shown _).bind fun t _ => looks_echo t

theorem count_looks (condition : Option Text) (place : Place) :
    Looks (Has p) (work (.count condition place)) fun _ => True := by
  refine (openPlace_looks place).bind fun c hc => (looks_parsed _).bind fun condition _ => ?_
  have hcount := IsOpen.looks (Cursor.store_make c.store (.value condition) .nothing none)
    (Cursor.lasting_over (hc.isFolder.reads p)).count
  exact (looks_onPremises hcount).bind fun n _ => looks_echo _

theorem results_looks {s : Store Premises} (hs : IsOpen s p) {query : Cursor Premises}
    (hquery : Cursor.IsNew s query) : Looks (Has p) (results query) fun _ => True :=
  looks_onPremises (IsOpen.looks hquery.store (Cursor.lasting_over (hs.isFolder.reads p)).toList)

theorem queryOf_looks (search : Search) (place : Place) :
    Looks (Has p) (queryOf search place)
      fun query => ∃ s, IsOpen s p ∧ Cursor.IsNew s query := by
  refine (openPlace_looks place).bind fun c hc => (looks_parsed _).bind fun condition _ => ?_
  refine (looks_parsed _).bind fun projection _ => (looks_parsed _).bind fun order _ => ?_
  have hfind : Cursor.IsNew c.store (c.find (.value condition) (.value projection)
      (if search.withIds then some "_id".toText else none)) := Cursor.isNew_make ..
  refine looks_pure ⟨c.store, hc, ?_⟩
  split
  · exact hfind
  · exact hfind.addTo (rfl : Cursor.Clause.addTo _ (.sort (.value order)) = .ok _)

theorem limitOf_looks (search : Search) :
    Looks (Has p) (limitOf search) fun _ => True := by
  unfold limitOf
  split
  · exact looks_pure trivial
  · split
    · exact looks_pure trivial
    · exact looks_load.bind fun config _ => looks_pure trivial

theorem windowOf_looks (search : Search) {s : Store Premises} (hs : IsOpen s p) {query : Cursor Premises}
    (hquery : Cursor.IsNew s query) :
    Looks (Has p) (windowOf search query) fun _ => True := by
  have hclause : ∀ (clause : Cursor.Clause) {c : Cursor Premises}, Cursor.IsNew s c →
      Looks (Has p) (Script.ofExcept (clause.addTo c)) (Cursor.IsNew s) :=
    fun clause _ hc => looks_ofExcept fun _ hadd => hc.addTo hadd
  have hoffset : Looks (Has p) (if search.offset = 0 then pure query
      else Script.ofExcept (query.offset (.int search.offset))) (Cursor.IsNew s) := by
    split
    · exact looks_pure hquery
    · exact hclause (.offset (.int search.offset)) hquery
  have hlimit : ∀ (limit : Value) {c : Cursor Premises}, Cursor.IsNew s c →
      Looks (Has p) (if limit = .null then pure c
        else Script.ofExcept (c.limit limit)) (Cursor.IsNew s) := by
    intro limit c hc
    split
    · exact looks_pure hc
    · exact hclause (.limit limit) hc
  have heq : windowOf search query =
      (if search.offset = 0 then pure query else Script.ofExcept (query.offset (.int search.offset)))
        >>= fun c => limitOf search >>= fun limit =>
          (if limit = .null then pure c else Script.ofExcept (c.limit limit)) >>= results := by
    simp only [windowOf, ite_bind]
  rw [heq]
  refine hoffset.bind fun c hc => (limitOf_looks search).bind fun limit _ => ?_
  exact (hlimit limit hc).bind fun c hc => results_looks hs hc

theorem showDocuments_looks (format : Text) (documents : List Value) :
    Looks (Has p) (showDocuments format documents) fun _ => True := by
  unfold showDocuments
  split
  · exact (looks_shown _).bind fun t _ => looks_echo t
  · split
    · exact looks_say _
    · refine (looks_shown _).bind fun t _ => ?_
      split
      · exact fun sh hsh => .ok ⟨trivial, hsh⟩
      · exact looks_throw _

theorem find_looks (search : Search) (place : Place) :
    Looks (Has p) (performFind search place) fun _ => True := by
  rw [performFind_eq]
  have hfound : Looks (Has p) (found search place) fun _ => True := by
    refine (queryOf_looks search place).bind fun query hquery => ?_
    obtain ⟨s, hs, hnew⟩ := hquery
    exact windowOf_looks search hs hnew
  exact hfound.bind fun documents _ => showDocuments_looks _ documents

/-! ## Commands that change something -/

theorem accepted_done (t : Text) : Accepted (sayDone t) := accepted_printLine _

theorem accepted_shown (v : Value) : Accepted (do Script.echo (← Script.ofExcept (jsonText v))) := by
  refine (accepted_ofExcept (failsOnly_mapError fun e _ => ?_)).bind fun _ => accepted_printLine _
  exact Failure.not_isRejection rfl

theorem put_clean (id document : Text) (place : Place) : Clean p (performPut id document place) := by
  refine (looks_parsed _).bind_clean fun d _ => ?_
  refine Runs.bind ((openPlace_runs place true p).mono (fun _ _ h => h.1) fun _ _ h _ => h) fun c => ?_
  have hwrite : Runs (fun sh => IsOpen c.store sh.premises) (Script.onPremises (c.store.write id d))
      (fun _ _ => True) fun h sh => h.IsRejection → Has p sh := by
    refine (runs_onPremises (IsOpen.write_runs c.store id d)).mono (fun _ _ _ => trivial) ?_
    rintro _ sh ⟨e, rfl, he⟩ hrejected
    exact absurd hrejected he
  exact runs_accepted hwrite fun _ => accepted_done _

theorem erase_clean (id : Text) (place : Place) : Clean p (work (.erase id place)) := by
  refine (openPlace_looks place).bind_clean fun c hc => ?_
  have herase : Clean p (Script.onPremises (c.store.erase id)) :=
    clean_onPremises ((hc.erase_runs id).stopping fun _ _ h _ => h)
  exact herase.bind fun _ => accepted_done _

theorem update_clean (condition operators : Text) (single : Bool) (place : Place) :
    Clean p (performUpdate condition operators single place) := by
  refine (openPlace_looks place).bind_clean fun c hc => ?_
  refine (looks_parsed _).bind_clean fun condition _ => (looks_parsed _).bind_clean fun operators _ => ?_
  exact (clean_onPremises (Collection.update_rejected hc _ operators _)).bind fun n => accepted_done _

theorem modify_clean (condition operators : Text) (order : Option Text) (old : Bool) (place : Place) :
    Clean p (performModify condition operators order old place) := by
  refine (openPlace_looks place).bind_clean fun c hc => (looks_parsed _).bind_clean fun condition _ => ?_
  refine (looks_parsed _).bind_clean fun order _ => (looks_parsed _).bind_clean fun operators _ => ?_
  refine (clean_onPremises (Collection.findAndModify_rejected hc _ _ operators _)).bind fun d => ?_
  split
  · exact accepted_printLine _
  · exact accepted_printLine _
  · exact accepted_shown _

theorem removal_clean (hp : p.disk.Regular) (condition : Option Text) (single : Bool) (place : Place) :
    Clean p (removal condition single place) := by
  refine (openPlace_looks place).bind_clean fun c hc => (looks_parsed _).bind_clean fun condition _ => ?_
  have hremove : Clean p (Script.onPremises (c.remove (.value condition) (optionOf "single" single))) :=
    clean_onPremises ((Collection.remove_failed hc hp _ _).stopping fun _ _ h _ => h)
  exact hremove.bind fun n => accepted_done _

/-- A configuration is not written for want of a folder. -/
theorem save_runs (config : Config) :
    Runs (· = p) config.save (fun _ _ => True) fun e p' => e.IsRejection → p' = p := by
  rintro p rfl
  rw [Config.save]
  cases hmake : Disk.makeFolders p.disk (Disk.splitLast (Config.file p)).1 with
  | error e => exact .error fun _ => rfl
  | ok d =>
    obtain ⟨es, hes⟩ := Disk.makeFolders_ok hmake
    cases hput : Disk.putFile d (Config.file p) config.bytes with
    | ok d' =>
      simp only [hput]
      exact .ok trivial
    | error e =>
      have hcause := Disk.failsOnly_putFile hes _ e hput
      have hfamily : (Failure.system e).family = .unexpected := if_neg hcause
      simp only [hput]
      refine .error fun hrejected => ?_
      obtain h | h := hrejected <;> cases hfamily.symm.trans h

theorem update_runs (changes : List (Setting × Value)) :
    Runs (· = p) (Config.update changes) (fun _ _ => True) fun e p' => e.IsRejection → p' = p := by
  have hload : Runs (· = p) Config.load (fun _ p' => p' = p) fun e p' => e.IsRejection → p' = p :=
    (Action.ensures_of_state fun w hw => (load_premises w).trans hw).runs.mono (fun _ _ h => h.2)
      fun _ _ h _ => h
  exact hload.bind fun config => (save_runs _).bind fun _ => runs_pure fun _ _ => trivial

/-- Changes the configuration or shows it, whatever backend is given. -/
def configure (changes : Changes) : Script Unit :=
  if Changes.isSome changes then do
    let _ ← Script.onPremises (Config.update (Changes.toList changes))
    sayDone "Configuration updated!".toText
  else do
    let config ← Script.onPremises Config.load
    Script.echo (Json.render .indentedAscii 0 config.toValue)

/-- The backend that is given, if there is any, keeps documents in files. -/
def KnowsBackend (changes : Changes) : Prop :=
  ∀ backend, changes.backend = some backend → fileBackends.elem backend = true

theorem performConfig_known {changes : Changes} (h : KnowsBackend changes) : performConfig changes = configure changes := by
  unfold performConfig configure
  cases hbackend : changes.backend with
  | none => rfl
  | some backend =>
    simp only [h backend hbackend]
    rfl

theorem performConfig_cases (changes : Changes) (sh : Shell) :
    (∃ u, performConfig changes sh = (.error (.usage u), sh)) ∨
      KnowsBackend changes ∧ performConfig changes sh = configure changes sh := by
  by_cases h : KnowsBackend changes
  · exact .inr ⟨h, by rw [performConfig_known h]⟩
  · simp only [KnowsBackend, not_forall, Bool.not_eq_true] at h
    obtain ⟨backend, hbackend, hunknown⟩ := h
    refine .inl ⟨.badBackend (.text backend), ?_⟩
    unfold performConfig
    simp only [hbackend, hunknown]
    rfl

theorem config_clean (changes : Changes) : Clean p (performConfig changes) := by
  have hconfigure : Clean p (configure changes) := by
    unfold configure
    split
    · exact (clean_onPremises (update_runs _)).bind fun _ => accepted_done _
    · exact (looks_load.bind fun config _ => looks_echo _).clean
  intro sh hsh
  obtain ⟨u, hu⟩ | ⟨-, hperform⟩ := performConfig_cases changes sh
  · rw [hu]
    exact .error fun _ => hsh
  · rw [hperform]
    exact hconfigure sh hsh

/-! ## A question -/

/-- The premises of a shell, and the lines that it can read. -/
def At (p : Premises) (lines : List Text) (sh : Shell) : Prop := Has p sh ∧ sh.input = lines

theorem unprinted_at (p : Premises) (lines : List Text) : Unprinted (At p lines) := fun _ _ h => h

theorem readLine_runs (lines : List Text) :
    Runs (At p lines) Script.readLine (fun line sh => ∃ rest, lines = line :: rest ∧ At p rest sh)
      fun _ => Has p := by
  rintro ⟨premises, input, output⟩ ⟨hp, hinput⟩
  obtain rfl : premises = p := hp
  obtain rfl : input = lines := hinput
  cases input with
  | nil => exact .error rfl
  | cons line rest => exact .ok ⟨rest, rfl, rfl, rfl⟩

theorem print_runs (t : Text) (lines : List Text) :
    Runs (At p lines) (Script.print t) (fun _ => At p lines) fun _ => Has p :=
  fun _ hsh => .ok hsh

/-- The first line that is an answer answers the question. By induction on the fuel: what is no answer is
left behind. -/
theorem ask_runs : ∀ (fuel : Nat) (lines : List Text),
    Runs (At p lines) (Script.ask fuel)
      (fun b sh => lines.findSome? Script.answer? = some b ∧ Has p sh) fun _ => Has p
  | 0, lines => runs_throw fun _ h => h.1
  | fuel + 1, lines => by
    rw [Script.ask]
    refine (print_runs _ lines).bind fun _ => (readLine_runs lines).bind fun line => ?_
    rintro sh ⟨rest, rfl, hsh⟩
    revert sh hsh
    refine (print_runs _ rest).bind fun _ => ?_
    cases hanswer : Script.answer? line with
    | some b => exact runs_pure fun sh hsh => ⟨by rw [List.findSome?_cons, hanswer], hsh.1⟩
    | none =>
      refine (print_runs _ rest).bind fun _ => ?_
      have hrest : (line :: rest).findSome? Script.answer? = rest.findSome? Script.answer? := by
        rw [List.findSome?_cons, hanswer]
      rw [hrest]
      exact ask_runs fuel rest

theorem confirm_runs (lines : List Text) :
    Runs (At p lines) Script.confirm
      (fun b sh => lines.findSome? Script.answer? = some b ∧ Has p sh) fun _ => Has p :=
  fun sh hsh => ask_runs (sh.input.length + 1) lines sh hsh

/-- Nothing is done unless the answer is yes. -/
theorem question_runs (lines : List Text) :
    Runs (At p lines) question
      (fun _ sh => lines.findSome? Script.answer? = some true ∧ Has p sh)
      fun _ => Has p := by
  refine Runs.bind ((printLine_runs (unprinted_at p lines) _).stopping fun _ _ h => h.2.1)
    fun _ => (confirm_runs lines).bind fun b => ?_
  cases b with
  | true => exact runs_pure fun _ h => h
  | false =>
    refine runs_and fun _ => ?_
    have hquit : Looks (Has p) (Script.quit "Operation cancelled".toText 0 : Script Unit) fun _ => False :=
      looks_quit (unprinted_premises p) _ 0
    exact Runs.mono hquit (fun _ _ h => h.1.elim) fun _ _ h => h

theorem remove_clean (hp : p.disk.Regular) (condition : Option Text) (single confirmed : Bool)
    (place : Place) : Clean p (performRemove condition single confirmed place) := by
  rw [performRemove_eq]
  split
  · exact removal_clean hp condition single place
  · intro sh hsh
    have hquestion : Runs (At p sh.input) question
        (fun _ sh' => sh.input.findSome? Script.answer? = some true ∧ Has p sh')
        fun h sh => h.IsRejection → Has p sh :=
      (question_runs sh.input).stopping fun _ _ h _ => h
    have hremoval := removal_clean hp condition single place
    exact hquestion.bind (fun _ => runs_and fun _ => hremoval) sh ⟨hsh, rfl⟩

/-- Without a yes, a removal that has to be confirmed stops and leaves everything as it was. -/
theorem remove_declined {lines : List Text} (hlines : lines.findSome? Script.answer? ≠ some true)
    (condition : Option Text) (single : Bool) (place : Place) :
    Runs (At p lines) (performRemove condition single false place) (fun _ _ => False)
      fun _ => Has p := by
  rw [performRemove_eq, if_neg Bool.false_ne_true]
  exact (question_runs lines).bind fun _ => runs_and fun hyes => absurd hyes hlines

/-- No command changes anything before it is rejected. -/
theorem work_clean (hp : p.disk.Regular) : ∀ command : Command, Clean p command.work
  | .index place => (index_looks place).clean
  | .get id place => (get_looks id place).clean
  | .put id document place => put_clean id document place
  | .erase id place => erase_clean id place
  | .find search place => (find_looks search place).clean
  | .count condition place => (count_looks condition place).clean
  | .update condition operators single place => update_clean condition operators single place
  | .modify condition operators order old place => modify_clean condition operators order old place
  | .remove condition single confirmed place => remove_clean hp condition single confirmed place
  | .config changes => config_clean changes

end Command

end Cabinet
