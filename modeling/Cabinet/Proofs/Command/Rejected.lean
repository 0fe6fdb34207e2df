import Cabinet.Proofs.Command.Pages
import Cabinet.Proofs.Command.Working

/-!
# Command lines that are rejected

* `Command.asked`, `Command.asked_ok` : a command line up to its command, and what it says in front;
  `Command.script_perform` : what it does then;
* `Command.unreported` : a command line whose failures are not reported; `Command.outcome` : what it comes to;
* `Command.run_outcome` : the line itself leaves the same premises, and exits with a code that tells how it
  ended;
* `Command.AsksFor`, `Command.Unconfirmed` : what a line asks for, and removals that are not confirmed;
* `Command.rejected_unchanged` : a line that is rejected, or a removal that is not confirmed, changes nothing.
-/

namespace Cabinet

namespace Command

open Script

/-! ## Command lines -/

/-- A whole command line up to its command. -/
def asked (texts : List Text) : Script Command := do
  let request ← Script.ofUsage (Request.ofTexts texts)
  let config ← Script.onPremises Config.load
  if request.isVerbose || config.verbose.isTrue then Script.say "Verbose mode enabled.".toText
  Script.ofUsage (request.read request.arguments)

theorem script_eq (texts : List Text) : script texts = asked texts >>= perform := by
  simp only [script, asked, bind_assoc, ite_bind]

/-- What is said in front if more is to be said. -/
def greeting (isVerbose : Bool) (config : Config) : Text :=
  if isVerbose || config.verbose.isTrue then "Verbose mode enabled.\n".toText else []

section Asked
variable {texts : List Text} {request : Request} {p : Premises} (hrequest : Request.ofTexts texts = .ok request)
include hrequest

/-- A line that is understood greets. -/
theorem asked_ok {command : Command} {config : Config} (hread : request.read request.arguments = .ok command)
    (hload : Config.load p = (.ok config, p)) (lines : List Text) :
    asked texts ⟨p, lines, []⟩ = (.ok command, ⟨p, lines, greeting request.isVerbose config⟩) := by
  have hconfig : Script.onPremises Config.load ⟨p, lines, []⟩ = (.ok config, ⟨p, lines, []⟩) :=
    Script.onPremises_of_ok hload
  simp only [asked, ofUsage_of_ok hrequest, ofUsage_of_ok hread, pure_bind]
  rw [Script.bind_of_ok hconfig, greeting]
  split
  · have hsay : Script.say "Verbose mode enabled.".toText ⟨p, lines, []⟩ =
        (.ok (), ⟨p, lines, "Verbose mode enabled.\n".toText⟩) := rfl
    rw [Script.bind_of_ok hsay]
    rfl
  · rfl

/-- Then it does what its command does. -/
theorem script_perform {command : Command} {config : Config}
    (hread : request.read request.arguments = .ok command) (hload : Config.load p = (.ok config, p))
    (lines : List Text) :
    script texts ⟨p, lines, []⟩ = command.perform ⟨p, lines, greeting request.isVerbose config⟩ := by
  rw [script_eq, bind_of_ok (asked_ok hrequest hread hload lines)]

/-- Where the configuration cannot be loaded, nothing is done. -/
theorem asked_unloaded {e : Failure} (hload : Config.load p = (.error e, p)) (lines : List Text) :
    asked texts ⟨p, lines, []⟩ = (.error (.failure e), ⟨p, lines, []⟩) := by
  have hconfig : Script.onPremises Config.load ⟨p, lines, []⟩ = (.error (.failure e), ⟨p, lines, []⟩) := by
    rw [Script.onPremises, hload]
    rfl
  simp only [asked, ofUsage_of_ok hrequest, pure_bind]
  rw [Action.bind_apply, hconfig]

end Asked

/-- A command line whose failures are not reported. -/
def unreported (texts : List Text) : Script Unit := asked texts >>= work

/-- The code that tells how a command line ended. -/
def exitCode : Except Halt Unit → Nat
  | .ok () => 0
  | .error (.usage _) => 2
  | .error (.exit code) => code
  | .error (.failure _) | .error .endOfInput => 1

theorem code_apply (a : Script Unit) (sh : Shell) : a.code sh = (exitCode (a sh).1, (a sh).2) := by
  simp only [code, bind, StateT.bind, ExceptT.run]
  generalize a sh = r
  rcases r with ⟨(u | e | _ | n) | _, sh'⟩ <;> rfl

/-- Two runs end with the same code and the same premises. -/
def EndAlike (r r' : Except Halt Unit × Shell) : Prop :=
  exitCode r.1 = exitCode r'.1 ∧ r.2.premises = r'.2.premises

/-- A line is printed and the code is that of a failure, also where there are no bytes for the line. -/
theorem quit_alike {h : Halt} (hcode : exitCode (.error h) = 1) (line : Text) (sh : Shell) :
    EndAlike (Script.quit line 1 sh) (.error h, sh) := by
  rw [EndAlike, hcode, Script.quit, Action.bind_apply, Script.say, Script.printLine]
  cases (Screen.shown line ++ "\n".toText).toUtf8 <;> exact ⟨rfl, rfl⟩

/-- A report changes nothing but what is printed, and not the code. -/
theorem reporting_alike (a : Script Unit) (sh : Shell) : EndAlike (a.reporting sh) (a sh) := by
  rw [Script.reporting, Action.tryCatch_apply]
  generalize a sh = r
  rcases r with ⟨(u | e | _ | n) | _, sh'⟩
  · exact ⟨rfl, rfl⟩
  · exact quit_alike rfl _ sh'
  · exact quit_alike rfl _ sh'
  · exact ⟨rfl, rfl⟩
  · exact ⟨rfl, rfl⟩

theorem perform_alike (command : Command) (sh : Shell) : EndAlike (command.perform sh) (command.work sh) := by
  rw [perform_eq]
  cases command with
  | config changes => exact ⟨rfl, rfl⟩
  | _ => exact reporting_alike _ sh

theorem script_alike (texts : List Text) (sh : Shell) : EndAlike (script texts sh) (unreported texts sh) := by
  rw [script_eq, unreported, Action.bind_apply, Action.bind_apply]
  generalize asked texts sh = r
  rcases r with ⟨h | command, sh'⟩
  · exact ⟨rfl, rfl⟩
  · exact perform_alike command sh'

/-- What a command line comes to, before its failures are reported. -/
def outcome (texts : List Text) (input : Text) (p : Premises) : Except Halt Unit × Shell :=
  unreported texts ⟨p, linesOf input, []⟩

/-- A command line exits with the code that tells how it ended, and it leaves the same premises whether its
failures are reported or not. -/
theorem run_outcome (texts : List Text) (input : Text) (p : Premises) :
    (run texts input p).1 = exitCode (outcome texts input p).1 ∧
      (run texts input p).2.2 = (outcome texts input p).2.premises := by
  have halike := script_alike texts ⟨p, linesOf input, []⟩
  rw [run, code_apply]
  exact halike

/-! ## Rejected lines -/

/-- A command line asks for a command. -/
def AsksFor (texts : List Text) (command : Command) : Prop :=
  ∃ request, Request.ofTexts texts = .ok request ∧ request.read request.arguments = .ok command

theorem asked_looks {states : Shell → Prop} (hstates : Unprinted states) (texts : List Text) :
    Looks states (asked texts) (AsksFor texts) := by
  have hoptions : Looks states (Script.ofUsage (Request.ofTexts texts))
      fun request => Request.ofTexts texts = .ok request := looks_ofUsage fun _ h => h
  refine hoptions.bind fun request hrequest => looks_load.bind fun config _ => ?_
  have hread : Looks states (Script.ofUsage (request.read request.arguments)) (AsksFor texts) :=
    looks_ofUsage fun command hcommand => ⟨request, hrequest, hcommand⟩
  split
  · exact (looks_printLine hstates _).bind fun _ _ => hread
  · exact hread

/-- A command line asks for a removal that has to be confirmed, and the first answer, if there is any, is
not yes. -/
def Unconfirmed (texts : List Text) (input : Text) : Prop :=
  (∃ condition single place, AsksFor texts (.remove condition single false place)) ∧
    (linesOf input).findSome? Script.answer? ≠ some true

theorem unreported_clean {p : Premises} (hp : p.disk.Regular) (texts : List Text) :
    Clean p (unreported texts) :=
  (asked_looks (unprinted_premises p) texts).bind_clean fun command _ => work_clean hp command

theorem unconfirmed_unchanged {texts : List Text} {input : Text} (h : Unconfirmed texts input)
    (p : Premises) : (outcome texts input p).2.premises = p := by
  obtain ⟨⟨condition, single, place, request, hrequest, hcommand⟩, hanswer⟩ := h
  have hruns : Runs (At p (linesOf input)) (unreported texts) (fun _ _ => False)
      fun _ => Has p := by
    have hasked := Runs.mono (asked_looks (unprinted_at p (linesOf input)) texts) (fun _ _ h => h)
      fun _ _ h => h.1
    refine hasked.bind fun command => runs_and ?_
    rintro ⟨request', hrequest', hcommand'⟩
    obtain rfl := Except.ok.inj (hrequest.symm.trans hrequest')
    obtain rfl := Except.ok.inj (hcommand.symm.trans hcommand')
    exact remove_declined hanswer condition single place
  have hend := hruns ⟨p, linesOf input, []⟩ ⟨rfl, rfl⟩
  rw [outcome]
  generalize unreported texts ⟨p, linesOf input, []⟩ = r at hend
  cases hend with
  | ok h => exact h.elim
  | error h => exact h

/-- A command line that exits with the code for a wrong line, one that fails because a query means nothing or
because a document, a folder or a file is not there, and one that asks for a removal and is not told to go on:
none of these changes anything. -/
theorem rejected_unchanged (texts : List Text) (input : Text) {p : Premises} (hp : p.disk.Regular)
    (h : (run texts input p).1 = 2 ∨
      (∃ e, (outcome texts input p).1 = .error (.failure e) ∧
        (e.family = .query ∨ e.family = .notFound)) ∨
      Unconfirmed texts input) :
    (run texts input p).2.2 = p := by
  obtain ⟨hcode, hpremises⟩ := run_outcome texts input p
  rw [hcode] at h
  rw [hpremises]
  have hclean : ∀ halt, (outcome texts input p).1 = .error halt → halt.IsRejection →
      (outcome texts input p).2.premises = p := fun halt hhalt =>
    (unreported_clean hp texts ⟨p, linesOf input, []⟩ rfl).of_error (Prod.ext hhalt rfl)
  obtain hcode | ⟨e, he, hfamily⟩ | hunconfirmed := h
  · cases hr : (outcome texts input p).1 with
    | ok _ =>
      rw [hr] at hcode
      cases hcode
    | error halt =>
      rw [hr] at hcode
      refine hclean halt hr ?_
      cases halt with
      | usage u => trivial
      | failure e => cases hcode
      | endOfInput => cases hcode
      | exit n => exact hcode
  · exact hclean _ he hfamily
  · exact unconfirmed_unchanged hunconfirmed p

/-! ## Lines about the workshop -/

/-- A line that does not ask for more to be said does what its command does. -/
theorem outcome_work {texts : List Text} {request : Request} {command : Command} {input : Text}
    {p : Premises} {config : Config} (hrequest : Request.ofTexts texts = .ok request)
    (hread : request.read request.arguments = .ok command) (hload : Config.load p = (.ok config, p))
    (hquiet : (request.isVerbose || config.verbose.isTrue) = false) :
    outcome texts input p = work command ⟨p, linesOf input, []⟩ := by
  have hasked := asked_ok hrequest hread hload (linesOf input)
  rw [greeting, hquiet, if_neg Bool.false_ne_true] at hasked
  rw [outcome, unreported, Script.bind_of_ok hasked]

/-- The folder of the lamps. -/
def lampsPlace : Place := ⟨some "lamps".toText, none⟩

theorem open_lamps : openPlace lampsPlace false ⟨workshop.premises, linesOf [], []⟩ =
    (.ok ⟨Premises.folderStore .json ⟨["lamps".toText]⟩, "_id".toText, return []⟩,
      ⟨workshop.premises, linesOf [], []⟩) := rfl

theorem regular_workshop : workshop.premises.disk.Regular := by
  refine Disk.regular_of_get? (by decide) (by decide) fun name inner h => ?_
  simp only [workshop, Disk.Entries.get?] at h
  split at h
  · obtain rfl := Disk.Node.folder.inj (Option.some.inj h)
    refine Disk.regular_of_get? (by decide) (by decide) fun name inner h => ?_
    simp only [Cursor.lamps, List.map, Disk.Entries.get?] at h
    repeat' split at h
    all_goals cases h
  · cases h

theorem load_workshop : Config.load workshop.premises = (.ok Config.defaults, workshop.premises) := rfl

/-- Stores what is no object. -/
def putLine : List Text := ["put", "d", "[]", "--store", "new"].map String.toText

theorem outcome_putLine :
    (outcome putLine [] workshop.premises).1 = .error (.usage (.noDocument "DOCUMENT")) := by
  have hrequest : Request.ofTexts putLine = .ok ⟨false, readPut, putLine.tail⟩ := by cbv
  have hread : readPut putLine.tail = .ok (.put "d".toText "[]".toText ⟨some "new".toText, none⟩) := by cbv
  have hparse : parseDocument "DOCUMENT" "[]".toText = .error (.noDocument "DOCUMENT") := by cbv
  rw [outcome_work hrequest hread load_workshop rfl, work, performPut, hparse]
  rfl

/-- Updates all lamps by a number. -/
def updateLine : List Text := ["update", "null", "1", "--store", "lamps"].map String.toText

theorem outcome_updateLine : (outcome updateLine [] workshop.premises).1 =
    .error (.failure (.query (.operator (.int 1)))) := by
  have hrequest : Request.ofTexts updateLine = .ok ⟨false, readUpdate, updateLine.tail⟩ := by cbv
  have hread : readUpdate updateLine.tail =
      .ok (.update "null".toText "1".toText false lampsPlace) := by cbv
  have hcondition : parseValue "CONDITION" "null".toText = .ok .null := by cbv
  have hoperators : parseValue "OPERATORS" "1".toText = .ok (.int 1) := by cbv
  rw [outcome_work hrequest hread load_workshop rfl, work, performUpdate, Script.bind_of_ok open_lamps,
    hcondition, hoperators]
  rfl

/-- Erases a lamp that there is not. -/
def eraseLine : List Text := ["erase", "d", "--store", "lamps"].map String.toText

theorem outcome_eraseLine :
    (outcome eraseLine [] workshop.premises).1 = .error (.failure (.notFound "d".toText)) := by
  have hrequest : Request.ofTexts eraseLine = .ok ⟨false, readErase, eraseLine.tail⟩ := by cbv
  have hread : readErase eraseLine.tail = .ok (.erase "d".toText lampsPlace) := by cbv
  rw [outcome_work hrequest hread load_workshop rfl, work, Script.bind_of_ok open_lamps]
  rfl

/-- Removes all lamps. -/
def removeLine : List Text := ["remove", "--store", "lamps"].map String.toText

theorem unconfirmed_removeLine : Unconfirmed removeLine "what?\nn\ny\n".toText := by
  have hanswer : (linesOf "what?\nn\ny\n".toText).findSome? Script.answer? = some false := by cbv
  refine ⟨⟨none, false, lampsPlace, ⟨false, readRemove, removeLine.tail⟩, by cbv, by cbv⟩, ?_⟩
  rw [hanswer]
  decide

theorem rejected_unchanged_workshop :
    let p := workshop.premises
    ((run putLine [] p).1 = 2 ∧ (run putLine [] p).2.2 = p) ∧
    ((run updateLine [] p).1 = 1 ∧ (run updateLine [] p).2.2 = p) ∧
    ((run eraseLine [] p).1 = 1 ∧ (run eraseLine [] p).2.2 = p) ∧
    (run removeLine "what?\nn\ny\n".toText p).2.2 = p := by
  intro p
  have hp := regular_workshop
  have hcode := fun texts => (run_outcome texts [] p).1
  have hput : (run putLine [] p).1 = 2 := by rw [hcode, outcome_putLine]; rfl
  exact ⟨⟨hput, rejected_unchanged putLine [] hp (.inl hput)⟩,
    ⟨by rw [hcode, outcome_updateLine]; rfl,
      rejected_unchanged updateLine [] hp (.inr (.inl ⟨_, outcome_updateLine, .inl rfl⟩))⟩,
    ⟨by rw [hcode, outcome_eraseLine]; rfl,
      rejected_unchanged eraseLine [] hp (.inr (.inl ⟨_, outcome_eraseLine, .inr rfl⟩))⟩,
    rejected_unchanged removeLine _ hp (.inr (.inr unconfirmed_removeLine))⟩

end Command

end Cabinet
