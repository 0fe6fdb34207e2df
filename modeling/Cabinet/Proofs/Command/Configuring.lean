import Cabinet.Proofs.Command.Rejected
import Cabinet.Proofs.Command.Settings

/-!
# Lines that change the configuration

A line that changes some settings loads the configuration, changes them and saves it again, so that line by
line each setting keeps what it was given last. Only where an empty path is all that a line gives, the line
shows the configuration instead.

* `Changes.given`, `Changes.isEmptyPath` : what a line gives a setting, and a line with an empty path only;
* `Command.run_saves`, `Command.run_shows` : a line that changes the configuration, and one that shows it;
  `Command.config_line` : what a line does that is accepted;
* `Config.Stands` : what is loaded is a configuration, up to surrogates that are written like a character;
* `Config.Stands.line`, `Config.Stands.lines` : one line keeps the settings that it does not give, and after
  many lines each is the one given last;
* `config_shows_last` : after any lines each setting that is shown is the one given last.
-/

namespace Cabinet

/-! ## What is given -/

namespace Changes

/-- What changes give a setting. -/
def given (changes : Changes) : Setting → Option Value
  | .backend => changes.backend.map .text
  | .path => changes.path.map .text
  | .verbose => changes.verbose.map .bool
  | .color => changes.color.map .bool
  | .pageSize => changes.pageSize.map .int

theorem given_scalar {changes : Changes} {s : Setting} {v : Value} (h : changes.given s = some v) :
    ∃ x, Json.HasLiteral x ∧ x ≠ .null ∧ v = .scalar x := by
  cases s <;> obtain ⟨value, -, rfl⟩ := Option.map_eq_some_iff.mp h
  · exact ⟨.text value, trivial, nofun, rfl⟩
  · exact ⟨.text value, trivial, nofun, rfl⟩
  · exact ⟨.bool value, trivial, nofun, rfl⟩
  · exact ⟨.bool value, trivial, nofun, rfl⟩
  · exact ⟨.int value, trivial, nofun, rfl⟩

theorem toList_eq (changes : Changes) :
    Command.Changes.toList changes = Setting.all.map fun s => (s, (changes.given s).getD .null) := rfl

/-- All that is given is a path without text. -/
def isEmptyPath (changes : Changes) : Bool :=
  changes.path = some [] && changes.backend.isNone && changes.verbose.isNone && changes.color.isNone
    && changes.pageSize.isNone

/-- Where there is nothing to change, nothing is given but perhaps an empty path. -/
theorem given_of_not_isSome {changes : Changes} (h : Command.Changes.isSome changes = false)
    (hbackend : changes.backend ≠ some []) (hpath : changes.isEmptyPath = false) (s : Setting) :
    changes.given s = none := by
  obtain ⟨backend, path, verbose, color, size⟩ := changes
  simp only [Command.Changes.isSome, Bool.or_eq_false_iff, Bool.not_eq_false', Option.isSome_eq_false_iff,
    Option.isNone_iff_eq_none, List.isEmpty_iff] at h
  obtain ⟨⟨⟨⟨hb, hp⟩, rfl⟩, rfl⟩, rfl⟩ := h
  have hb : backend = none := by
    cases backend with
    | none => rfl
    | some t => exact absurd (congrArg some hb) hbackend
  have hp : path = none := by
    cases path with
    | none => rfl
    | some t =>
      obtain rfl : t = [] := hp
      subst hb
      cases hpath
  subst hb hp
  cases s <;> rfl

theorem isSome_of_isEmptyPath {changes : Changes} (h : changes.isEmptyPath = true) :
    Command.Changes.isSome changes = false := by
  obtain ⟨backend, path, verbose, color, size⟩ := changes
  simp only [isEmptyPath, Bool.and_eq_true, Option.isNone_iff_eq_none, decide_eq_true_eq] at h
  obtain ⟨⟨⟨⟨rfl, rfl⟩, rfl⟩, rfl⟩, rfl⟩ := h
  rfl

end Changes

/-- The configuration that is to be there after some changes. -/
def Config.after (c : Config) (changes : Changes) : Config :=
  if changes.isEmptyPath then c else c.change (Command.Changes.toList changes)

/-- What several changes give a setting last. -/
def Changes.givenLast (lines : List Changes) (s : Setting) : Option Value :=
  (lines.filterMap fun changes => if changes.isEmptyPath then none else changes.given s).getLast?

namespace Config

theorem change_given (c : Config) (changes : Changes) (s : Setting) :
    (c.change (Command.Changes.toList changes)).get s = (changes.given s).getD (c.get s) := by
  have hnull : ∀ s, changes.given s ≠ some .null := by
    intro s h
    obtain ⟨x, -, hx, heq⟩ := Changes.given_scalar h
    exact hx (Value.scalar.inj heq).symm
  rw [Changes.toList_eq, change_get hnull, if_pos (by cases s <;> decide)]

theorem after_get (c : Config) (changes : Changes) (s : Setting) : (c.after changes).get s =
    (if changes.isEmptyPath then none else changes.given s).getD (c.get s) := by
  rw [after]
  split
  · rfl
  · exact change_given c changes s

/-- Each setting is the one given last. By induction on the lines from the last to the first. -/
theorem foldl_after_get (c : Config) (s : Setting) (lines : List Changes) :
    (lines.foldl after c).get s = (Changes.givenLast lines s).getD (c.get s) := by
  induction lines using List.reverseRecOn with
  | nil => rfl
  | append_singleton lines changes ih =>
    rw [List.foldl_append, List.foldl_cons, List.foldl_nil, after_get, ih, Changes.givenLast,
      Changes.givenLast, List.filterMap_append]
    cases hlast : (if changes.isEmptyPath then none else changes.given s) with
    | none => simp [hlast]
    | some v => simp [hlast]

/-- Configurations that are alike stay so if the same is given to them. -/
theorem Alike.change {c c' : Config} (h : c.Alike c') (changes : Changes) :
    (c.change (Command.Changes.toList changes)).Alike (c'.change (Command.Changes.toList changes)) := by
  intro s
  rw [change_given, change_given]
  cases hgiven : changes.given s with
  | none => exact h s
  | some v =>
    obtain ⟨x, hx, -, rfl⟩ := Changes.given_scalar hgiven
    exact Value.alike_self hx

end Config

/-! ## Lines -/

namespace Command

open Script

section Configuring
variable {changes : Changes} {config : Config} {sh : Shell} {p : Premises}

theorem update_saved (hload : Config.load p = (.ok config, p)) : Config.update (Changes.toList changes) p =
    ((config.change (Changes.toList changes)).save p).map
      (Except.map fun _ => config.change (Changes.toList changes)) id := by
  rw [Config.update, Action.bind_apply, hload]
  simp only [Action.bind_apply]
  generalize (config.change (Changes.toList changes)).save p = r
  rcases r with ⟨e | target, p'⟩
  · rfl
  · rfl

theorem configure_saves (hload : Config.load sh.premises = (.ok config, sh.premises))
    (hsome : Changes.isSome changes = true) (hcode : exitCode (configure changes sh).1 = 0) :
    ∃ target, (config.change (Changes.toList changes)).save sh.premises =
      (.ok target, (configure changes sh).2.premises) := by
  rw [configure, if_pos hsome, Action.bind_apply, Script.onPremises, update_saved hload] at hcode ⊢
  generalize (config.change (Changes.toList changes)).save sh.premises = r at hcode ⊢
  rcases r with ⟨e | target, p'⟩
  · cases hcode
  · exact ⟨target, rfl⟩

theorem configure_shows (hload : Config.load sh.premises = (.ok config, sh.premises))
    (hsome : Changes.isSome changes = false) : configure changes sh = (.ok (), { sh with
      output := sh.output ++ (Json.render .indentedAscii 0 config.toValue ++ "\n".toText) }) := by
  have hplain := Json.render_plain config.toValue
  rw [configure, if_neg (by rw [hsome]; decide), bind_of_ok (onPremises_of_ok hload)]
  exact echo_eq (hplain.not_mem (by decide)) hplain.encodable sh

theorem fileBackends_ne_nil : fileBackends.elem [] = false := by decide

theorem performConfig_ok (hload : Config.load sh.premises = (.ok config, sh.premises))
    (hcode : exitCode (performConfig changes sh).1 = 0) : changes.backend ≠ some [] ∧
      if Changes.isSome changes then ∃ target,
        (config.change (Changes.toList changes)).save sh.premises =
          (.ok target, (performConfig changes sh).2.premises)
      else (performConfig changes sh).2.premises = sh.premises := by
  obtain ⟨u, hu⟩ | ⟨hbackend, hperform⟩ := performConfig_cases changes sh
  · rw [hu] at hcode
    cases hcode
  · rw [hperform] at hcode ⊢
    refine ⟨fun h => absurd (hbackend [] h) (by rw [fileBackends_ne_nil]; decide), ?_⟩
    cases hsome : Changes.isSome changes with
    | true => exact configure_saves hload hsome hcode
    | false =>
      rw [configure_shows hload hsome]
      exact rfl

/-- A line that is accepted saves what it changes, or it changes nothing. -/
theorem config_line {texts : List Text} {input : Text} (hasks : AsksFor texts (.config changes))
    (hcode : (run texts input p).1 = 0) : changes.backend ≠ some [] ∧
      ∃ config, Config.load p = (.ok config, p) ∧
        if Changes.isSome changes then ∃ target,
          (config.change (Changes.toList changes)).save p = (.ok target, (run texts input p).2.2)
        else (run texts input p).2.2 = p := by
  obtain ⟨request, hrequest, hread⟩ := hasks
  obtain ⟨r, hload⟩ : ∃ r, Config.load p = (r, p) := ⟨_, Prod.ext rfl (load_premises p)⟩
  rw [run, code_apply] at hcode ⊢
  cases r with
  | error e =>
    rw [script_eq, Action.bind_apply, asked_unloaded hrequest hload] at hcode
    cases hcode
  | ok config =>
    rw [script_perform hrequest hread hload, perform] at hcode ⊢
    have hline := @performConfig_ok changes config ⟨p, linesOf input, greeting request.isVerbose config⟩
      hload hcode
    exact ⟨hline.1, config, hload, hline.2⟩

section Run
variable {texts : List Text} {request : Request} (hrequest : Request.ofTexts texts = .ok request)
  (hread : request.read request.arguments = .ok (.config changes)) (hload : Config.load p = (.ok config, p))
include hrequest hread hload

/-- A line that changes some settings saves the configuration and says so. -/
theorem run_saves {p' : Premises} {target : Disk.Path} (hbackend : KnowsBackend changes)
    (hsome : Changes.isSome changes = true)
    (hsave : (config.change (Changes.toList changes)).save p = (.ok target, p')) (input : Text) :
    run texts input p =
      (0, greeting request.isVerbose config ++ "✓ Configuration updated!\n".toText, p') := by
  have hupdate := @update_saved changes config p hload
  rw [run, code_apply, script_perform hrequest hread hload, perform, performConfig_known hbackend, configure,
    if_pos hsome, Action.bind_apply, Script.onPremises]
  simp only [hupdate, hsave]
  rfl

/-- A line that changes nothing shows the configuration. -/
theorem run_shows (hbackend : changes.backend = none) (hsome : Changes.isSome changes = false) (input : Text) :
    run texts input p = (0, greeting request.isVerbose config ++
      (Json.render .indentedAscii 0 config.toValue ++ "\n".toText), p) := by
  have hknown : KnowsBackend changes := by
    unfold KnowsBackend
    rw [hbackend]
    exact nofun
  have hshows := @configure_shows changes config ⟨p, linesOf input, greeting request.isVerbose config⟩
    hload hsome
  rw [run, code_apply, script_perform hrequest hread hload, perform, performConfig_known hknown, hshows]
  rfl

end Run

end Configuring

/-! ## Runs of lines -/

/-- Lines that are accepted one after another, each of which changes or shows the configuration. -/
inductive Configured : Premises → List Changes → Premises → Prop where
  | nil {p : Premises} : Configured p [] p
  | cons {p p' : Premises} {texts : List Text} {input : Text} {changes : Changes} {rest : List Changes} :
      AsksFor texts (.config changes) → (run texts input p).1 = 0 →
      Configured (run texts input p).2.2 rest p' → Configured p (changes :: rest) p'

theorem Configured.next {p p₁ p' : Premises} {texts : List Text} {input out : Text} {changes : Changes}
    {rest : List Changes} (hasks : AsksFor texts (.config changes)) (hrun : run texts input p = (0, out, p₁))
    (hrest : Configured p₁ rest p') : Configured p (changes :: rest) p' := by
  have hcode : (run texts input p).1 = 0 := by rw [hrun]
  refine .cons hasks hcode ?_
  rw [hrun]
  exact hrest

end Command

namespace Config

/-- What is loaded is a configuration, but for texts that are written in the same way. -/
structure Stands (c : Config) (p : Premises) : Prop where
  settled : p.disk.Settled p.home
  loads : ∃ c' : Config, c.Alike c' ∧ load p = (.ok c', p)

open Command

variable {c : Config} {p p' : Premises} {changes : Changes}

/-- One line keeps all settings but those that it gives. -/
theorem Stands.line (h : c.Stands p) {texts : List Text} {input : Text}
    (hasks : AsksFor texts (.config changes)) (hcode : (run texts input p).1 = 0) :
    (c.after changes).Stands (run texts input p).2.2 := by
  obtain ⟨c', hsame, hload⟩ := h.loads
  obtain ⟨hbackend, _, hloaded, hline⟩ := config_line hasks hcode
  obtain rfl := Except.ok.inj (congrArg Prod.fst (hload.symm.trans hloaded))
  cases hsome : Changes.isSome changes with
  | true =>
    rw [hsome, if_pos rfl] at hline
    obtain ⟨target, hsave⟩ := hline
    have hpath : changes.isEmptyPath = false := by
      refine Bool.eq_false_iff.mpr fun hpath => ?_
      rw [Cabinet.Changes.isSome_of_isEmptyPath hpath] at hsome
      cases hsome
    have hchanged := hsame.change changes
    obtain ⟨c'', hsame', hload'⟩ := load_saved hchanged.isLiteral h.settled hsave
    rw [after, hpath, if_neg Bool.false_ne_true]
    exact ⟨settled_saved h.settled hsave, c'', hchanged.trans hsame', hload'⟩
  | false =>
    rw [hsome, if_neg Bool.false_ne_true] at hline
    rw [hline]
    refine ⟨h.settled, c', fun s => ?_, hload⟩
    have hnone : (if changes.isEmptyPath then none else changes.given s) = none := by
      split
      · rfl
      · next hpath => exact Cabinet.Changes.given_of_not_isSome hsome hbackend (Bool.eq_false_iff.mpr hpath) s
    rw [after_get, hnone, Option.getD_none]
    exact hsame s

/-- So do many lines. -/
theorem Stands.lines {lines : List Changes} (hlines : Configured p lines p') :
    ∀ {c : Config}, c.Stands p → (lines.foldl after c).Stands p' := by
  induction hlines with
  | nil => exact id
  | cons hasks hcode _ ih => exact fun h => ih (h.line hasks hcode)

/-- A line without settings shows the configuration. -/
theorem Stands.shows (h : c.Stands p) (input : Text) : run ["config".toText] input p =
    (0, greeting false c ++ (Json.render .indentedAscii 0 c.toValue ++ "\n".toText), p) := by
  obtain ⟨c', hsame, hload⟩ := h.loads
  have hrequest : Request.ofTexts ["config".toText] = .ok ⟨false, readConfig, []⟩ := by cbv
  have hverbose : c.verbose.isTrue = c'.verbose.isTrue := (hsame .verbose).isTrue
  have hgreeting : greeting false c = greeting false c' := by
    rw [greeting, greeting, hverbose]
  rw [hgreeting, hsame.render]
  exact run_shows hrequest rfl hload rfl rfl input

/-- Without a file the configuration is that of the defaults. -/
theorem stands_defaults (hnone : Disk.exists? p.disk (file p) = false) (hhome : p.disk.Settled p.home) :
    defaults.Stands p :=
  ⟨hhome, _, alike_defaults, load_defaults hnone⟩

end Config

/-- After any lines that are accepted, starting without a file, a line without settings shows for each setting
the value given last, or the default, except that a line with no more than an empty path gives nothing. -/
theorem config_shows_last {p p' : Premises} {lines : List Changes} (hlines : Command.Configured p lines p')
    (hnone : Disk.exists? p.disk (Config.file p) = false) (hhome : p.disk.Settled p.home) (input : Text) :
    ∃ shown : Config, Command.run ["config".toText] input p' = (0, Command.greeting false shown ++
        (Json.render .indentedAscii 0 shown.toValue ++ "\n".toText), p') ∧
      ∀ s, shown.get s = (Changes.givenLast lines s).getD (Config.defaults.get s) := by
  have hstands := (Config.stands_defaults hnone hhome).lines hlines
  exact ⟨_, hstands.shows input, fun s => Config.foldl_after_get _ s lines⟩

/-! ## A desk with books -/

namespace Command

/-- A home that is not there yet. -/
def desk : Premises := ⟨[], ⟨["home".toText]⟩, .empty⟩

/-- The same, with a file for the configuration. -/
def deskWith (content : List UInt8) : Premises := { desk with
  disk := [("home".toText, .folder [(".docstore".toText, .folder [("config.json".toText, .file content)])])] }

theorem save_desk (c : Config) : c.save desk = (.ok (Config.file desk), deskWith c.bytes) := rfl

theorem save_deskWith (c : Config) (content : List UInt8) :
    c.save (deskWith content) = (.ok (Config.file desk), deskWith c.bytes) := rfl

theorem load_desk : Config.load desk = (.ok Config.defaults, desk) := Config.load_defaults rfl

/-- A line that changes some settings of the desk. -/
theorem run_desk {texts : List Text} {changes : Changes} {request : Request} {p : Premises} {config : Config}
    (hrequest : Request.ofTexts texts = .ok request)
    (hread : request.read request.arguments = .ok (.config changes))
    (hload : Config.load p = (.ok config, p)) (hp : p = desk ∨ ∃ content, p = deskWith content)
    (hbackend : KnowsBackend changes) (hsome : Changes.isSome changes = true) :
    run texts [] p = (0, greeting request.isVerbose config ++ "✓ Configuration updated!\n".toText,
      deskWith (config.change (Changes.toList changes)).bytes) := by
  obtain rfl | ⟨content, rfl⟩ := hp
  · exact run_saves hrequest hread hload hbackend hsome (save_desk _) []
  · exact run_saves hrequest hread hload hbackend hsome (save_deskWith _ content) []

/-- What was saved on the desk is loaded. -/
theorem load_deskWith {c : Config} (hc : c.IsLiteral) :
    ∃ c', c.Alike c' ∧ Config.load (deskWith c.bytes) = (.ok c', deskWith c.bytes) :=
  Config.load_of_read hc rfl

/-- The books are kept in YAML. -/
def booksLine : List Text := ["config", "--store-path", "~/books", "--backend", "yaml"].map String.toText

/-- Twenty results are shown, without colours. -/
def pageLine : List Text := ["config", "--page-size", "20", "--no-cli-color"].map String.toText

/-- The store has a path without text. -/
def blankLine : List Text := ["config", "--store-path", ""].map String.toText

def books : Changes := ⟨some "yaml".toText, some "~/books".toText, none, none, none⟩

def pages : Changes := ⟨none, none, none, some false, some 20⟩

def blank : Changes := ⟨none, some [], none, none, none⟩

theorem run_booksLine : run booksLine [] desk = (0, "✓ Configuration updated!\n".toText,
    deskWith (Config.defaults.change (Changes.toList books)).bytes) := by
  have hrequest : Request.ofTexts booksLine = .ok ⟨false, readConfig, booksLine.tail⟩ := by cbv
  have hread : readConfig booksLine.tail = .ok (.config books) := by cbv
  exact run_desk hrequest hread load_desk (.inl rfl) (fun _ h => Option.some.inj h ▸ rfl) rfl

theorem load_books : ∃ c', (Config.defaults.change (Changes.toList books)).Alike c' ∧
    Config.load (run booksLine [] desk).2.2 = (.ok c', (run booksLine [] desk).2.2) := by
  rw [run_booksLine]
  exact load_deskWith (Config.alike_defaults.change books).isLiteral

theorem asksFor_booksLine : AsksFor booksLine (.config books) :=
  ⟨⟨false, readConfig, booksLine.tail⟩, by cbv, by cbv⟩

theorem configured_pages : ∃ p', Configured desk [books, pages] p' := by
  have hrequest : Request.ofTexts pageLine = .ok ⟨false, readConfig, pageLine.tail⟩ := by cbv
  have hread : readConfig pageLine.tail = .ok (.config pages) := by cbv
  obtain ⟨c', -, hload⟩ := load_books
  rw [run_booksLine] at hload
  exact ⟨_, .next asksFor_booksLine run_booksLine <|
    .next ⟨_, hrequest, hread⟩ (run_desk hrequest hread hload (.inr ⟨_, rfl⟩) (fun _ h => by cases h) rfl) .nil⟩

theorem configured_blank : ∃ p', Configured desk [books, blank] p' := by
  have hrequest : Request.ofTexts blankLine = .ok ⟨false, readConfig, blankLine.tail⟩ := by cbv
  have hread : readConfig blankLine.tail = .ok (.config blank) := by cbv
  obtain ⟨c', -, hload⟩ := load_books
  rw [run_booksLine] at hload
  exact ⟨_, .next asksFor_booksLine run_booksLine <|
    .next ⟨_, hrequest, hread⟩ (run_shows hrequest hread hload rfl rfl []) .nil⟩

end Command

open Command

theorem config_shows_last_pages : ∃ p', Configured desk [books, pages] p' ∧
    run ["config".toText] [] p' = (0, Json.render .indentedAscii 0 (Config.toValue ⟨.text "yaml".toText,
      .text "~/books".toText, .bool false, .bool false, .int 20⟩) ++ "\n".toText, p') := by
  obtain ⟨p', hlines⟩ := configured_pages
  obtain ⟨⟨b, path, v, l, n⟩, hrun, hshown⟩ := config_shows_last hlines rfl ⟨_, rfl⟩ []
  obtain rfl : b = .text "yaml".toText := hshown .backend
  obtain rfl : path = .text "~/books".toText := hshown .path
  obtain rfl : v = .bool false := hshown .verbose
  obtain rfl : l = .bool false := hshown .color
  obtain rfl : n = .int 20 := hshown .pageSize
  exact ⟨p', hlines, hrun⟩

/-- The configuration of the books with another path. -/
def booksAt (path : Text) : Config := ⟨.text "yaml".toText, .text path, .bool false, .bool true, .int 50⟩

/-- A path without text is accepted, but it is not kept: the path that is shown is the one before. -/
theorem empty_path_lost : ∃ p', Configured desk [books, blank] p' ∧ blank.given .path = some (.text []) ∧
    run ["config".toText] [] p' =
      (0, Json.render .indentedAscii 0 (booksAt "~/books".toText).toValue ++ "\n".toText, p') ∧
    Json.render .indentedAscii 0 (booksAt "~/books".toText).toValue ≠
      Json.render .indentedAscii 0 (booksAt []).toValue := by
  obtain ⟨p', hlines⟩ := configured_blank
  have hstands := (Config.stands_defaults rfl ⟨_, rfl⟩).lines hlines
  exact ⟨p', hlines, rfl, hstands.shows [], by decide +kernel⟩

end Cabinet
