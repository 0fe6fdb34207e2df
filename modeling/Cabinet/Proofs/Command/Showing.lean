import Cabinet.Proofs.Collection.Returned
import Cabinet.Proofs.Command.Rejected
import Cabinet.Proofs.Cursor.SuccessiveSorts
import Cabinet.Proofs.Store.Backends

/-!
# Lines that show documents

A line that shows a document, or all of them, prints JSON text and leaves everything as it is. What is in a
folder of JSON files always has such a text. A YAML file may hold dates, times and bytes, which have none.

* `Command.showValue` : prints a value as JSON text if it has one, and fails otherwise;
* `Command.StandsFor`, `Command.openPlace_eq` : the folder and the format that a place stands for, and the store
  that is opened there;
* `Command.perform_get`, `Command.perform_everything` : the commands that show one document, and all of them;
* `Command.Shown` : what a line does that shows a value;
* `Command.AsksAt` : a line that asks for a command on the store in a folder; `Command.asksAt_get`,
  `Command.asksAt_everything` : such lines;
* `documents_shown` : what is shown of the documents in a folder; `date_not_shown` : one that is not.
-/

namespace Cabinet

namespace Json

/-- Controls are written as escapes. -/
theorem escape_not_mem (v : Value) : .char '\x1b' ∉ render .indented 0 v := by
  have hascii : HoldsAscii (· ≠ .char '\x1b') := by
    rintro _ hc heq
    obtain rfl := CodePoint.char.inj heq
    exact absurd hc (by decide)
  have hwithin := render_within hascii (Style.within_indented hascii) 0 v
    fun _ _ _ _ _ hp heq => absurd (heq ▸ hp) (by decide)
  exact fun hmem => hwithin _ hmem rfl

/-- What is wrong with a value is said in texts that have bytes. -/
theorem WriteError.message_encodable (e : WriteError) : e.message.Encodable := by
  cases e with
  | value kind =>
    exact ((Text.encodable_toText _).append (Text.encodable_toText _)).append (Text.encodable_toText _)
  | name kind => exact (Text.encodable_toText _).append (Text.encodable_toText _)
  | unordered later earlier =>
    rw [message, unorderedMessage.eq_def]
    split
    · exact Text.encodable_toText _
    · exact Text.encodable_toText _
    · exact Text.encodable_toText _
    · refine ((((Text.encodable_toText _).append ?_).append (Text.encodable_toText _)).append ?_).append
        (Text.encodable_toText _)
      · cases later <;> exact Text.encodable_toText _
      · cases earlier <;> exact Text.encodable_toText _

end Json

namespace Command

open Script

/-! ## Showing a value -/

/-- Prints a value as indented JSON. -/
def showValue (v : Value) : Script Unit := do Script.echo (← Script.ofExcept (jsonText v))

theorem showDocuments_json (docs : List Value) :
    showDocuments "json".toText docs = showValue (.list docs) := by
  rw [showDocuments, if_pos rfl, showValue]

theorem showValue_ok {v : Value} (hv : Json.Writable v) (htexts : v.Encodable) (sh : Shell) : showValue v sh =
    (.ok (), { sh with output := sh.output ++ (Json.render .indented 0 v ++ "\n".toText) }) := by
  have hjson : Script.ofExcept (jsonText v) = pure (Json.render .indented 0 v) := by
    rw [jsonText, Json.write_writable .indented hv]
    rfl
  rw [showValue, hjson, pure_bind]
  exact echo_eq (Json.escape_not_mem v) (Json.render_encodable hv htexts) sh

theorem showValue_error {v : Value} {e : Json.WriteError} (hcheck : Json.check v = .error e) (sh : Shell) :
    showValue v sh = (.error (.failure (.unwritable e)), sh) := by
  rw [showValue, jsonText, Json.write, hcheck]
  rfl

/-! ## The store of a place -/

/-- The folder and the format that a place stands for, with what is configured. -/
structure StandsFor (place : Place) (config : Config) (path : Text) (format : Format) : Prop where
  backend : backendOf place config = .ok format.name
  folder : place.folder = some path ∨ place.folder = none ∧ config.path = .text path ∧ path ≠ []

/-- A place that says everything stands for that. -/
theorem standsFor_given {format : Format} (hformat : format ∈ Format.all) (path : Text) (config : Config) :
    StandsFor ⟨some path, some format.name⟩ config path format where
  backend := by
    obtain rfl | rfl := Format.cases_all hformat <;> rfl
  folder := .inl rfl

section Place
variable {place : Place} {config : Config} {path : Text} {format : Format} {p : Premises} {s : Store Premises}

theorem folderOf_eq (hplace : StandsFor place config path format) (sh : Shell) :
    folderOf place config sh = (.ok path, sh) := by
  unfold folderOf
  obtain hgiven | ⟨hnone, hpath, hne⟩ := hplace.folder
  · rw [hgiven]
    rfl
  · rw [hnone, hpath]
    cases path with
    | nil => exact absurd rfl hne
    | cons _ _ => rfl

variable (hload : Config.load p = (.ok config, p)) (hplace : StandsFor place config path format)
  (hopen : Premises.openStore format.name (some path) none none false p = (.ok s, p))
include hload hplace hopen

theorem openPlace_eq {sh : Shell} (hsame : sh.premises = p) :
    openPlace place false sh = (.ok ⟨s, "_id".toText, return []⟩, sh) := by
  subst hsame
  rw [openPlace, bind_of_ok (onPremises_of_ok hload), ofUsage_of_ok hplace.backend, pure_bind,
    bind_of_ok (folderOf_eq hplace sh), bind_of_ok (onPremises_of_ok hopen)]
  rfl

theorem perform_get {id : Text} {d : Document} (hread : s.read id p = (.ok d, p)) {sh : Shell}
    (hsame : sh.premises = p) :
    (Command.get id place).perform sh = (showValue (.object d)).reporting sh := by
  rw [perform]
  refine reporting_congr ?_
  have hread : s.read id sh.premises = (.ok d, sh.premises) := by rw [hsame, hread]
  rw [bind_of_ok (openPlace_eq hload hplace hopen hsame), bind_of_ok (onPremises_of_ok hread)]
  rfl

end Place

/-! ## All documents -/

/-- The search for all documents, as JSON. -/
def everything : Search := ⟨none, none, none, 0, none, true, false, "json".toText⟩

section All
variable {s : Store Premises} {p : Premises} {ids : List Text} {doc : Text → Document} (hfolder : IsFolder s)
  (hindex : s.index p = (.ok ids, p)) (hdocs : ∀ id ∈ ids, s.read id p = (.ok (doc id), p))
include hfolder hindex hdocs

/-- A query for all documents gives them in the order of their identifiers. -/
theorem toList_everything : ∃ after, Cursor.toList (Cursor.make s .nothing .nothing none, p) =
    (.ok (ids.map fun id => .object (doc id)), after, p) := by
  let query := Cursor.make s .nothing .nothing none
  have hsteady : Steady s (· = p) (fun _ => []) ids doc :=
    ⟨fun w hw => ⟨p, hw ▸ hindex, rfl, rfl⟩, fun id hid w hw => ⟨p, hw ▸ hdocs id hid, rfl, rfl⟩⟩
  have hready : Cursor.Ready query (· = p) (fun _ => []) ids doc [] p :=
    ⟨hsteady, trivial, rfl, rfl, sound_rewound (o := .still (· = p) (fun _ => []) []) ⟨rfl, rfl⟩ []⟩
  obtain ⟨after, p', hlist⟩ := Cursor.toList_eq hready
  have hstate : (Cursor.toList (query, p)).2.2 = p := toList_premises hfolder p
  rw [hlist] at hstate
  have hgive : query.toGive ids doc = ids.map fun id => .object (doc id) := List.map_map
  exact ⟨after, by rw [hlist, hgive, ← hstate]⟩

theorem perform_everything {place : Place} {sh : Shell} (hsame : sh.premises = p)
    (hplace : openPlace place false sh = (.ok ⟨s, "_id".toText, return []⟩, sh)) :
    (Command.find everything place).perform sh =
      (showValue (.list (ids.map fun id => .object (doc id)))).reporting sh := by
  obtain ⟨after, hlist⟩ := toList_everything hfolder hindex hdocs
  let query := Cursor.make s .nothing .nothing none
  have hquery : queryOf everything place sh = (.ok query, sh) := by
    rw [queryOf, bind_of_ok hplace]
    rfl
  have hresults : results query sh = (.ok (ids.map fun id => .object (doc id)), sh) :=
    results_iff.mpr ⟨after, by rw [hsame]; exact hlist⟩
  have hfound : found everything place sh = (.ok (ids.map fun id => .object (doc id)), sh) :=
    (bind_of_ok hquery).trans hresults
  rw [perform, performFind_eq]
  refine reporting_congr ?_
  rw [bind_of_ok hfound, everything, showDocuments_json]

end All

/-! ## Lines -/

/-- A line asks for a command on the store in a folder, and perhaps that more be said. -/
def AsksAt (config : Config) (path : Text) (format : Format) (texts : List Text) (isVerbose : Bool)
    (command : Place → Command) : Prop :=
  ∃ request place, Request.ofTexts texts = .ok request ∧ request.isVerbose = isVerbose ∧
    request.read request.arguments = .ok (command place) ∧ StandsFor place config path format

/-- What a line does that shows a value, after a text in front. If the value has a JSON text, the line exits
with 0 and prints this text, from which a value that JSON holds as it is is read back. Otherwise it exits with 1
and says what has no text. The premises stay as they are. -/
structure Shown (texts : List Text) (front : Text) (p : Premises) (v : Value) : Prop where
  printed : Json.Writable v → ∀ input,
    run texts input p = (0, front ++ (Json.render .indented 0 v ++ "\n".toText), p)
  readBack : Json.IsJson v →
    Json.Writable v ∧ Json.parse (Json.render .indented 0 v ++ "\n".toText) = .ok v
  refused : ¬ Json.Writable v → ∃ e, Json.check v = .error e ∧ ∀ input,
    run texts input p = (1, front ++ (Screen.shown (Failure.unwritable e).report ++ "\n".toText), p)

theorem shown_of_perform {texts : List Text} {request : Request} {command : Command} {config : Config}
    {p : Premises} {v : Value} (hrequest : Request.ofTexts texts = .ok request)
    (hread : request.read request.arguments = .ok command) (hload : Config.load p = (.ok config, p))
    (htexts : v.Encodable)
    (hperform : ∀ sh : Shell, sh.premises = p → command.perform sh = (showValue v).reporting sh) :
    Shown texts (greeting request.isVerbose config) p v := by
  have hscript : ∀ lines, script texts ⟨p, lines, []⟩ =
      (showValue v).reporting ⟨p, lines, greeting request.isVerbose config⟩ := fun lines =>
    (script_perform hrequest hread hload lines).trans (hperform _ rfl)
  refine ⟨fun hv input => ?_, fun hv => ⟨hv.writable, ?_⟩, fun hv => ?_⟩
  · rw [run, code_apply, hscript, reporting, Action.tryCatch_apply, showValue_ok hv htexts]
    rfl
  · have hend : Json.Blank "\n".toText := by unfold Json.Blank; decide
    have hreads := Json.readable Json.Style.legible_indented hv.writable
    rw [hreads.parse_append hend, Json.asRead_eq hv]
  · cases hcheck : Json.check v with
    | ok u => exact absurd (Json.writable_of_check hcheck) hv
    | error e =>
      have hreport : (Failure.unwritable e).report.Encodable :=
        (Text.encodable_toText _).append e.message_encodable
      refine ⟨e, rfl, fun input => ?_⟩
      rw [run, code_apply, hscript, reporting, Action.tryCatch_apply, showValue_error hcheck]
      simp only [quit_eq hreport]
      rfl

/-- A line that asks for one document. -/
def getLine (id path backend : Text) : List Text :=
  ["get".toText, id, "--store".toText, path, "--backend".toText, backend]

/-- A line that asks for all documents. -/
def everythingLine (path backend : Text) : List Text :=
  ["find".toText, "--all".toText, "--format".toText, "json".toText, "--store".toText, path,
    "--backend".toText, backend]

section Lines
variable {path : Text}

theorem read_place {backend : Text} {switches : List Switch}
    (hfolder : Arguments.readOption switches "--store".toText =
      .ok ⟨[], some ⟨"--store".toText, "folder"⟩⟩)
    (hbackend : Arguments.readOption switches "--backend".toText =
      .ok ⟨[], some ⟨"--backend".toText, "backend"⟩⟩) :
    arguments switches ["--store".toText, path, "--backend".toText, backend] =
      .ok ⟨[⟨"folder", .inr path⟩, ⟨"backend", .inr backend⟩], []⟩ := by
  have hnone : Arguments.read switches true [] = .ok ⟨[], []⟩ := rfl
  exact Arguments.read_text (by decide) rfl hfolder (Arguments.read_text (by decide) rfl hbackend hnone)

variable {format : Format} (hformat : format ∈ Format.all) (config : Config)
include hformat

/-- An identifier that starts with a hyphen would be taken for an option. -/
theorem asksAt_get {id : Text} (hid : id.head? ≠ some (.char '-')) :
    AsksAt config path format (getLine id path format.name) false (.get id) := by
  have hrequest := @Request.ofTexts_named "get".toText ("get", readGet) (by decide) rfl rfl
    [id, "--store".toText, path, "--backend".toText, format.name]
  have hdash : id ≠ "--".toText := fun h => hid (by rw [h]; rfl)
  have hoption : Arguments.isOption id = false := by
    unfold Arguments.isOption
    split
    · exact absurd rfl hid
    · rfl
  have hread := Arguments.read_other hdash hoption (@read_place path format.name placeSwitches rfl rfl)
  refine ⟨_, ⟨some path, some format.name⟩, hrequest, rfl, ?_, standsFor_given hformat path config⟩
  show readGet _ = _
  rw [readGet, arguments, hread]
  rfl

theorem asksAt_everything :
    AsksAt config path format (everythingLine path format.name) false (.find everything) := by
  have hplace := @read_place path format.name (findSwitches ++ placeSwitches) rfl rfl
  have hread : arguments (findSwitches ++ placeSwitches) ["--format".toText, "json".toText,
        "--store".toText, path, "--backend".toText, format.name] =
      .ok ⟨[⟨"format", .inr "json".toText⟩, ⟨"folder", .inr path⟩, ⟨"backend", .inr format.name⟩], []⟩ :=
    Arguments.read_text (by decide) rfl rfl hplace
  obtain ⟨request, hrequest, hquiet, hfind⟩ := asks_all hread rfl rfl rfl rfl
  exact ⟨request, ⟨some path, some format.name⟩, hrequest, hquiet, hfind, standsFor_given hformat path config⟩

end Lines

/-! ## The documents in a folder -/

section Folder
variable {p : Premises} {config : Config} {path : Text} {format : Format} {s : Store Premises}
  (hload : Config.load p = (.ok config, p))
  (hopen : Premises.openStore format.name (some path) none none false p = (.ok s, p)) (hfolder : IsFolder s)
  {texts : List Text} {isVerbose : Bool}
include hload hopen hfolder

theorem get_shown {id : Text} {d : Document} (hread : (s.read id p).1 = .ok d)
    (htexts : (Value.object d).Encodable) (hasks : AsksAt config path format texts isVerbose (.get id)) :
    Shown texts (greeting isVerbose config) p (.object d) := by
  obtain ⟨request, place, hrequest, rfl, hcommand, hplace⟩ := hasks
  exact shown_of_perform hrequest hcommand hload htexts fun _ hsame =>
    perform_get hload hplace hopen (hfolder.read_eq hread) hsame

theorem everything_shown {ids : List Text} {doc : Text → Document} (hindex : (s.index p).1 = .ok ids)
    (hdocs : ∀ id ∈ ids, (s.read id p).1 = .ok (doc id) ∧ (Value.object (doc id)).Encodable)
    (hasks : AsksAt config path format texts isVerbose (.find everything)) :
    Shown texts (greeting isVerbose config) p (.list (ids.map fun id => .object (doc id))) := by
  obtain ⟨request, place, hrequest, rfl, hcommand, hplace⟩ := hasks
  have htexts : (Value.list (ids.map fun id => .object (doc id))).Encodable := by
    intro t ht
    rw [Value.scalars, Value.scalarsOfItems_eq, List.flatMap_map] at ht
    obtain ⟨id, hid, ht⟩ := List.mem_flatMap.mp ht
    exact (hdocs id hid).2 t ht
  exact shown_of_perform hrequest hcommand hload htexts fun _ hsame =>
    perform_everything hfolder (hfolder.index_eq hindex) (fun id hid => hfolder.read_eq (hdocs id hid).1) hsame
      (openPlace_eq hload hplace hopen hsame)

end Folder

end Command

open Command

namespace Command

/-- The field with the mappings as the folder that commands start in. -/
def yardPremises : Premises := ⟨Cursor.yard, ⟨["home".toText]⟩, .empty⟩

theorem load_yard : Config.load yardPremises = (.ok Config.defaults, yardPremises) := rfl

theorem open_yard : Premises.openStore Format.yaml.name (some ".".toText) none none false yardPremises =
    (.ok (Premises.folderStore .yaml ⟨[]⟩), yardPremises) := rfl

theorem yard_documents : ∀ id ∈ ["p".toText, "q".toText],
    ((Premises.folderStore .yaml ⟨[]⟩).read id yardPremises).1 = .ok (Cursor.planted id) ∧
      (Value.object (Cursor.planted id)).Encodable := by
  intro id hid
  obtain ⟨_, hread, -⟩ := Cursor.steady_yard.read id hid Cursor.yard rfl
  refine ⟨congrArg Prod.fst hread, fun t ht => ?_⟩
  obtain rfl | rfl : id = "p".toText ∨ id = "q".toText := by simpa using hid
  · have htexts : t = "a".toText ∨ t = "b".toText ∨ t = "x".toText := by
      simpa [Cursor.planted, Value.scalars, Value.scalarsOfFields] using ht
    obtain rfl | rfl | rfl := htexts <;> exact Text.encodable_toText _
  · have htexts : t = "a".toText ∨ t = "b".toText := by
      have hne : "q".toText ≠ "p".toText := by decide
      simpa [Cursor.planted, hne, Value.scalars, Value.scalarsOfFields] using ht
    obtain rfl | rfl := htexts <;> exact Text.encodable_toText _

end Command

namespace Command

/-- A diary in YAML, whose only entry has a day. -/
def diary : Premises where
  disk := [("y".toText, .folder [("a.yaml".toText, .file ("d: 2021-05-06\n".toText.toUtf8.toOption.getD []))])]
  home := ⟨["home".toText]⟩
  shelf := .empty

/-- What is in the entry. -/
def entry : Document := [(.text "d".toText, .scalar (.date ⟨2021, 5, 6⟩))]

theorem load_diary : Config.load diary = (.ok Config.defaults, diary) := rfl

theorem open_diary : Premises.openStore Format.yaml.name (some "y".toText) none none false diary =
    (.ok (Premises.folderStore .yaml ⟨["y".toText]⟩), diary) := rfl

theorem read_diary : ((Premises.folderStore .yaml ⟨["y".toText]⟩).read "a".toText diary).1 = .ok entry := by
  show Folder.read .yaml ⟨["y".toText]⟩ "a".toText diary.disk = .ok entry
  decide +kernel

/-- A line that shows the entry, or a list of it, fails. -/
theorem Shown.entry_refused {texts : List Text} {v : Value}
    (h : Shown texts (greeting false Config.defaults) diary v)
    (hcheck : Json.check v = .error (.value "date")) : run texts [] diary =
      (1, "Unexpected error: Object of type date is not JSON serializable\n".toText, diary) := by
  have hv : ¬ Json.Writable v := by
    intro hv
    rw [Json.check_ok hv] at hcheck
    cases hcheck
  obtain ⟨e, he, hrun⟩ := h.refused hv
  obtain rfl := Except.error.inj (he.symm.trans hcheck)
  rw [hrun]
  rfl

end Command

end Cabinet
