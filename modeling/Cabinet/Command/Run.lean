import Cabinet.Collection
import Cabinet.Command.Request
import Cabinet.Command.Shell

/-!
# The commands

* `Command.perform` : what a command does;
* `Command.run` : runs a whole command line, with the code it exits with.

The options before the command's name are obeyed before the arguments after it are read. A command that
works on a store opens it first; only the document that `put` stores is read before.
-/

namespace Cabinet

namespace Command

/-! ## Arguments in JSON -/

/-- The value of an argument in JSON. -/
def parseValue (name : String) (t : Text) : Except Usage Value :=
  (Json.parse t).mapError (.malformedJson name ·)

/-- The value of an option in JSON, or null without the option. -/
def parseOption (name : String) : Option Text → Except Usage Value
  | none => .ok .null
  | some t => parseValue name t

/-- The value of an argument that has to be an object with fields. -/
def parseDocument (name : String) (t : Text) : Except Usage Value := do
  match ← parseValue name t with
  | .object (f :: fs) => return .object (f :: fs)
  | _ => throw (.noDocument name)

/-! ## Stores -/

/-- The names of the backends that keep documents in files. -/
def fileBackends : List Text := Format.all.map Format.name

/-- The backend of a store: the one of the command line, unless that is empty, or the configured
one. -/
def backendOf (place : Place) (config : Config) : Except Usage Text :=
  let given : Value := match place.backend with
    | some (p :: t) => .text (p :: t)
    | _ => config.backend
  match given with
  | .text name => if fileBackends.elem name then .ok name else .error (.badBackend given)
  | v => .error (.badBackend v)

/-- The folder of a store: the one of the command line, or the configured one. -/
def folderOf (place : Place) (config : Config) : Script Text := do
  match place.folder with
  | some folder => return folder
  | none =>
    if !config.path.isTrue then
      Script.say "Error: No store directory specified".toText
      Script.say "Either pass --store or set a default with:".toText
      Script.quit "  docstore config --store-path ~/my-store".toText 1
    match config.path with
    | .text folder => return folder
    | v => throw (.failure (.badArguments
        ("expected str, bytes or os.PathLike object, not ".toText ++ v.kind.toText)))

/-- Opens the store of a command; `create` tells whether to make a folder that is missing. No command
makes identifiers. -/
def openPlace (place : Place) (create : Bool) : Script (Collection Premises) := do
  let config ← Script.onPremises Config.load
  let backend ← Script.ofUsage (backendOf place config)
  let folder ← folderOf place config
  let store ← Script.onPremises
    (Premises.openStore backend (some folder) none none create)
  return ⟨store, "_id".toText, return []⟩

/-! ## Showing documents -/

/-- A value as indented JSON. -/
def jsonText (v : Value) : Except Failure Text := (Json.write .indented v).mapError .unwritable

/-- A value as the text of a cell. -/
def cellText : Value → Except Failure Text
  | .null => .ok []
  | .text t => .ok t
  | v => (Json.write .compact v).mapError .unwritable

/-- The fields of a document. -/
def fieldsOf : Value → Document
  | .object fs => fs
  | _ => []

/-- The names of all fields, in the order in which they come up. -/
def columnNames (documents : List Value) : List Scalar :=
  ((documents.flatMap fieldsOf).foldl
    (fun names (name, _) => if names.any (·.same name) then names else name :: names) []).reverse

/-- The heading of a column, which has to be a text. -/
def heading : Scalar → Except Failure Text
  | .text t => .ok t
  | s => .error (.badArguments ("Unable to get render width for ".toText ++ s.shown
      ++ "; a str, Segment, or object with __rich_console__ method is required".toText))

/-- Documents as a table with a column for each field. -/
def tableText (documents : List Value) : Except Failure Text := do
  let names := columnNames documents
  let rows ← documents.mapM fun d => names.mapM fun name => cellText (Document.getD (fieldsOf d) name)
  return Screen.table (← names.mapM heading) rows

/-- Prints documents in a format; every format but JSON is a table. -/
def showDocuments (format : Text) (documents : List Value) : Script Unit := do
  if format = "json".toText then
    Script.echo (← Script.ofExcept (jsonText (.list documents)))
  else if documents.isEmpty then Script.say "No documents found".toText
  else
    let t ← Script.ofExcept (tableText documents)
    match t.toUtf8 with
    | .ok _ => Script.print t
    | .error e => throw (.failure (.loneSurrogate e))

/-- Prints that something was done. -/
def sayDone (t : Text) : Script Unit := Script.say ("✓ ".toText ++ t)

/-- Prints that something was done to so many documents. -/
def sayCount (verb : String) (n : Nat) : Script Unit :=
  sayDone (verb.toText ++ " ".toText ++ Text.ofNat n ++ " document(s)".toText)

/-- An object with one field that is a truth value. -/
def optionOf (name : String) (b : Bool) : Value := .object [(.text name.toText, .bool b)]

/-! ## The commands one by one -/

/-- Runs a query up to its end. -/
def results (query : Cursor Premises) : Script (List Value) :=
  Script.onPremises (Collection.runQuery query Cursor.toList)

/-- How many results a query may show, if there is a limit. -/
def limitOf (search : Search) : Script Value := do
  match search.limit with
  | some n => return .int n
  | none => if search.showsAll then return .null else return (← Script.onPremises Config.load).pageSize

def performFind (search : Search) (place : Place) : Script Unit := do
  let c ← openPlace place false
  let condition ← Script.ofUsage (parseOption "--condition" search.condition)
  let projection ← Script.ofUsage (parseOption "--projection" search.projection)
  let query := c.find (.value condition) (.value projection)
    (if search.withIds then some "_id".toText else none)
  let order ← Script.ofUsage (parseOption "--sort" search.order)
  let query := if order = .null then query else query.sort (.value order)
  let query ← if search.offset = 0 then pure query
    else Script.ofExcept (query.offset (.int search.offset))
  let limit ← limitOf search
  let query ← if limit = .null then pure query else Script.ofExcept (query.limit limit)
  showDocuments search.format (← results query)

def performPut (id document : Text) (place : Place) : Script Unit := do
  let d ← Script.ofUsage (parseDocument "DOCUMENT" document)
  let c ← openPlace place true
  Script.onPremises (c.store.write id d)
  sayDone ("Stored ".toText ++ id)

def performUpdate (condition operators : Text) (single : Bool) (place : Place) : Script Unit := do
  let c ← openPlace place false
  let condition ← Script.ofUsage (parseValue "CONDITION" condition)
  let operators ← Script.ofUsage (parseValue "OPERATORS" operators)
  sayCount "Updated" (← Script.onPremises
    (c.update (.value condition) (.value operators) (optionOf "multi" !single)))

def performModify (condition operators : Text) (order : Option Text) (old : Bool) (place : Place) :
    Script Unit := do
  let c ← openPlace place false
  let condition ← Script.ofUsage (parseValue "CONDITION" condition)
  let order ← Script.ofUsage (parseOption "--sort" order)
  let operators ← Script.ofUsage (parseValue "OPERATORS" operators)
  match ← Script.onPremises (c.findAndModify (.value condition) (.value order) (.value operators)
      (optionOf "new" !old)) with
  | none | some .null => Script.say "No matching document".toText
  | some d => Script.echo (← Script.ofExcept (jsonText d))

def performRemove (condition : Option Text) (single confirmed : Bool) (place : Place) :
    Script Unit := do
  if !confirmed then
    Script.say "This will permanently erase the matching documents.".toText
    if !(← Script.confirm) then Script.quit "Operation cancelled".toText 0
  let c ← openPlace place false
  let condition ← Script.ofUsage (parseOption "--condition" condition)
  sayCount "Removed"
    (← Script.onPremises (c.remove (.value condition) (optionOf "single" single)))

/-- Whether a configuration is to be changed. An empty text alone is no change. -/
def Changes.isSome (changes : Changes) : Bool :=
  !(changes.backend.getD []).isEmpty || !(changes.path.getD []).isEmpty || changes.verbose.isSome
    || changes.color.isSome || changes.pageSize.isSome

/-- The changes as values. -/
def Changes.toList (changes : Changes) : List (Setting × Value) :=
  [(.backend, (changes.backend.map .text).getD .null), (.path, (changes.path.map .text).getD .null),
    (.verbose, (changes.verbose.map .bool).getD .null),
    (.color, (changes.color.map .bool).getD .null),
    (.pageSize, (changes.pageSize.map .int).getD .null)]

def performConfig (changes : Changes) : Script Unit := do
  if let some backend := changes.backend then
    if !fileBackends.elem backend then throw (.usage (.badBackend (.text backend)))
  if Changes.isSome changes then
    let _ ← Script.onPremises (Config.update (Changes.toList changes))
    sayDone "Configuration updated!".toText
  else
    let config ← Script.onPremises Config.load
    Script.echo (Json.render .indentedAscii 0 config.toValue)

/-- What a command does. Only failures of the configuration are not reported. -/
def perform : Command → Script Unit
  | .index place => .reporting do
    let c ← openPlace place false
    (← Script.onPremises c.store.index).forM Script.echo
  | .get id place => .reporting do
    let c ← openPlace place false
    let d ← Script.onPremises (c.store.read id)
    Script.echo (← Script.ofExcept (jsonText (.object d)))
  | .put id document place => .reporting (performPut id document place)
  | .erase id place => .reporting do
    let c ← openPlace place false
    Script.onPremises (c.store.erase id)
    sayDone ("Erased ".toText ++ id)
  | .find search place => .reporting (performFind search place)
  | .count condition place => .reporting do
    let c ← openPlace place false
    let condition ← Script.ofUsage (parseOption "--condition" condition)
    Script.echo (Text.ofNat (← Script.onPremises (c.count (.value condition))))
  | .update condition operators single place =>
    .reporting (performUpdate condition operators single place)
  | .modify condition operators order old place =>
    .reporting (performModify condition operators order old place)
  | .remove condition single confirmed place =>
    .reporting (performRemove condition single confirmed place)
  | .config changes => performConfig changes

/-- A whole command line. -/
def script (texts : List Text) : Script Unit := do
  let request ← Script.ofUsage (Request.ofTexts texts)
  let config ← Script.onPremises Config.load
  if request.isVerbose || config.verbose.isTrue then Script.say "Verbose mode enabled.".toText
  (← Script.ofUsage (request.read request.arguments)).perform

/-- The lines of a text, which may end in any way. -/
def linesOf (t : Text) : List Text :=
  let pieces := Text.splitOn '\n' t.withLineFeeds
  if pieces.getLast? = some [] then pieces.dropLast else pieces

/-- Runs a command line with what can be read: the code that it exits with, what it prints, and the
premises afterwards. -/
def run (texts : List Text) (input : Text) (p : Premises) : Nat × Text × Premises :=
  let (code, s) := (script texts).code ⟨p, linesOf input, []⟩
  (code, s.output, s.premises)

end Command

end Cabinet
