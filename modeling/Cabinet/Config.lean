import Cabinet.Store.Open

/-!
# Configuration

What holds unless a command line says otherwise, kept in a JSON file in the home folder.

* `Setting`, `Config` : the settings, and a value for each;
* `Config.toValue`, `Config.ofValue` : a configuration as an object of two objects, and back. A
  setting may have any value, but an object with any other field is no configuration;
* `Config.file` : the file, in `.config` if there is such a folder;
* `Config.load`, `Config.save`, `Config.update` : reading, writing, and changing some settings. A file
  that cannot be read as a configuration counts as one with the defaults, unless its text is not
  well-formed.
-/

namespace Cabinet

inductive Setting where
  | backend
  | path
  | verbose
  | color
  | pageSize
  deriving DecidableEq, Repr

structure Config where
  /-- The backend of the store. -/
  backend : Value
  /-- The folder of the store. -/
  path : Value
  verbose : Value
  color : Value
  /-- How many results a query shows. -/
  pageSize : Value
  deriving DecidableEq

namespace Setting

/-- The name of the object that a setting is a field of. -/
def group : Setting → String
  | .backend | .path => "storage"
  | .verbose | .color | .pageSize => "cli"

/-- The name of the field. -/
def name : Setting → String
  | .backend => "backend"
  | .path => "path"
  | .verbose => "verbose"
  | .color => "color"
  | .pageSize => "page_size"

def all : List Setting := [.backend, .path, .verbose, .color, .pageSize]

/-- The setting that a field of a group is. -/
def ofName? (group : String) (name : Scalar) : Option Setting :=
  all.find? fun s => s.group = group && name = .text s.name.toText

/-- The setting that a full name means: the group, an underscore, and the field. -/
def ofFullName? (name : Scalar) : Option Setting :=
  all.find? fun s => name = .text (s.group ++ "_" ++ s.name).toText

end Setting

namespace Config

def defaults : Config where
  backend := .text "json".toText
  path := .null
  verbose := .bool false
  color := .bool true
  pageSize := .int 50

def get (c : Config) : Setting → Value
  | .backend => c.backend
  | .path => c.path
  | .verbose => c.verbose
  | .color => c.color
  | .pageSize => c.pageSize

def set (c : Config) (v : Value) : Setting → Config
  | .backend => { c with backend := v }
  | .path => { c with path := v }
  | .verbose => { c with verbose := v }
  | .color => { c with color := v }
  | .pageSize => { c with pageSize := v }

/-! ## As a value -/

/-- The settings of a group as fields. -/
def groupFields (c : Config) (group : String) : Document :=
  (Setting.all.filter fun s => s.group = group).map fun s => (.text s.name.toText, c.get s)

def toValue (c : Config) : Value :=
  .object (["storage", "cli"].map fun group => (.text group.toText, .object (c.groupFields group)))

/-- Takes the fields of a group into account. -/
def setFields (group : String) : Config → Document → Except Failure Config
  | c, [] => .ok c
  | c, (name, v) :: rest =>
    match Setting.ofName? group name with
    | some s => setFields group (c.set v s) rest
    | none => .error (.badArguments ("unexpected field ".toText ++ name.shown))

/-- Takes a group into account, if it is there. -/
def setGroup (fields : Document) (group : String) (c : Config) : Except Failure Config :=
  match Document.get? fields (.text group.toText) with
  | none => .ok c
  | some (.object inner) => setFields group c inner
  | some v => .error (.badArguments ("no object: ".toText ++ v.shown))

def ofValue : Value → Except Failure Config
  | .object fields => do setGroup fields "cli" (← setGroup fields "storage" defaults)
  | v => .error (.noMember v.kind "get")

/-! ## In its file -/

/-- The file of the configuration. -/
def file (p : Premises) : Disk.Path :=
  let shared := p.home.child ".config".toText
  let folder := if Disk.exists? p.disk shared then shared.child "docstore".toText
    else p.home.child ".docstore".toText
  folder.child "config.json".toText

/-- The configuration that a file's text stands for. -/
def ofText (t : Text) : Config :=
  match Json.parse t with
  | .error _ => defaults
  | .ok v => ((ofValue v).toOption).getD defaults

def load : Action Premises Config := fun p =>
  match Disk.readFile p.disk (file p) with
  | .error _ => (.ok defaults, p)
  | .ok bytes => match Text.ofUtf8 bytes with
    | .ok t => (.ok (ofText t.withLineFeeds), p)
    | .error e => (.error (.malformedBytes e), p)

/-- The bytes that a configuration is written as, which are all ASCII. -/
def bytes (c : Config) : List UInt8 :=
  (Json.render .indentedAscii 0 c.toValue).map fun p => p.toNat.toUInt8

/-- Writes the file, and gives its path. -/
def save (c : Config) : Action Premises Disk.Path := fun p =>
  let target := file p
  match Disk.makeFolders p.disk (Disk.splitLast target).1 with
  | .error e => (.error (.system e), p)
  | .ok d => match Disk.putFile d target c.bytes with
    | .error e => (.error (.system e), { p with disk := d })
    | .ok d => (.ok target, { p with disk := d })

/-- Gives some settings a value; null leaves a setting as it is. -/
def change (c : Config) (changes : List (Setting × Value)) : Config :=
  changes.foldl (fun c (s, v) => if v = .null then c else c.set v s) c

/-- Changes some settings in the file. -/
def update (changes : List (Setting × Value)) : Action Premises Config := do
  let c := (← load).change changes
  let _ ← save c
  return c

/-- The changes that fields named in full ask for. -/
def changesOf : Document → Except Failure (List (Setting × Value))
  | [] => .ok []
  | (name, v) :: rest =>
    match Setting.ofFullName? name with
    | some s => do return (s, v) :: (← changesOf rest)
    | none => .error (.badArguments ("unexpected field ".toText ++ name.shown))

end Config

end Cabinet
