import Cabinet.Store.Basic
import Cabinet.Store.Key
import Cabinet.Yaml.Meaning
import Cabinet.Yaml.Writer

/-!
# Stores in a folder

Each document is a file of its own, named by the key of its identifier.

* `Format` : how documents are written to files, and the ending of the files' names;
* `Format.json`, `Format.yaml` : indented JSON, and YAML, which are `Format.all`;
* `Folder.store` : the store over the folder at a path;
* `Folder.openFolder` : makes the folder, or makes sure that it is there.

A file is written under a temporary name first and then moved into its place. Files whose names are
no keys with the ending are not the store's, and neither are temporary ones.
-/

namespace Cabinet

/-- How documents are written to files. -/
structure Format where
  name : Text
  ending : Text
  encode : Value → Except Failure Text
  decode : Text → Except Failure Document

/-- JSON with a line for each item. -/
def Format.json : Format where
  name := "json".toText
  ending := ".json".toText
  encode := Store.encodeJson .indented "json".toText
  decode := Store.decodeJson "json".toText

/-- YAML. Reading it may also fail by a scalar that is not what it looks like. -/
def Format.yaml : Format where
  name := "yaml".toText
  ending := ".yaml".toText
  encode v := .ok (Yaml.write v)
  decode kept :=
    match Yaml.parse kept with
    | .error (.malformed p) => .error (.decode "yaml".toText (.yaml p))
    | .error (.misread m) => .error (.misread m)
    | .ok (.object d) => .ok d
    | .ok _ => .error (.notDocument "yaml".toText)

/-- All formats of stores in folders. -/
def Format.all : List Format := [.json, .yaml]

namespace Folder

/-- The path of an identifier's file. -/
def filePath (format : Format) (folder : Disk.Path) (id : Text) : Except Failure Disk.Path := do
  return folder.child ((← Key.escape id) ++ format.ending)

/-- What a store is refused at a path. -/
def refused {α : Type} (format : Format) (action : FileAction) (p : Disk.Path) (e : Disk.Error) :
    Except Failure α :=
  .error (.file format.name action p.text e)

/-- The text of a file; its lines may end in any way. -/
def readText (format : Format) (file : Disk.Path) (id : Text) (d : Disk) : Except Failure Text :=
  match Disk.readFile d file with
  | .error e => if e.cause = .missing then .error (.notFound id) else refused format .read file e
  | .ok bytes =>
    match Text.ofUtf8 bytes with
    | .error e => .error (.malformedBytes e)
    | .ok t => .ok t.withLineFeeds

def read (format : Format) (folder : Disk.Path) (id : Text) (d : Disk) :
    Except Failure Document := do
  let file ← filePath format folder id
  format.decode (← readText format file id d)

/-- The bytes that a document is written as. -/
def bytesOf (format : Format) (v : Value) : Except Failure (List UInt8) := do
  match (← format.encode v).toUtf8 with
  | .ok bytes => return bytes
  | .error e => throw (.encode format.name (.surrogate e))

/-- The disk after a file was written, or was to be. -/
def write (format : Format) (folder : Disk.Path) (id : Text) (v : Value) : Action Disk Unit :=
  fun d =>
    match filePath format folder id, bytesOf format v with
    | .error e, _ | .ok _, .error e => (.error e, d)
    | .ok file, .ok bytes =>
      match Disk.lookup d folder with
      | .error cause => (.error (.system ⟨cause, folder.text⟩), d)
      | .ok (.file _) => (.error (.system ⟨.notFolder, folder.text⟩), d)
      | .ok (.folder es) =>
        let (es, refusal) :=
          Disk.replaceEntry (Disk.splitLast file).2 format.ending bytes es
        let d := (Disk.change (fun _ => .ok es) d folder).toOption.getD d
        match refusal with
        | none => (.ok (), d)
        | some cause => (refused format .write file ⟨cause, file.text⟩, d)

def erase (format : Format) (folder : Disk.Path) (id : Text) : Action Disk Unit := fun d =>
  match filePath format folder id with
  | .error e => (.error e, d)
  | .ok file =>
    match Disk.removeFile d file with
    | .ok d => (.ok (), d)
    | .error e =>
      if e.cause = .missing then (.error (.notFound id), d) else (refused format .erase file e, d)

def exist (format : Format) (folder : Disk.Path) (id : Text) (d : Disk) : Except Failure Bool := do
  (Disk.isFile d (← filePath format folder id)).mapError .system

/-- The identifier whose file has a name, if the file is the store's. -/
def identifier? (format : Format) (name : Text) : Option Text :=
  if name.endsWith format.ending && !name.startsWith Disk.temporaryMark then
    (Key.unescape (name.take (name.length - format.ending.length))).toOption
  else none

def index (format : Format) (folder : Disk.Path) (d : Disk) : Except Failure (List Text) :=
  match Disk.list d folder with
  | .error e => refused format .list folder e
  | .ok names => .ok ((Text.sort names).filterMap (identifier? format))

/-- The store over the folder at a path. -/
def store (format : Format) (folder : Disk.Path) : Store Disk where
  name := format.name
  read id := fun d => (read format folder id d, d)
  write := write format folder
  erase := erase format folder
  exist id := fun d => (exist format folder id d, d)
  index := fun d => (index format folder d, d)
  escape := Key.escape
  unescape := Key.unescape
  encode := format.encode
  decode := format.decode

/-- Makes a folder with all folders above it, or makes sure that it is there. -/
def openFolder (create : Bool) (folder : Disk.Path) : Action Disk Unit := fun d =>
  if create then
    match Disk.makeFolders d folder with
    | .ok d => (.ok (), d)
    | .error e => (.error (.system e), d)
  else if Disk.isFolder d folder then (.ok (), d)
  else (.error (.noFolder folder.text), d)

end Folder

end Cabinet
