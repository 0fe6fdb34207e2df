import Cabinet.Text.Quoted
import Cabinet.Text.Utf8

/-!
# Files and folders

A disk is the entries of the working folder, each a file or a folder again.

* `Disk.Path` : the steps from the working folder; `Disk.Path.ofText` drops what means nothing;
* `Disk.lookup`, `Disk.change` : what stands at a path, and a change of the folder at a path;
* `Disk.readFile`, `Disk.list`, `Disk.isFile`, `Disk.isFolder`, `Disk.exists?` : looking;
* `Disk.makeFolders`, `Disk.putFile`, `Disk.removeFile`, `Disk.removeTree` : changing;
* `Disk.replaceEntry` : writes a temporary file beside a file and then moves it there.

The entry names of a folder are all different. An absolute path starts at the entry `/`.
-/

namespace Cabinet

inductive Disk.Node where
  | file (content : List UInt8)
  | folder (entries : List (Text × Disk.Node))

/-- The entries of a folder. -/
abbrev Disk.Entries := List (Text × Disk.Node)

/-- The entries of the working folder. -/
abbrev Disk := Disk.Entries

namespace Disk

/-- Why the system refuses to do something. -/
inductive Cause where
  | missing
  | exists
  | notFolder
  | isFolder
  | nameTooLong
  deriving DecidableEq, Repr

/-- A cause, and the path it was met at. -/
structure Error where
  cause : Cause
  path : Text
  deriving DecidableEq, Repr

def Cause.number : Cause → Nat
  | .missing => 2
  | .exists => 17
  | .notFolder => 20
  | .isFolder => 21
  | .nameTooLong => 36

def Cause.message : Cause → String
  | .missing => "No such file or directory"
  | .exists => "File exists"
  | .notFolder => "Not a directory"
  | .isFolder => "Is a directory"
  | .nameTooLong => "File name too long"

def Error.message (e : Error) : Text :=
  "[Errno ".toText ++ Text.ofNat e.cause.number ++ "] ".toText ++ e.cause.message.toText
    ++ ": ".toText ++ e.path.quoted

/-! ## Paths -/

/-- The steps of a path, from the working folder on. -/
structure Path where
  steps : List Text
  deriving DecidableEq, Repr

namespace Path

/-- The step to the folder that absolute paths start at. -/
def top : Text := "/".toText

/-- The path a text means: empty steps and steps to the same folder say nothing. -/
def ofText (t : Text) : Path :=
  let steps := (t.splitOn (.char '/')).filter fun s => !s.isEmpty && s != ".".toText
  ⟨if t.head? = some (.char '/') then top :: steps else steps⟩

/-- The text of a path. -/
def text (p : Path) : Text :=
  match p.steps with
  | [] => ".".toText
  | s :: steps =>
    if s = top then top ++ Text.join "/".toText steps else Text.join "/".toText (s :: steps)

/-- The path of an entry of the folder at a path. -/
def child (p : Path) (name : Text) : Path := ⟨p.steps ++ [name]⟩

/-- Puts the home folder in the place of a first step `~`. -/
def expandHome (p home : Path) : Path :=
  match p.steps with
  | s :: steps => if s = "~".toText then ⟨home.steps ++ steps⟩ else p
  | [] => p

/-- The step that leads back to the folder above. -/
def back : Text := "..".toText

end Path

/-! ## Entries of a folder -/

namespace Entries

def get? : Entries → Text → Option Node
  | [], _ => none
  | (name, node) :: rest, key => if name = key then some node else get? rest key

/-- Puts a node in the place of the entry with a name, or makes a new entry of it. -/
def put : Entries → Text → Node → Entries
  | [], key, node => [(key, node)]
  | (name, old) :: rest, key, node =>
    if name = key then (name, node) :: rest else (name, old) :: put rest key node

def remove (es : Entries) (key : Text) : Entries := es.filter fun e => e.1 != key

def names (es : Entries) : List Text := es.map (·.1)

/-- How many bytes a name takes. -/
def nameLength (name : Text) : Nat :=
  name.foldl (fun n p => match p with
    | .char c => n + (Utf8.encodeChar c).length
    | .surrogate _ => n + 3) 0

/-- Whether a name is longer than the system takes. -/
def isTooLong (name : Text) : Bool := 255 < nameLength name

end Entries

/-! ## Looking -/

/-- What stands behind the steps from a folder on. -/
def find : Entries → List Text → Except Cause Node
  | es, [] => .ok (.folder es)
  | es, name :: rest =>
    if Entries.isTooLong name then .error .nameTooLong
    else match es.get? name, rest with
      | none, _ => .error .missing
      | some (.file content), [] => .ok (.file content)
      | some (.file _), _ :: _ => .error .notFolder
      | some (.folder inner), rest => find inner rest

/-- The steps without those that lead back, behind the steps taken so far, which are given from the
last to the first. Only from a folder a step leads back. -/
def directSteps (d : Disk) : (taken steps : List Text) → Except Cause (List Text)
  | taken, [] => .ok taken.reverse
  | taken, s :: rest =>
    if s = Path.back then do
      match ← find d taken.reverse with
      | .folder _ => directSteps d (taken.drop 1) rest
      | .file _ => throw .notFolder
    else directSteps d (s :: taken) rest

/-- What stands at a path. -/
def lookup (d : Disk) (p : Path) : Except Cause Node := do find d (← directSteps d [] p.steps)

/-- Names the path at which a cause was met. -/
def located {α : Type} (p : Path) (r : Except Cause α) : Except Error α :=
  r.mapError fun cause => ⟨cause, p.text⟩

def readFile (d : Disk) (p : Path) : Except Error (List UInt8) :=
  located p do
    match ← lookup d p with
    | .file content => return content
    | .folder _ => throw .isFolder

/-- The entry names of the folder at a path. -/
def list (d : Disk) (p : Path) : Except Error (List Text) :=
  located p do
    match ← lookup d p with
    | .file _ => throw .notFolder
    | .folder es => return Entries.names es

/-- Whether a file stands at a path. A name that is too long is no name of a file, but an error. -/
def isFile (d : Disk) (p : Path) : Except Error Bool :=
  match lookup d p with
  | .ok (.file _) => .ok true
  | .error .nameTooLong => .error ⟨.nameTooLong, p.text⟩
  | _ => .ok false

def isFolder (d : Disk) (p : Path) : Bool :=
  match lookup d p with
  | .ok (.folder _) => true
  | _ => false

def exists? (d : Disk) (p : Path) : Bool := (lookup d p).toOption.isSome

/-! ## Changing -/

/-- Changes the folder behind the steps from a folder on. -/
def within (change : Entries → Except Cause Entries) : Entries → List Text → Except Cause Entries
  | es, [] => change es
  | es, name :: rest =>
    if Entries.isTooLong name then .error .nameTooLong
    else match es.get? name with
      | none => .error .missing
      | some (.file _) => .error .notFolder
      | some (.folder inner) => do return es.put name (.folder (← within change inner rest))

/-- Makes the folders that are missing behind the steps from a folder on. -/
def makeFoldersAt : Entries → List Text → Except Cause Entries
  | es, [] => .ok es
  | es, name :: rest =>
    if Entries.isTooLong name then .error .nameTooLong
    else match es.get? name, rest with
      | some (.file _), [] => .error .exists
      | some (.file _), _ :: _ => .error .notFolder
      | some (.folder inner), rest => do return es.put name (.folder (← makeFoldersAt inner rest))
      | none, rest => do return es.put name (.folder (← makeFoldersAt [] rest))

/-- Makes the folders that are missing behind some more steps; a folder that a step leads back from
is made, too. -/
def makeSteps : Disk → (taken steps : List Text) → Except Cause Disk
  | d, taken, [] => makeFoldersAt d taken.reverse
  | d, taken, s :: rest =>
    if s = Path.back then do makeSteps (← makeFoldersAt d taken.reverse) (taken.drop 1) rest
    else makeSteps d (s :: taken) rest

def makeFolders (d : Disk) (p : Path) : Except Error Disk := located p (makeSteps d [] p.steps)

/-- Changes the folder at a path. -/
def change (f : Entries → Except Cause Entries) (d : Disk) (p : Path) : Except Cause Disk := do
  within f d (← directSteps d [] p.steps)

/-- Gives a file of a folder its content. -/
def putEntry (name : Text) (content : List UInt8) (es : Entries) : Except Cause Entries :=
  if Entries.isTooLong name then .error .nameTooLong
  else match es.get? name with
    | some (.folder _) => .error .isFolder
    | _ => .ok (es.put name (.file content))

def removeEntry (name : Text) (es : Entries) : Except Cause Entries :=
  if Entries.isTooLong name then .error .nameTooLong
  else match es.get? name with
    | none => .error .missing
    | some (.folder _) => .error .isFolder
    | some (.file _) => .ok (es.remove name)

/-- Moves a file to another name in its folder; a file of that name is replaced. -/
def moveEntry (source target : Text) (es : Entries) : Except Cause Entries :=
  match es.get? source with
  | none => .error .missing
  | some node =>
    if Entries.isTooLong target then .error .nameTooLong
    else match es.get? target with
      | some (.folder _) => .error .isFolder
      | _ => .ok ((es.remove source).put target node)

/-- The path without its last step, and the last step. -/
def splitLast (p : Path) : Path × Text := (⟨p.steps.dropLast⟩, p.steps.getLast?.getD [])

def putFile (d : Disk) (p : Path) (content : List UInt8) : Except Error Disk :=
  let (folder, name) := splitLast p
  located p (change (putEntry name content) d folder)

def removeFile (d : Disk) (p : Path) : Except Error Disk :=
  let (folder, name) := splitLast p
  located p (change (removeEntry name) d folder)

/-- Removes whatever stands at a path. -/
def removeTree (d : Disk) (p : Path) : Except Error Disk :=
  let (folder, name) := splitLast p
  located p (change (fun es => .ok (es.remove name)) d folder)

/-! ## Replacing a file -/

/-- The beginning of the names of temporary files. -/
def temporaryMark : Text := ".tmp-".toText

/-- The temporary name with a number. -/
def temporaryName (ending : Text) (n : Nat) : Text := temporaryMark ++ Text.ofNat n ++ ending

/-- The first temporary name, from a number on, that no entry has; among as many numbers as there
are entries, and one more, there is one. -/
def unusedName (ending : Text) (es : Entries) : (fuel n : Nat) → Text
  | 0, n => temporaryName ending n
  | fuel + 1, n =>
    if (es.get? (temporaryName ending n)).isSome then unusedName ending es fuel (n + 1)
    else temporaryName ending n

/-- Writes a temporary file. Its name is the first result. -/
def makeTemporary (ending : Text) (content : List UInt8) (es : Entries) : Text × Entries :=
  let name := unusedName ending es es.length 0
  (name, es.put name (.file content))

/-- Writes a temporary file and moves it to a name. A move that fails takes the temporary file away
again; its cause is the last result. -/
def replaceEntry (name ending : Text) (content : List UInt8) (es : Entries) :
    Entries × Option Cause :=
  let (temporary, written) := makeTemporary ending content es
  match moveEntry temporary name written with
  | .ok moved => (moved, none)
  | .error cause => (written.remove temporary, some cause)

end Disk

end Cabinet
