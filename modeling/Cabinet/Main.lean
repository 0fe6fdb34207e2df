import Cabinet.Command.Run

/-!
# The program

Runs one command line on the files of the system. What the command may look at is read into a disk, the
command runs on that, and what it changed is written back. So the program only moves bytes: the
configuration of the home folder, and the folder of the store that the command works on.
-/

namespace Cabinet.Program

/-- The string of a path. -/
def pathString (p : Disk.Path) : String := (p.text.toString?).getD ""

/-- Whether a folder stands at a path. -/
def isFolder (p : Disk.Path) : IO Bool := do ((← IO.currentDir) / pathString p).isDir

/-- Whether anything stands at a path. -/
def isThere (p : Disk.Path) : IO Bool := do ((← IO.currentDir) / pathString p).pathExists

/-- The disk with a file more. -/
def withFile (d : Disk) (p : Disk.Path) (content : List UInt8) : Disk :=
  let made := ((Disk.makeFolders d (Disk.splitLast p).1).toOption).getD d
  ((Disk.putFile made p content).toOption).getD made

/-- The disk with a folder more. -/
def withFolder (d : Disk) (p : Disk.Path) : Disk := ((Disk.makeFolders d p).toOption).getD d

/-- Reads what stands at a path, without what stands in a folder there. -/
def readEntry (d : Disk) (p : Disk.Path) : IO Disk := do
  if ← isFolder p then return withFolder d p
  else if ← isThere p then return withFile d p (← IO.FS.readBinFile (pathString p)).toList
  else return d

/-- Reads what stands at a path, and the entries of a folder there. -/
def readFolder (d : Disk) (p : Disk.Path) : IO Disk := do
  let mut d ← readEntry d p
  if ← isFolder p then
    for entry in ← ((← IO.currentDir) / pathString p).readDir do
      d ← readEntry d (p.child entry.fileName.toText)
  return d

/-- The files and folders right in the folder at a path. -/
def entriesAt (d : Disk) (p : Disk.Path) : Disk.Entries :=
  match Disk.lookup d p with
  | .ok (.folder es) => es
  | _ => []

/-- Writes what a command changed in the folder at a path. -/
def writeFolder (before after : Disk) (p : Disk.Path) : IO Unit := do
  if Disk.isFolder after p && !Disk.isFolder before p then IO.FS.createDirAll (pathString p)
  let old := entriesAt before p
  let new := entriesAt after p
  for (name, _) in old do
    if (Disk.Entries.get? new name).isNone then IO.FS.removeFile (pathString (p.child name))
  for (name, node) in new do
    if let .file content := node then
      let isSame := match Disk.Entries.get? old name with
        | some (.file kept) => kept == content
        | _ => false
      if !isSame then IO.FS.writeBinFile (pathString (p.child name)) ⟨content.toArray⟩

/-- The folder of the store that a command line works on, if it names one or the configuration
does. -/
def storeFolder? (texts : List Text) (p : Premises) : Option Disk.Path := do
  let request ← (Request.ofTexts texts).toOption
  let command ← (request.read request.arguments).toOption
  let place ← command.place?
  let folder ← place.folder <|> match (Config.load p).1 with
    | .ok config => match config.path with
      | .text folder => some folder
      | _ => none
    | .error _ => none
  return (Disk.Path.ofText folder).expandHome p.home

/-- Runs a command line, and gives its exit code. -/
def run (texts : List Text) (input : Text) (home : Disk.Path) : IO Nat := do
  let shared := home.child ".config".toText
  let configs := [shared.child "docstore".toText, home.child ".docstore".toText]
  let mut disk : Disk := withFolder [] home
  disk ← readEntry disk shared
  for folder in configs do disk ← readFolder disk folder
  let mut folders := configs
  if let some folder := storeFolder? texts ⟨disk, home, .empty⟩ then
    disk ← readFolder disk folder
    folders := folder :: folders
  let (code, output, premises) := Command.run texts input ⟨disk, home, .empty⟩
  for folder in folders do writeFolder disk premises.disk folder
  IO.print (output.toString?.getD "")
  return code

end Cabinet.Program

open Cabinet in
/-- Runs the command line of the program. Its input is only read where a command may ask. -/
def main (args : List String) : IO UInt32 := do
  let home := Disk.Path.ofText ((← IO.getEnv "HOME").getD ".").toText
  let texts := args.map String.toText
  let input ← if Command.mayAsk texts then (do (← IO.getStdin).readToEnd) else pure ""
  return UInt32.ofNat (← Program.run texts input.toText home)
