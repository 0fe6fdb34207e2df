import Cabinet.Command.Line
import Cabinet.Config

/-!
# What a command line asks for

* `Place` : where the store of a command is, as far as the line says;
* `Command` : the commands with their arguments; JSON arguments are still text;
* `Command.read` : the command of a name, from the arguments after it;
* `Request` : the options before the name, the name, and the arguments after it.
-/

namespace Cabinet

/-- Where a store is, as far as a command line says. -/
structure Place where
  folder : Option Text
  backend : Option Text

/-- What a query asks for. -/
structure Search where
  condition : Option Text
  projection : Option Text
  order : Option Text
  offset : Int
  limit : Option Int
  showsAll : Bool
  withIds : Bool
  format : Text

/-- The changes of the configuration that a command line asks for. -/
structure Changes where
  backend : Option Text
  path : Option Text
  verbose : Option Bool
  color : Option Bool
  pageSize : Option Int

inductive Command where
  | index (place : Place)
  | get (id : Text) (place : Place)
  | put (id document : Text) (place : Place)
  | erase (id : Text) (place : Place)
  | find (search : Search) (place : Place)
  | count (condition : Option Text) (place : Place)
  | update (condition operators : Text) (single : Bool) (place : Place)
  | modify (condition operators : Text) (order : Option Text) (old : Bool) (place : Place)
  | remove (condition : Option Text) (single confirmed : Bool) (place : Place)
  | config (changes : Changes)

namespace Command

/-! ## Options -/

/-- An option that has a text, with a name or two. -/
def textSwitches (subject : String) (names : List String) : List Switch :=
  names.map fun name => ⟨subject, name, .text⟩

/-- An option that is on when it is used. -/
def flagSwitches (subject : String) (names : List String) : List Switch :=
  names.map fun name => ⟨subject, name, .on⟩

/-- An option that has a name to turn it on and one to turn it off. -/
def toggleSwitches (subject on off : String) : List Switch :=
  [⟨subject, on, .on⟩, ⟨subject, off, .off⟩]

def placeSwitches : List Switch :=
  textSwitches "folder" ["--store", "-d"] ++ textSwitches "backend" ["--backend", "-b"]

def conditionSwitches : List Switch := textSwitches "condition" ["--condition", "-c"]

def orderSwitches : List Switch := textSwitches "order" ["--sort", "-s"]

def findSwitches : List Switch :=
  conditionSwitches ++ textSwitches "projection" ["--projection", "-p"] ++ orderSwitches
    ++ textSwitches "offset" ["--offset"] ++ textSwitches "limit" ["--limit", "-n"]
    ++ flagSwitches "all" ["--all"] ++ flagSwitches "ids" ["--with-id"]
    ++ textSwitches "format" ["--format", "-f"]

def configSwitches : List Switch :=
  textSwitches "backend" ["--backend"] ++ textSwitches "path" ["--store-path"]
    ++ toggleSwitches "verbose" "--cli-verbose" "--no-cli-verbose"
    ++ toggleSwitches "color" "--cli-color" "--no-cli-color"
    ++ textSwitches "size" ["--page-size"]

/-! ## Commands -/

def placeOf (a : Arguments) : Place := ⟨a.text? "folder", a.text? "backend"⟩

/-- No arguments but options. -/
def noOthers (a : Arguments) : Except Usage Unit :=
  match a.others with
  | [] => .ok ()
  | x :: _ => .error (.unwantedArgument x)

/-- One argument beside the options. -/
def one (a : Arguments) (name : String) : Except Usage Text :=
  match a.others with
  | [] => .error (.missingArgument name)
  | [x] => .ok x
  | _ :: y :: _ => .error (.unwantedArgument y)

/-- Two arguments beside the options. -/
def two (a : Arguments) (first second : String) : Except Usage (Text × Text) :=
  match a.others with
  | [] => .error (.missingArgument first)
  | [_] => .error (.missingArgument second)
  | [x, y] => .ok (x, y)
  | _ :: _ :: z :: _ => .error (.unwantedArgument z)

/-- Reads the arguments of a command, whose options may stand anywhere. -/
def arguments (switches : List Switch) (texts : List Text) : Except Usage Arguments :=
  Arguments.read switches true texts

/-- A size of a page, which is one at least. -/
def pageSize? (a : Arguments) : Except Usage (Option Int) := do
  match ← a.integer? "size" with
  | some n => if n < 1 then throw (.outOfRange n) else return some n
  | none => return none

def readIndex (texts : List Text) : Except Usage Command := do
  let a ← arguments placeSwitches texts
  noOthers a
  return .index (placeOf a)

def readGet (texts : List Text) : Except Usage Command := do
  let a ← arguments placeSwitches texts
  return .get (← one a "IDENTIFIER") (placeOf a)

def readPut (texts : List Text) : Except Usage Command := do
  let a ← arguments placeSwitches texts
  let (id, document) ← two a "IDENTIFIER" "DOCUMENT"
  return .put id document (placeOf a)

def readErase (texts : List Text) : Except Usage Command := do
  let a ← arguments placeSwitches texts
  return .erase (← one a "IDENTIFIER") (placeOf a)

def readFind (texts : List Text) : Except Usage Command := do
  let a ← arguments (findSwitches ++ placeSwitches) texts
  noOthers a
  let search : Search := {
    condition := a.text? "condition"
    projection := a.text? "projection"
    order := a.text? "order"
    offset := (← a.integer? "offset").getD 0
    limit := ← a.integer? "limit"
    showsAll := a.isOn "all"
    withIds := a.isOn "ids"
    format := (a.text? "format").getD "table".toText }
  return .find search (placeOf a)

def readCount (texts : List Text) : Except Usage Command := do
  let a ← arguments (conditionSwitches ++ placeSwitches) texts
  noOthers a
  return .count (a.text? "condition") (placeOf a)

def readUpdate (texts : List Text) : Except Usage Command := do
  let a ← arguments (flagSwitches "single" ["--single"] ++ placeSwitches) texts
  let (condition, operators) ← two a "CONDITION" "OPERATORS"
  return .update condition operators (a.isOn "single") (placeOf a)

def readModify (texts : List Text) : Except Usage Command := do
  let a ← arguments (orderSwitches ++ flagSwitches "old" ["--old"] ++ placeSwitches) texts
  let (condition, operators) ← two a "CONDITION" "OPERATORS"
  return .modify condition operators (a.text? "order") (a.isOn "old") (placeOf a)

def readRemove (texts : List Text) : Except Usage Command := do
  let a ← arguments (conditionSwitches ++ flagSwitches "single" ["--single"]
    ++ flagSwitches "yes" ["--yes", "-y"] ++ placeSwitches) texts
  noOthers a
  return .remove (a.text? "condition") (a.isOn "single") (a.isOn "yes") (placeOf a)

def readConfig (texts : List Text) : Except Usage Command := do
  let a ← arguments configSwitches texts
  noOthers a
  let size ← pageSize? a
  return .config ⟨a.text? "backend", a.text? "path", a.isOn? "verbose", a.isOn? "color", size⟩

/-- The place of the store that a command works on. -/
def place? : Command → Option Place
  | .index place | .get _ place | .put _ _ place | .erase _ place | .find _ place | .count _ place
  | .update _ _ _ place | .modify _ _ _ _ place | .remove _ _ _ place => some place
  | .config _ => none

/-- The commands by name. -/
def readers : List (String × (List Text → Except Usage Command)) := [
  ("index", readIndex), ("get", readGet), ("put", readPut), ("erase", readErase),
  ("find", readFind), ("count", readCount), ("update", readUpdate), ("modify", readModify),
  ("remove", readRemove), ("config", readConfig)]

end Command

/-- The options before a command's name, the reader of the command, and what comes after the
name. -/
structure Request where
  isVerbose : Bool
  read : List Text → Except Usage Command
  arguments : List Text

namespace Request

def switches : List Switch :=
  Command.flagSwitches "verbose" ["--verbose", "-v"]
    ++ Command.toggleSwitches "color" "--color" "--no-color"

/-- What a whole command line asks for. -/
def ofTexts (texts : List Text) : Except Usage Request := do
  let a ← Arguments.read switches false texts
  match a.others with
  | [] => throw .noCommand
  | name :: rest =>
    match Command.readers.find? fun r => r.1.toText = name with
    | none => throw (.unknownCommand name)
    | some (_, read) => return ⟨a.isOn "verbose", read, rest⟩

end Request

/-- Whether the command of a command line may ask a question. -/
def Command.mayAsk (texts : List Text) : Bool :=
  match Request.ofTexts texts with
  | .error _ => false
  | .ok request => match request.read request.arguments with
    | .ok (.remove _ _ confirmed _) => !confirmed
    | _ => false

end Cabinet
