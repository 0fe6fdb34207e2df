import Cabinet.Command.Line
import Cabinet.Command.Screen
import Cabinet.Store.Open

/-!
# Running commands

* `Shell` : what a command runs in, which is the premises of stores, the lines that can be read, and
  what was printed;
* `Halt` : why a command stops early;
* `Script` : a part of a command;
* `Script.echo`, `Script.say` : print a text without colours, or as a screen shows it;
* `Script.confirm` : asks a question;
* `Failure.report` : the line that reports a failure;
* `Script.reporting` : reports failures instead of stopping with them.
-/

namespace Cabinet

structure Shell where
  premises : Premises
  /-- The lines that can be read. -/
  input : List Text
  /-- What was printed. -/
  output : Text

/-- Why a command stops early. -/
inductive Halt where
  | usage (u : Usage)
  | failure (f : Failure)
  | endOfInput
  | exit (code : Nat)

/-- A part of a command. -/
abbrev Script (α : Type) := ExceptT Halt (StateM Shell) α

/-! ## Reports -/

/-- What kinds of failure are told apart. -/
inductive Failure.Family where
  | query
  | notFound
  | storage
  | value
  | unexpected
  deriving DecidableEq, Repr

def Failure.Family.heading : Failure.Family → String
  | .query => "Error: Invalid query: "
  | .notFound => "Error: Not found: "
  | .storage => "Error: Storage failure: "
  | .value => "Error: "
  | .unexpected => "Unexpected error: "

/-- A double that is no number is a bad value; one out of range is unexpected. -/
def Number.Problem.family : Number.Problem → Failure.Family
  | .notANumber => .value
  | .tooLarge | .infinite => .unexpected

def Path.EvalError.family : Path.EvalError → Failure.Family
  | .unknownFunction _ | .arity .. | .variadicArity .. | .argument .. | .zeroStep
  | .pairLength .. => .value
  | .number p => p.family
  | .unordered .. | .containsKind _ | .noNumber _ | .notPairs _ | .notPair _ | .unhashable _
  | .unwritable _ =>
    .unexpected

def Yaml.Misread.family : Yaml.Misread → Failure.Family
  | .calendar _ | .integer .. | .double _ => .value
  | .codePoint n => if n < 0x80000000 then .value else .unexpected
  | .noNumber | .tooLarge | .bool _ | .timestamp => .unexpected

def Failure.family : Failure → Failure.Family
  | .query _ => .query
  | .notFound _ | .noMatch _ | .noFolder _ => .notFound
  | .encode .. | .decode .. | .notDocument _ | .badKey _ | .denied _ | .feigned _ | .file .. =>
    .storage
  | .system e => if e.cause = .missing then .notFound else .unexpected
  | .badIdentifier _ | .noIdentifier _ | .badInteger _ | .malformedBytes _ | .loneSurrogate _
  | .json _ | .unknownBackend _ | .noPath _ | .noRegistry | .unknownOperations _ => .value
  | .number p => p.family
  | .misread m => m.family
  | .expression e => e.family
  | .noInteger _ | .unwritable _ | .noMember .. | .noItems _ | .unhashable _ | .badArguments _
  | .callback _ => .unexpected

/-- The line that reports a failure. -/
def Failure.report (f : Failure) : Text := f.family.heading.toText ++ f.message

namespace Script

/-- Stops with what is wrong with the command line. -/
def ofUsage {α : Type} (r : Except Usage α) : Script α := ExceptT.mk (pure (r.mapError .usage))

def ofExcept {α : Type} (r : Except Failure α) : Script α := ExceptT.mk (pure (r.mapError .failure))

/-- An operation on the premises of stores. -/
def onPremises {α : Type} (a : Action Premises α) : Script α := fun s =>
  let (r, p) := a s.premises
  (r.mapError .failure, { s with premises := p })

/-! ## Printing and reading -/

def print (t : Text) : Script Unit := modify fun s => { s with output := s.output ++ t }

/-- Prints a line. A line with lone surrogates cannot be printed. -/
def printLine (t : Text) : Script Unit := do
  let line := t ++ "\n".toText
  match line.toUtf8 with
  | .ok _ => print line
  | .error e => throw (.failure (.loneSurrogate e))

/-- Prints a text as a line, without colours. -/
def echo (t : Text) : Script Unit := printLine (Screen.plain t)

/-- Prints a text as a line of a screen. -/
def say (t : Text) : Script Unit := printLine (Screen.shown t)

/-- The next line that can be read. -/
def readLine : Script Text := do
  match (← get).input with
  | [] => throw .endOfInput
  | line :: rest =>
    modify fun s => { s with input := rest }
    return line

/-- What an answer to a question means; an empty one means no. -/
def answer? (line : Text) : Option Bool :=
  let word := Text.trim CodePoint.isBlank (line.map CodePoint.asciiLower)
  if word = "y".toText || word = "yes".toText then some true
  else if word = "n".toText || word = "no".toText || word.isEmpty then some false
  else none

/-- Asks until there is an answer; every line but the last is no answer. -/
def ask : (fuel : Nat) → Script Bool
  | 0 => throw .endOfInput
  | fuel + 1 => do
    print "Continue? [y/N]: ".toText
    let line ← readLine
    print (line ++ "\n".toText)
    match answer? line with
    | some b => return b
    | none =>
      print "Error: invalid input\n".toText
      ask fuel

/-- Asks whether to go on. -/
def confirm : Script Bool := do ask ((← get).input.length + 1)

/-! ## Stopping -/

/-- Prints a line and stops. -/
def quit {α : Type} (line : Text) (code : Nat) : Script α := do
  say line
  throw (.exit code)

/-- Reports a failure or the end of the input, and stops. -/
def reporting {α : Type} (a : Script α) : Script α :=
  tryCatch a fun
    | .failure f => quit f.report 1
    | .endOfInput => quit Failure.Family.unexpected.heading.toText 1
    | h => throw h

/-- The exit code that a script ends with. What is not reported has the code of a failure. -/
def code (a : Script Unit) : StateM Shell Nat := do
  match ← a.run with
  | .ok () => return 0
  | .error (.usage _) => return 2
  | .error (.exit code) => return code
  | .error (.failure _) | .error .endOfInput => return 1

end Script

end Cabinet
