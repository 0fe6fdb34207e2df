import Cabinet.Failure

/-!
# Command lines

* `Usage` : what can be wrong with a command line;
* `Switch` : an option by its names, which either is on or has a text;
* `Arguments` : the options and the other arguments of a line;
* `Arguments.read` : reads a line by the switches that there are.

A long name starts with two hyphens, and its text comes after an equals sign or as the next argument.
A short name is one hyphen and one letter; short names may share their hyphen, and the text of the last
one may follow at once. After two hyphens alone nothing is an option. Of several uses of an option the
last counts.
-/

namespace Cabinet

/-- What can be wrong with a command line. -/
inductive Usage where
  | unknownOption (name : Text)
  | noText (name : Text)
  | unwantedText (name : Text)
  | missingArgument (name : String)
  | unwantedArgument (given : Text)
  | noInteger (given : Text)
  | outOfRange (given : Int)
  | malformedJson (name : String) (e : Json.SyntaxError)
  | noDocument (name : String)
  | noCommand
  | unknownCommand (name : Text)
  | badBackend (given : Value)
  deriving DecidableEq

def Usage.message : Usage → Text
  | .unknownOption name => "No such option: ".toText ++ name
  | .noText name => "Option ".toText ++ name.quoted ++ " requires an argument.".toText
  | .unwantedText name => "Option ".toText ++ name.quoted ++ " does not take a value.".toText
  | .missingArgument name => ("Missing argument '" ++ name ++ "'.").toText
  | .unwantedArgument given => "Got unexpected extra argument (".toText ++ given ++ ")".toText
  | .noInteger given => given.quoted ++ " is not a valid integer.".toText
  | .outOfRange given => Text.ofInt given ++ " is not in the range.".toText
  | .malformedJson name e =>
    ("Invalid value for " ++ name ++ ": invalid JSON: ").toText ++ e.message
  | .noDocument name =>
    ("Invalid value for " ++ name ++ ": expected a non-empty JSON object").toText
  | .noCommand => "Missing command.".toText
  | .unknownCommand name => "No such command ".toText ++ name.quoted ++ ".".toText
  | .badBackend given =>
    given.shown ++ " is not a file backend (choose from json, yaml)".toText

/-- What an option is for. -/
inductive Use where
  | on
  | off
  | text
  deriving DecidableEq, Repr

/-- An option: what it is about, and a name with its use. -/
structure Switch where
  subject : String
  name : String
  use : Use

/-- An option that was used. -/
structure Used where
  subject : String
  /-- The text of an option that has one, otherwise whether the option is on. -/
  value : Bool ⊕ Text

/-- The options and the other arguments of a line, in order. -/
structure Arguments where
  used : List Used
  others : List Text

namespace Arguments

/-- The switch of a name. -/
def switch? (switches : List Switch) (name : Text) : Option Switch :=
  switches.find? fun s => s.name.toText = name

/-- An option whose text is missing: its name, and what it is about. -/
structure Open where
  name : Text
  subject : String

/-- What an argument that starts with a hyphen says. -/
structure Reading where
  used : List Used
  /-- The option that takes the next argument as its text. -/
  waiting : Option Open

/-- An option by its long name, with the text after an equals sign if there is one. -/
def readLong (switches : List Switch) (name : Text) (text : Option Text) : Except Usage Reading :=
  match switch? switches name, text with
  | none, _ => .error (.unknownOption name)
  | some s, none => match s.use with
    | .text => .ok ⟨[], some ⟨name, s.subject⟩⟩
    | use => .ok ⟨[⟨s.subject, .inl (use = .on)⟩], none⟩
  | some s, some t => match s.use with
    | .text => .ok ⟨[⟨s.subject, .inr t⟩], none⟩
    | _ => .error (.unwantedText name)

/-- Options by their letters. -/
def readLetters (switches : List Switch) : Text → Except Usage Reading
  | [] => .ok ⟨[], none⟩
  | p :: rest =>
    let name := [.char '-', p]
    match switch? switches name with
    | none => .error (.unknownOption name)
    | some s => match s.use, rest with
      | .text, [] => .ok ⟨[], some ⟨name, s.subject⟩⟩
      | .text, rest => .ok ⟨[⟨s.subject, .inr rest⟩], none⟩
      | use, rest => do
        let r ← readLetters switches rest
        return ⟨⟨s.subject, .inl (use = .on)⟩ :: r.used, r.waiting⟩

/-- An argument that starts with a hyphen and has more after it. -/
def readOption (switches : List Switch) (argument : Text) : Except Usage Reading :=
  match argument with
  | .char '-' :: .char '-' :: _ =>
    match argument.span (· != .char '=') with
    | (name, []) => readLong switches name none
    | (name, _ :: text) => readLong switches name (some text)
  | _ => readLetters switches (argument.drop 1)

/-- Whether an argument is one or more options. -/
def isOption : Text → Bool
  | .char '-' :: _ :: _ => true
  | _ => false

/-- Reads a line. Unless options may stand among other arguments, the first of the others ends
them. -/
def read (switches : List Switch) (mixed : Bool) : List Text → Except Usage Arguments
  | [] => .ok ⟨[], []⟩
  | argument :: rest =>
    if argument = "--".toText then .ok ⟨[], rest⟩
    else if isOption argument then do
      let r ← readOption switches argument
      match r.waiting with
      | none =>
        let more ← read switches mixed rest
        return ⟨r.used ++ more.used, more.others⟩
      | some o =>
        match rest with
        | [] => throw (.noText o.name)
        | text :: rest =>
          let more ← read switches mixed rest
          return ⟨r.used ++ ⟨o.subject, .inr text⟩ :: more.used, more.others⟩
    else if mixed then do
      let more ← read switches mixed rest
      return ⟨more.used, argument :: more.others⟩
    else .ok ⟨[], argument :: rest⟩

/-- The last use of an option. -/
def last? (a : Arguments) (subject : String) : Option (Bool ⊕ Text) :=
  (a.used.reverse.find? fun u => u.subject = subject).map Used.value

/-- The text of an option. -/
def text? (a : Arguments) (subject : String) : Option Text :=
  match a.last? subject with
  | some (.inr t) => some t
  | _ => none

/-- Whether an option is on, if it was used. -/
def isOn? (a : Arguments) (subject : String) : Option Bool :=
  match a.last? subject with
  | some (.inl b) => some b
  | _ => none

/-- Whether an option is on. -/
def isOn (a : Arguments) (subject : String) : Bool := (a.isOn? subject).getD false

/-- The number of an option. -/
def integer? (a : Arguments) (subject : String) : Except Usage (Option Int) :=
  match a.text? subject with
  | none => .ok none
  | some t => match Number.readInt? t with
    | some n => .ok (some n)
    | none => .error (.noInteger t)

end Arguments

end Cabinet
