import Cabinet.Calendar

/-!
# Written dates and times

* `Moment` : the parts of a written date, and of a written time if there is one;
* `Moment.read?` : a whole text as a date or a time;
* `Moment.hasFullDate` : whether month and day have two digits each;
* `Moment.date`, `Moment.timestamp` : what the parts stand for, if there is such a day.
-/

namespace Cabinet.Yaml

/-- An offset from universal time: none is written, it is zero, or it has hours and minutes. -/
inductive Zone where
  | local
  | universal
  | offset (isNegative : Bool) (hours minutes : Nat)
  deriving DecidableEq, Repr

structure Clock where
  hour : Nat
  minute : Nat
  second : Nat
  /-- The digits after the point. -/
  fraction : List Nat
  zone : Zone
  deriving DecidableEq, Repr

structure Moment where
  year : Nat
  month : Nat
  day : Nat
  /-- Whether month and day have two digits each. -/
  hasFullDate : Bool
  clock : Option Clock
  deriving DecidableEq, Repr

namespace Moment

/-- The digits at the start of a text. -/
def takeDigits : Text → List Nat × Text
  | [] => ([], [])
  | p :: t =>
    match p.asciiDigit? with
    | none => ([], p :: t)
    | some d =>
      let (ds, rest) := takeDigits t
      (d :: ds, rest)

def ofDigits (ds : List Nat) : Nat := ds.foldl (fun n d => n * 10 + d) 0

/-- A number of so many digits. -/
def number? (least greatest : Nat) (t : Text) : Option (List Nat × Text) :=
  let (ds, rest) := takeDigits t
  if least ≤ ds.length ∧ ds.length ≤ greatest then some (ds, rest) else none

def mark? (c : Char) : Text → Option Text
  | [] => none
  | p :: t => if p = .char c then some t else none

def isBlank (p : CodePoint) : Bool := p == .char ' ' || p == .char '\t'

/-- What separates a time from its date: a letter or blanks. -/
def separator? : Text → Option Text
  | [] => none
  | p :: t =>
    if p = .char 'T' ∨ p = .char 't' then some t
    else if isBlank p then some (t.dropWhile isBlank)
    else none

/-- The minutes of an offset, if there are any. -/
def offsetMinutes? : Text → Option Nat
  | [] => some 0
  | t => do
    let (ds, rest) ← number? 2 2 (← mark? ':' t)
    if rest.isEmpty then some (ofDigits ds) else none

/-- The offset at the end of a text. -/
def zone? (t : Text) : Option Zone :=
  match t, t.dropWhile isBlank with
  | [], _ => some .local
  | _, .char 'Z' :: [] => some .universal
  | _, .char c :: rest =>
    if c = '+' ∨ c = '-' then do
      let (ds, rest) ← number? 1 2 rest
      return .offset (c == '-') (ofDigits ds) (← offsetMinutes? rest)
    else none
  | _, _ => none

/-- A time up to the end of a text. -/
def clock? (t : Text) : Option Clock := do
  let (hour, t) ← number? 1 2 t
  let (minute, t) ← number? 2 2 (← mark? ':' t)
  let (second, t) ← number? 2 2 (← mark? ':' t)
  let (fraction, t) := match mark? '.' t with
    | some t => takeDigits t
    | none => ([], t)
  return ⟨ofDigits hour, ofDigits minute, ofDigits second, fraction, ← zone? t⟩

/-- A whole text as a date or a time. -/
def read? (t : Text) : Option Moment := do
  let (year, t) ← number? 4 4 t
  let (month, t) ← number? 1 2 (← mark? '-' t)
  let (day, t) ← number? 1 2 (← mark? '-' t)
  let isFull := month.length == 2 && day.length == 2
  let clock ← if t.isEmpty then some none else (do clock? (← separator? t)).map some
  return ⟨ofDigits year, ofDigits month, ofDigits day, isFull, clock⟩

/-- Millionths from the digits after a point; the seventh digit and those after it do not count. -/
def millionths (fraction : List Nat) : Nat :=
  ofDigits ((fraction ++ List.replicate 6 0).take 6)

def Zone.minutes? : Zone → Option Int
  | .local => none
  | .universal => some 0
  | .offset isNegative hours minutes =>
    let n : Int := hours * 60 + minutes
    some (if isNegative then -n else n)

def date (m : Moment) : Except Calendar.Problem Date := Date.make m.year m.month m.day

def timestamp (m : Moment) (c : Clock) : Except Calendar.Problem Timestamp :=
  Timestamp.make m.year m.month m.day c.hour c.minute c.second (millionths c.fraction)
    (Zone.minutes? c.zone)

end Moment

end Cabinet.Yaml
