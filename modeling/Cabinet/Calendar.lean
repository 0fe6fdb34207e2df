import Cabinet.Text.Basic

/-!
# Dates and times

* `Date` : a day of the Gregorian calendar, from year 1 to year 9999;
* `Timestamp` : a day with a time of day, with or without an offset from universal time;
* `Date.make`, `Timestamp.make` : the checked constructors, with the first thing wrong;
* `Date.text`, `Timestamp.text` : the ISO 8601 forms.
-/

namespace Cabinet

structure Date where
  year : Nat
  month : Nat
  day : Nat
  deriving DecidableEq, Repr

/-- A day and a time of day; the offset from universal time is in minutes. -/
structure Timestamp where
  date : Date
  hour : Nat
  minute : Nat
  second : Nat
  microsecond : Nat
  offset : Option Int
  deriving DecidableEq, Repr

/-- What can be wrong with the parts of a date or a time. -/
inductive Calendar.Problem where
  | year (given : Nat)
  | month
  | day
  | hour
  | minute
  | second
  | offset (minutes : Int)
  deriving DecidableEq, Repr

namespace Date

def isLeapYear (y : Nat) : Bool := y % 4 == 0 && (y % 100 != 0 || y % 400 == 0)

def daysInMonth (y m : Nat) : Nat :=
  match m with
  | 2 => if isLeapYear y then 29 else 28
  | 4 | 6 | 9 | 11 => 30
  | _ => 31

/-- The day of a year, a month and a day of the month. -/
def make (year month day : Nat) : Except Calendar.Problem Date :=
  if year = 0 then .error (.year year)
  else if month = 0 || 12 < month then .error .month
  else if day = 0 || daysInMonth year month < day then .error .day
  else .ok ⟨year, month, day⟩

/-- How many days there are before a day, from the first day of year 1 on. -/
def dayNumber (d : Date) : Nat :=
  let before := d.year - 1
  before * 365 + before / 4 - before / 100 + before / 400
    + (List.range (d.month - 1)).foldl (fun n m => n + daysInMonth d.year (m + 1)) 0 + (d.day - 1)

end Date

namespace Calendar

/-- A number in decimal digits, filled with zeros on the left. -/
def padded (width n : Nat) : Text :=
  let digits := Text.ofNat n
  Text.repeated (width - digits.length) '0' ++ digits

/-- A span of minutes as whole days, the rest being seconds. -/
def span (minutes : Int) : Text :=
  let days := minutes / 1440
  let seconds := minutes % 1440 * 60
  "datetime.timedelta(".toText ++ Text.join ", ".toText
    ((if days = 0 then [] else ["days=".toText ++ Text.ofInt days])
      ++ (if seconds = 0 then [] else ["seconds=".toText ++ Text.ofInt seconds])
      ++ (if minutes = 0 then ["0".toText] else []))
    ++ ")".toText

def Problem.message : Problem → Text
  | .year given => "year ".toText ++ Text.ofNat given ++ " is out of range".toText
  | .month => "month must be in 1..12".toText
  | .day => "day is out of range for month".toText
  | .hour => "hour must be in 0..23".toText
  | .minute => "minute must be in 0..59".toText
  | .second => "second must be in 0..59".toText
  | .offset minutes =>
    ("offset must be a timedelta strictly between -timedelta(hours=24) and " ++
      "timedelta(hours=24), not ").toText ++ span minutes ++ ".".toText

end Calendar

open Calendar in
/-- The ISO 8601 form of a day. -/
def Date.text (d : Date) : Text :=
  padded 4 d.year ++ "-".toText ++ padded 2 d.month ++ "-".toText ++ padded 2 d.day

namespace Timestamp

/-- The moment of a day, a time of day and an offset. -/
def make (year month day hour minute second microsecond : Nat) (offset : Option Int) :
    Except Calendar.Problem Timestamp := do
  if let some minutes := offset then
    if minutes.natAbs ≥ 1440 then throw (.offset minutes)
  let date ← Date.make year month day
  if hour ≥ 24 then throw .hour
  if minute ≥ 60 then throw .minute
  if second ≥ 60 then throw .second
  return ⟨date, hour, minute, second, microsecond, offset⟩

/-- Microseconds since the start of year 1, in local time. -/
def localMicroseconds (t : Timestamp) : Int :=
  (((t.date.dayNumber * 24 + t.hour) * 60 + t.minute) * 60 + t.second) * 1000000 + t.microsecond

/-- Whether two times are the same moment. A time without an offset is no moment, and equals only
one that reads the same. -/
def same (t u : Timestamp) : Bool :=
  match t.offset, u.offset with
  | none, none => t == u
  | some a, some b =>
    t.localMicroseconds - a * 60000000 == u.localMicroseconds - b * 60000000
  | _, _ => false

open Calendar in
/-- An offset as hours and minutes with a sign. -/
def offsetText (minutes : Int) : Text :=
  (if minutes < 0 then "-" else "+").toText ++ padded 2 (minutes.natAbs / 60) ++ ":".toText
    ++ padded 2 (minutes.natAbs % 60)

open Calendar in
/-- The ISO 8601 form, with a separator of choice between the day and the time. -/
def text (separator : Char) (t : Timestamp) : Text :=
  t.date.text ++ [.char separator] ++ padded 2 t.hour ++ ":".toText ++ padded 2 t.minute
    ++ ":".toText ++ padded 2 t.second
    ++ (if t.microsecond = 0 then [] else ".".toText ++ padded 6 t.microsecond)
    ++ (match t.offset with
      | none => []
      | some minutes => offsetText minutes)

end Timestamp

end Cabinet
