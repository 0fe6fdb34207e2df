import Cabinet.Proofs.Command.Finding
import Cabinet.Proofs.Number.Numeral

/-!
# Options in front of a line

* `Arguments.read_text`, `Arguments.read_flag`, `Arguments.read_other` : reading a line with one more argument in
  front; `Request.ofTexts_named` : a line that starts with the name of a command;
* `Arguments.last?_cons` : what is said of a subject then;
* `Command.searchIn`, `Command.asks_within`, `Command.asks_all` : the searches that a line of `find` asks
  for with an offset and a limit in front, and with `--all`.
-/

namespace Cabinet

namespace Arguments

variable {switches : List Switch} {mixed : Bool} {argument text : Text} {rest : List Text} {a : Arguments}
  {subject : String}

theorem read_text (hdash : argument ≠ "--".toText) (hoption : isOption argument = true)
    (hswitch : readOption switches argument = .ok ⟨[], some ⟨argument, subject⟩⟩)
    (hrest : read switches mixed rest = .ok a) :
    read switches mixed (argument :: text :: rest) =
      .ok ⟨⟨subject, .inr text⟩ :: a.used, a.others⟩ := by
  rw [read, if_neg hdash, if_pos hoption, hswitch]
  simp only [bind, Except.bind, hrest]
  rfl

theorem read_flag {on : Bool} (hdash : argument ≠ "--".toText) (hoption : isOption argument = true)
    (hswitch : readOption switches argument = .ok ⟨[⟨subject, .inl on⟩], none⟩)
    (hrest : read switches mixed rest = .ok a) :
    read switches mixed (argument :: rest) = .ok ⟨⟨subject, .inl on⟩ :: a.used, a.others⟩ := by
  rw [read, if_neg hdash, if_pos hoption, hswitch]
  simp only [bind, Except.bind, hrest]
  rfl

/-- An argument that is no option. -/
theorem read_other (hdash : argument ≠ "--".toText) (hoption : isOption argument = false)
    (hrest : read switches true rest = .ok a) :
    read switches true (argument :: rest) = .ok ⟨a.used, argument :: a.others⟩ := by
  rw [read, if_neg hdash, if_neg (by rw [hoption]; decide), if_pos rfl, hrest]
  rfl

/-- The option in front counts only where there is no other. -/
theorem last?_cons (u : Used) (a : Arguments) (subject : String) :
    last? ⟨u :: a.used, a.others⟩ subject =
      (a.last? subject).or (if u.subject = subject then some u.value else none) := by
  simp only [last?, List.reverse_cons, List.find?_append, Option.map_or]
  congr 1
  by_cases h : u.subject = subject <;> simp [h]

theorem last?_other {other : String} {value : Bool ⊕ Text} (h : other ≠ subject) :
    last? ⟨⟨other, value⟩ :: a.used, a.others⟩ subject = a.last? subject := by
  rw [last?_cons, if_neg h, Option.or_none]

theorem last?_self {value : Bool ⊕ Text} (hnone : a.last? subject = none) :
    last? ⟨⟨subject, value⟩ :: a.used, a.others⟩ subject = some value := by
  rw [last?_cons, hnone, if_pos rfl, Option.none_or]

theorem text?_congr {b : Arguments} (h : b.last? subject = a.last? subject) :
    b.text? subject = a.text? subject := by
  rw [text?, text?, h]

theorem isOn_congr {b : Arguments} (h : b.last? subject = a.last? subject) :
    b.isOn subject = a.isOn subject := by
  rw [isOn, isOn, isOn?, isOn?, h]

theorem integer?_ofNat {n : Nat} (h : a.last? subject = some (.inr (Text.ofNat n))) :
    a.integer? subject = .ok (some (n : Int)) := by
  rw [integer?, text?, h]
  simp only [Number.readInt?_ofNat]

theorem integer?_none (h : a.last? subject = none) : a.integer? subject = .ok none := by
  rw [integer?, text?, h]

end Arguments

/-- A line that starts with the name of a command. -/
theorem Request.ofTexts_named {name : Text} {reader : String × (List Text → Except Usage Command)}
    (hdash : name ≠ "--".toText) (hoption : Arguments.isOption name = false)
    (hreader : (Command.readers.find? fun r => r.1.toText = name) = some reader) (rest : List Text) :
    Request.ofTexts (name :: rest) = .ok ⟨false, reader.2, rest⟩ := by
  have hread : Arguments.read Request.switches false (name :: rest) = .ok ⟨[], name :: rest⟩ := by
    rw [Arguments.read, if_neg hdash, if_neg (by rw [hoption]; decide), if_neg Bool.false_ne_true]
  rw [Request.ofTexts, hread]
  simp only [bind, Except.bind, hreader]
  rfl

namespace Command

open Arguments

/-- The search that arguments ask for, without an offset and a limit. -/
def searchIn (a : Arguments) : Search where
  condition := a.text? "condition"
  projection := a.text? "projection"
  order := a.text? "order"
  offset := 0
  limit := none
  showsAll := a.isOn "all"
  withIds := a.isOn "ids"
  format := (a.text? "format").getD "table".toText

theorem readFind_ok {rest : List Text} {a : Arguments} {offset limit : Option Int}
    (ha : arguments (findSwitches ++ placeSwitches) rest = .ok a) (hothers : a.others = [])
    (hoffset : a.integer? "offset" = .ok offset) (hlimit : a.integer? "limit" = .ok limit) :
    readFind rest = .ok (.find { searchIn a with offset := offset.getD 0, limit := limit } (placeOf a)) := by
  simp only [readFind, ha, noOthers, hothers, hoffset, hlimit, bind, Except.bind]
  rfl

/-- A line that starts with the name of the command. -/
theorem asks_find {rest : List Text} {search : Search} {place : Place}
    (h : readFind rest = .ok (.find search place)) : Asks ("find".toText :: rest) false search place := by
  have hrequest := @Request.ofTexts_named "find".toText ("find", readFind) (by decide) rfl rfl rest
  exact ⟨_, hrequest, rfl, h⟩

section Find
variable {rest : List Text} {a b : Arguments}

/-- Options for the offset and the limit make no other difference to a search. -/
theorem searchIn_eq (h : ∀ subject, subject ∉ ["offset", "limit", "all"] →
      b.last? subject = a.last? subject) :
    searchIn b = { searchIn a with showsAll := b.isOn "all" } ∧ placeOf b = placeOf a := by
  have htext : ∀ subject, subject ∉ ["offset", "limit", "all"] → b.text? subject = a.text? subject :=
    fun subject hsubject => text?_congr (h subject hsubject)
  constructor
  · simp only [searchIn, htext "condition" (by decide), htext "projection" (by decide),
      htext "order" (by decide), isOn_congr (h "ids" (by decide)), htext "format" (by decide)]
  · simp only [placeOf, htext "folder" (by decide), htext "backend" (by decide)]

variable (ha : arguments (findSwitches ++ placeSwitches) rest = .ok a) (hothers : a.others = [])
  (hoffset : a.last? "offset" = none) (hlimit : a.last? "limit" = none)
include ha hothers hoffset hlimit

theorem asks_within (offset limit : Nat) :
    Asks ("find".toText :: "--offset".toText :: Text.ofNat offset :: "--limit".toText ::
        Text.ofNat limit :: rest) false ((searchIn a).window offset limit) (placeOf a) := by
  let limited : Arguments := ⟨⟨"limit", .inr (Text.ofNat limit)⟩ :: a.used, a.others⟩
  let skipped : Arguments := ⟨⟨"offset", .inr (Text.ofNat offset)⟩ :: limited.used, limited.others⟩
  have hlimited : arguments (findSwitches ++ placeSwitches)
      ("--limit".toText :: Text.ofNat limit :: rest) = .ok limited := read_text (by decide) rfl rfl ha
  have hskipped : arguments (findSwitches ++ placeSwitches) ("--offset".toText :: Text.ofNat offset ::
      "--limit".toText :: Text.ofNat limit :: rest) = .ok skipped :=
    read_text (by decide) rfl rfl hlimited
  have hsame : ∀ subject, subject ≠ "offset" → subject ≠ "limit" →
      skipped.last? subject = a.last? subject := fun subject ho hl =>
    (last?_other ho.symm).trans (last?_other hl.symm)
  have hoffset : skipped.last? "offset" = some (.inr (Text.ofNat offset)) :=
    last?_self ((last?_other (by decide)).trans hoffset)
  have hlimit : skipped.last? "limit" = some (.inr (Text.ofNat limit)) :=
    (last?_other (by decide)).trans (last?_self hlimit)
  have hsearch := searchIn_eq fun subject hsubject => hsame subject
    (fun h => hsubject (by simp [h])) fun h => hsubject (by simp [h])
  have hall : skipped.isOn "all" = a.isOn "all" := isOn_congr (hsame "all" (by decide) (by decide))
  have hfind := readFind_ok hskipped hothers (integer?_ofNat hoffset) (integer?_ofNat hlimit)
  rw [hsearch.1, hsearch.2, hall] at hfind
  exact asks_find hfind

theorem asks_all (hall : a.last? "all" = none) :
    Asks ("find".toText :: "--all".toText :: rest) false (searchIn a).whole (placeOf a) := by
  let shown : Arguments := ⟨⟨"all", .inl true⟩ :: a.used, a.others⟩
  have hshown : arguments (findSwitches ++ placeSwitches) ("--all".toText :: rest) = .ok shown :=
    read_flag (by decide) rfl rfl ha
  have hsame : ∀ subject, subject ≠ "all" → shown.last? subject = a.last? subject :=
    fun subject h => last?_other h.symm
  have hoffset : shown.last? "offset" = none := (hsame _ (by decide)).trans hoffset
  have hlimit : shown.last? "limit" = none := (hsame _ (by decide)).trans hlimit
  have hsearch := searchIn_eq fun subject hsubject => hsame subject fun h => hsubject (by simp [h])
  have hall : shown.isOn "all" = true := by
    rw [isOn, isOn?, last?_self hall]
    rfl
  have hfind := readFind_ok hshown hothers (integer?_none hoffset) (integer?_none hlimit)
  rw [hsearch.1, hsearch.2, hall] at hfind
  exact asks_find hfind

end Find

end Command

end Cabinet
