import Cabinet.Json.Reader
import Cabinet.Json.Writer
import Cabinet.Proofs.Number.Shortest

/-!
# Reading numbers back

* `Json.Stops` : that a text does not go on a number before it;
* `Json.readMagnitude?_whole`, `Json.readMagnitude?_fraction`, `Json.readMagnitude?_exponent`,
  `Json.readMagnitude?_both` : what is read of each form of a number;
* `Json.readMagnitude?_magnitude` : a double is read from its own digits;
* `Json.readNumber?_ofInt`, `Json.readNumber?_text` : an integer and a double with their signs.
-/

namespace Cabinet.Json

open Digits
open Shortest (ReadsBack)

/-! ## Digits -/

theorem asciiDigit?_char {c : Char} (h : c.isDigit = true) :
    (CodePoint.char c).asciiDigit? = some (c.toNat - '0'.toNat) := by
  have hrange : '0' ≤ c ∧ c ≤ '9' := by
    simpa [Char.isDigit, Char.le_def, UInt32.le_iff_toNat_le] using h
  show (if '0' ≤ c ∧ c ≤ '9' then some (c.toNat - '0'.toNat) else none) = _
  rw [if_pos hrange]

theorem isAsciiDigit_char {c : Char} (h : c.isDigit = true) :
    (CodePoint.char c).isAsciiDigit = true := by
  unfold CodePoint.isAsciiDigit
  rw [asciiDigit?_char h]
  rfl

/-- The value of digits, as they are read and as they are written. -/
theorem natOfDigits_map {ds : List Char} (hds : ∀ c ∈ ds, c.isDigit = true) :
    natOfDigits (ds.map .char) = Nat.ofDigitChars 10 ds 0 := by
  show (ds.map .char).foldl (fun n (p : CodePoint) => n * 10 + p.asciiDigit?.getD 0) 0 = _
  suffices h : ∀ n, (ds.map .char).foldl (fun n (p : CodePoint) => n * 10 + p.asciiDigit?.getD 0) n =
      Nat.ofDigitChars 10 ds n from h 0
  intro n
  induction ds generalizing n with
  | nil => rfl
  | cons c ds ih =>
    rw [List.map_cons, List.foldl_cons, Nat.ofDigitChars_cons,
      asciiDigit?_char (hds c List.mem_cons_self), Option.getD_some, Nat.mul_comm n]
    exact ih (fun d hd => hds d (List.mem_cons_of_mem c hd)) _

/-- A text that does not go on a number before it. -/
def Stops (rest : Text) : Prop :=
  ∀ p, rest.head? = some p → p.isAsciiDigit = false ∧ p ∉ ".eE".toText

theorem takeDigits_append {ds : List Char} {rest : Text} (hds : ∀ c ∈ ds, c.isDigit = true)
    (hrest : ∀ p, rest.head? = some p → p.isAsciiDigit = false) :
    takeDigits (ds.map .char ++ rest) = (ds.map .char, rest) := by
  have hall : ∀ p ∈ ds.map CodePoint.char, p.isAsciiDigit = true := by
    intro p hp
    obtain ⟨c, hc, rfl⟩ := List.mem_map.mp hp
    exact isAsciiDigit_char (hds c hc)
  have hnone : rest.takeWhile CodePoint.isAsciiDigit = [] ∧
      rest.dropWhile CodePoint.isAsciiDigit = rest := by
    cases rest with
    | nil => exact ⟨rfl, rfl⟩
    | cons p rest =>
      have hp : ¬ p.isAsciiDigit = true := by
        rw [hrest p rfl]
        exact Bool.false_ne_true
      exact ⟨List.takeWhile_cons_of_neg hp, List.dropWhile_cons_of_neg hp⟩
  unfold takeDigits
  rw [List.span_eq_takeWhile_dropWhile, List.takeWhile_append_of_pos hall,
    List.dropWhile_append_of_pos hall, hnone.1, hnone.2, List.append_nil]

/-! ## The parts of a number -/

theorem readWhole?_append {ds : List Char} {rest : Text} (hds : IsWhole ds)
    (hrest : ∀ p, rest.head? = some p → p.isAsciiDigit = false) :
    readWhole? (ds.map .char ++ rest) = some (ds.map .char, rest) := by
  rcases hds with rfl | hds
  · rfl
  cases ds with
  | nil => exact absurd rfl hds.ne_nil
  | cons c ds =>
    have hzero : c ≠ '0' := fun h => hds.head_ne (congrArg some h)
    have hread : readWhole? (.char c :: (ds.map .char ++ rest)) =
        if (CodePoint.char c).isAsciiDigit then some (takeDigits (.char c :: (ds.map .char ++ rest)))
        else none := by
      rw [readWhole?.eq_def]
      split
      · next h => exact absurd (CodePoint.char.inj (List.cons.inj h).1) hzero
      · next h => rw [(List.cons.inj h).1, (List.cons.inj h).2]
      · next h => cases h
    show readWhole? (.char c :: (ds.map .char ++ rest)) = _
    rw [hread, if_pos (isAsciiDigit_char (hds.isDigit c List.mem_cons_self))]
    exact congrArg some (takeDigits_append hds.isDigit hrest)

theorem readFraction?_append {ds : List Char} {rest : Text} (hne : ds ≠ [])
    (hds : ∀ c ∈ ds, c.isDigit = true) (hrest : ∀ p, rest.head? = some p → p.isAsciiDigit = false) :
    readFraction? (.char '.' :: (ds.map .char ++ rest)) = some (ds.map .char, rest) := by
  cases ds with
  | nil => exact absurd rfl hne
  | cons c ds =>
    show (if (CodePoint.char c).isAsciiDigit then some (takeDigits (.char c :: (ds.map .char ++ rest)))
      else none) = _
    rw [if_pos (isAsciiDigit_char (hds c List.mem_cons_self))]
    exact congrArg some (takeDigits_append hds hrest)

theorem readFraction?_none {rest : Text} (h : ∀ p, rest.head? = some p → p ≠ .char '.') :
    readFraction? rest = none := by
  unfold readFraction?
  split
  · exact absurd rfl (h _ rfl)
  · rfl

theorem readExponent?_none {rest : Text} (h : ∀ p, rest.head? = some p → p ∉ ".eE".toText) :
    readExponent? rest = none := by
  unfold readExponent?
  split
  · next c rest =>
    have hmem := h _ rfl
    split
    · next hmark =>
      exfalso
      apply hmem
      rcases Bool.or_eq_true _ _ |>.mp hmark with hc | hc <;>
        rw [of_decide_eq_true hc] <;> decide
    · rfl
  · rfl

/-- The sign of an exponent, which is always written. -/
def signOf (negative : Bool) : CodePoint := .char (if negative then '-' else '+')

theorem readExponent?_append {ds : List Char} {rest : Text} (negative : Bool) (hne : ds ≠ [])
    (hds : ∀ c ∈ ds, c.isDigit = true) (hrest : ∀ p, rest.head? = some p → p.isAsciiDigit = false) :
    readExponent? (.char 'e' :: signOf negative :: (ds.map .char ++ rest)) =
      some (Double.signed negative (Nat.ofDigitChars 10 ds 0), rest) := by
  have hdigits := takeDigits_append hds hrest
  rw [← natOfDigits_map hds]
  cases ds with
  | nil => exact absurd rfl hne
  | cons c ds =>
    rw [List.map_cons] at hdigits ⊢
    unfold readExponent? signOf
    cases negative
    · simp only [Bool.false_eq_true, if_false, decide_true, Bool.true_or, if_true, hdigits]
    · simp only [decide_true, Bool.true_or, if_true, hdigits]

/-! ## Numbers without a sign -/

theorem Stops.digit {rest : Text} (h : Stops rest) :
    ∀ p, rest.head? = some p → p.isAsciiDigit = false := fun p hp => (h p hp).1

theorem Stops.mark {rest : Text} (h : Stops rest) :
    ∀ p, rest.head? = some p → p ∉ ".eE".toText := fun p hp => (h p hp).2

theorem Stops.fraction {rest : Text} (h : Stops rest) : readFraction? rest = none := by
  apply readFraction?_none
  rintro p hp rfl
  exact h.mark _ hp (by decide)

theorem not_isDigit_of_char {c : Char} (rest : Text) (h : (CodePoint.char c).isAsciiDigit = false) :
    ∀ p, (CodePoint.char c :: rest).head? = some p → p.isAsciiDigit = false := by
  intro p hp
  obtain rfl := Option.some.inj hp
  exact h

/-- Digits alone are an integer. -/
theorem readMagnitude?_whole {ds : List Char} {rest : Text} (negative : Bool) (hds : IsWhole ds)
    (hrest : Stops rest) :
    readMagnitude? negative (ds.map .char ++ rest) =
      some (.int (Double.signed negative (Nat.ofDigitChars 10 ds 0)), rest) := by
  unfold readMagnitude?
  rw [readWhole?_append hds hrest.digit]
  simp only [Option.bind_eq_bind, Option.bind_some, hrest.fraction, readExponent?_none hrest.mark,
    natOfDigits_map hds.isDigit]
  rfl

/-- Digits, a point and digits are the double nearest to the decimal number. -/
theorem readMagnitude?_fraction {ds places : List Char} {rest : Text} (negative : Bool)
    (hds : IsWhole ds) (hne : places ≠ []) (hplaces : ∀ c ∈ places, c.isDigit = true)
    (hrest : Stops rest) :
    readMagnitude? negative (ds.map .char ++ .char '.' :: (places.map .char ++ rest)) =
      some (.float (Double.ofDecimal negative (Nat.ofDigitChars 10 (ds ++ places) 0)
        (-(places.length : Int))), rest) := by
  have hall := isDigit_append hds.isDigit hplaces
  unfold readMagnitude?
  rw [readWhole?_append hds (not_isDigit_of_char _ (by decide))]
  simp only [Option.bind_eq_bind, Option.bind_some, readFraction?_append hne hplaces hrest.digit,
    readExponent?_none hrest.mark, ← List.map_append, natOfDigits_map hall, List.length_map]
  rfl

/-- Digits and an exponent. -/
theorem readMagnitude?_exponent {ds shown : List Char} {rest : Text} (negative below : Bool)
    (hds : IsWhole ds) (hne : shown ≠ []) (hshown : ∀ c ∈ shown, c.isDigit = true)
    (hrest : Stops rest) :
    readMagnitude? negative
        (ds.map .char ++ .char 'e' :: signOf below :: (shown.map .char ++ rest)) =
      some (.float (Double.ofDecimal negative (Nat.ofDigitChars 10 ds 0)
        (Double.signed below (Nat.ofDigitChars 10 shown 0))), rest) := by
  unfold readMagnitude?
  rw [readWhole?_append hds (not_isDigit_of_char _ (by decide))]
  have hfraction : readFraction? (.char 'e' :: signOf below :: (shown.map .char ++ rest)) = none := rfl
  simp only [Option.bind_eq_bind, Option.bind_some, hfraction,
    readExponent?_append below hne hshown hrest.digit, natOfDigits_map hds.isDigit]
  rfl

/-- Digits, a point, digits and an exponent. -/
theorem readMagnitude?_both {ds places shown : List Char} {rest : Text} (negative below : Bool)
    (hds : IsWhole ds) (hplaces : places ≠ []) (hdigits : ∀ c ∈ places, c.isDigit = true)
    (hne : shown ≠ []) (hshown : ∀ c ∈ shown, c.isDigit = true) (hrest : Stops rest) :
    readMagnitude? negative (ds.map .char ++ .char '.' ::
        (places.map .char ++ .char 'e' :: signOf below :: (shown.map .char ++ rest))) =
      some (.float (Double.ofDecimal negative (Nat.ofDigitChars 10 (ds ++ places) 0)
        (Double.signed below (Nat.ofDigitChars 10 shown 0) - places.length)), rest) := by
  have hall := isDigit_append hds.isDigit hdigits
  have hmark : (CodePoint.char 'e').isAsciiDigit = false := by decide
  unfold readMagnitude?
  rw [readWhole?_append hds (not_isDigit_of_char _ (by decide))]
  simp only [Option.bind_eq_bind, Option.bind_some,
    readFraction?_append hplaces hdigits (not_isDigit_of_char _ hmark),
    readExponent?_append below hne hshown hrest.digit, ← List.map_append, natOfDigits_map hall,
    List.length_map]
  rfl

/-! ## The digits of a double -/

/-- A magnitude in positional notation: what stands on either side of the point. -/
theorem positional_spec {units : Nat} {ds : List Char} {p : Int} (hds : IsNumeral ds)
    (hback : ReadsBack units (Nat.ofDigitChars 10 ds 0) (p - ds.length)) :
    ∃ whole places, Shortest.positional ds p = whole ++ '.' :: places ∧ IsWhole whole ∧
      places ≠ [] ∧ (∀ c ∈ places, c.isDigit = true) ∧
      ReadsBack units (Nat.ofDigitChars 10 (whole ++ places) 0) (-(places.length : Int)) := by
  unfold Shortest.positional
  simp only
  by_cases hp : p ≤ 0
  -- all digits stand behind the point
  · rw [if_pos hp]
    have hexponent : -((List.replicate (-p).toNat '0' ++ ds).length : Int) = p - ds.length := by
      rw [List.length_append, List.length_replicate]
      omega
    have hdigits : Nat.ofDigitChars 10 (['0'] ++ (List.replicate (-p).toNat '0' ++ ds)) 0 =
        Nat.ofDigitChars 10 ds 0 := by
      rw [← ofDigitChars_zeros (-p).toNat ds]
      exact ofDigitChars_zeros 1 _
    refine ⟨['0'], List.replicate (-p).toNat '0' ++ ds, rfl, .inl rfl, ?_,
      isDigit_append (isDigit_zeros _) hds.isDigit, ?_⟩
    · intro hnil
      exact hds.ne_nil (List.append_eq_nil_iff.mp hnil).2
    · rw [hexponent, hdigits]
      exact hback
  rw [if_neg hp]
  by_cases hwhole : ds.length ≤ p.toNat
  -- all digits stand in front of the point
  · rw [if_pos hwhole]
    refine ⟨ds ++ List.replicate (p.toNat - ds.length) '0', ['0'], rfl,
      .inr (hds.append (isDigit_zeros _)), List.cons_ne_nil _ _, isDigit_zeros 1, ?_⟩
    have hdigits : Nat.ofDigitChars 10 (ds ++ List.replicate (p.toNat - ds.length) '0' ++ ['0']) 0 =
        Nat.ofDigitChars 10 ds 0 * 10 ^ (p.toNat - ds.length + 1) := by
      rw [List.append_assoc, ← List.replicate_succ', Nat.ofDigitChars_append,
        Nat.ofDigitChars_replicate_zero, Nat.mul_comm]
    have hexponent : -((['0'] : List Char).length : Int) + (p.toNat - ds.length + 1 : Nat) =
        p - ds.length := by
      rw [List.length_singleton]
      omega
    rw [hdigits]
    apply Shortest.readsBack_shift.mpr
    rw [hexponent]
    exact hback
  -- the point stands among the digits
  · rw [if_neg hwhole]
    have hexponent : -((ds.drop p.toNat).length : Int) = p - ds.length := by
      rw [List.length_drop]
      omega
    refine ⟨ds.take p.toNat, ds.drop p.toNat, rfl, .inr (hds.take (by omega)), ?_, ?_, ?_⟩
    · exact fun hnil => hwhole (List.drop_eq_nil_iff.mp hnil)
    · exact fun c hc => hds.isDigit c (List.mem_of_mem_drop hc)
    · rw [hexponent, List.take_append_drop]
      exact hback

/-- The exponent as it is shown. -/
theorem shown_spec (exponent : Int) :
    ∃ shown : List Char, (if (Nat.toDigits 10 exponent.natAbs).length < 2
        then '0' :: Nat.toDigits 10 exponent.natAbs else Nat.toDigits 10 exponent.natAbs) = shown ∧
      shown ≠ [] ∧ (∀ c ∈ shown, c.isDigit = true) ∧
      Double.signed (exponent < 0) (Nat.ofDigitChars 10 shown 0) = exponent := by
  have hsigned : ∀ n : Nat, n = exponent.natAbs → Double.signed (exponent < 0) n = exponent := by
    rintro n rfl
    unfold Double.signed
    split
    · next h =>
      have := of_decide_eq_true h
      omega
    · next h =>
      have : ¬ exponent < 0 := fun hlt => h (decide_eq_true hlt)
      omega
  have hdigit : ∀ c ∈ Nat.toDigits 10 exponent.natAbs, c.isDigit = true :=
    fun c => Nat.isDigit_of_mem_toDigits (by decide) (by decide)
  refine ⟨_, rfl, ?_⟩
  split
  · refine ⟨List.cons_ne_nil _ _, isDigit_append (isDigit_zeros 1) hdigit, hsigned _ ?_⟩
    exact (ofDigitChars_zeros 1 _).trans Nat.ofDigitChars_ten_toDigits
  · exact ⟨Nat.toDigits_ne_nil, hdigit, hsigned _ Nat.ofDigitChars_ten_toDigits⟩

/-- A magnitude in scientific notation is read as a decimal number that reads back. -/
theorem readMagnitude?_scientific {units : Nat} {ds : List Char} {p : Int} {rest : Text}
    (negative : Bool) (hds : IsNumeral ds)
    (hback : ReadsBack units (Nat.ofDigitChars 10 ds 0) (p - ds.length)) (hrest : Stops rest) :
    ∃ digits exponent, ReadsBack units digits exponent ∧
      readMagnitude? negative ((Shortest.scientific ds p).map .char ++ rest) =
        some (.float (Double.ofDecimal negative digits exponent), rest) := by
  obtain ⟨shown, hshown, hne, hdigit, hexponent⟩ := shown_spec (p - 1)
  have hsign : (CodePoint.char (if p - 1 < 0 then '-' else '+')) = signOf (p - 1 < 0) := by
    unfold signOf
    simp only [decide_eq_true_eq]
  unfold Shortest.scientific
  simp only
  rw [hshown]
  cases ds with
  | nil => exact absurd rfl hds.ne_nil
  | cons c ds =>
  cases ds with
  | nil =>
    have hread := readMagnitude?_exponent negative (p - 1 < 0) (.inr hds) hne hdigit hrest
    rw [hexponent] at hread
    refine ⟨Nat.ofDigitChars 10 [c] 0, p - 1, hback, ?_⟩
    simp only [List.map_append, List.map_cons, List.append_assoc, List.cons_append, hsign]
    exact hread
  | cons d ds =>
    have hfirst : IsNumeral [c] := hds.take (n := 1) (by decide)
    have htail : ∀ e ∈ d :: ds, e.isDigit = true :=
      fun e he => hds.isDigit e (List.mem_cons_of_mem c he)
    have hread := readMagnitude?_both negative (p - 1 < 0) (.inr hfirst) (List.cons_ne_nil d ds) htail
      hne hdigit hrest
    have hsame : p - 1 - ((d :: ds).length : Int) = p - ((c :: d :: ds).length : Int) := by
      simp only [List.length_cons]
      omega
    rw [hexponent, hsame] at hread
    refine ⟨Nat.ofDigitChars 10 (c :: d :: ds) 0, p - (c :: d :: ds).length, hback, ?_⟩
    simp only [List.map_append, List.map_cons, List.append_assoc, List.cons_append, hsign]
    exact hread

/-- A magnitude is read from its own digits. -/
theorem readMagnitude?_magnitude {units : Nat} {rest : Text} (hunits : Double.Representable units)
    (negative : Bool) (hrest : Stops rest) :
    readMagnitude? negative ((Shortest.magnitude units).map .char ++ rest) =
      some (.float (.finite negative units hunits), rest) := by
  unfold Shortest.magnitude
  by_cases hzero : units = 0
  · subst hzero
    have hread := readMagnitude?_fraction negative (.inl rfl) (List.cons_ne_nil '0' []) (isDigit_zeros 1) hrest
    have hvalue : Double.ofDecimal negative (Nat.ofDigitChars 10 (['0'] ++ ['0']) 0)
        (-((['0'] : List Char).length : Int)) = .finite negative 0 hunits := by
      unfold Double.ofDecimal
      rw [if_pos (by decide), Double.zero, Double.ofUnits, dif_pos hunits]
    rw [hvalue] at hread
    exact hread
  · rw [if_neg hzero]
    have hpos := Nat.pos_of_ne_zero hzero
    obtain ⟨ds, p, hdigits, hds, hback⟩ := Shortest.digits_spec hunits hpos
    rw [hdigits]
    simp only
    have hvalue : ∀ {digits : Nat} {exponent : Int}, ReadsBack units digits exponent →
        Double.ofDecimal negative digits exponent = .finite negative units hunits :=
      fun h => Double.ofDecimal_eq hunits hpos h negative
    split
    · obtain ⟨whole, places, htext, hwhole, hne, hplaces, hback⟩ := positional_spec hds hback
      have hread := readMagnitude?_fraction negative hwhole hne hplaces hrest
      rw [hvalue hback] at hread
      rw [htext, List.map_append, List.map_cons, List.append_assoc]
      exact hread
    · obtain ⟨digits, exponent, hback, hread⟩ := readMagnitude?_scientific negative hds hback hrest
      rw [hread, hvalue hback]

/-! ## Numbers with their signs -/

/-- A number without a sign begins with a digit. -/
theorem head_of_readMagnitude? {negative : Bool} {t : Text} {found : Value × Text}
    (h : readMagnitude? negative t = some found) :
    ∃ p rest, t = p :: rest ∧ p.isAsciiDigit = true := by
  unfold readMagnitude? at h
  rcases Option.bind_eq_some_iff.mp h with ⟨whole, hwhole, -⟩
  unfold readWhole? at hwhole
  split at hwhole
  · exact ⟨_, _, rfl, by decide⟩
  · next p rest _ =>
    split at hwhole
    · exact ⟨p, rest, rfl, by assumption⟩
    · cases hwhole
  · cases hwhole

theorem readNumber?_of_magnitude {t : Text} {found : Value × Text}
    (h : readMagnitude? false t = some found) : readNumber? t = some found := by
  obtain ⟨p, rest, rfl, hp⟩ := head_of_readMagnitude? h
  unfold readNumber?
  split
  · next heq =>
    obtain ⟨rfl, -⟩ := List.cons.inj heq
    exact absurd hp (by decide)
  · exact h

/-- An integer is read from its own digits. -/
theorem readNumber?_ofInt {rest : Text} (n : Int) (hrest : Stops rest) :
    readNumber? (Text.ofInt n ++ rest) = some (.int n, rest) := by
  have hread : ∀ (negative : Bool) (k : Nat), readMagnitude? negative (Text.ofNat k ++ rest) =
      some (.int (Double.signed negative k), rest) := by
    intro negative k
    have hwhole := readMagnitude?_whole negative (isWhole_toDigits k) hrest
    rwa [Nat.ofDigitChars_ten_toDigits] at hwhole
  cases n with
  | ofNat k => exact readNumber?_of_magnitude (hread false k)
  | negSucc k => exact hread true (k + 1)

/-- A finite double is read from its own digits. -/
theorem readNumber?_text {rest : Text} (negative : Bool) {units : Nat}
    (hunits : Double.Representable units) (hrest : Stops rest) :
    readNumber? ((Double.finite negative units hunits).text ++ rest) =
      some (.float (.finite negative units hunits), rest) := by
  have hread := readMagnitude?_magnitude hunits negative hrest
  cases negative with
  | false => exact readNumber?_of_magnitude hread
  | true => exact hread

end Cabinet.Json
