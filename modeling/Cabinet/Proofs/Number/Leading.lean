import Cabinet.Proofs.Number.Numeral

/-!
# The longest numeral at the start of a text

* `Numeral.Digits`, `Numeral.Sign`, `Numeral.Mantissa`, `Numeral.Exponent` : the parts of a numeral
  and what they say, `Numeral.Spells` : a whole numeral;
* `Numeral.takeDigits_append`, `Numeral.takeMantissa_append`, `Numeral.takeExponent_append` : a part
  is taken whole, whatever follows it;
* `Numeral.take?_sound`, `Numeral.take?_append` : what is taken is a numeral, and no numeral at the
  start of the text is longer;
* `Numeral.Leads` : the longest numeral at the start of a text, and `Numeral.take?_cases` : it is the
  one that is taken;
* `Numeral.exists_spells_ofInt` : the text of an integer as a numeral.
-/

namespace Cabinet.Numeral

/-! ## Spelling -/

/-- Digits of any script, and their values. -/
def Digits (t : Text) (ds : List Nat) : Prop := List.Forall₂ (fun p d => p.digit? = some d) t ds

/-- A sign or none, and whether it is a minus. -/
inductive Sign : Text → Bool → Prop
  | none : Sign [] false
  | plus : Sign [.char '+'] false
  | minus : Sign [.char '-'] true

/-- Digits with at most one point before, among or after them. -/
inductive Mantissa : Text → List Nat → Option (List Nat) → Prop
  | whole {t ds} (h : Digits t ds) (hne : ds ≠ []) : Mantissa t ds none
  | point {t ds u es} (h : Digits t ds) (hne : ds ≠ []) (h' : Digits u es) :
      Mantissa (t ++ .char '.' :: u) ds (some es)
  | fraction {u es} (h : Digits u es) (hne : es ≠ []) : Mantissa (.char '.' :: u) [] (some es)

/-- An exponent, or none. -/
inductive Exponent : Text → Option Int → Prop
  | none : Exponent [] none
  | some {c s negative t ds} (hc : c = 'e' ∨ c = 'E') (hs : Sign s negative) (h : Digits t ds)
      (hne : ds ≠ []) :
      Exponent (.char c :: (s ++ t)) (some (Double.signed negative (Nat.ofDigits 10 ds.reverse)))

/-- The text of a numeral: a sign, a mantissa and an exponent. -/
def Spells (p : Text) (n : Numeral) : Prop :=
  ∃ s m e, p = s ++ (m ++ e) ∧ Sign s n.negative ∧ Mantissa m n.whole n.fraction ∧ Exponent e n.exponent

/-! ## Digits -/

variable {t u r : Text} {ds : List Nat}

theorem ofDigits_eq (ds : List Nat) : ofDigits ds = Nat.ofDigits 10 ds.reverse := by
  induction ds using List.reverseRecOn with
  | nil => rfl
  | append_singleton ds d ih =>
    rw [List.reverse_concat, Nat.ofDigits_cons, ← ih, ofDigits, List.foldl_append]
    show ofDigits ds * 10 + d = d + 10 * ofDigits ds
    omega

theorem takeDigits_append (h : Digits t ds) (r : Text) :
    takeDigits (t ++ r) = (ds ++ (takeDigits r).1, (takeDigits r).2) := by
  induction h with
  | nil => rfl
  | cons hp _ ih => rw [List.cons_append, takeDigits, hp, ih, List.cons_append]

theorem takeDigits_sound (t : Text) :
    ∃ u, t = u ++ (takeDigits t).2 ∧ Digits u (takeDigits t).1 := by
  induction t with
  | nil => exact ⟨[], rfl, .nil⟩
  | cons p t ih =>
    rw [takeDigits]
    split
    · exact ⟨[], rfl, .nil⟩
    · next d hd =>
      obtain ⟨u, hu, hdigits⟩ := ih
      exact ⟨p :: u, congrArg (p :: ·) hu, .cons hd hdigits⟩

/-- No digit stands where a text has none. -/
theorem takeDigits_none {p : CodePoint} (hp : p.digit? = none) (r : Text) :
    takeDigits (p :: r) = ([], p :: r) := by
  rw [takeDigits, hp]

theorem takeDigits_length_le (t : Text) : (takeDigits t).2.length ≤ t.length := by
  obtain ⟨u, hu, -⟩ := takeDigits_sound t
  have hlength := congrArg List.length hu
  rw [List.length_append] at hlength
  omega

/-- The text goes on with a digit or a point. -/
def GoesOn (r : Text) : Prop := ∃ p, r.head? = some p ∧ (p.digit?.isSome ∨ p = .char '.')

/-- The digits of a text are none, or the text goes on and they leave less of it. -/
theorem takeDigits_cases (r : Text) :
    takeDigits r = ([], r) ∨ (takeDigits r).2.length < r.length ∧ GoesOn r := by
  cases r with
  | nil => exact .inl rfl
  | cons p r =>
    rcases hp : p.digit? with _ | d
    · exact .inl (takeDigits_none hp r)
    · right
      rw [takeDigits, hp]
      exact ⟨Nat.lt_succ_of_le (takeDigits_length_le r), p, rfl, .inl (by rw [hp]; rfl)⟩

/-! ## Signs -/

theorem takeSign_sound (t : Text) : ∃ s, t = s ++ (takeSign t).2 ∧ Sign s (takeSign t).1 := by
  unfold takeSign
  split
  · exact ⟨_, rfl, .minus⟩
  · exact ⟨_, rfl, .plus⟩
  · exact ⟨[], rfl, .none⟩

/-- No sign comes after the first. -/
theorem takeSign_append {s : Text} {negative : Bool} (hs : Sign s negative)
    (hr : r.head? ≠ some (.char '+') ∧ r.head? ≠ some (.char '-')) : takeSign (s ++ r) = (negative, r) := by
  cases hs with
  | plus => rfl
  | minus => rfl
  | none =>
    rw [List.nil_append]
    unfold takeSign
    split
    · exact absurd rfl hr.2
    · exact absurd rfl hr.1
    · rfl

/-- Digits begin with no sign. -/
theorem Digits.head_ne {t : Text} (h : Digits t ds) (hne : ds ≠ []) (r : Text) :
    (t ++ r).head? ≠ some (.char '+') ∧ (t ++ r).head? ≠ some (.char '-') := by
  cases h with
  | nil => exact absurd rfl hne
  | cons hp _ =>
    constructor <;>
    · intro h
      rw [Option.some.inj h] at hp
      cases hp

/-! ## Mantissas -/

/-- The digits and the point at the start of a text. -/
def takeMantissa (t : Text) : Option (List Nat × Option (List Nat) × Text) :=
  let (whole, rest) := takeDigits t
  match rest with
  | .char '.' :: r =>
    let (places, r) := takeDigits r
    if whole = [] ∧ places = [] then none else some (whole, some places, r)
  | r => if whole = [] then none else some (whole, none, r)

theorem take?_eq (t : Text) :
    take? takeDigits t = (takeMantissa (takeSign t).2).map fun m =>
      (⟨(takeSign t).1, m.1, m.2.1, (takeExponent takeDigits m.2.2).1⟩, (takeExponent takeDigits m.2.2).2) := by
  unfold take? takeMantissa
  rcases takeSign t with ⟨negative, u⟩
  simp only
  rcases takeDigits u with ⟨_ | ⟨d, ds⟩, _ | ⟨p, rest⟩⟩
  · rfl
  · by_cases hp : p = .char '.'
    · subst hp
      simp only
      rcases takeDigits rest with ⟨_ | ⟨d, ds⟩, rest⟩ <;> rfl
    · simp [hp]
  · rfl
  · by_cases hp : p = .char '.'
    · subst hp
      rfl
    · simp [hp]

theorem takeMantissa_sound {w : List Nat} {f : Option (List Nat)} (h : takeMantissa t = some (w, f, r)) :
    ∃ m, t = m ++ r ∧ Mantissa m w f := by
  obtain ⟨u, hu, hdigits⟩ := takeDigits_sound t
  unfold takeMantissa at h
  generalize takeDigits t = taken at h hu hdigits
  obtain ⟨whole, rest⟩ := taken
  simp only at h hu hdigits
  split at h
  · next v =>
    obtain ⟨x, hx, hplaces⟩ := takeDigits_sound v
    generalize takeDigits v = taken at h hx hplaces
    split at h
    · cases h
    · next hne =>
      cases h
      rw [hx] at hu
      by_cases hwhole : w = []
      · subst hwhole
        cases hdigits
        exact ⟨_, hu, .fraction hplaces fun h => hne ⟨rfl, h⟩⟩
      · refine ⟨u ++ .char '.' :: x, ?_, .point hdigits hwhole hplaces⟩
        rw [hu, List.append_assoc]
        rfl
  · split at h
    · cases h
    · next hne =>
      cases h
      exact ⟨u, hu, .whole hdigits hne⟩

theorem point_digit? : (CodePoint.char '.').digit? = none := rfl

/-- A mantissa is taken whole, and more if the text goes on. -/
theorem takeMantissa_append {m : Text} {w : List Nat} {f : Option (List Nat)} (h : Mantissa m w f) (r : Text) :
    takeMantissa (m ++ r) = some (w, f, r) ∨
      ∃ w' f' r', takeMantissa (m ++ r) = some (w', f', r') ∧ r'.length < r.length ∧ GoesOn r := by
  have hmore := takeDigits_cases r
  cases h with
  | whole h hne =>
    have hwhole : w ++ (takeDigits r).1 ≠ [] := fun h => hne (List.append_eq_nil_iff.mp h).1
    unfold takeMantissa
    simp only [takeDigits_append h]
    split
    · next v hv =>
      have hless : (takeDigits v).2.length < (takeDigits r).2.length := by
        rw [hv]
        exact Nat.lt_succ_of_le (takeDigits_length_le v)
      rw [if_neg fun h => hwhole h.1]
      refine .inr ⟨_, _, _, rfl, Nat.lt_of_lt_of_le hless (takeDigits_length_le r), ?_⟩
      rcases hmore with hstop | hmore
      · rw [hstop] at hv
        exact ⟨.char '.', congrArg List.head? hv, .inr rfl⟩
      · exact hmore.2
    · rw [if_neg hwhole]
      refine hmore.imp (fun hstop => ?_) fun hmore => ⟨_, _, _, rfl, hmore⟩
      rw [hstop, List.append_nil]
  | point h hne h' =>
    unfold takeMantissa
    rw [List.append_assoc, takeDigits_append h, List.cons_append, takeDigits_none point_digit?]
    simp only [takeDigits_append h', List.append_nil]
    rw [if_neg fun h => hne h.1]
    refine hmore.imp (fun hstop => ?_) fun hmore => ⟨_, _, _, rfl, hmore⟩
    rw [hstop, List.append_nil]
  | fraction h hne =>
    unfold takeMantissa
    rw [List.cons_append, takeDigits_none point_digit?]
    simp only [takeDigits_append h]
    rw [if_neg fun h => hne (List.append_eq_nil_iff.mp h.2).1]
    refine hmore.imp (fun hstop => ?_) fun hmore => ⟨_, _, _, rfl, hmore⟩
    rw [hstop, List.append_nil]

/-- A mantissa begins with no sign. -/
theorem Mantissa.head_ne {m : Text} {w : List Nat} {f : Option (List Nat)} (h : Mantissa m w f) (r : Text) :
    (m ++ r).head? ≠ some (.char '+') ∧ (m ++ r).head? ≠ some (.char '-') := by
  cases h with
  | whole h hne => exact h.head_ne hne r
  | point h hne _ =>
    rw [List.append_assoc]
    exact h.head_ne hne _
  | fraction =>
    constructor <;>
    · intro h
      cases Option.some.inj h

/-! ## Exponents -/

/-- The letter of an exponent counts only if digits follow. -/
theorem takeExponent_letter {c : Char} (hc : c = 'e' ∨ c = 'E') (t : Text) :
    takeExponent takeDigits (.char c :: t) =
      let (ds, r) := takeDigits (takeSign t).2
      if ds = [] then (none, .char c :: t)
      else (some (Double.signed (takeSign t).1 (Nat.ofDigits 10 ds.reverse)), r) := by
  have hletter : (c = 'e' || c = 'E') = true := by simpa using hc
  simp only [takeExponent, hletter, if_true]
  rcases takeDigits (takeSign t).2 with ⟨_ | ⟨d, ds⟩, r⟩
  · rfl
  · rw [if_neg nofun, ← ofDigits_eq]

theorem takeExponent_none (h : ∀ c r, t = .char c :: r → ¬(c = 'e' ∨ c = 'E')) :
    takeExponent takeDigits t = (none, t) := by
  unfold takeExponent
  split
  · next c r => rw [if_neg (by simpa using h c r rfl)]
  · rfl

theorem takeExponent_sound (t : Text) :
    ∃ e, t = e ++ (takeExponent takeDigits t).2 ∧ Exponent e (takeExponent takeDigits t).1 := by
  by_cases hletter : ∃ c r, t = .char c :: r ∧ (c = 'e' ∨ c = 'E')
  · obtain ⟨c, r, rfl, hc⟩ := hletter
    obtain ⟨s, hs, hsign⟩ := takeSign_sound r
    obtain ⟨u, hu, hdigits⟩ := takeDigits_sound (takeSign r).2
    rw [takeExponent_letter hc]
    generalize takeDigits (takeSign r).2 = taken at hu hdigits ⊢
    simp only
    split
    · exact ⟨[], rfl, .none⟩
    · next hne =>
      refine ⟨.char c :: (s ++ u), ?_, .some hc hsign hdigits hne⟩
      rw [List.cons_append, List.append_assoc, ← hu, ← hs]
  · rw [takeExponent_none fun c r ht hc => hletter ⟨c, r, ht, hc⟩]
    exact ⟨[], rfl, .none⟩

/-- An exponent is taken whole, and perhaps more. -/
theorem takeExponent_append {e : Text} {x : Option Int} (h : Exponent e x) (r : Text) :
    takeExponent takeDigits (e ++ r) = (x, r) ∨ (takeExponent takeDigits (e ++ r)).2.length < r.length := by
  cases h with
  | none =>
    obtain ⟨e, he, hexponent⟩ := takeExponent_sound r
    rw [List.nil_append]
    generalize takeExponent takeDigits r = taken at he hexponent ⊢
    obtain ⟨x, r'⟩ := taken
    cases hexponent with
    | none => exact .inl (congrArg (none, ·) he.symm)
    | some =>
      right
      rw [he, List.length_append, List.length_cons]
      omega
  | @some c s negative t ds hc hs h hne =>
    have hsign : takeSign (s ++ t ++ r) = (negative, t ++ r) := by
      rw [List.append_assoc]
      exact takeSign_append hs (h.head_ne hne r)
    have hdigits : ds ++ (takeDigits r).1 ≠ [] := fun h => hne (List.append_eq_nil_iff.mp h).1
    rw [List.cons_append, takeExponent_letter hc, hsign]
    simp only [takeDigits_append h]
    rw [if_neg hdigits]
    refine (takeDigits_cases r).imp (fun hstop => ?_) And.left
    rw [hstop, List.append_nil]

theorem takeExponent_length_le (t : Text) : (takeExponent takeDigits t).2.length ≤ t.length := by
  obtain ⟨e, he, -⟩ := takeExponent_sound t
  have hlength := congrArg List.length he
  rw [List.length_append] at hlength
  omega

/-- An exponent begins with a letter, with which a mantissa does not go on. -/
theorem Exponent.eq_nil {e : Text} {x : Option Int} (h : Exponent e x) (hgoes : GoesOn (e ++ r)) : e = [] := by
  cases h with
  | none => rfl
  | some hc =>
    obtain ⟨p, hp, hgoes⟩ := hgoes
    cases Option.some.inj hp
    obtain rfl | rfl := hc <;> cases hgoes <;> contradiction

/-! ## Numerals -/

theorem take?_sound {n : Numeral} (h : take? takeDigits t = some (n, r)) :
    ∃ p, t = p ++ r ∧ Spells p n := by
  obtain ⟨s, hs, hsign⟩ := takeSign_sound t
  rw [take?_eq, Option.map_eq_some_iff] at h
  obtain ⟨⟨w, f, r'⟩, hmantissa, hn⟩ := h
  obtain ⟨m, hm, hmantissa⟩ := takeMantissa_sound hmantissa
  obtain ⟨e, he, hexponent⟩ := takeExponent_sound r'
  cases hn
  refine ⟨s ++ (m ++ e), ?_, s, m, e, rfl, hsign, hmantissa, hexponent⟩
  rw [List.append_assoc, List.append_assoc, ← he, ← hm, ← hs]

/-- A numeral is taken whole, and perhaps more. -/
theorem take?_append {p : Text} {n : Numeral} (h : Spells p n) (r : Text) :
    take? takeDigits (p ++ r) = some (n, r) ∨
      ∃ n' r', take? takeDigits (p ++ r) = some (n', r') ∧ r'.length < r.length := by
  obtain ⟨s, m, e, rfl, hsign, hmantissa, hexponent⟩ := h
  have htail : s ++ (m ++ e) ++ r = s ++ (m ++ (e ++ r)) := by
    rw [List.append_assoc, List.append_assoc]
  rw [htail, take?_eq, takeSign_append hsign (hmantissa.head_ne _)]
  obtain hm | ⟨w, f, r', hm, hless, hgoes⟩ := takeMantissa_append hmantissa (e ++ r)
  · rw [hm]
    refine (takeExponent_append hexponent r).imp (fun hx => ?_) fun hless => ⟨_, _, rfl, hless⟩
    rw [Option.map_some, hx]
  · rw [hexponent.eq_nil hgoes, List.nil_append] at hless
    rw [hm]
    exact .inr ⟨_, _, rfl, Nat.lt_of_le_of_lt (takeExponent_length_le r') hless⟩

/-- The longest numeral at the start of a text. -/
structure Leads (p : Text) (n : Numeral) (t : Text) : Prop where
  starts : p <+: t
  spells : Spells p n
  longest : ∀ q m, q <+: t → Spells q m → q.length ≤ p.length
  unique : ∀ m, Spells p m → m = n

theorem Spells.take? {p : Text} {n : Numeral} (h : Spells p n) : take? takeDigits p = some (n, []) := by
  have htake := take?_append h []
  rw [List.append_nil] at htake
  obtain htake | ⟨_, _, -, hless⟩ := htake
  · exact htake
  · exact absurd hless (Nat.not_lt_zero _)

/-- A text spells one numeral at most. -/
theorem Spells.unique {p : Text} {n m : Numeral} (hn : Spells p n) (hm : Spells p m) : m = n := by
  have h := hm.take?
  rw [hn.take?] at h
  exact (Prod.mk.inj (Option.some.inj h)).1.symm

/-- What is taken is the longest numeral; where none is taken, the text begins with none. -/
theorem take?_cases (t : Text) :
    (take? takeDigits t = none ∧ ∀ p n, p <+: t → ¬ Spells p n) ∨
      ∃ p n r, take? takeDigits t = some (n, r) ∧ Leads p n t := by
  rcases htake : take? takeDigits t with _ | ⟨n, r⟩
  · refine .inl ⟨rfl, fun p n hp hspells => ?_⟩
    obtain ⟨r, rfl⟩ := hp
    obtain h | ⟨_, _, h, -⟩ := take?_append hspells r <;> rw [h] at htake <;> cases htake
  · obtain ⟨p, rfl, hspells⟩ := take?_sound htake
    refine .inr ⟨p, n, r, rfl, ⟨List.prefix_append p r, hspells, fun q m hq hm => ?_, fun m => hspells.unique⟩⟩
    obtain ⟨r', hr'⟩ := hq
    have hlength := congrArg List.length hr'
    have hle : r.length ≤ r'.length := by
      rw [← hr'] at htake
      obtain h | ⟨_, _, h, hless⟩ := take?_append hm r' <;> rw [h] at htake <;> cases htake
      · exact Nat.le_refl _
      · exact hless.le
    rw [List.length_append, List.length_append] at hlength
    omega

/-! ## Integers -/

/-- A numeral of a sign and digits alone. -/
def IsWhole (n : Numeral) : Prop := n.fraction = none ∧ n.exponent = none

instance (n : Numeral) : Decidable n.IsWhole := inferInstanceAs (Decidable (_ ∧ _))

theorem digits_toDigits (k : Nat) :
    ∃ ds, Digits (Text.ofNat k) ds ∧ ds ≠ [] ∧ Nat.ofDigits 10 ds.reverse = k := by
  have hdigit : ∀ c ∈ Nat.toDigits 10 k, c.isDigit = true := (Digits.isWhole_toDigits k).isDigit
  refine ⟨(Nat.toDigits 10 k).map fun c => c.toNat - '0'.toNat, ?_, ?_, ?_⟩
  · rw [Digits, Text.ofNat, List.forall₂_map_left_iff, List.forall₂_map_right_iff, List.forall₂_same]
    exact fun c hc => CodePoint.digit?_char (hdigit c hc)
  · exact fun h => Nat.toDigits_ne_nil (List.map_eq_nil_iff.mp h)
  · rw [← ofDigits_eq, ofDigits_map, Nat.ofDigitChars_ten_toDigits]

/-- The text of an integer is a numeral of it. -/
theorem exists_spells_ofInt (k : Int) :
    ∃ n, Spells (Text.ofInt k) n ∧ n.IsWhole ∧
      Double.signed n.negative (Nat.ofDigits 10 n.whole.reverse) = k := by
  cases k with
  | ofNat k =>
    obtain ⟨ds, hds, hne, hvalue⟩ := digits_toDigits k
    refine ⟨⟨false, ds, none, none⟩, ⟨[], Text.ofNat k, [], ?_, .none, .whole hds hne, .none⟩, ⟨rfl, rfl⟩, ?_⟩
    · rw [List.append_nil]
      rfl
    · rw [hvalue]
      rfl
  | negSucc k =>
    obtain ⟨ds, hds, hne, hvalue⟩ := digits_toDigits (k + 1)
    refine ⟨⟨true, ds, none, none⟩,
      ⟨[.char '-'], Text.ofNat (k + 1), [], ?_, .minus, .whole hds hne, .none⟩, ⟨rfl, rfl⟩, ?_⟩
    · rw [List.append_nil]
      rfl
    · rw [hvalue]
      rfl

/-- The text of an integer begins with no blank. -/
theorem dropWhile_ofInt (k : Int) (r : Text) :
    (Text.ofInt k ++ r).dropWhile CodePoint.isBlank = Text.ofInt k ++ r := by
  cases k with
  | negSucc k => rfl
  | ofNat k =>
    have hdigit : ∀ c ∈ Nat.toDigits 10 k, c.isDigit = true := (Digits.isWhole_toDigits k).isDigit
    obtain ⟨c, cs, hcs⟩ := List.exists_cons_of_ne_nil (Nat.toDigits_ne_nil (n := k) (b := 10))
    have hblank := CodePoint.isBlank_char (hdigit c (by rw [hcs]; exact List.mem_cons_self))
    rw [Text.ofInt, Text.ofNat, hcs, List.map_cons, List.cons_append, List.dropWhile_cons_of_neg]
    rw [hblank]
    exact Bool.false_ne_true

end Cabinet.Numeral
