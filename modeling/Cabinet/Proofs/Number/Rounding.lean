import Mathlib
import Cabinet.Number.Shortest

/-!
# Rounding to a double

* `Double.roundHalfEven_eq` : the integer that a quotient is rounded to, by how near it is;
* `Double.lastPlace_spec` : a magnitude as a number of its last places;
* `Shortest.holds_spec` : how near a quotient in the interval of a magnitude is to it;
* `Shortest.ReadsBack` : that a decimal number lies in the interval of a magnitude;
* `Double.roundUnits_eq`, `Double.ofDecimal_eq` : a quotient and a decimal number in the interval of
  a magnitude are rounded to that magnitude.
-/

namespace Cabinet.Double

/-! ## Integers -/

/-- A quotient is rounded to an integer that is at most a half away, and nearer if it is odd. -/
theorem roundHalfEven_eq {num den m : Nat} (hden : 0 < den)
    (hlow : 2 * (m * den) ≤ 2 * num + den) (hhigh : 2 * num ≤ 2 * (m * den) + den)
    (hodd : m % 2 = 1 → 2 * (m * den) < 2 * num + den ∧ 2 * num < 2 * (m * den) + den) :
    roundHalfEven num den = m := by
  have hnum : num / den * den + num % den = num := Nat.div_add_mod' num den
  have hrest : num % den < den := Nat.mod_lt num hden
  unfold roundHalfEven
  generalize num / den = q at hnum ⊢
  generalize num % den = r at hnum hrest ⊢
  have hcases : m = q ∨ m = q + 1 := by
    have hupper : m < q + 2 := by
      apply Nat.lt_of_mul_lt_mul_right (a := den)
      rw [Nat.add_mul]
      omega
    have hlower : q < m + 1 := by
      apply Nat.lt_of_mul_lt_mul_right (a := den)
      rw [Nat.add_mul]
      omega
    omega
  rcases hcases with rfl | rfl
  · simp only
    split
    · rfl
    split
    · omega
    split
    · rfl
    · omega
  · rw [Nat.add_mul] at hlow hhigh hodd
    simp only
    split
    · omega
    split
    · rfl
    split
    · omega
    · rfl

/-! ## Powers -/

theorem one_eq : ∃ a, a = 1074 ∧ one = 2 ^ a := by
  unfold one
  generalize 1074 = a
  exact ⟨a, rfl, rfl⟩

theorem one_pos : 0 < one := by
  obtain ⟨a, -, hone⟩ := one_eq
  rw [hone]
  exact Nat.two_pow_pos a

theorem bound_eq : ∃ a, a = 2098 ∧ bound = 2 ^ a := by
  unfold bound
  generalize 2098 = a
  exact ⟨a, rfl, rfl⟩

theorem eight_pow_le (k : Nat) : 2 ^ (3 * k) ≤ 10 ^ k := by
  rw [Nat.pow_mul]
  exact Nat.pow_le_pow_left (by decide) k

/-! ## Magnitudes -/

theorem log2_eq {n a : Nat} (hlow : 2 ^ a ≤ n) (hhigh : n < 2 ^ (a + 1)) : n.log2 = a := by
  have hn : n ≠ 0 := by
    have := Nat.two_pow_pos a
    omega
  exact (Nat.log2_eq_iff hn).mpr ⟨hlow, hhigh⟩

theorem lastPlace_eq_zero {n : Nat} (h : n < 2 ^ 53) : lastPlace n = 0 := by
  unfold lastPlace
  by_cases hn : n = 0
  · rw [hn]
    rfl
  · have hlog : n.log2 < 53 := (Nat.log2_lt hn).mpr h
    omega

theorem lastPlace_eq {n k : Nat} (hlow : 2 ^ (52 + k) ≤ n) (hhigh : n < 2 ^ (53 + k)) :
    lastPlace n = k := by
  have hhigh' : n < 2 ^ (52 + k + 1) := by
    rwa [show 52 + k + 1 = 53 + k by omega]
  unfold lastPlace
  rw [log2_eq hlow hhigh']
  omega

/-- A representable magnitude is a number below `2 ^ 53` of its last places; if these are no units,
the number is at least `2 ^ 52`. -/
theorem lastPlace_spec {units : Nat} (h : Representable units) :
    ∃ m k, lastPlace units = k ∧ units = m * 2 ^ k ∧ m < 2 ^ 53 ∧ (k = 0 ∨ 2 ^ 52 ≤ m) := by
  obtain ⟨-, hplace⟩ := h
  have hunits := Nat.div_add_mod' units (Nat.pow 2 (lastPlace units))
  rw [hplace, Nat.add_zero] at hunits
  refine ⟨units / Nat.pow 2 (lastPlace units), lastPlace units, rfl, hunits.symm, ?_, ?_⟩
  · apply (Nat.div_lt_iff_lt_mul (Nat.two_pow_pos _)).mpr
    show units < 2 ^ 53 * 2 ^ lastPlace units
    rw [← Nat.pow_add]
    apply Nat.lt_of_lt_of_le Nat.lt_log2_self
    apply Nat.pow_le_pow_right (by decide)
    unfold lastPlace
    omega
  · by_cases hk : lastPlace units = 0
    · exact .inl hk
    · right
      apply (Nat.le_div_iff_mul_le (Nat.two_pow_pos _)).mpr
      show 2 ^ 52 * 2 ^ lastPlace units ≤ units
      have hne : units ≠ 0 := by
        rintro rfl
        exact hk rfl
      rw [← Nat.pow_add]
      apply Nat.le_trans _ (Nat.log2_self_le hne)
      apply Nat.pow_le_pow_right (by decide)
      unfold lastPlace at hk ⊢
      omega

end Cabinet.Double

namespace Cabinet

namespace Shortest
open Double (lastPlace)

/-! ## Intervals -/

/-- The interval of `m` places of `2 ^ k`. Below the least `m` of its size the places are half as
wide. -/
theorem interval_eq {units m k : Nat} (hk : lastPlace units = k) (hunits : units = m * 2 ^ k) :
    ∃ below, interval units =
        ⟨4 * units - below, 4 * units, 4 * units + 2 * 2 ^ k, m % 2 == 0⟩ ∧
      (below = 2 ^ k ∧ m = 2 ^ 52 ∧ k ≠ 0 ∨ below = 2 * 2 ^ k ∧ ¬(m = 2 ^ 52 ∧ k ≠ 0)) := by
  have hmantissa : units / 2 ^ k = m := by rw [hunits, Nat.mul_div_cancel _ (Nat.two_pow_pos k)]
  have hplace : Nat.pow 2 (lastPlace units) = 2 ^ k := by rw [hk]; rfl
  unfold interval
  simp only [hplace, hmantissa]
  refine ⟨_, rfl, ?_⟩
  split
  · next h =>
    simp only [Bool.and_eq_true, decide_eq_true_eq, bne_iff_ne] at h
    refine .inl ⟨rfl, h.1, ?_⟩
    rintro rfl
    exact h.2 rfl
  · next h =>
    refine .inr ⟨rfl, fun ⟨hm, hk⟩ => h ?_⟩
    have := Nat.one_lt_two_pow hk
    rw [hm, bne_iff_ne.mpr (by omega)]
    rfl

/-- What it means for a quotient to lie in the interval of `m` places of `2 ^ k`: it is at most half
a place away, and nearer if `m` is odd; below the least `m` of its size it is half as near. -/
theorem holds_spec {units m k : Nat} (hk : lastPlace units = k) (hunits : units = m * 2 ^ k)
    {num den : Nat} (h : (interval units).holds num den = true) :
    4 * (m * (2 ^ k * den)) ≤ num + 2 * (2 ^ k * den) ∧
    num ≤ 4 * (m * (2 ^ k * den)) + 2 * (2 ^ k * den) ∧
    (m % 2 = 1 → 4 * (m * (2 ^ k * den)) < num + 2 * (2 ^ k * den) ∧
      num < 4 * (m * (2 ^ k * den)) + 2 * (2 ^ k * den)) ∧
    (m = 2 ^ 52 → k ≠ 0 → 4 * (m * (2 ^ k * den)) ≤ num + 2 ^ k * den) := by
  obtain ⟨below, hinterval, hbelow⟩ := interval_eq hk hunits
  have hden : m * (2 ^ k * den) = units * den := by rw [hunits, Nat.mul_assoc]
  have hwide : below * den ≤ 2 * (2 ^ k * den) ∧ (m = 2 ^ 52 → k ≠ 0 → below * den = 2 ^ k * den) := by
    rcases hbelow with ⟨rfl, -, -⟩ | ⟨rfl, hother⟩
    · exact ⟨by omega, fun _ _ => rfl⟩
    · exact ⟨Nat.le_of_eq (Nat.mul_assoc 2 _ den), fun hm hk => absurd ⟨hm, hk⟩ hother⟩
  rw [hinterval] at h
  rw [hden]
  unfold Interval.holds at h
  simp only [Nat.sub_mul, Nat.add_mul, Nat.mul_assoc] at h
  generalize units * den = whole at h ⊢
  generalize 2 ^ k * den = place at h hwide ⊢
  generalize below * den = narrow at h hwide
  obtain ⟨hle, heq⟩ := hwide
  by_cases hm : m % 2 = 0
  · simp only [hm, beq_self_eq_true, if_true, Bool.and_eq_true, decide_eq_true_eq] at h
    refine ⟨by omega, by omega, fun hodd => by omega, fun hlow hk => ?_⟩
    have := heq hlow hk
    omega
  · have hopen : (m % 2 == 0) = false := beq_eq_false_iff_ne.mpr hm
    simp only [hopen, Bool.false_eq_true, if_false, Bool.and_eq_true, decide_eq_true_eq] at h
    refine ⟨by omega, by omega, fun hodd => by omega, fun hlow hk => ?_⟩
    have := heq hlow hk
    omega

/-! ## Decimal numbers -/

/-- A decimal number lies in the interval of a magnitude, and so reads back as it. -/
def ReadsBack (units digits : Nat) (exponent : Int) : Prop :=
  (interval units).holds (digits * (one * 10 ^ exponent.toNat)) (10 ^ (-exponent).toNat) = true

theorem le_congr {a num den num' den' : Nat} (hden : 0 < den) (hden' : 0 < den')
    (hsame : num * den' = num' * den) : a * den ≤ num ↔ a * den' ≤ num' := by
  rw [← Nat.mul_le_mul_right_iff hden', hsame, Nat.mul_right_comm, Nat.mul_le_mul_right_iff hden]

theorem ge_congr {a num den num' den' : Nat} (hden : 0 < den) (hden' : 0 < den')
    (hsame : num * den' = num' * den) : num ≤ a * den ↔ num' ≤ a * den' := by
  rw [← Nat.mul_le_mul_right_iff hden', hsame, Nat.mul_right_comm, Nat.mul_le_mul_right_iff hden]

/-- Whether a quotient lies in an interval depends on its value only. -/
theorem Interval.holds_congr (i : Interval) {num den num' den' : Nat} (hden : 0 < den)
    (hden' : 0 < den') (hsame : num * den' = num' * den) : i.holds num den = i.holds num' den' := by
  have hle : ∀ a, a * den ≤ num ↔ a * den' ≤ num' := fun a => le_congr hden hden' hsame
  have hge : ∀ a, num ≤ a * den ↔ num' ≤ a * den' := fun a => ge_congr hden hden' hsame
  have hlt : ∀ a, a * den < num ↔ a * den' < num' := fun a => by
    rw [← Nat.not_le, ← Nat.not_le, hge]
  have hgt : ∀ a, num < a * den ↔ num' < a * den' := fun a => by
    rw [← Nat.not_le, ← Nat.not_le, hle]
  unfold Interval.holds
  simp only [hle, hge, hlt, hgt]

/-- Zeros at the end of the digits may as well stand in the exponent. -/
theorem readsBack_shift {units digits j : Nat} {exponent : Int} :
    ReadsBack units (digits * 10 ^ j) exponent ↔ ReadsBack units digits (exponent + j) := by
  unfold ReadsBack
  have hpow : 10 ^ j * 10 ^ exponent.toNat * 10 ^ (-(exponent + j)).toNat =
      10 ^ (exponent + j).toNat * 10 ^ (-exponent).toNat := by
    rw [← Nat.pow_add, ← Nat.pow_add, ← Nat.pow_add]
    congr 1
    omega
  have hsame : digits * 10 ^ j * (one * 10 ^ exponent.toNat) * 10 ^ (-(exponent + j)).toNat =
      digits * (one * 10 ^ (exponent + j).toNat) * 10 ^ (-exponent).toNat := by
    generalize one = unit
    calc digits * 10 ^ j * (unit * 10 ^ exponent.toNat) * 10 ^ (-(exponent + j)).toNat
      _ = digits * unit * (10 ^ j * 10 ^ exponent.toNat * 10 ^ (-(exponent + j)).toNat) := by
          ac_rfl
      _ = digits * (unit * 10 ^ (exponent + j).toNat) * 10 ^ (-exponent).toNat := by
          rw [hpow]
          ac_rfl
  rw [Interval.holds_congr _ (Nat.pow_pos (by decide)) (Nat.pow_pos (by decide)) hsame]

/-- What reads back as a magnitude above zero is at least half a unit. -/
theorem half_le_of_readsBack {units digits : Nat} {exponent : Int}
    (hunits : Double.Representable units) (hpos : 0 < units)
    (h : ReadsBack units digits exponent) :
    2 * 10 ^ (-exponent).toNat ≤ digits * (one * 10 ^ exponent.toNat) := by
  obtain ⟨m, k, hk, hm, -, -⟩ := Double.lastPlace_spec hunits
  obtain ⟨hbelow, -, -, -⟩ := holds_spec hk hm h
  have hone : 1 ≤ m := by
    rcases Nat.eq_zero_or_pos m with hzero | hpos
    · rw [hm, hzero, Nat.zero_mul] at hpos
      omega
    · exact hpos
  have hplace : 1 * 10 ^ (-exponent).toNat ≤ 2 ^ k * 10 ^ (-exponent).toNat :=
    Nat.mul_le_mul_right _ (Nat.two_pow_pos k)
  have hwhole : 1 * (2 ^ k * 10 ^ (-exponent).toNat) ≤ m * (2 ^ k * 10 ^ (-exponent).toNat) :=
    Nat.mul_le_mul_right _ hone
  omega

/-- What reads back as a magnitude is within reach. -/
theorem exponent_le_of_readsBack {units digits : Nat} {exponent : Int}
    (hunits : Double.Representable units) (hdigits : 0 < digits)
    (h : ReadsBack units digits exponent) : exponent ≤ 400 := by
  obtain ⟨m, k, hk, hm, -, hlow⟩ := Double.lastPlace_spec hunits
  obtain ⟨-, hhigh, -, -⟩ := holds_spec hk hm h
  obtain ⟨a, ha, hone⟩ := Double.one_eq
  obtain ⟨b, hb, hbound⟩ := Double.bound_eq
  obtain ⟨hlt, -⟩ := hunits
  rw [hbound] at hlt
  apply Int.not_lt.mp
  intro hexponent
  have hden : (-exponent).toNat = 0 := by omega
  rw [hden, Nat.pow_zero, Nat.mul_one, ← hm] at hhigh
  unfold one at hhigh
  rw [hone] at hhigh
  have hplace : 2 ^ k ≤ units + 1 := by
    rcases hlow with rfl | hlow
    · exact Nat.succ_le_succ (Nat.zero_le _)
    · have hwhole : 1 * 2 ^ k ≤ m * 2 ^ k := Nat.mul_le_mul_right _ (by omega)
      omega
  have htens : 2 ^ a * 2 ^ (3 * exponent.toNat) ≤ 2 ^ a * 10 ^ exponent.toNat :=
    Nat.mul_le_mul_left _ (Double.eight_pow_le _)
  have hall : 1 * (4 * 2 ^ a * 10 ^ exponent.toNat) ≤ digits * (4 * 2 ^ a * 10 ^ exponent.toNat) :=
    Nat.mul_le_mul_right _ hdigits
  rw [Nat.mul_assoc 4] at hall hhigh
  rw [← Nat.pow_add] at htens
  have hpow : 2 ^ (a + 3 * exponent.toNat) < 2 ^ (b + 1) := by
    rw [Nat.pow_succ]
    omega
  have := (Nat.pow_lt_pow_iff_right (by decide : 1 < 2)).mp hpow
  omega

end Shortest

namespace Double

/-! ## Rounding -/

/-- Where the whole part of a quotient has its last place. -/
theorem roundUnits_of_lastPlace {num den m k : Nat} (hden : 0 < den)
    (hk : lastPlace (num / den) = k) (hlow : 2 * (m * (2 ^ k * den)) ≤ 2 * num + 2 ^ k * den)
    (hhigh : 2 * num ≤ 2 * (m * (2 ^ k * den)) + 2 ^ k * den)
    (hodd : m % 2 = 1 → 2 * (m * (2 ^ k * den)) < 2 * num + 2 ^ k * den ∧
      2 * num < 2 * (m * (2 ^ k * den)) + 2 ^ k * den) : roundUnits num den = m * 2 ^ k := by
  have hplace : Nat.pow 2 (lastPlace (num / den)) = 2 ^ k := by rw [hk]; rfl
  unfold roundUnits
  simp only [hplace]
  rw [Nat.mul_comm den, roundHalfEven_eq (Nat.mul_pos (Nat.two_pow_pos k) hden) hlow hhigh hodd]

theorem lastPlace_div {num den k : Nat} (hden : 0 < den) (hlow : 2 ^ 52 * (2 ^ k * den) ≤ num)
    (hhigh : num < 2 ^ 53 * (2 ^ k * den)) : lastPlace (num / den) = k := by
  rw [← Nat.mul_assoc, ← Nat.pow_add] at hlow hhigh
  exact lastPlace_eq ((Nat.le_div_iff_mul_le hden).mpr hlow) ((Nat.div_lt_iff_lt_mul hden).mpr hhigh)

/-- Just below a power of two the places are half as wide as from it on. -/
theorem roundUnits_below {num den k : Nat} (hden : 0 < den)
    (hbelow : num < 2 ^ 52 * (2 ^ (k + 1) * den))
    (hnear : 4 * (2 ^ 52 * (2 ^ (k + 1) * den)) ≤ 4 * num + 2 ^ (k + 1) * den) :
    roundUnits num den = 2 ^ 52 * 2 ^ (k + 1) := by
  have hplace : 0 < 2 ^ k * den := Nat.mul_pos (Nat.two_pow_pos k) hden
  have hhalf : 2 ^ (k + 1) * den = 2 * (2 ^ k * den) := by
    rw [Nat.pow_succ, Nat.mul_comm (2 ^ k) 2, Nat.mul_assoc]
  have hsame : 2 ^ 52 * 2 ^ (k + 1) = 2 ^ 53 * 2 ^ k := by
    rw [← Nat.pow_add, ← Nat.pow_add, show 52 + (k + 1) = 53 + k by omega]
  rw [hhalf] at hbelow hnear
  rw [hsame]
  apply roundUnits_of_lastPlace hden
  · apply lastPlace_div hden
    · omega
    · omega
  · omega
  · omega
  · intro hodd
    omega

/-- A quotient in the interval of a magnitude is rounded to that magnitude. -/
theorem roundUnits_eq {units num den : Nat} (hunits : Representable units) (hden : 0 < den)
    (h : (Shortest.interval units).holds (4 * num) den = true) : roundUnits num den = units := by
  obtain ⟨m, k, hk, hm, hhigh, hlow⟩ := lastPlace_spec hunits
  obtain ⟨hbelow, habove, hodd, hleast⟩ := Shortest.holds_spec hk hm h
  have hplace : 0 < 2 ^ k * den := Nat.mul_pos (Nat.two_pow_pos k) hden
  have hround : lastPlace (num / den) = k → roundUnits num den = units := by
    intro hplace
    rw [hm]
    apply roundUnits_of_lastPlace hden hplace
    · omega
    · omega
    · intro hm
      have := hodd hm
      omega
  have hbound : num < 2 ^ 53 * (2 ^ k * den) := by
    have hnext : (m + 1) * (2 ^ k * den) ≤ 2 ^ 53 * (2 ^ k * den) := Nat.mul_le_mul_right _ hhigh
    rw [Nat.add_mul] at hnext
    omega
  by_cases hunit : k = 0
  · apply hround
    rw [hunit, Nat.pow_zero, Nat.one_mul] at hbound
    rw [hunit]
    exact lastPlace_eq_zero ((Nat.div_lt_iff_lt_mul hden).mpr hbound)
  have hmin : 2 ^ 52 ≤ m := hlow.resolve_left hunit
  by_cases hwhole : 2 ^ 52 * (2 ^ k * den) ≤ num
  · exact hround (lastPlace_div hden hwhole hbound)
  -- the quotient is below the least number of this size, so the magnitude is that number
  · have hpower : m = 2 ^ 52 := by
      by_cases hmore : m = 2 ^ 52
      · exact hmore
      · have hnext : (2 ^ 52 + 1) * (2 ^ k * den) ≤ m * (2 ^ k * den) :=
          Nat.mul_le_mul_right _ (by omega)
        rw [Nat.add_mul] at hnext
        omega
    have hnear := hleast hpower hunit
    obtain ⟨j, rfl⟩ : ∃ j, k = j + 1 := ⟨k - 1, by omega⟩
    rw [hpower] at hnear
    rw [hm, hpower]
    exact roundUnits_below hden (Nat.not_le.mp hwhole) hnear

/-- A decimal number in the interval of a magnitude is rounded to that magnitude. -/
theorem ofDecimal_eq {units : Nat} (hunits : Representable units) (hpos : 0 < units)
    {digits : Nat} {exponent : Int} (h : Shortest.ReadsBack units digits exponent)
    (negative : Bool) :
    ofDecimal negative digits exponent = .finite negative units hunits := by
  have hround : ∀ {num den : Nat}, 0 < den →
      (Shortest.interval units).holds (4 * (num * one)) den = true →
      ofRatio negative num den = .finite negative units hunits := by
    intro num den hden hholds
    rw [ofRatio, roundUnits_eq hunits hden hholds, ofUnits, dif_pos hunits]
  have hhalf := Shortest.half_le_of_readsBack hunits hpos h
  have hdigits : digits ≠ 0 := by
    rintro rfl
    have := Nat.pow_pos (n := (-exponent).toNat) (by decide : 0 < 10)
    omega
  have hexponent := Shortest.exponent_le_of_readsBack hunits (Nat.pos_of_ne_zero hdigits) h
  unfold ofDecimal
  rw [if_neg hdigits]
  unfold Shortest.ReadsBack Shortest.one at h
  unfold Shortest.one at hhalf
  obtain ⟨a, ha, hone⟩ := one_eq
  generalize one = unit at h hhalf hone hround
  cases exponent with
  | ofNat e =>
    have he : (e : Int) ≤ 400 := hexponent
    simp only
    rw [if_neg (by omega)]
    apply hround (by decide)
    have hquarters : 4 * (digits * Nat.pow 10 e * unit) = digits * (4 * unit * 10 ^ e) := by
      show 4 * (digits * 10 ^ e * unit) = _
      ac_rfl
    have hden : (-Int.ofNat e).toNat = 0 := by
      show (-(e : Int)).toNat = 0
      omega
    rw [hden, Nat.pow_zero] at h
    rw [hquarters]
    exact h
  | negSucc e =>
    simp only
    rw [if_neg]
    · apply hround (Nat.pow_pos (by decide))
      have hquarters : 4 * (digits * unit) = digits * (4 * unit * 10 ^ 0) := by
        rw [Nat.pow_zero, Nat.mul_one]
        ac_rfl
      rw [hquarters]
      exact h
    -- three binary places for each decimal one, so the number is not below a half unit
    · intro hsmall
      have hhalf : 2 * 10 ^ (e + 1) ≤ digits * (4 * unit * 10 ^ 0) := hhalf
      have hlog : digits < 2 ^ (digits.log2 + 1) := Nat.lt_log2_self
      have hlow : 2 * 2 ^ (3 * (e + 1)) ≤ 2 * (2 * (digits * unit)) := by
        have := eight_pow_le (e + 1)
        rw [Nat.pow_zero, Nat.mul_one, Nat.mul_left_comm] at hhalf
        omega
      have hhigh : digits * unit < 2 ^ (digits.log2 + 1) * 2 ^ a := by
        rw [hone]
        exact Nat.mul_lt_mul_of_pos_right hlog (Nat.two_pow_pos a)
      have hpow : 2 ^ (3 * (e + 1)) < 2 ^ (digits.log2 + 1 + a + 1) := by
        rw [Nat.pow_succ, Nat.pow_add]
        omega
      have := (Nat.pow_lt_pow_iff_right (by decide : 1 < 2)).mp hpow
      omega

end Double

end Cabinet
