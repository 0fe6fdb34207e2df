import Cabinet.Proofs.Number.Reach

/-!
# The double nearest to a decimal number

* `Double.value` : the number that a finite double is;
* `Double.Rounded` : the double that a number is rounded to, among all finite ones;
* `Double.ofRatio_rounded`, `Double.ofDecimal_rounded` : a quotient and a decimal number are rounded
  so.
-/

namespace Cabinet.Double

/-! ## Values -/

/-- A magnitude with a sign. -/
def withSign (negative : Bool) (a : ℚ) : ℚ := if negative then -a else a

/-- The number that a finite double is. -/
def value (x : Double) : ℚ := x.exact / one

/-- A finite double whose last place is even. -/
def IsEven : Double → Prop
  | .finite _ units _ => HasEvenPlace units
  | _ => False

/-- The double that the magnitude `a` with a sign is rounded to: of all finite doubles the nearest,
of two equally near ones the even one, and from the reach on the infinite one. -/
inductive Rounded (negative : Bool) (a : ℚ) : Double → Prop
  | finite {x : Double} (hfinite : x.isFinite = true) (hsign : x.isNegative = negative)
      (hreach : a < reach / one)
      (hnearest : ∀ y : Double, y.isFinite = true →
        |x.value - withSign negative a| ≤ |y.value - withSign negative a|)
      (heven : ∀ y : Double, y.isFinite = true → y.value ≠ x.value →
        |y.value - withSign negative a| = |x.value - withSign negative a| → x.IsEven) :
      Rounded negative a x
  | infinite (hreach : reach / one ≤ a) : Rounded negative a (.infinity negative)

theorem cast_one_pos : (0 : ℚ) < one := Nat.cast_pos.mpr one_pos

theorem value_finite (negative : Bool) {units : Nat} (h : Representable units) :
    (finite negative units h).value = withSign negative (units / one) := by
  rw [value, exact, withSign]
  cases negative
  · rw [signed, if_neg Bool.false_ne_true, if_neg Bool.false_ne_true, Int.cast_natCast]
  · rw [signed, if_pos rfl, if_pos rfl, Int.cast_neg, Int.cast_natCast, neg_div]

theorem withSign_dist (negative : Bool) (a b : ℚ) :
    |withSign negative a - withSign negative b| = |a - b| := by
  cases negative
  · rfl
  · show |-a - -b| = |a - b|
    rw [← neg_sub', abs_neg]

theorem abs_withSign (negative : Bool) {a : ℚ} (ha : 0 ≤ a) : |withSign negative a| = a := by
  cases negative
  · exact abs_of_nonneg ha
  · exact (abs_neg a).trans (abs_of_nonneg ha)

/-- A sign of its own does not bring a magnitude nearer. -/
theorem dist_le_withSign (m n : Bool) {a b : ℚ} (ha : 0 ≤ a) (hb : 0 ≤ b) :
    |a - b| ≤ |withSign m a - withSign n b| := by
  have h := abs_abs_sub_abs_le (withSign m a) (withSign n b)
  rwa [abs_withSign m ha, abs_withSign n hb] at h

theorem withSign_not_dist (negative : Bool) {a b : ℚ} (ha : 0 ≤ a) (hb : 0 ≤ b) :
    |withSign (!negative) a - withSign negative b| = a + b := by
  cases negative
  · show |-a - b| = a + b
    rw [← neg_add', abs_neg, abs_of_nonneg (add_nonneg ha hb)]
  · show |a - -b| = a + b
    rw [sub_neg_eq_add, abs_of_nonneg (add_nonneg ha hb)]

/-! ## Rounding -/

/-- The distance of two magnitudes in units. -/
theorem dist_units {units : Nat} {a v : ℚ} (hv : a * one = v) :
    |(units : ℚ) / one - a| = |(units : ℚ) - v| / one := by
  have hone := cast_one_pos
  rw [← hv, ← abs_of_pos hone, ← abs_div, abs_of_pos hone, sub_div, mul_div_cancel_right₀ _ hone.ne']

/-- Only zero is as near with the other sign. -/
theorem IsNearest.eq_zero_of_not {v a : ℚ} {units : Nat} (h : IsNearest v units) (ha : 0 ≤ a)
    (hv : a * one = v) {negative : Bool}
    (htie : |withSign (!negative) (units / one) - withSign negative a| = |(units : ℚ) - v| / one) :
    units = 0 := by
  have hone := cast_one_pos
  have hunits : (0 : ℚ) ≤ units := Nat.cast_nonneg units
  rw [withSign_not_dist negative (div_nonneg hunits hone.le) ha, eq_div_iff hone.ne', add_mul, hv,
    div_mul_cancel₀ _ hone.ne'] at htie
  have hnonneg : 0 ≤ v := hv ▸ mul_nonneg ha hone.le
  have hzero := h.le 0 (Nat.zero_mod _)
  rw [← htie, Nat.cast_zero, zero_sub, abs_neg, abs_of_nonneg hnonneg] at hzero
  exact_mod_cast le_antisymm (by linarith) hunits

/-- The nearest magnitude with the sign is the nearest double. -/
theorem IsNearest.rounded {v a : ℚ} {units : Nat} (h : IsNearest v units) (ha : 0 ≤ a)
    (hv : a * one = v) (negative : Bool) : Rounded negative a (ofUnits negative units) := by
  have hone := cast_one_pos
  have hreach : a < reach / one ↔ v < reach := by rw [lt_div_iff₀ hone, hv]
  unfold ofUnits
  split
  · next hunits =>
    have hself : |(finite negative units hunits).value - withSign negative a| = |(units : ℚ) - v| / one := by
      rw [value_finite, withSign_dist, dist_units hv]
    have hother : ∀ {m : Bool} {y : Nat} (hy : Representable y),
        |(y : ℚ) - v| / one ≤ |(finite m y hy).value - withSign negative a| := by
      intro m y hy
      rw [value_finite, ← dist_units hv]
      exact dist_le_withSign m negative (div_nonneg (Nat.cast_nonneg y) hone.le) ha
    refine .finite rfl rfl (hreach.mpr (h.lt_bound.mp hunits.1)) (fun y hy => ?_) fun y hy hne htie => ?_
    · obtain ⟨m, y, hm, rfl⟩ := exists_of_isFinite hy
      rw [hself]
      exact (div_le_div_of_nonneg_right (h.le y hm.2) hone.le).trans (hother hm)
    · obtain ⟨m, y, hm, rfl⟩ := exists_of_isFinite hy
      rw [hself] at htie
      have hsame : |(y : ℚ) - v| = |(units : ℚ) - v| := by
        refine le_antisymm ?_ (h.le y hm.2)
        exact (div_le_div_iff_of_pos_right hone).mp ((hother hm).trans htie.le)
      rcases ne_or_eq y units with hunequal | rfl
      · exact h.even y hm.2 hunequal hsame
      · have hsign : m = !negative := by
          refine Bool.eq_not_of_ne fun hsign => hne ?_
          rw [hsign]
        rw [value_finite, hsign] at htie
        have hzero := h.eq_zero_of_not ha hv htie
        rw [IsEven, HasEvenPlace, hzero, Nat.zero_div]
  · next hunits =>
    exact .infinite (not_lt.mp fun hlt => hunits ⟨h.lt_bound.mpr (hreach.mp hlt), h.isMagnitude⟩)

theorem ofRatio_rounded (negative : Bool) (num : Nat) {den : Nat} (hden : 0 < den) :
    Rounded negative (num / den) (ofRatio negative num den) := by
  unfold ofRatio
  refine (roundUnits_nearest _ hden).rounded (by positivity) ?_ negative
  rw [Nat.cast_mul, div_mul_eq_mul_div]

/-- What is at most half a unit is rounded to zero. -/
theorem zero_rounded (negative : Bool) {num den : Nat} (hden : 0 < den) (hsmall : 2 * (num * one) ≤ den) :
    Rounded negative (num / den) (zero negative) := by
  have hrounded := ofRatio_rounded negative num hden
  have hless : num * one / den = 0 := Nat.div_eq_of_lt (by omega)
  have hplace : lastPlace (num * one / den) = 0 := by
    rw [hless]
    rfl
  have hzero : roundUnits (num * one) den = 0 * 2 ^ 0 := by
    refine roundUnits_of_lastPlace hden hplace ?_ ?_ (fun hodd => absurd hodd (by decide))
    · omega
    · omega
  rwa [ofRatio, hzero] at hrounded

/-- Three binary places for each decimal one lead beyond the reach. -/
theorem reach_le {digits e : Nat} (hdigits : 0 < digits) (he : 400 < e) :
    reach ≤ digits * 10 ^ e * one := by
  obtain ⟨top, -, -, hlt, hmiddle, -⟩ := exists_top
  obtain ⟨a, ha, hone⟩ := one_eq
  obtain ⟨b, hb, hbound⟩ := bound_eq
  calc reach
    _ ≤ bound := by omega
    _ ≤ 2 ^ (3 * e + a) := by
        rw [hbound]
        exact Nat.pow_le_pow_right (by decide) (by omega)
    _ ≤ 10 ^ e * one := by
        rw [Nat.pow_add, hone]
        exact Nat.mul_le_mul_right _ (eight_pow_le e)
    _ ≤ digits * 10 ^ e * one := by
        rw [Nat.mul_assoc]
        exact Nat.le_mul_of_pos_left _ hdigits

/-- Three binary places for each decimal one lead below half a unit. -/
theorem half_le {digits e : Nat} (hsmall : digits.log2 + 1077 < 3 * (e + 1)) :
    2 * (digits * one) ≤ 10 ^ (e + 1) := by
  obtain ⟨a, ha, hone⟩ := one_eq
  calc 2 * (digits * one)
    _ ≤ 2 * (2 ^ (digits.log2 + 1) * 2 ^ a) := by
        rw [hone]
        exact Nat.mul_le_mul_left _ (Nat.mul_le_mul_right _ (Nat.le_of_lt Nat.lt_log2_self))
    _ = 2 ^ (digits.log2 + 1 + a + 1) := by rw [← Nat.pow_add, Nat.mul_comm, ← Nat.pow_succ]
    _ ≤ 2 ^ (3 * (e + 1)) := Nat.pow_le_pow_right (by decide) (by omega)
    _ ≤ 10 ^ (e + 1) := eight_pow_le (e + 1)

/-- A decimal number is rounded to the nearest double. -/
theorem ofDecimal_rounded (negative : Bool) (digits : Nat) (exponent : Int) :
    Rounded negative (digits * (10 : ℚ) ^ exponent) (ofDecimal negative digits exponent) := by
  unfold ofDecimal
  split
  · next hzero =>
    have h : Rounded negative (digits / (1 : Nat)) (zero negative) :=
      zero_rounded negative (by decide) (by rw [hzero]; omega)
    rw [hzero, Nat.cast_zero, zero_div] at h
    rwa [hzero, Nat.cast_zero, zero_mul]
  next hdigits =>
  cases exponent with
  | ofNat e =>
    have hvalue : (digits : ℚ) * 10 ^ Int.ofNat e = ((digits * 10 ^ e : Nat) : ℚ) / (1 : Nat) := by
      rw [Int.ofNat_eq_natCast, zpow_natCast]
      push_cast
      rw [div_one]
    rw [hvalue]
    simp only
    split
    · next hlarge =>
      refine .infinite ?_
      rw [Nat.cast_one, div_one, div_le_iff₀ cast_one_pos]
      exact_mod_cast reach_le (Nat.pos_of_ne_zero hdigits) hlarge
    · exact ofRatio_rounded negative _ (by decide)
  | negSucc e =>
    have hvalue : (digits : ℚ) * 10 ^ Int.negSucc e = digits / ((10 ^ (e + 1) : Nat) : ℚ) := by
      rw [zpow_negSucc, div_eq_mul_inv]
      push_cast
      rfl
    rw [hvalue]
    simp only
    split
    · next hsmall =>
      exact zero_rounded negative (Nat.pow_pos (by decide)) (half_le hsmall)
    · exact ofRatio_rounded negative _ (Nat.pow_pos (by decide))

end Cabinet.Double
