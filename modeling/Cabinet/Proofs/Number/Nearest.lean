import Cabinet.Proofs.Number.Rounding

/-!
# The nearest magnitude

* `Double.roundHalfEven_error` : a quotient is rounded to an integer at most a half away, which is
  even if it is a half away;
* `Double.IsNearest` : the magnitude nearest to a number, of two equally near ones the even one;
* `Double.places_mod` : so many places are a magnitude;
* `Double.roundUnits_nearest` : a quotient is rounded to the nearest magnitude.
-/

namespace Cabinet.Double

/-! ## Integers -/

theorem le_roundHalfEven (num den : Nat) : num / den ≤ roundHalfEven num den := by
  simp only [roundHalfEven]
  split
  · exact Nat.le_refl _
  split
  · omega
  split <;> omega

theorem roundHalfEven_le (num den : Nat) : roundHalfEven num den ≤ num / den + 1 := by
  simp only [roundHalfEven]
  split
  · omega
  split
  · omega
  split <;> omega

/-- A quotient is rounded to an integer at most a half away, which is nearer if it is odd. -/
theorem roundHalfEven_near {num den r : Nat} (hden : 0 < den) (hr : roundHalfEven num den = r) :
    2 * (r * den) ≤ 2 * num + den ∧ 2 * num ≤ 2 * (r * den) + den ∧
      (r % 2 = 1 → 2 * (r * den) ≠ 2 * num + den ∧ 2 * num ≠ 2 * (r * den) + den) := by
  have hnum : num / den * den + num % den = num := Nat.div_add_mod' num den
  have hrest : num % den < den := Nat.mod_lt num hden
  have hnext : (num / den + 1) * den = num / den * den + den := by rw [Nat.add_mul, Nat.one_mul]
  rw [← hr]
  simp only [roundHalfEven]
  split
  · omega
  split
  · rw [hnext]
    omega
  split
  · omega
  · rw [hnext]
    omega

theorem roundHalfEven_error (num : Nat) {den : Nat} (hden : 0 < den) :
    |(roundHalfEven num den : ℚ) - num / den| ≤ 1 / 2 ∧
      (|(roundHalfEven num den : ℚ) - num / den| = 1 / 2 → roundHalfEven num den % 2 = 0) := by
  obtain ⟨r, hr⟩ : ∃ r, roundHalfEven num den = r := ⟨_, rfl⟩
  obtain ⟨hlow, hhigh, hodd⟩ := roundHalfEven_near hden hr
  have hpos : (0 : ℚ) < den := by exact_mod_cast hden
  have hscale : |(r : ℚ) - num / den| = |(r : ℚ) * den - num| / den := by
    rw [← abs_of_pos hpos, ← abs_div, abs_of_pos hpos, sub_div, mul_div_cancel_right₀ _ hpos.ne']
  have hlow : 2 * ((r : ℚ) * den) ≤ 2 * num + den := by exact_mod_cast hlow
  have hhigh : 2 * (num : ℚ) ≤ 2 * (r * den) + den := by exact_mod_cast hhigh
  rw [hr, hscale]
  refine ⟨?_, fun hhalf => ?_⟩
  · rw [div_le_iff₀ hpos, abs_le]
    constructor <;> linarith
  · by_contra hparity
    obtain ⟨hbelow, habove⟩ := hodd (by omega)
    have hbelow : 2 * ((r : ℚ) * den) ≠ 2 * num + den := by exact_mod_cast hbelow
    have habove : 2 * (num : ℚ) ≠ 2 * (r * den) + den := by exact_mod_cast habove
    rw [div_eq_iff hpos.ne'] at hhalf
    rcases abs_eq (by linarith) |>.mp hhalf with h | h
    · exact hbelow (by linarith)
    · exact habove (by linarith)

/-! ## Magnitudes -/

/-- A magnitude of any size: its places below the last are all zero. -/
def IsMagnitude (units : Nat) : Prop := units % Nat.pow 2 (lastPlace units) = 0

/-- The last place of a magnitude is even. -/
def HasEvenPlace (units : Nat) : Prop := units / Nat.pow 2 (lastPlace units) % 2 = 0

/-- The magnitude nearest to a number of units, of two equally near ones the even one. -/
structure IsNearest (v : ℚ) (units : Nat) : Prop where
  isMagnitude : IsMagnitude units
  le : ∀ y, IsMagnitude y → |(units : ℚ) - v| ≤ |(y : ℚ) - v|
  even : ∀ y, IsMagnitude y → y ≠ units → |(y : ℚ) - v| = |(units : ℚ) - v| → HasEvenPlace units

/-- So many places are a magnitude, however many units a place has. -/
theorem places_mod {r : Nat} (hr : r ≤ 2 ^ 53) (k : Nat) : IsMagnitude (r * 2 ^ k) := by
  refine Nat.mod_eq_zero_of_dvd ?_
  rcases Nat.eq_or_lt_of_le hr with rfl | hlt
  · rw [← Nat.pow_add]
    refine Nat.pow_dvd_pow 2 ?_
    unfold lastPlace
    rw [Nat.log2_two_pow]
    omega
  · refine Nat.dvd_trans (Nat.pow_dvd_pow 2 ?_) (Nat.dvd_mul_left _ r)
    unfold lastPlace
    by_cases hzero : r * 2 ^ k = 0
    · rw [hzero]
      exact Nat.zero_le k
    · have hlog : (r * 2 ^ k).log2 < 53 + k := by
        rw [Nat.log2_lt hzero, Nat.pow_add]
        exact Nat.mul_lt_mul_of_pos_right hlt (Nat.two_pow_pos k)
      omega

/-- How many last places a magnitude has. -/
theorem div_lastPlace {m k : Nat} (hlow : k = 0 ∨ 2 ^ 52 ≤ m) (hhigh : m < 2 ^ 53) :
    m * 2 ^ k / Nat.pow 2 (lastPlace (m * 2 ^ k)) = m := by
  have hk : lastPlace (m * 2 ^ k) = k := by
    rcases hlow with rfl | hlow
    · exact lastPlace_eq_zero (by rwa [Nat.pow_zero, Nat.mul_one])
    · refine lastPlace_eq ?_ ?_
      · rw [Nat.pow_add]
        exact Nat.mul_le_mul_right _ hlow
      · rw [Nat.pow_add]
        exact Nat.mul_lt_mul_of_pos_right hhigh (Nat.two_pow_pos k)
  rw [hk]
  exact Nat.mul_div_cancel m (Nat.two_pow_pos k)

/-- An even number of places has an even last place. -/
theorem hasEvenPlace_places {r k : Nat} (hlow : k = 0 ∨ 2 ^ 52 ≤ r) (hhigh : r ≤ 2 ^ 53)
    (heven : r % 2 = 0) : HasEvenPlace (r * 2 ^ k) := by
  rcases Nat.eq_or_lt_of_le hhigh with rfl | hlt
  · -- the largest number of places is the least number of the next higher ones
    have hnext : 2 ^ 53 * 2 ^ k = 2 ^ 52 * 2 ^ (k + 1) := by
      rw [← Nat.pow_add, ← Nat.pow_add, show 52 + (k + 1) = 53 + k by omega]
    rw [hnext, HasEvenPlace, div_lastPlace (.inr (Nat.le_refl _)) (by decide)]
    decide
  · rw [HasEvenPlace, div_lastPlace hlow hlt]
    exact heven

/-- From `2 ^ 52` places on, a magnitude is a number of such places. -/
theorem IsMagnitude.places {y k : Nat} (hy : IsMagnitude y) (hlow : k = 0 ∨ 2 ^ 52 * 2 ^ k ≤ y) :
    ∃ m, y = m * 2 ^ k := by
  have hk : k ≤ lastPlace y := by
    rcases hlow with rfl | hlow
    · exact Nat.zero_le _
    · have hne : y ≠ 0 := by
        have := Nat.two_pow_pos k
        omega
      have hlog : 52 + k ≤ y.log2 := by
        rw [Nat.le_log2 hne, Nat.pow_add]
        exact hlow
      unfold lastPlace
      omega
  have hdvd : 2 ^ k ∣ y := Nat.dvd_trans (Nat.pow_dvd_pow 2 hk) (Nat.dvd_of_mod_eq_zero hy)
  exact ⟨y / 2 ^ k, (Nat.div_mul_cancel hdvd).symm⟩

/-- Numbers of places are a place apart, so one that is half a place away is the nearest. -/
theorem half_le_of_ne {r k m : Nat} {v : ℚ} (herror : |(r : ℚ) * 2 ^ k - v| ≤ 2 ^ k / 2) (hm : m ≠ r) :
    2 ^ k / 2 ≤ |(m : ℚ) * 2 ^ k - v| := by
  have hplace : (0 : ℚ) < 2 ^ k := by positivity
  have happart : (1 : ℚ) ≤ |(m : ℚ) - r| := by
    have hne : (m : ℤ) - r ≠ 0 := by omega
    exact_mod_cast Int.one_le_abs hne
  have hbetween : |(m : ℚ) * 2 ^ k - r * 2 ^ k| = |(m : ℚ) - r| * 2 ^ k := by
    rw [← sub_mul, abs_mul, abs_of_pos hplace]
  have htriangle := abs_sub_le ((m : ℚ) * 2 ^ k) v (r * 2 ^ k)
  rw [hbetween, abs_sub_comm v] at htriangle
  nlinarith

/-- A magnitude that is no number of such places is farther away than the least of their size. -/
theorem IsMagnitude.places_or_far {y k : Nat} {v : ℚ} (hy : IsMagnitude y)
    (hlow : k = 0 ∨ ((2 ^ 52 : Nat) : ℚ) * 2 ^ k ≤ v) :
    (∃ m, y = m * 2 ^ k) ∨ |((2 ^ 52 : Nat) : ℚ) * 2 ^ k - v| < |(y : ℚ) - v| := by
  by_cases hplaces : k = 0 ∨ 2 ^ 52 * 2 ^ k ≤ y
  · exact .inl (hy.places hplaces)
  · obtain ⟨hzero, hless⟩ := not_or.mp hplaces
    have hless : (y : ℚ) < ((2 ^ 52 : Nat) : ℚ) * 2 ^ k := by exact_mod_cast Nat.not_le.mp hless
    have hleast := hlow.resolve_left hzero
    right
    rw [abs_sub_comm, abs_of_nonneg (by linarith), abs_sub_comm, abs_of_nonneg (by linarith)]
    linarith

/-! ## Rounding -/

/-- How many last places a quotient is rounded to. -/
theorem roundUnits_places {num den k : Nat} (hk : lastPlace (num / den) = k) :
    roundUnits num den = roundHalfEven num (den * 2 ^ k) * 2 ^ k ∧
      roundHalfEven num (den * 2 ^ k) ≤ 2 ^ 53 ∧
      (k = 0 ∨ 2 ^ 52 ≤ roundHalfEven num (den * 2 ^ k) ∧ 2 ^ 52 * 2 ^ k ≤ num / den) := by
  have hplace : Nat.pow 2 (lastPlace (num / den)) = 2 ^ k := by
    rw [hk]
    rfl
  unfold lastPlace at hk
  refine ⟨by simp only [roundUnits, hplace], ?_, ?_⟩
  · refine Nat.le_trans (roundHalfEven_le num (den * 2 ^ k)) ?_
    rw [← Nat.div_div_eq_div_mul]
    refine (Nat.div_lt_iff_lt_mul (Nat.two_pow_pos k)).mpr ?_
    refine Nat.lt_of_lt_of_le Nat.lt_log2_self ?_
    rw [← Nat.pow_add]
    exact Nat.pow_le_pow_right (by decide) (by omega)
  · rcases Nat.eq_zero_or_pos k with hzero | hpos
    · exact .inl hzero
    · have hlog : (num / den).log2 = 52 + k := by omega
      have hne : num / den ≠ 0 := by
        intro h
        rw [h] at hk
        exact hpos.ne hk
      have hleast : 2 ^ 52 * 2 ^ k ≤ num / den := by
        rw [← Nat.pow_add, ← hlog]
        exact Nat.log2_self_le hne
      refine .inr ⟨Nat.le_trans ?_ (le_roundHalfEven num (den * 2 ^ k)), hleast⟩
      rw [← Nat.div_div_eq_div_mul]
      exact (Nat.le_div_iff_mul_le (Nat.two_pow_pos k)).mpr hleast

/-- A quotient is rounded to a number of places that is at most half a place away. -/
theorem roundUnits_error {num den k r : Nat} (hden : 0 < den) (hk : lastPlace (num / den) = k)
    (hr : roundHalfEven num (den * 2 ^ k) = r) :
    |(r : ℚ) * 2 ^ k - num / den| ≤ 2 ^ k / 2 ∧
      (|(r : ℚ) * 2 ^ k - num / den| = 2 ^ k / 2 → HasEvenPlace (r * 2 ^ k)) := by
  obtain ⟨-, hhigh, hlow⟩ := roundUnits_places hk
  obtain ⟨herror, heven⟩ := roundHalfEven_error num (Nat.mul_pos hden (Nat.two_pow_pos k))
  have hplace : (0 : ℚ) < 2 ^ k := by positivity
  have hscale : |(r : ℚ) * 2 ^ k - num / den| = |(r : ℚ) - num / ((den * 2 ^ k : Nat) : ℚ)| * 2 ^ k := by
    rw [← abs_of_pos hplace, ← abs_mul, abs_of_pos hplace, sub_mul]
    push_cast
    rw [← div_div, div_mul_cancel₀ _ hplace.ne']
  rw [hr] at hhigh hlow herror heven
  rw [hscale]
  refine ⟨by nlinarith, fun htie => hasEvenPlace_places (hlow.imp_right And.left) hhigh (heven ?_)⟩
  exact mul_right_cancel₀ hplace.ne' (by linarith)

/-- A quotient is rounded to the nearest magnitude. -/
theorem roundUnits_nearest (num : Nat) {den : Nat} (hden : 0 < den) :
    IsNearest (num / den) (roundUnits num den) := by
  obtain ⟨k, hk⟩ : ∃ k, lastPlace (num / den) = k := ⟨_, rfl⟩
  obtain ⟨r, hr⟩ : ∃ r, roundHalfEven num (den * 2 ^ k) = r := ⟨_, rfl⟩
  obtain ⟨hrounded, hhigh, hlow⟩ := roundUnits_places hk
  obtain ⟨herror, heven⟩ := roundUnits_error hden hk hr
  have hleast : k = 0 ∨ ((2 ^ 52 : Nat) : ℚ) * 2 ^ k ≤ num / den := by
    refine hlow.imp_right fun h => ?_
    rw [le_div_iff₀ (by exact_mod_cast hden)]
    exact_mod_cast (Nat.le_div_iff_mul_le hden).mp h.2
  have hplaces : ∀ m : Nat, |(r : ℚ) * 2 ^ k - num / den| ≤ |(m : ℚ) * 2 ^ k - num / den| := by
    intro m
    rcases eq_or_ne m r with rfl | hm
    · exact le_refl _
    · exact herror.trans (half_le_of_ne herror hm)
  have hcast : ((r * 2 ^ k : Nat) : ℚ) = r * 2 ^ k := by push_cast; rfl
  rw [hr] at hrounded hhigh
  rw [hrounded]
  refine ⟨places_mod hhigh k, fun y hy => ?_, fun y hy hne htie => heven ?_⟩
  · rw [hcast]
    obtain ⟨m, rfl⟩ | hfar := hy.places_or_far hleast
    · push_cast
      exact hplaces m
    · exact (hplaces _).trans hfar.le
  · rw [hcast] at htie
    obtain ⟨m, rfl⟩ | hfar := hy.places_or_far hleast
    · have hm : m ≠ r := fun h => hne (by rw [h])
      push_cast at htie
      exact le_antisymm herror ((half_le_of_ne herror hm).trans htie.le)
    · exact absurd (hplaces (2 ^ 52)) (not_le.mpr (by rwa [← htie]))

end Cabinet.Double
