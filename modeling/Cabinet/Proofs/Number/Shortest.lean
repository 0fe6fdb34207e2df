import Cabinet.Proofs.Number.Digits
import Cabinet.Proofs.Number.Rounding

/-!
# The digits of a double

* `Shortest.onGrid?_seventeen` : on the grid of seventeen digits a number reads back;
* `Shortest.digits_spec` : the digits of a magnitude read back as that magnitude.
-/

namespace Cabinet

namespace Shortest
open Digits

/-! ## Grids -/

theorem one_pos : 0 < one := by
  obtain ⟨a, -, hone⟩ := Double.one_eq
  unfold one
  rw [hone]
  exact Nat.mul_pos (by decide) (Nat.two_pow_pos a)

/-- A number taken from a grid is in the interval; where none is, its two neighbours are not. -/
theorem onGrid?_cases (i : Interval) (point : Int) (count : Nat) {num den : Nat}
    (hnum : one * 10 ^ (point - count).toNat = num) (hden : 10 ^ (-(point - count)).toNat = den) :
    (∃ n, onGrid? i point count = some n ∧ i.holds (n * num) den = true) ∨
    (onGrid? i point count = none ∧ i.holds (i.value * den / num * num) den = false ∧
      i.holds ((i.value * den / num + 1) * num) den = false) := by
  have hnum' : one * Nat.pow 10 (point - count).toNat = num := hnum
  have hden' : Nat.pow 10 (-(point - count)).toNat = den := hden
  unfold onGrid?
  simp only [hnum', hden']
  generalize i.value * den / num = lower
  cases hlower : i.holds (lower * num) den <;> cases hupper : i.holds ((lower + 1) * num) den
  · exact .inr ⟨rfl, rfl, rfl⟩
  · exact .inl ⟨lower + 1, rfl, hupper⟩
  · exact .inl ⟨lower, rfl, hlower⟩
  · left
    refine ⟨_, rfl, ?_⟩
    split
    · exact hlower
    split
    · exact hupper
    split
    · exact hlower
    · exact hupper

theorem readsBack_of_onGrid? {units n count : Nat} {point : Int}
    (h : onGrid? (interval units) point count = some n) : ReadsBack units n (point - count) := by
  rcases onGrid?_cases (interval units) point count rfl rfl with ⟨n', hn, hholds⟩ | ⟨hnone, -⟩
  · rw [h] at hn
    obtain rfl := Option.some.inj hn
    exact hholds
  · rw [h] at hnone
    exact absurd hnone (by simp)

/-- A step narrower than the interval cannot pass over it. -/
theorem onGrid?_isSome {i : Interval} {point : Int} {count : Nat} (hlow : i.low < i.value)
    (hhigh : i.value < i.high)
    (hstep : one * 10 ^ (point - count).toNat < (i.high - i.low) * 10 ^ (-(point - count)).toNat) :
    (onGrid? i point count).isSome := by
  rcases onGrid?_cases i point count rfl rfl with ⟨n, hn, -⟩ | ⟨-, hlower, hupper⟩
  · rw [hn]
    rfl
  · exfalso
    have hden : 0 < 10 ^ (-(point - count)).toNat := Nat.pow_pos (by decide)
    have hnum : 0 < one * 10 ^ (point - count).toNat := Nat.mul_pos one_pos (Nat.pow_pos (by decide))
    generalize one * 10 ^ (point - count).toNat = num at *
    generalize 10 ^ (-(point - count)).toNat = den at *
    have hdiv : i.value * den / num * num + i.value * den % num = i.value * den :=
      Nat.div_add_mod' _ _
    have hmod : i.value * den % num < num := Nat.mod_lt _ hnum
    have hlow' : i.low * den < i.value * den := Nat.mul_lt_mul_of_pos_right hlow hden
    have hhigh' : i.value * den < i.high * den := Nat.mul_lt_mul_of_pos_right hhigh hden
    unfold Interval.holds at hlower hupper
    rw [Nat.add_mul] at hupper
    rw [Nat.sub_mul] at hstep
    generalize i.value * den / num * num = below at hdiv hlower hupper
    cases hclosed : i.closed <;> simp only [hclosed, Bool.false_eq_true, if_false, if_true,
      Bool.and_eq_false_iff, decide_eq_false_iff_not] at hlower hupper <;> omega

/-! ## Seventeen digits -/

/-- The decimal point stands at most one place past the first digit. -/
theorem point_spec {units : Nat} (hpos : 0 < units) :
    ∃ w : Nat, point units = (w : Int) - 399 ∧ 10 ^ w * Double.one ≤ units * 10 ^ 400 := by
  obtain ⟨a, ha, hone⟩ := Double.one_eq
  have hunit : 0 < Double.one := by
    rw [hone]
    exact Nat.two_pow_pos a
  unfold point width
  generalize hc : (400 : Nat) = c
  show ∃ w : Nat, _ ∧ _ ≤ units * Nat.pow 10 c
  generalize hx : units * Nat.pow 10 c / Double.one = x
  have hxpos : 0 < x := by
    rw [← hx]
    apply Nat.div_pos _ hunit
    have hpow : 2 ^ a ≤ 2 ^ (3 * c) := Nat.pow_le_pow_right (by decide) (by omega)
    calc Double.one = 2 ^ a := hone
      _ ≤ 10 ^ c := Nat.le_trans hpow (Double.eight_pow_le c)
      _ ≤ units * 10 ^ c := Nat.le_mul_of_pos_left _ hpos
  have hlen : 0 < (Nat.toDigits 10 x).length := Nat.length_toDigits_pos
  refine ⟨(Nat.toDigits 10 x).length - 1, by omega, ?_⟩
  have hle : 10 ^ ((Nat.toDigits 10 x).length - 1) ≤ x := by
    apply Nat.not_lt.mp
    intro hlt
    rcases Nat.eq_zero_or_pos ((Nat.toDigits 10 x).length - 1) with hw | hw
    · rw [hw, Nat.pow_zero] at hlt
      omega
    · have := (Nat.length_toDigits_le_iff (by decide) hw).mpr hlt
      omega
  calc 10 ^ ((Nat.toDigits 10 x).length - 1) * Double.one ≤ x * Double.one :=
        Nat.mul_le_mul_right _ hle
    _ ≤ units * Nat.pow 10 c := by
        rw [← hx]
        exact Nat.div_mul_le_self _ _

/-- A step of the grid of seventeen digits is narrow beside the magnitude. -/
theorem step_le {units : Nat} (hpos : 0 < units) :
    one * 10 ^ (point units - 17).toNat * 10 ^ 16 ≤ 4 * units * 10 ^ (-(point units - 17)).toNat := by
  obtain ⟨w, hw, hle⟩ := point_spec hpos
  unfold one
  generalize Double.one = unit at hle ⊢
  obtain ⟨c, hc⟩ : ∃ c, c = 400 := ⟨_, rfl⟩
  rw [← hc] at hle
  generalize hs : (point units - 17).toNat = s
  generalize ht : (-(point units - 17)).toNat = t
  have hpow : 10 ^ s * 10 ^ 16 * 10 ^ c = 10 ^ w * 10 ^ t := by
    rw [← Nat.pow_add, ← Nat.pow_add, ← Nat.pow_add]
    congr 1
    omega
  apply Nat.le_of_mul_le_mul_right _ (Nat.pow_pos (by decide) : 0 < 10 ^ c)
  calc 4 * unit * 10 ^ s * 10 ^ 16 * 10 ^ c = 4 * 10 ^ t * (10 ^ w * unit) := by
        rw [Nat.mul_assoc (4 * unit), Nat.mul_assoc (4 * unit), hpow]
        ac_rfl
    _ ≤ 4 * 10 ^ t * (units * 10 ^ c) := Nat.mul_le_mul_left _ hle
    _ = 4 * units * 10 ^ t * 10 ^ c := by ac_rfl

/-- On the grid of seventeen digits a number reads back. -/
theorem onGrid?_seventeen {units : Nat} (hunits : Double.Representable units) (hpos : 0 < units) :
    (onGrid? (interval units) (point units) 17).isSome := by
  obtain ⟨m, k, hk, hm, hhigh, -⟩ := Double.lastPlace_spec hunits
  obtain ⟨below, hinterval, hbelow⟩ := interval_eq hk hm
  have hpow : 0 < 2 ^ k := Nat.two_pow_pos k
  have hleast : 1 * 2 ^ k ≤ units := by
    rw [hm] at hpos ⊢
    exact Nat.mul_le_mul_right _ (Nat.pos_of_mul_pos_right hpos)
  have hwide : 4 * units + 2 * 2 ^ k - (4 * units - below) = below + 2 * 2 ^ k := by omega
  rw [hinterval]
  apply onGrid?_isSome
  · show 4 * units - below < 4 * units
    omega
  · show 4 * units < 4 * units + 2 * 2 ^ k
    omega
  show one * 10 ^ (point units - 17).toNat <
    (4 * units + 2 * 2 ^ k - (4 * units - below)) * 10 ^ (-(point units - 17)).toNat
  have hstep := step_le hpos
  have hden : 0 < 10 ^ (-(point units - 17)).toNat := Nat.pow_pos (by decide)
  rw [hwide]
  generalize one * 10 ^ (point units - 17).toNat = num at hstep ⊢
  generalize 10 ^ (-(point units - 17)).toNat = den at hstep hden ⊢
  have hplace : 0 < 2 ^ k * den := Nat.mul_pos hpow hden
  rw [hm, Nat.mul_assoc 4, Nat.mul_assoc m] at hstep
  rw [Nat.add_mul, Nat.mul_assoc 2]
  rcases hbelow with ⟨rfl, rfl, -⟩ | ⟨rfl, -⟩
  · omega
  · have hmost : (m + 1) * (2 ^ k * den) ≤ 2 ^ 53 * (2 ^ k * den) := Nat.mul_le_mul_right _ hhigh
    rw [Nat.add_mul] at hmost
    rw [Nat.mul_assoc]
    omega

/-! ## Digits -/

/-- The search ends on a grid with a number that reads back. -/
theorem search_spec {i : Interval} {point : Int} (fuel count : Nat)
    (h : (onGrid? i point (count + fuel)).isSome) :
    ∃ n grid, search i point fuel count = (n, grid) ∧ onGrid? i point grid = some n := by
  induction fuel generalizing count with
  | zero =>
    obtain ⟨n, hn⟩ := Option.isSome_iff_exists.mp h
    rw [Nat.add_zero] at hn
    refine ⟨n, count, ?_, hn⟩
    unfold search
    rw [hn, Option.getD_some]
  | succ fuel ih =>
    unfold search
    cases hn : onGrid? i point count with
    | some n => exact ⟨n, count, rfl, hn⟩
    | none =>
      apply ih (count + 1)
      rwa [show count + 1 + fuel = count + (fuel + 1) by omega]

/-- The digits of a magnitude read back as that magnitude. -/
theorem digits_spec {units : Nat} (hunits : Double.Representable units) (hpos : 0 < units) :
    ∃ ds p, digits units = (ds, p) ∧ IsNumeral ds ∧
      ReadsBack units (Nat.ofDigitChars 10 ds 0) (p - ds.length) := by
  obtain ⟨n, grid, hsearch, hn⟩ := search_spec 16 1 (onGrid?_seventeen hunits hpos)
  have hreads := readsBack_of_onGrid? hn
  obtain ⟨j, hj⟩ := dropLastZeros (Nat.toDigits 10 n)
  unfold digits
  simp only [hsearch]
  refine ⟨_, _, rfl, ?_⟩
  generalize hkept : ((Nat.toDigits 10 n).reverse.dropWhile (· == '0')).reverse = kept at hj ⊢
  have hvalue : Nat.ofDigitChars 10 kept 0 * 10 ^ j = n := by
    rw [Nat.mul_comm, ← Nat.ofDigitChars_replicate_zero, ← Nat.ofDigitChars_append, ← hj]
    exact Nat.ofDigitChars_ten_toDigits
  have hback : ReadsBack units (Nat.ofDigitChars 10 kept 0) (point units - grid + j) := by
    rw [← hvalue] at hreads
    exact readsBack_shift.mp hreads
  have hne : Nat.ofDigitChars 10 kept 0 ≠ 0 := by
    intro hzero
    have := half_le_of_readsBack hunits hpos hback
    rw [hzero, Nat.zero_mul] at this
    have := Nat.pow_pos (n := (-(point units - grid + j)).toNat) (by decide : 0 < 10)
    omega
  have hnil : kept ≠ [] := by
    rintro rfl
    exact hne Nat.ofDigitChars_nil
  refine ⟨⟨?_, hnil, ?_⟩, ?_⟩
  · intro c hc
    apply Nat.isDigit_of_mem_toDigits (by decide) (by decide : 10 ≤ 10) (n := n)
    rw [hj]
    exact List.mem_append_left _ hc
  · have hhead := head_toDigits n (by
      rw [← hvalue]
      exact Nat.mul_pos (Nat.pos_of_ne_zero hne) (Nat.pow_pos (by decide)))
    rwa [hj, List.head?_append_of_ne_nil _ hnil] at hhead
  · have hlength := congrArg List.length hj
    rw [List.length_append, List.length_replicate] at hlength
    have hexponent : point units + ((Nat.toDigits 10 n).length - grid : Int) - kept.length =
        point units - grid + j := by omega
    rw [hexponent]
    exact hback

end Shortest

end Cabinet
