import Cabinet.Number.Basic
import Cabinet.Proofs.Number.Nearest

/-!
# How far the doubles reach

* `Double.reach` : the middle between the largest finite double and the next power of two;
* `Double.representable_roundUnits` : a magnitude is rounded to a finite one exactly if it lies below
  that, and `Double.ofInt?_cases` : an integer then has a double near it;
* `Double.add_cases` : a sum of finite doubles is finite exactly within reach, and never
  not-a-number;
* `Number.IsFinite`, `Number.Joins`, `Number.Stays` : finite numbers, those of them that can be added
  at all, and those whose sum is finite;
* `Number.add_cases` : what adding two finite numbers gives.
-/

namespace Cabinet

namespace Double

/-- The units from which on a magnitude is rounded to an infinite one. -/
def reach : Nat := (2 ^ 54 - 1) * Nat.pow 2 2044

theorem reach_eq : ∃ e, reach = (2 ^ 54 - 1) * 2 ^ e ∧ bound = 2 ^ (54 + e) := by
  have hpowers : ∃ e, e = 2044 ∧ reach = (2 ^ 54 - 1) * 2 ^ e := by
    unfold reach
    generalize 2044 = e
    exact ⟨e, rfl, rfl⟩
  obtain ⟨e, he, hreach⟩ := hpowers
  obtain ⟨b, hb, hbound⟩ := bound_eq
  have hexponent : b = 54 + e := by rw [hb, he]
  exact ⟨e, hreach, by rw [hbound, hexponent]⟩

/-! ## Rounding -/

/-- The largest finite magnitude, in the middle between which and the bound the reach lies. -/
theorem exists_top : ∃ top, IsMagnitude top ∧ ¬ HasEvenPlace top ∧ top < bound ∧ top + bound = 2 * reach ∧
    ∀ y, IsMagnitude y → y < bound → y ≤ top := by
  obtain ⟨e, hreach, hbound⟩ := reach_eq
  have hplace : 2 ^ (e + 1) = 2 * 2 ^ e := by rw [Nat.pow_succ, Nat.mul_comm]
  have hpos : 0 < 2 ^ e := Nat.two_pow_pos e
  rw [Nat.pow_add] at hbound
  refine ⟨(2 ^ 53 - 1) * 2 ^ (e + 1), places_mod (by decide) _, ?_, ?_, ?_, fun y hy hlt => ?_⟩
  · rw [HasEvenPlace, div_lastPlace (.inr (by decide)) (by decide)]
    decide
  · omega
  · omega
  · by_cases hlow : 2 ^ 52 * 2 ^ (e + 1) ≤ y
    · obtain ⟨m, rfl⟩ := hy.places (.inr hlow)
      refine Nat.mul_le_mul_right _ (Nat.le_of_lt_succ ?_)
      refine Nat.lt_of_mul_lt_mul_right (a := 2 ^ (e + 1)) ?_
      omega
    · omega

/-- The nearest magnitude is a finite one exactly within reach. -/
theorem IsNearest.lt_bound {v : ℚ} {units : Nat} (h : IsNearest v units) :
    units < bound ↔ v < reach := by
  obtain ⟨top, htop, hodd, hlt, hmiddle, hgreatest⟩ := exists_top
  have hmiddle : (top : ℚ) + bound = 2 * reach := by exact_mod_cast hmiddle
  have hlt : (top : ℚ) < bound := by exact_mod_cast hlt
  have hbound : IsMagnitude bound := by
    obtain ⟨b, -, hb⟩ := bound_eq
    have := places_mod (r := 1) (by decide) b
    rwa [Nat.one_mul, ← hb] at this
  constructor
  · intro hfinite
    have hle : (units : ℚ) ≤ top := by exact_mod_cast hgreatest units h.isMagnitude hfinite
    by_contra hv
    have hnear := h.le bound hbound
    rw [abs_sub_comm, abs_of_nonneg (by linarith)] at hnear
    rcases le_or_gt v bound with hbelow | habove
    · -- a tie, which an odd last place does not win
      rw [abs_of_nonneg (by linarith)] at hnear
      have hunits : units = top := by exact_mod_cast (by linarith : (units : ℚ) = top)
      refine hodd (hunits ▸ h.even bound hbound ?_ ?_)
      · exact hfinite.ne'
      · rw [abs_of_nonneg (by linarith), abs_sub_comm, abs_of_nonneg (by linarith)]
        linarith
    · rw [abs_sub_comm, abs_of_nonneg (by linarith)] at hnear
      linarith
  · intro hv
    by_contra hinfinite
    have hle : (bound : ℚ) ≤ units := by exact_mod_cast Nat.not_lt.mp hinfinite
    have hnear := h.le top htop
    rw [abs_of_nonneg (by linarith)] at hnear
    rcases le_or_gt v top with hbelow | habove
    · rw [abs_of_nonneg (by linarith)] at hnear
      linarith
    · rw [abs_sub_comm, abs_of_nonneg (by linarith)] at hnear
      linarith

/-- A quotient is rounded to a finite magnitude exactly if it is within reach. -/
theorem representable_roundUnits {num den : Nat} (hden : 0 < den) :
    Representable (roundUnits num den) ↔ num < reach * den := by
  have hnearest := roundUnits_nearest num hden
  have hpos : (0 : ℚ) < den := by exact_mod_cast hden
  have hreach : (num : ℚ) / den < reach ↔ num < reach * den := by
    rw [div_lt_iff₀ hpos]
    exact_mod_cast Iff.rfl
  rw [← hreach, ← hnearest.lt_bound]
  exact ⟨And.left, fun h => ⟨h, hnearest.isMagnitude⟩⟩

/-! ## Doubles -/

/-- The exact value of a finite double in units. -/
def exact : Double → Int
  | .finite negative units _ => signed negative units
  | _ => 0

theorem exists_of_isFinite {x : Double} (hx : x.isFinite = true) :
    ∃ negative units, ∃ h : Representable units, x = .finite negative units h := by
  cases x with
  | nan => cases hx
  | infinity negative => cases hx
  | finite negative units h => exact ⟨negative, units, h, rfl⟩

theorem ofUnits_cases (negative : Bool) (num : Nat) :
    (num < reach ∧ (ofUnits negative (roundUnits num 1)).isFinite = true) ∨
      (¬ num < reach ∧ ofUnits negative (roundUnits num 1) = .infinity negative) := by
  rw [← Nat.mul_one reach, ← representable_roundUnits (by decide)]
  unfold ofUnits
  split
  · next h => exact .inl ⟨h, rfl⟩
  · next h => exact .inr ⟨h, rfl⟩

theorem isFinite_zero (negative : Bool) : (zero negative).isFinite = true := by
  obtain ⟨e, -, hbound⟩ := bound_eq
  have hzero : Representable 0 := ⟨by rw [hbound]; exact Nat.two_pow_pos e, Nat.zero_mod _⟩
  rw [zero, ofUnits, dif_pos hzero]
  rfl

theorem ofRatio_one (negative : Bool) (n : Nat) :
    ofRatio negative n 1 = ofUnits negative (roundUnits (n * one) 1) := by
  unfold ofRatio
  generalize n * one = units
  rfl

/-- An integer is its rounded value, unless that is infinite. -/
theorem ofInt?_of {n : Int} {x : Double} (hx : ofRatio (n < 0) n.natAbs 1 = x) :
    (x.isFinite = true → ofInt? n = some x) ∧ ∀ negative, x = .infinity negative → ofInt? n = none := by
  have hopen : ofInt? = ofInt? := rfl
  -- opened at an integer, the definition would be evaluated on what it rounds that to
  conv at hopen => rhs; delta ofInt?
  rw [hopen]
  simp only [hx]
  refine ⟨fun hfinite => ?_, fun negative hinfinite => ?_⟩
  · obtain ⟨negative, units, h, rfl⟩ := exists_of_isFinite hfinite
    rfl
  · rw [hinfinite]

/-- An integer has a double near it exactly if it is within reach. -/
theorem ofInt?_cases (n : Int) :
    (n.natAbs * one < reach ∧ ∃ x, ofInt? n = some x ∧ x.isFinite = true) ∨
      (¬ n.natAbs * one < reach ∧ ofInt? n = none) := by
  have hcases := ofUnits_cases (n < 0) (n.natAbs * one)
  rw [← ofRatio_one] at hcases
  obtain ⟨hfinite, hinfinite⟩ := ofInt?_of (n := n) rfl
  generalize n.natAbs * one = units at hcases ⊢
  generalize ofRatio (n < 0) n.natAbs 1 = x at hcases hfinite hinfinite
  obtain ⟨hreach, hx⟩ | ⟨hreach, hx⟩ := hcases
  · exact .inl ⟨hreach, x, hfinite hx, hx⟩
  · exact .inr ⟨hreach, hinfinite _ hx⟩

/-- A sum of finite doubles is infinite from the reach on, and never not-a-number. -/
theorem add_cases {x y : Double} (hx : x.isFinite = true) (hy : y.isFinite = true) :
    ((x.exact + y.exact).natAbs < reach ∧ (x.add y).isFinite = true) ∨
      (¬ (x.exact + y.exact).natAbs < reach ∧ ∃ negative, x.add y = .infinity negative) := by
  obtain ⟨n, a, ha, rfl⟩ := exists_of_isFinite hx
  obtain ⟨m, b, hb, rfl⟩ := exists_of_isFinite hy
  simp only [exact, add]
  split
  · next hzero =>
    have hpos : 0 < reach := by
      obtain ⟨e, hreach, -⟩ := reach_eq
      rw [hreach]
      exact Nat.mul_pos (by decide) (Nat.two_pow_pos e)
    exact .inl ⟨by rw [hzero]; exact hpos, isFinite_zero _⟩
  · obtain hcase | ⟨hreach, hinfinite⟩ :=
      ofUnits_cases (signed n a + signed m b < 0) (signed n a + signed m b).natAbs
    · exact .inl hcase
    · exact .inr ⟨hreach, _, hinfinite⟩

end Double

/-! ## Numbers of either kind -/

namespace Number

/-- An integer or a finite double. -/
def IsFinite : Number → Prop
  | .int _ => True
  | .float x => x.isFinite = true

/-- The exact value in units that a number has beside a double; an integer is rounded there. -/
def exact (a : Number) : Int := (a.toDouble.toOption.getD .nan).exact

/-- Numbers that can be added: an integer beside a double has to be within reach. -/
def Joins : Number → Number → Prop
  | .int _, .int _ | .float _, .float _ => True
  | .int n, .float _ | .float _, .int n => n.natAbs * Double.one < Double.reach

/-- Numbers whose sum is finite: integers, and others if their exact sum is within reach. -/
def Stays : Number → Number → Prop
  | .int _, .int _ => True
  | a, b => (a.exact + b.exact).natAbs < Double.reach

/-! A function that rounds an integer is opened where the rounding stands as a variable: otherwise
the rounding itself would be evaluated. -/

/-- An integer counts as the double near it. -/
theorem toDouble_int {n : Int} {o : Option Double} (ho : Double.ofInt? n = o) :
    (int n).toDouble = (o.elim (.error .tooLarge) .ok : Except Problem Double) := by
  have hopen : toDouble = toDouble := rfl
  conv at hopen => rhs; delta toDouble
  obtain ⟨near, hnear⟩ : ∃ near, near = Double.ofInt? := ⟨_, rfl⟩
  rw [← hnear] at ho hopen
  rw [hopen]
  simp only [ho]
  cases o <;> rfl

/-- Numbers that are not both integers are added as the doubles that they count as. -/
theorem add_beside {a b : Number} {u v : Except Problem Double} (hkinds : ∀ n m, a = .int n → b ≠ .int m)
    (hu : a.toDouble = u) (hv : b.toDouble = v) :
    a.add b = u.bind fun x => v.map fun y => .float (x.add y) := by
  have hopen : add = add := rfl
  conv at hopen => rhs; delta add
  obtain ⟨double, hdouble⟩ : ∃ double, double = toDouble := ⟨_, rfl⟩
  rw [← hdouble] at hu hv hopen
  rw [hopen]
  cases a with
  | int n =>
    cases b with
    | int m => exact absurd rfl (hkinds n m rfl)
    | float y =>
      simp only [hu, hv]
      cases u <;> cases v <;> rfl
  | float x =>
    simp only [hu, hv]
    cases u <;> cases v <;> rfl

/-- An integer counts as the finite double near it, if it is within reach. -/
theorem toDouble_cases (n : Int) :
    (n.natAbs * Double.one < Double.reach ∧ ∃ x, (int n).toDouble = .ok x ∧ x.isFinite = true) ∨
      (¬ n.natAbs * Double.one < Double.reach ∧ (int n).toDouble = .error .tooLarge) := by
  obtain ⟨hreach, x, hx, hfinite⟩ | ⟨hreach, hnone⟩ := Double.ofInt?_cases n
  · exact .inl ⟨hreach, x, toDouble_int hx, hfinite⟩
  · exact .inr ⟨hreach, toDouble_int hnone⟩

/-- Where both count as finite doubles, so does the sum, if it is within reach. -/
theorem add_doubles {a b : Number} {x y : Double} (ha : a.toDouble = .ok x) (hb : b.toDouble = .ok y)
    (hx : x.isFinite = true) (hy : y.isFinite = true) :
    (float (x.add y)).IsFinite ↔ (a.exact + b.exact).natAbs < Double.reach := by
  have hexact : a.exact = x.exact ∧ b.exact = y.exact := by
    rw [exact, exact, ha, hb]
    exact ⟨rfl, rfl⟩
  rw [hexact.1, hexact.2, IsFinite]
  obtain ⟨hreach, hfinite⟩ | ⟨hreach, negative, hinfinite⟩ := Double.add_cases hx hy
  · exact iff_of_true hfinite hreach
  · refine iff_of_false ?_ hreach
    rw [hinfinite]
    exact Bool.false_ne_true

/-- Numbers that are not both integers and both count as finite doubles. -/
theorem add_finite {a b : Number} {x y : Double} (hkinds : ∀ n m, a = .int n → b ≠ .int m)
    (ha : a.toDouble = .ok x) (hb : b.toDouble = .ok y) (hx : x.isFinite = true)
    (hy : y.isFinite = true) :
    ∃ c, a.add b = .ok c ∧ c ≠ .float .nan ∧ (c.IsFinite ↔ (a.exact + b.exact).natAbs < Double.reach) := by
  refine ⟨.float (x.add y), add_beside hkinds ha hb, fun hnan => ?_, add_doubles ha hb hx hy⟩
  obtain ⟨-, hfinite⟩ | ⟨-, negative, hinfinite⟩ := Double.add_cases hx hy
  · rw [Number.float.inj hnan] at hfinite
    cases hfinite
  · rw [Number.float.inj hnan] at hinfinite
    cases hinfinite

/-- Finite numbers have a sum exactly if they can be added, and it is finite exactly if it is within
reach. -/
theorem add_cases {a b : Number} (ha : a.IsFinite) (hb : b.IsFinite) :
    (a.Joins b ∧ ∃ c, a.add b = .ok c ∧ c ≠ .float .nan ∧ (c.IsFinite ↔ a.Stays b)) ∨
      (¬ a.Joins b ∧ a.add b = .error .tooLarge) := by
  cases a with
  | int n =>
    cases b with
    | int m => exact .inl ⟨trivial, _, rfl, nofun, Iff.rfl⟩
    | float y =>
      have hkinds : ∀ k m, int n = .int k → float y ≠ .int m := fun _ _ _ => nofun
      obtain ⟨hreach, x, hx, hfinite⟩ | ⟨hreach, herror⟩ := toDouble_cases n
      · exact .inl ⟨hreach, add_finite hkinds hx rfl hfinite hb⟩
      · exact .inr ⟨hreach, add_beside hkinds herror rfl⟩
  | float x =>
    cases b with
    | int m =>
      have hkinds : ∀ n k, float x = .int n → int m ≠ .int k := fun _ _ h => nomatch h
      obtain ⟨hreach, y, hy, hfinite⟩ | ⟨hreach, herror⟩ := toDouble_cases m
      · exact .inl ⟨hreach, add_finite hkinds rfl hy ha hfinite⟩
      · exact .inr ⟨hreach, add_beside hkinds rfl herror⟩
    | float y => exact .inl ⟨trivial, add_finite (fun _ _ h => nomatch h) rfl rfl ha hb⟩

end Number

end Cabinet
