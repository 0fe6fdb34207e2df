import Cabinet.Proofs.Number.Reach
import Cabinet.Proofs.Value.Field
import Cabinet.Query.Update

/-!
# What increments store

Each operand of an increment counts as a finite number. Their sum is one of two doubles, or of a double and
an integer, and nothing looks at it again: so it is stored even where it is infinite, and adding fails
where the integer has no double near it.

* `Update.Addable`, `Update.StaysFinite` : arguments whose sum there is, and whose sum is finite;
* `Update.toNumber_isFinite` : every operand is finite;
* `Update.increment_cases` : what one argument does;
* `Update.Increments` : what all arguments together leave;
* `increments_finite_iff` : when increments succeed, and which of them leave finite numbers.
-/

namespace Cabinet.Update

/-! ## One argument -/

theorem toNumber_isFinite (v : Value) : (toNumber v).IsFinite := by
  unfold toNumber
  split
  · trivial
  · split
    · next h => exact h
    · trivial
  · split
    · trivial
    · split
      · next h => exact h
      · trivial
    · trivial
  · trivial

section Arguments
variable (d : Document) (a : Scalar × Value)

/-- The sum of what an argument's field counts as and of its amount. -/
def sum : Except Number.Problem Number := (toNumber (d.getD a.1)).add (toNumber a.2)

/-- The amount can be added to the field. -/
def Addable : Prop := (toNumber (d.getD a.1)).Joins (toNumber a.2)

/-- The sum is an integer or a finite double. -/
def StaysFinite : Prop := (toNumber (d.getD a.1)).Stays (toNumber a.2)

theorem sum_cases :
    (Addable d a ∧ ∃ n, sum d a = .ok n ∧ n ≠ .float .nan ∧ (n.IsFinite ↔ StaysFinite d a)) ∨
      (¬ Addable d a ∧ sum d a = .error .tooLarge) :=
  Number.add_cases (toNumber_isFinite _) (toNumber_isFinite _)

theorem increment_eq : increment d a.1 a.2 =
    ((sum d a).mapError .number).map fun n => d.set a.1 (.ofNumber n) := by
  unfold increment sum
  generalize (toNumber (d.getD a.1)).add (toNumber a.2) = sum
  cases sum <;> rfl

end Arguments

section Fields
variable {d d' : Document} {a b : Scalar × Value} {rest arguments : List (Scalar × Value)}

/-- A field with another name counts as before. -/
theorem getD_set_apart (h : a.1.same b.1 = false) (x : Value) : (d.set a.1 x).getD b.1 = d.getD b.1 := by
  rw [Document.getD, Document.get?_set_apart h, Document.getD]

theorem sum_set_apart (h : a.1.same b.1 = false) (x : Value) : sum (d.set a.1 x) b = sum d b := by
  rw [sum, getD_set_apart h, sum]

theorem addable_set_apart (h : a.1.same b.1 = false) (x : Value) :
    Addable (d.set a.1 x) b ↔ Addable d b := by
  rw [Addable, getD_set_apart h, Addable]

/-! ## All arguments -/

theorem apply_cons : Operator.inc.apply d (a :: rest) =
    (increment d a.1 a.2).bind fun d => Operator.inc.apply d rest := rfl

/-- What increments leave: the fields they name hold the sums, and all others what they held. A field
named by not-a-number cannot be asked for. -/
structure Increments (d : Document) (arguments : List (Scalar × Value)) (d' : Document) : Prop where
  sums : ∀ a ∈ arguments, a.1 ≠ .float .nan →
    ∃ n, sum d a = .ok n ∧ d'.get? a.1 = some (.ofNumber n)
  others : ∀ key, (∀ a ∈ arguments, a.1.same key = false) → d'.get? key = d.get? key

theorem Increments.nil : Increments d [] d where
  sums := List.forall_mem_nil _
  others _ _ := rfl

/-- One more increment in front, of a field that the others do not name. -/
theorem Increments.cons {n : Number} (hnew : ∀ b ∈ rest, a.1.same b.1 = false) (hsum : sum d a = .ok n)
    (h : Increments (d.set a.1 (.ofNumber n)) rest d') : Increments d (a :: rest) d' where
  sums := by
    refine List.forall_mem_cons.mpr ⟨fun hname => ⟨n, hsum, ?_⟩, fun b hb hname => ?_⟩
    · have hkept := h.others a.1 fun b hb => (Scalar.same_comm b.1 a.1).trans (hnew b hb)
      rw [hkept, Document.get?_set_same hname]
    · obtain ⟨m, hm, hget⟩ := h.sums b hb hname
      exact ⟨m, (sum_set_apart (hnew b hb) _).symm.trans hm, hget⟩
  others key hkey := by
    obtain ⟨ha, hrest⟩ := List.forall_mem_cons.mp hkey
    rw [h.others key hrest, Document.get?_set_apart ha]

/-- Increments of different fields add every amount up, or the first that cannot be added fails. -/
theorem apply_inc (hdistinct : arguments.Pairwise fun a b => a.1.same b.1 = false) :
    ((∀ a ∈ arguments, Addable d a) ∧
      ∃ d', Operator.inc.apply d arguments = .ok d' ∧ Increments d arguments d') ∨
    ((¬ ∀ a ∈ arguments, Addable d a) ∧
      Operator.inc.apply d arguments = .error (.number .tooLarge)) := by
  induction arguments generalizing d with
  | nil => exact .inl ⟨List.forall_mem_nil _, d, rfl, .nil⟩
  | cons a rest ih =>
    obtain ⟨hnew, hdistinct⟩ := List.pairwise_cons.mp hdistinct
    rw [apply_cons, increment_eq, List.forall_mem_cons]
    obtain ⟨hadd, n, hn, -⟩ | ⟨hadd, herror⟩ := sum_cases d a
    · have hrest : (∀ b ∈ rest, Addable (d.set a.1 (.ofNumber n)) b) ↔ ∀ b ∈ rest, Addable d b :=
        forall₂_congr fun b hb => addable_set_apart (hnew b hb) _
      rw [hn]
      obtain ⟨hall, d', hd', hsums⟩ | ⟨hsome, herror⟩ := ih (d := d.set a.1 (.ofNumber n)) hdistinct
      · exact .inl ⟨⟨hadd, hrest.mp hall⟩, d', hd', hsums.cons hnew hn⟩
      · exact .inr ⟨fun hall => hsome (hrest.mpr hall.2), herror⟩
    · rw [herror]
      exact .inr ⟨fun hall => hadd hall.1, rfl⟩

end Fields

/-- Increments of different fields succeed exactly if each amount can be added to its field, that is,
unless an integer out of the reach of the doubles meets a double. Then each field they name holds its sum,
and that is an integer or a finite double exactly if the exact sum is within reach, too; it is never
not-a-number. Otherwise they fail, as the integer is too large. -/
theorem increments_finite_iff {d : Document} {arguments : List (Scalar × Value)}
    (hdistinct : arguments.Pairwise fun a b => a.1.same b.1 = false) :
    ((∃ d', Operator.inc.apply d arguments = .ok d') ↔ ∀ a ∈ arguments, Addable d a) ∧
    (∀ d', Operator.inc.apply d arguments = .ok d' → Increments d arguments d' ∧
      ∀ a ∈ arguments, ∃ n, sum d a = .ok n ∧ n ≠ .float .nan ∧ (n.IsFinite ↔ StaysFinite d a)) ∧
    ∀ e, Operator.inc.apply d arguments = .error e → e = .number .tooLarge := by
  obtain ⟨hall, d', hd', hsums⟩ | ⟨hsome, herror⟩ := apply_inc (d := d) hdistinct
  · rw [hd']
    refine ⟨iff_of_true ⟨d', rfl⟩ hall, fun _ hok => ?_, fun _ he => nomatch he⟩
    obtain rfl := Except.ok.inj hok
    refine ⟨hsums, fun a ha => ?_⟩
    obtain ⟨-, hsum⟩ | ⟨hnot, -⟩ := sum_cases d a
    · exact hsum
    · exact absurd (hall a ha) hnot
  · rw [herror]
    exact ⟨iff_of_false (fun ⟨_, hd⟩ => nomatch hd) hsome, fun _ hok => (nomatch hok),
      fun _ he => (Except.error.inj he).symm⟩

/-! ## A lamp, and a sum out of reach -/

/-- A document with a numeral and its unit, a list, and a number. -/
def lamp : Document :=
  [(.text "watts".toText, .text "60 W".toText), (.text "rooms".toText, .list []),
    (.text "hours".toText, .int 100000000000000000000)]

theorem increments_finite_iff_lamp :
    ∃ d', Operator.inc.apply lamp [(.text "hours".toText, .bool true), (.text "watts".toText, .int 5)] =
        .ok d' ∧
      d'.get? (.text "hours".toText) = some (.int 100000000000000000000) ∧
      d'.get? (.text "watts".toText) = some (.int 65) ∧
      d'.get? (.text "rooms".toText) = some (.list []) := by
  have hhours : toNumber (lamp.getD (.text "hours".toText)) = .int 100000000000000000000 := by cbv
  have hwatts : toNumber (lamp.getD (.text "watts".toText)) = .int 60 := by cbv
  obtain ⟨hok, hleft, -⟩ := @increments_finite_iff lamp
    [(.text "hours".toText, .bool true), (.text "watts".toText, .int 5)] (by decide)
  obtain ⟨d', hd'⟩ := hok.mpr (by
    simp only [List.forall_mem_cons, Addable, hhours, hwatts]
    exact ⟨trivial, trivial, List.forall_mem_nil _⟩)
  obtain ⟨⟨hsums, hothers⟩, -⟩ := hleft d' hd'
  obtain ⟨n, hn, hgetn⟩ := hsums _ List.mem_cons_self (by decide)
  obtain ⟨m, hm, hgetm⟩ := hsums _ (List.mem_cons_of_mem _ List.mem_cons_self) (by decide)
  rw [sum, hhours] at hn
  rw [sum, hwatts] at hm
  cases hn
  cases hm
  exact ⟨d', hd', hgetn, hgetm, hothers _ (by decide)⟩

/-- The double near `10 ^ 308`. -/
def tall : Double := Double.ofDecimal false 1 308

/-- The sum of two finite doubles is stored, though it is infinite, and a double cannot be added to an
integer that is too large. -/
theorem increments_out_of_reach :
    steps [(.text "$inc".toText, .object [(.text "n".toText, .float tall)])] =
        .ok [(.inc, [(.text "n".toText, .float tall)])] ∧
      Operator.inc.apply [(.text "n".toText, .float tall)] [(.text "n".toText, .float tall)] =
        .ok [(.text "n".toText, .float (.infinity false))] ∧
      Operator.inc.apply [(.text "n".toText, .int (10 ^ 309 : Nat))] [(.text "n".toText, .float tall)] =
        .error (.number .tooLarge) := by
  have hfinite : tall.isFinite = true := by decide +kernel
  have hover : tall.add tall = .infinity false := by decide +kernel
  have hreach : ¬ (10 ^ 309 : Nat) * Double.one < Double.reach := by decide +kernel
  generalize (10 ^ 309 : Nat) = large at hreach ⊢
  generalize tall = x at hfinite hover ⊢
  have hcounts : toNumber (.float x) = .float x := by rw [toNumber, if_pos hfinite]
  refine ⟨by cbv, ?_, ?_⟩
  · have hsum : sum [(.text "n".toText, .float x)] (.text "n".toText, .float x) =
        .ok (.float (.infinity false)) := by
      have hfield : Document.getD [(.text "n".toText, .float x)] (.text "n".toText) = .float x := by cbv
      rw [sum, hfield, hcounts, ← hover]
      rfl
    rw [apply_cons, increment_eq, hsum]
    cbv
  · obtain ⟨hadd, -⟩ | ⟨-, herror⟩ := sum_cases [(.text "n".toText, .int large)] (.text "n".toText, .float x)
    · have hfield : Document.getD [(.text "n".toText, .int large)] (.text "n".toText) = .int large := by
        cbv
      rw [Addable, hfield, hcounts] at hadd
      exact absurd hadd hreach
    · rw [apply_cons, increment_eq, herror]
      rfl

end Cabinet.Update
