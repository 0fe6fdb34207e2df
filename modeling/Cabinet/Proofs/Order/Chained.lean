import Cabinet.Proofs.Order.Stable
import Cabinet.Proofs.Store.Action

/-!
# Sorts one after another

Orders are given here as comparisons into `Ordering`.

* `precedes` : whether an element may stand before another one;
* `exists_mem_of_forall₂`, `forall₂_trans` : lists that are related element by element;
* `forall₂_tied` : two sorted lists of the same elements differ only among tied elements;
* `mergeSort_mergeSort` : sorting by a second order and then by a first one is sorting by the first,
  where the second decides between elements that the first leaves tied;
* `sort_agrees`, `sort_eq_of_ok` : where a comparison that may fail agrees with an order wherever it
  gives something, a list that it sorts at all it sorts as the order does.
-/

namespace Cabinet.Order

variable {α β ε : Type}

/-- Whether an element may stand before another one in a sorted list. -/
def precedes (cmp : α → α → Ordering) (a b : α) : Bool := (cmp a b).isLE

theorem forall₂_imp_of_mem {R S : α → α → Prop} {xs ys : List α} (h : List.Forall₂ R xs ys)
    (himp : ∀ a ∈ xs, ∀ b ∈ ys, R a b → S a b) : List.Forall₂ S xs ys := by
  induction h with
  | nil => exact .nil
  | cons hab _ ih =>
    refine .cons (himp _ List.mem_cons_self _ List.mem_cons_self hab) (ih fun a ha b hb => ?_)
    exact himp a (List.mem_cons_of_mem _ ha) b (List.mem_cons_of_mem _ hb)

/-- Every element of the first list has its counterpart in the second one. -/
theorem exists_mem_of_forall₂ {R : α → β → Prop} {xs : List α} {ys : List β}
    (h : List.Forall₂ R xs ys) {x : α} (hx : x ∈ xs) : ∃ y ∈ ys, R x y := by
  induction h with
  | nil => cases hx
  | @cons a b _ _ hab _ ih =>
    rcases List.mem_cons.mp hx with rfl | hx
    · exact ⟨b, List.mem_cons_self, hab⟩
    · obtain ⟨y, hy, hxy⟩ := ih hx
      exact ⟨y, List.mem_cons_of_mem b hy, hxy⟩

theorem forall₂_trans {γ : Type} {R : α → β → Prop} {S : β → γ → Prop} {xs : List α} {ys : List β}
    {zs : List γ} (h : List.Forall₂ R xs ys) (h' : List.Forall₂ S ys zs) :
    List.Forall₂ (fun x z => ∃ y, R x y ∧ S y z) xs zs := by
  induction h generalizing zs with
  | nil =>
    obtain rfl := List.forall₂_nil_left_iff.mp h'
    exact .nil
  | cons hxy _ ih =>
    obtain ⟨z, zs, hyz, hrest, rfl⟩ := List.forall₂_cons_left_iff.mp h'
    exact .cons ⟨_, hxy, hyz⟩ (ih hrest)

section Comparisons
variable {cmp : α → α → Ordering} [Std.TransCmp cmp]

theorem ranks_precedes : Ranks (precedes cmp) fun _ => True where
  total a b _ _ := by
    have hswap : cmp b a = (cmp a b).swap := Std.OrientedCmp.eq_swap
    rw [precedes, precedes, hswap]
    cases cmp a b <;> simp
  trans a b c _ _ _ hab hbc := Std.TransCmp.isLE_trans hab hbc

theorem tied_precedes (a b : α) : tied (precedes cmp) a b = true ↔ cmp a b = .eq := by
  have hswap : cmp b a = (cmp a b).swap := Std.OrientedCmp.eq_swap
  rw [tied, precedes, precedes, hswap]
  cases cmp a b <;> simp

/-! ## Sorted lists of the same elements -/

/-- The first of a sorted list stands before whatever is tied with an element of it. -/
theorem precedes_of_tied {a b : α} {ys : List α}
    (hys : (b :: ys).Pairwise fun a b => precedes cmp a b = true)
    (ha : 0 < (b :: ys).countP (tied (precedes cmp) a)) : precedes cmp b a = true := by
  obtain ⟨d, hd, htied⟩ := List.countP_pos_iff.mp ha
  have hda : precedes cmp d a = true := (Bool.and_eq_true_iff.mp htied).2
  rcases List.mem_cons.mp hd with rfl | hmem
  · exact hda
  · exact ranks_precedes.trans b d a trivial trivial trivial (List.rel_of_pairwise_cons hys hmem) hda

/-- Sorted lists in which, of any element, as many are tied with it are tied one by one. -/
theorem forall₂_of_countP : ∀ {xs ys : List α},
    (xs.Pairwise fun a b => precedes cmp a b = true) →
    (ys.Pairwise fun a b => precedes cmp a b = true) →
    (∀ c, xs.countP (tied (precedes cmp) c) = ys.countP (tied (precedes cmp) c)) →
    List.Forall₂ (fun a b => cmp a b = .eq) xs ys
  | [], [], _, _, _ => .nil
  | a :: xs, ys, hxs, hys, hcount => by
    have hself (c : α) : tied (precedes cmp) c c = true :=
      (tied_precedes c c).mpr Std.ReflCmp.compare_self
    have hpos : 0 < ys.countP (tied (precedes cmp) a) := by
      rw [← hcount a, List.countP_cons_of_pos (hself a)]
      exact Nat.succ_pos _
    cases ys with
    | nil => exact absurd hpos (Nat.lt_irrefl 0)
    | cons b ys =>
      have hba : precedes cmp b a = true := precedes_of_tied hys hpos
      have hab : precedes cmp a b = true := by
        refine precedes_of_tied hxs ?_
        rw [hcount b, List.countP_cons_of_pos (hself b)]
        exact Nat.succ_pos _
      have htied : cmp a b = .eq := (tied_precedes a b).mp (Bool.and_eq_true_iff.mpr ⟨hab, hba⟩)
      refine .cons htied (forall₂_of_countP hxs.of_cons hys.of_cons fun c => ?_)
      have hsame : tied (precedes cmp) c a = tied (precedes cmp) c b := by
        rw [Bool.eq_iff_iff, tied_precedes, tied_precedes, Std.TransCmp.congr_right htied]
      have hc := hcount c
      rw [List.countP_cons, List.countP_cons, hsame] at hc
      exact Nat.add_right_cancel hc
  | [], b :: ys, _, _, hcount => by
    have hself : tied (precedes cmp) b b = true := (tied_precedes b b).mpr Std.ReflCmp.compare_self
    have hb := hcount b
    rw [List.countP_cons_of_pos hself] at hb
    exact absurd hb (Nat.succ_ne_zero _).symm

/-- Two sorted lists of the same elements are tied one by one. -/
theorem forall₂_tied {xs ys : List α} (hperm : xs.Perm ys)
    (hxs : xs.Pairwise fun a b => precedes cmp a b = true)
    (hys : ys.Pairwise fun a b => precedes cmp a b = true) :
    List.Forall₂ (fun a b => cmp a b = .eq) xs ys :=
  forall₂_of_countP hxs hys fun _ => hperm.countP_eq _

theorem pairwise_mergeSort_precedes (xs : List α) :
    (xs.mergeSort (precedes cmp)).Pairwise fun a b => precedes cmp a b = true :=
  (isStableSort_mergeSort ranks_precedes xs fun _ _ => trivial).sorted

end Comparisons

/-! ## A sort after a sort -/

section Chained
variable {first second : α → α → Ordering} [Std.TransCmp first]

theorem precedes_compareLex {a b : α} (hfirst : precedes first a b = true)
    (htied : tied (precedes first) a b = true → precedes second a b = true) :
    precedes (compareLex first second) a b = true := by
  rw [tied_precedes] at htied
  unfold precedes compareLex at *
  revert hfirst htied
  cases first a b <;> simp

variable [Std.TransCmp second]

theorem tied_compareLex (a : α) : tied (precedes (compareLex first second)) a =
    fun b => tied (precedes second) a b && tied (precedes first) a b := by
  funext b
  rw [Bool.eq_iff_iff, Bool.and_eq_true_iff, tied_precedes, tied_precedes, tied_precedes, compareLex,
    Ordering.then_eq_eq, and_comm]

/-- Sorting by a second order and then by a first one is sorting by both. -/
theorem mergeSort_mergeSort (xs : List α) :
    (xs.mergeSort (precedes second)).mergeSort (precedes first) =
      xs.mergeSort (precedes (compareLex first second)) := by
  obtain ⟨ys, hys⟩ : ∃ ys, ys = xs.mergeSort (precedes second) := ⟨_, rfl⟩
  have hsecond : IsStableSort (precedes second) (fun _ => True) xs ys :=
    hys ▸ isStableSort_mergeSort ranks_precedes xs fun _ _ => trivial
  have hfirst : IsStableSort (precedes first) (fun _ => True) ys (ys.mergeSort (precedes first)) :=
    isStableSort_mergeSort ranks_precedes ys fun _ _ => trivial
  have hboth : IsStableSort (precedes (compareLex first second)) (fun _ => True) xs
      (ys.mergeSort (precedes first)) := by
    refine ⟨hfirst.perm.trans hsecond.perm, ?_, fun a _ => ?_⟩
    · refine List.pairwise_iff_forall_sublist.mpr fun {a b} hab => ?_
      refine precedes_compareLex (List.pairwise_iff_forall_sublist.mp hfirst.sorted hab) fun htied => ?_
      -- Tied elements stand as the second order has put them.
      have hself : tied (precedes first) a a = true := (tied_precedes a a).mpr Std.ReflCmp.compare_self
      have hclass := hab.filter (tied (precedes first) a)
      rw [hfirst.ties a trivial, List.filter_cons_of_pos hself, List.filter_cons_of_pos htied,
        List.filter_nil] at hclass
      exact List.pairwise_iff_forall_sublist.mp hsecond.sorted (hclass.trans List.filter_sublist)
    · rw [tied_compareLex, ← List.filter_filter, hfirst.ties a trivial, List.filter_comm,
        hsecond.ties a trivial, List.filter_comm, List.filter_filter]
  rw [← hys]
  exact hboth.unique ranks_precedes (fun _ _ => trivial)
    (isStableSort_mergeSort ranks_precedes xs fun _ _ => trivial)

end Chained

/-! ## Comparisons that may fail -/

/-- Where the first gives something, the second gives the same. -/
def Agrees {γ : Type} (r r' : Except ε γ) : Prop := ∀ x, r = .ok x → r' = .ok x

theorem Agrees.refl {γ : Type} (r : Except ε γ) : Agrees r r := fun _ h => h

theorem Agrees.bind {γ δ : Type} {r r' : Except ε γ} {f f' : γ → Except ε δ} (h : Agrees r r')
    (hf : ∀ x, Agrees (f x) (f' x)) : Agrees (r >>= f) (r' >>= f') := by
  intro y hy
  cases r with
  | error e => cases hy
  | ok x =>
    rw [h x rfl]
    exact hf x y hy

section Agree
variable {less less' : α → α → Except ε Bool} (h : ∀ a b, Agrees (less a b) (less' a b))
include h

theorem fallingRun_agrees (prev : α) (xs : List α) :
    Agrees (fallingRun less prev xs) (fallingRun less' prev xs) := by
  induction xs generalizing prev with
  | nil => exact .refl _
  | cons x xs ih =>
    refine (h x prev).bind fun b => ?_
    cases b with
    | true => exact (ih x).bind fun n => .refl _
    | false => exact .refl _

theorem risingRun_agrees (prev : α) (xs : List α) :
    Agrees (risingRun less prev xs) (risingRun less' prev xs) := by
  induction xs generalizing prev with
  | nil => exact .refl _
  | cons x xs ih =>
    refine (h x prev).bind fun b => ?_
    cases b with
    | true => exact .refl _
    | false => exact (ih x).bind fun n => .refl _

theorem splitRun_agrees (xs : List α) : Agrees (splitRun less xs) (splitRun less' xs) := by
  match xs with
  | [] => exact .refl _
  | [x] => exact .refl _
  | x :: y :: rest =>
    refine (h y x).bind fun b => ?_
    cases b with
    | true => exact (fallingRun_agrees h y rest).bind fun n => .refl _
    | false => exact (risingRun_agrees h y rest).bind fun n => .refl _

theorem place_agrees (x : α) (sorted : List α) (fuel low high : Nat) :
    Agrees (place less x sorted fuel low high) (place less' x sorted fuel low high) := by
  induction fuel generalizing low high with
  | zero => exact .refl _
  | succ fuel ih =>
    rw [place, place]
    split
    · exact .refl _
    · simp only
      generalize sorted[low + (high - low) / 2]? = middle
      cases middle with
      | none => exact .refl _
      | some y =>
        refine (h x y).bind fun b => ?_
        cases b with
        | true => exact ih _ _
        | false => exact ih _ _

theorem insertAll_agrees (sorted xs : List α) :
    Agrees (insertAll less sorted xs) (insertAll less' sorted xs) := by
  induction xs generalizing sorted with
  | nil => exact .refl _
  | cons x xs ih =>
    exact ((place_agrees h x sorted _ 0 _).bind fun n => .refl _).bind fun sorted => ih sorted

theorem sort_agrees (xs : List α) : Agrees (sort less xs) (sort less' xs) :=
  (splitRun_agrees h xs).bind fun split => insertAll_agrees h split.1 split.2

end Agree

/-- A list that is sorted at all by a comparison that says of its elements what an order says is
sorted as by the order. -/
theorem sort_eq_of_ok {cmp : α → α → Ordering} [Std.TransCmp cmp] {less : α → α → Except ε Bool}
    {xs ys : List α}
    (hless : ∀ a ∈ xs, ∀ b ∈ xs, ∀ r, less a b = .ok r → r = !precedes cmp b a)
    (h : sort less xs = .ok ys) : ys = xs.mergeSort (precedes cmp) := by
  -- The comparison that the order completes agrees with it everywhere.
  let less' (a b : α) : Except ε Bool := match less a b with
    | .ok r => .ok r
    | .error _ => .ok (!precedes cmp b a)
  have hagrees : ∀ a b, Agrees (less a b) (less' a b) := by
    intro a b r hr
    simp only [less', hr]
  have hdefined : ∀ a b, a ∈ xs → b ∈ xs → less' a b = .ok (!precedes cmp b a) := by
    intro a b ha hb
    cases hr : less a b with
    | error e => simp only [less', hr]
    | ok r => simp only [less', hr, hless a ha b hb r hr]
  have hranks : Ranks (precedes cmp) (· ∈ xs) :=
    ⟨fun a b _ _ => ranks_precedes.total a b trivial trivial,
      fun a b c _ _ _ => ranks_precedes.trans a b c trivial trivial trivial⟩
  have hsort := sort_eq_mergeSort hranks hdefined xs fun _ hx => hx
  exact Except.ok.inj ((sort_agrees hagrees xs ys h).symm.trans hsort)

end Cabinet.Order
