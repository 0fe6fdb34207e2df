import Mathlib
import Cabinet.Order

/-!
# Sorting is the stable sort

* `Ranks le P` : on the elements of a class, `le` is a total preorder;
* `IsStableSort le P xs ys` : `ys` are the elements of `xs` in order, those of equal rank as they
  were; there is at most one such list (`IsStableSort.unique`), and it is `List.mergeSort`
  (`isStableSort_mergeSort`), which elements may be left out of before or after (`mergeSort_filter`);
* `splitRun_isStableSort`, `insert_isStableSort` : the initial run is the stable sort of what it was
  taken from, and inserting an element keeps a stable sort one;
* `sort_eq_mergeSort` : so `Order.sort` gives the stable sort of a list.
-/

namespace Cabinet.Order

variable {α ε : Type} {le : α → α → Bool} {P : α → Prop}

/-- On the elements of a class, `le` is a total preorder. -/
structure Ranks (le : α → α → Bool) (P : α → Prop) : Prop where
  total : ∀ a b, P a → P b → le a b = true ∨ le b a = true
  trans : ∀ a b c, P a → P b → P c → le a b = true → le b c = true → le a c = true

theorem Ranks.refl (h : Ranks le P) {a : α} (ha : P a) : le a a = true :=
  (h.total a a ha ha).elim id id

theorem Ranks.of_not_le (h : Ranks le P) {a b : α} (ha : P a) (hb : P b) (hab : le a b = false) :
    le b a = true := by
  rcases h.total a b ha hb with hle | hle
  · rw [hab] at hle
    cases hle
  · exact hle

/-- What is less than an element is less than all that the element is not above. -/
theorem Ranks.not_le_trans (h : Ranks le P) {a b c : α} (ha : P a) (hb : P b) (hc : P c)
    (hab : le a b = false) (hcb : le c b = true) : le a c = false := by
  cases hac : le a c with
  | false => rfl
  | true =>
    rw [h.trans a c b ha hc hb hac hcb] at hab
    cases hab

/-- Neither of two elements comes before the other. -/
def tied (le : α → α → Bool) (a b : α) : Bool := le a b && le b a

/-! ## Stable sorts of a list -/

/-- The elements of a list in order, those of equal rank in the order they have in the list. -/
structure IsStableSort (le : α → α → Bool) (P : α → Prop) (xs ys : List α) : Prop where
  perm : ys.Perm xs
  sorted : ys.Pairwise fun a b => le a b = true
  ties : ∀ a, P a → ys.filter (tied le a) = xs.filter (tied le a)

/-- Two sorted lists of the same elements are equal if every class of tied elements stands in the
same order in both. -/
theorem eq_of_ties (h : Ranks le P) : ∀ {ys zs : List α}, (∀ a ∈ ys, P a) → ys.Perm zs →
    (ys.Pairwise fun a b => le a b = true) → (zs.Pairwise fun a b => le a b = true) →
    (∀ a ∈ ys, ys.filter (tied le a) = zs.filter (tied le a)) → ys = zs
  | [], zs, _, hperm, _, _, _ => by rw [List.nil_perm.mp hperm]
  | a :: ys, [], _, hperm, _, _, _ => absurd hperm.length_eq (by simp)
  | a :: ys, b :: zs, hP, hperm, hys, hzs, hties => by
    have ha : P a := hP a List.mem_cons_self
    have hb : P b := hP b (hperm.mem_iff.mpr List.mem_cons_self)
    have hab : le a b = true := by
      rcases List.mem_cons.mp (hperm.mem_iff.mpr List.mem_cons_self : b ∈ a :: ys) with rfl | hmem
      · exact h.refl ha
      · exact List.rel_of_pairwise_cons hys hmem
    have hba : le b a = true := by
      rcases List.mem_cons.mp (hperm.mem_iff.mp List.mem_cons_self : a ∈ b :: zs) with rfl | hmem
      · exact h.refl ha
      · exact List.rel_of_pairwise_cons hzs hmem
    have hheads := hties a List.mem_cons_self
    rw [List.filter_cons_of_pos (by simp [tied, h.refl ha]),
      List.filter_cons_of_pos (by simp [tied, hab, hba])] at hheads
    obtain ⟨rfl, -⟩ := List.cons.inj hheads
    have htail : ys = zs := by
      refine eq_of_ties h (fun c hc => hP c (List.mem_cons_of_mem a hc)) hperm.cons_inv
        (List.Pairwise.of_cons hys) (List.Pairwise.of_cons hzs) fun c hc => ?_
      have hc' := hties c (List.mem_cons_of_mem a hc)
      by_cases hca : tied le c a = true
      · rw [List.filter_cons_of_pos hca, List.filter_cons_of_pos hca] at hc'
        exact (List.cons.inj hc').2
      · rwa [List.filter_cons_of_neg hca, List.filter_cons_of_neg hca] at hc'
    rw [htail]

theorem IsStableSort.unique {xs ys zs : List α} (h : Ranks le P) (hP : ∀ x ∈ xs, P x)
    (hys : IsStableSort le P xs ys) (hzs : IsStableSort le P xs zs) : ys = zs := by
  have hPys : ∀ y ∈ ys, P y := fun y hy => hP y (hys.perm.mem_iff.mp hy)
  refine eq_of_ties h hPys (hys.perm.trans hzs.perm.symm) hys.sorted hzs.sorted fun a ha => ?_
  rw [hys.ties a (hPys a ha), hzs.ties a (hPys a ha)]

/-- The elements tied with one of a list, of which `ys` is a sorted permutation that keeps every
sorted sublist, stand in `ys` as they stand in the list. -/
theorem filter_tied_eq (h : Ranks le P) {xs ys : List α} {a : α} (ha : P a) (hP : ∀ b ∈ xs, P b)
    (hperm : ys.Perm xs)
    (hsub : ∀ zs : List α, (zs.Pairwise fun b c => le b c = true) → zs.Sublist xs → zs.Sublist ys) :
    ys.filter (tied le a) = xs.filter (tied le a) := by
  have htied : (xs.filter (tied le a)).Pairwise fun b c => le b c = true := by
    refine List.pairwise_of_forall_mem_list fun b hb c hc => ?_
    obtain ⟨hb, hab⟩ := List.mem_filter.mp hb
    obtain ⟨hc, hac⟩ := List.mem_filter.mp hc
    simp only [tied, Bool.and_eq_true] at hab hac
    exact h.trans b a c (hP b hb) ha (hP c hc) hab.2 hac.1
  have hle : (xs.filter (tied le a)).Sublist (ys.filter (tied le a)) := by
    have hfilter := (hsub _ htied List.filter_sublist).filter (tied le a)
    rwa [List.filter_filter, show (fun b => tied le a b && tied le a b) = tied le a from
      funext fun b => Bool.and_self _] at hfilter
  exact (hle.eq_of_length (hperm.filter _).length_eq.symm).symm

/-- Merge sort is the stable sort. Its laws are known for total preorders on a whole type, so the
elements of the list are taken as a type. -/
theorem isStableSort_mergeSort (h : Ranks le P) (xs : List α) (hP : ∀ x ∈ xs, P x) :
    IsStableSort le P xs (xs.mergeSort le) := by
  let leₓ (a b : { x // x ∈ xs }) : Bool := le a.1 b.1
  have trans : ∀ a b c : { x // x ∈ xs }, leₓ a b = true → leₓ b c = true → leₓ a c = true :=
    fun a b c => h.trans a b c (hP a a.2) (hP b b.2) (hP c c.2)
  have total : ∀ a b : { x // x ∈ xs }, (leₓ a b || leₓ b a) = true :=
    fun a b => by simpa using h.total a b (hP a a.2) (hP b b.2)
  have hmap : xs.mergeSort le = (xs.attach.mergeSort leₓ).map Subtype.val := by
    rw [List.map_mergeSort (s := le) (fun a _ b _ => rfl), List.attach_map_subtype_val]
  refine ⟨List.mergeSort_perm xs le, ?_, fun a ha => ?_⟩
  · rw [hmap, List.pairwise_map]
    exact List.pairwise_mergeSort trans total xs.attach
  · refine filter_tied_eq h ha hP (List.mergeSort_perm xs le) fun zs hzs hsub => ?_
    obtain ⟨zsₓ, hsubₓ, rfl⟩ : ∃ zsₓ : List { x // x ∈ xs }, zsₓ.Sublist xs.attach ∧
        zsₓ.map Subtype.val = zs := by
      rw [← List.attach_map_subtype_val xs, List.sublist_map_iff] at hsub
      obtain ⟨l, hl, rfl⟩ := hsub
      exact ⟨l, hl, rfl⟩
    rw [List.pairwise_map] at hzs
    rw [hmap]
    exact (List.sublist_mergeSort trans total hzs hsubₓ).map _

/-- Leaving out elements leaves a stable sort of the others. -/
theorem IsStableSort.filter {xs ys : List α} (h : IsStableSort le P xs ys) (p : α → Bool) :
    IsStableSort le P (xs.filter p) (ys.filter p) where
  perm := h.perm.filter p
  sorted := h.sorted.filter p
  ties a ha := by
    rw [List.filter_comm, h.ties a ha, List.filter_comm]

/-- Elements may be left out before or after a sort. -/
theorem mergeSort_filter (h : Ranks le P) {xs : List α} (hP : ∀ x ∈ xs, P x) (p : α → Bool) :
    (xs.filter p).mergeSort le = (xs.mergeSort le).filter p := by
  have hP' : ∀ x ∈ xs.filter p, P x := fun x hx => hP x (List.mem_filter.mp hx).1
  exact (isStableSort_mergeSort h _ hP').unique h hP' ((isStableSort_mergeSort h xs hP).filter p)

/-! ## The initial run -/

/-- A list whose first two elements are in a relation, and whose rest is pairwise in it from the
second element on, is pairwise in it. -/
theorem pairwise_cons_cons {R : α → α → Prop}
    (trans : ∀ a b c, P a → P b → P c → R a b → R b c → R a c) {a b : α} {l : List α}
    (hP : ∀ x ∈ a :: b :: l, P x) (hab : R a b) (h : (b :: l).Pairwise R) :
    (a :: b :: l).Pairwise R := by
  refine List.pairwise_cons.mpr ⟨fun x hx => ?_, h⟩
  rcases List.mem_cons.mp hx with rfl | hx
  · exact hab
  · exact trans a b x (hP a (by simp)) (hP b (by simp)) (hP x (by simp [hx])) hab
      (List.rel_of_pairwise_cons h hx)

/-- To be less is transitive, too. -/
theorem Ranks.falling_trans (h : Ranks le P) (a b c : α) (ha : P a) (hb : P b) (hc : P c)
    (hab : le a b = false) (hbc : le b c = false) : le a c = false :=
  h.not_le_trans ha hb hc hab (h.of_not_le hb hc hbc)

theorem forall_mem_cons_take {a : α} {xs : List α} (ha : P a) (hxs : ∀ x ∈ xs, P x) (n : Nat) :
    ∀ x ∈ a :: xs.take n, P x := by
  intro x hx
  rcases List.mem_cons.mp hx with rfl | hx
  · exact ha
  · exact hxs x (List.mem_of_mem_take hx)

section Sorting
variable {less : α → α → Except ε Bool}

theorem fallingRun_spec (h : Ranks le P)
    (hless : ∀ a b, P a → P b → less a b = .ok (!le b a)) : ∀ (xs : List α) (prev : α), P prev →
    (∀ x ∈ xs, P x) → ∃ n, fallingRun less prev xs = .ok n ∧
      (prev :: xs.take n).Pairwise fun a b => le a b = false
  | [], prev, _, _ => ⟨0, rfl, by simp⟩
  | x :: xs, prev, hprev, hxs => by
    have hx : P x := hxs x List.mem_cons_self
    have hrest : ∀ y ∈ xs, P y := fun y hy => hxs y (List.mem_cons_of_mem x hy)
    rw [fallingRun, hless x prev hx hprev]
    cases hle : le prev x with
    | true => exact ⟨0, rfl, by simp⟩
    | false =>
      obtain ⟨n, hn, hrun⟩ := fallingRun_spec h hless xs x hx hrest
      refine ⟨n + 1, by simp [bind, Except.bind, hn, pure, Except.pure], ?_⟩
      exact pairwise_cons_cons h.falling_trans (forall_mem_cons_take hprev hxs (n + 1)) hle hrun

theorem risingRun_spec (h : Ranks le P)
    (hless : ∀ a b, P a → P b → less a b = .ok (!le b a)) : ∀ (xs : List α) (prev : α), P prev →
    (∀ x ∈ xs, P x) → ∃ n, risingRun less prev xs = .ok n ∧
      (prev :: xs.take n).Pairwise fun a b => le a b = true
  | [], prev, _, _ => ⟨0, rfl, by simp⟩
  | x :: xs, prev, hprev, hxs => by
    have hx : P x := hxs x List.mem_cons_self
    have hrest : ∀ y ∈ xs, P y := fun y hy => hxs y (List.mem_cons_of_mem x hy)
    rw [risingRun, hless x prev hx hprev]
    cases hle : le prev x with
    | false => exact ⟨0, rfl, by simp⟩
    | true =>
      obtain ⟨n, hn, hrun⟩ := risingRun_spec h hless xs x hx hrest
      refine ⟨n + 1, by simp [bind, Except.bind, hn, pure, Except.pure], ?_⟩
      exact pairwise_cons_cons h.trans (forall_mem_cons_take hprev hxs (n + 1)) hle hrun

theorem IsStableSort.of_pairwise {xs : List α} (h : xs.Pairwise fun a b => le a b = true) :
    IsStableSort le P xs xs :=
  ⟨.refl xs, h, fun _ _ => rfl⟩

/-- A falling list is put in order by reversing it: no two of its elements are tied. -/
theorem IsStableSort.reverse (h : Ranks le P) {xs : List α} (hP : ∀ x ∈ xs, P x)
    (hxs : xs.Pairwise fun a b => le a b = false) : IsStableSort le P xs xs.reverse := by
  refine ⟨xs.reverse_perm, ?_, fun a ha => ?_⟩
  · rw [List.pairwise_reverse]
    exact hxs.imp_of_mem fun hb hc hbc => h.of_not_le (hP _ hb) (hP _ hc) hbc
  · rw [List.filter_reverse]
    rcases hf : xs.filter (tied le a) with _ | ⟨b, _ | ⟨c, rest⟩⟩
    · rfl
    · rfl
    · have hb : b ∈ xs.filter (tied le a) := by simp [hf]
      have hc : c ∈ xs.filter (tied le a) := by simp [hf]
      obtain ⟨hb, hab⟩ := List.mem_filter.mp hb
      obtain ⟨hc, hac⟩ := List.mem_filter.mp hc
      simp only [tied, Bool.and_eq_true] at hab hac
      have hbc := h.trans b a c (hP b hb) ha (hP c hc) hab.2 hac.1
      have hfalling := hxs.filter (tied le a)
      rw [hf] at hfalling
      rw [List.rel_of_pairwise_cons hfalling List.mem_cons_self] at hbc
      cases hbc

theorem splitRun_isStableSort (h : Ranks le P)
    (hless : ∀ a b, P a → P b → less a b = .ok (!le b a)) : ∀ (xs : List α), (∀ x ∈ xs, P x) →
    ∃ lead run rest, xs = lead ++ rest ∧ splitRun less xs = .ok (run, rest) ∧
      IsStableSort le P lead run
  | [], _ => ⟨[], [], [], rfl, rfl, .of_pairwise .nil⟩
  | [x], _ => ⟨[x], [x], [], rfl, rfl, .of_pairwise (List.pairwise_singleton _ x)⟩
  | x :: y :: rest, hP => by
    have hx : P x := hP x (by simp)
    have hy : P y := hP y (by simp)
    have hrest : ∀ z ∈ rest, P z := fun z hz => hP z (by simp [hz])
    have hlead (n : Nat) : ∀ z ∈ x :: y :: rest.take n, P z :=
      forall_mem_cons_take hx (fun z hz => hP z (List.mem_cons_of_mem x hz)) (n + 1)
    rw [splitRun, hless y x hy hx]
    cases hle : le x y with
    | false =>
      obtain ⟨n, hn, hrun⟩ := fallingRun_spec h hless rest y hy hrest
      refine ⟨x :: y :: rest.take n, (x :: y :: rest.take n).reverse, rest.drop n, by simp,
        by simp [bind, Except.bind, hn, pure, Except.pure], ?_⟩
      exact .reverse h (hlead n) (pairwise_cons_cons h.falling_trans (hlead n) hle hrun)
    | true =>
      obtain ⟨n, hn, hrun⟩ := risingRun_spec h hless rest y hy hrest
      refine ⟨x :: y :: rest.take n, x :: y :: rest.take n, rest.drop n, by simp,
        by simp [bind, Except.bind, hn, pure, Except.pure], ?_⟩
      exact .of_pairwise (pairwise_cons_cons h.trans (hlead n) hle hrun)

/-! ## Inserting -/

/-- The binary search keeps that all elements before `low` are not above `x`, and that all from
`high` on are. -/
theorem place_spec (h : Ranks le P) (hless : ∀ a b, P a → P b → less a b = .ok (!le b a))
    {x : α} {sorted : List α} (hx : P x) (hP : ∀ y ∈ sorted, P y)
    (hsorted : sorted.Pairwise fun a b => le a b = true) : ∀ fuel low high : Nat,
    high ≤ low + fuel → high ≤ sorted.length → low ≤ high →
    (∀ (i : Nat) (hi : i < sorted.length), i < low → le sorted[i] x = true) →
    (∀ (i : Nat) (hi : i < sorted.length), high ≤ i → le sorted[i] x = false) →
    ∃ n, place less x sorted fuel low high = .ok n ∧ n ≤ sorted.length ∧
      (∀ (i : Nat) (hi : i < sorted.length), i < n → le sorted[i] x = true) ∧
      (∀ (i : Nat) (hi : i < sorted.length), n ≤ i → le sorted[i] x = false)
  | 0, low, high, hfuel, hhigh, hle, hlow, habove =>
    ⟨low, rfl, by omega, hlow, fun i hi hn => habove i hi (by omega)⟩
  | fuel + 1, low, high, hfuel, hhigh, hle, hlow, habove => by
    rw [place]
    by_cases hdone : high ≤ low
    · rw [if_pos hdone]
      exact ⟨low, rfl, by omega, hlow, fun i hi hn => habove i hi (by omega)⟩
    obtain ⟨middle, hm⟩ : ∃ middle, middle = low + (high - low) / 2 := ⟨_, rfl⟩
    have hmiddle : middle < sorted.length := by omega
    have hy : P sorted[middle] := hP _ (List.getElem_mem hmiddle)
    have hpair := List.pairwise_iff_getElem.mp hsorted
    simp only [if_neg hdone, ← hm, List.getElem?_eq_getElem hmiddle, hless x _ hx hy]
    cases hyx : le sorted[middle] x with
    | false =>
      refine place_spec h hless hx hP hsorted fuel low middle (by omega) (by omega) (by omega) hlow
        fun i hi hmi => ?_
      rcases Nat.eq_or_lt_of_le hmi with rfl | hlt
      · exact hyx
      · cases hix : le sorted[i] x with
        | false => rfl
        | true =>
          rw [h.trans _ _ x hy (hP _ (List.getElem_mem hi)) hx
            (hpair middle i hmiddle hi hlt) hix] at hyx
          cases hyx
    | true =>
      refine place_spec h hless hx hP hsorted fuel (middle + 1) high (by omega) hhigh (by omega)
        (fun i hi hmi => ?_) habove
      rcases Nat.eq_or_lt_of_le (Nat.le_of_lt_succ hmi) with rfl | hlt
      · exact hyx
      · exact h.trans _ _ x (hP _ (List.getElem_mem hi)) hy hx (hpair i middle hi hmiddle hlt) hyx

theorem insert_isStableSort (h : Ranks le P)
    (hless : ∀ a b, P a → P b → less a b = .ok (!le b a)) {x : α} {xs sorted : List α} (hx : P x)
    (hP : ∀ y ∈ xs, P y) (hs : IsStableSort le P xs sorted) :
    ∃ ys, insert less x sorted = .ok ys ∧ IsStableSort le P (xs ++ [x]) ys := by
  have hPs : ∀ y ∈ sorted, P y := fun y hy => hP y (hs.perm.mem_iff.mp hy)
  obtain ⟨n, hn, hlen, hbelow, habove⟩ := place_spec h hless hx hPs hs.sorted sorted.length 0
    sorted.length (by omega) (by omega) (by omega) (fun i _ hi => absurd hi (by omega))
    (fun i hi hle => absurd hi (by omega))
  have htake : ∀ y ∈ sorted.take n, le y x = true := by
    intro y hy
    obtain ⟨i, hi, rfl⟩ := List.mem_iff_getElem.mp hy
    rw [List.getElem_take]
    rw [List.length_take] at hi
    exact hbelow i (by omega) (by omega)
  have hdrop : ∀ y ∈ sorted.drop n, le y x = false := by
    intro y hy
    obtain ⟨i, hi, rfl⟩ := List.mem_iff_getElem.mp hy
    rw [List.getElem_drop]
    rw [List.length_drop] at hi
    exact habove (n + i) (by omega) (by omega)
  refine ⟨sorted.take n ++ x :: sorted.drop n,
    by simp [insert, bind, Except.bind, hn, pure, Except.pure], ?_, ?_, fun a ha => ?_⟩
  · have hmiddle : (sorted.take n ++ x :: sorted.drop n).Perm
        (x :: (sorted.take n ++ sorted.drop n)) := List.perm_middle
    rw [List.take_append_drop] at hmiddle
    exact hmiddle.trans ((hs.perm.cons x).trans (List.perm_append_singleton x xs).symm)
  · have hsplit := List.pairwise_append.mp
      ((List.take_append_drop n sorted).symm ▸ hs.sorted :
        (sorted.take n ++ sorted.drop n).Pairwise fun a b => le a b = true)
    refine List.pairwise_append.mpr ⟨hsplit.1, List.pairwise_cons.mpr ⟨fun y hy => ?_, hsplit.2.1⟩,
      fun y hy z hz => ?_⟩
    · exact h.of_not_le (hPs y (List.mem_of_mem_drop hy)) hx (hdrop y hy)
    · rcases List.mem_cons.mp hz with rfl | hz
      · exact htake y hy
      · exact hsplit.2.2 y hy z hz
  · have hafter : (sorted.drop n).filter (tied le a) = [] ∨ tied le a x = false := by
      cases hax : tied le a x with
      | false => exact .inr rfl
      | true =>
        simp only [tied, Bool.and_eq_true] at hax
        refine .inl (List.filter_eq_nil_iff.mpr fun y hy hay => ?_)
        simp only [tied, Bool.and_eq_true] at hay
        have hyx := h.trans y a x (hPs y (List.mem_of_mem_drop hy)) ha hx hay.2 hax.1
        rw [hdrop y hy] at hyx
        cases hyx
    have hsplit : sorted.filter (tied le a) =
        (sorted.take n).filter (tied le a) ++ (sorted.drop n).filter (tied le a) := by
      rw [← List.filter_append, List.take_append_drop]
    rw [List.filter_append, List.filter_append, ← hs.ties a ha, hsplit]
    rcases hafter with hnone | hax
    · cases hax : tied le a x <;> simp [hax, hnone]
    · simp [hax]

theorem insertAll_isStableSort (h : Ranks le P)
    (hless : ∀ a b, P a → P b → less a b = .ok (!le b a)) : ∀ (rest xs sorted : List α),
    (∀ y ∈ xs ++ rest, P y) → IsStableSort le P xs sorted →
    ∃ ys, insertAll less sorted rest = .ok ys ∧ IsStableSort le P (xs ++ rest) ys
  | [], xs, sorted, _, hs => ⟨sorted, rfl, by simpa using hs⟩
  | x :: rest, xs, sorted, hP, hs => by
    obtain ⟨ys, hys, hstable⟩ := insert_isStableSort h hless (hP x (by simp))
      (fun y hy => hP y (by simp [hy])) hs
    obtain ⟨zs, hzs, hall⟩ := insertAll_isStableSort h hless rest (xs ++ [x]) ys
      (by simpa using hP) hstable
    refine ⟨zs, ?_, by simpa using hall⟩
    rw [insertAll, hys]
    exact hzs

/-- Sorting gives the stable sort. -/
theorem sort_eq_mergeSort (h : Ranks le P)
    (hless : ∀ a b, P a → P b → less a b = .ok (!le b a)) (xs : List α) (hP : ∀ x ∈ xs, P x) :
    sort less xs = .ok (xs.mergeSort le) := by
  obtain ⟨lead, run, rest, rfl, hsplit, hrun⟩ := splitRun_isStableSort h hless xs hP
  obtain ⟨ys, hys, hall⟩ := insertAll_isStableSort h hless rest lead run hP hrun
  rw [hall.unique h hP (isStableSort_mergeSort h _ hP)] at hys
  simpa [sort, hsplit, bind, Except.bind] using hys

end Sorting

end Cabinet.Order
