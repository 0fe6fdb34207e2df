import Mathlib
import Cabinet.Order
import Cabinet.Proofs.Store.Action

/-!
# Sorting by any comparison

What is true of `Order.sort` also where the comparison is no order.

* `sort_map` : sorting commutes with a function that keeps what the comparison says; `sort_map_of_mem`
  asks this of the elements of the list only;
* `sort_ok` : sorting only fails if a comparison does; `sort_ok_of_mem` asks this of the elements of the
  list only;
* `sort_perm` : the result is a permutation of the list.
-/

namespace Cabinet.Order

variable {α β ε : Type} {less : α → α → Except ε Bool}

/-! ## Sorting commutes with functions -/

section Map
variable {less' : β → β → Except ε Bool} {f : α → β}

theorem fallingRun_map (h : ∀ x y, less' (f x) (f y) = less x y) (prev : α) (xs : List α) :
    fallingRun less' (f prev) (xs.map f) = fallingRun less prev xs := by
  induction xs generalizing prev with
  | nil => rfl
  | cons x xs ih => simp only [List.map_cons, fallingRun, h, ih]

theorem risingRun_map (h : ∀ x y, less' (f x) (f y) = less x y) (prev : α) (xs : List α) :
    risingRun less' (f prev) (xs.map f) = risingRun less prev xs := by
  induction xs generalizing prev with
  | nil => rfl
  | cons x xs ih => simp only [List.map_cons, risingRun, h, ih]

theorem splitRun_map (h : ∀ x y, less' (f x) (f y) = less x y) (xs : List α) :
    splitRun less' (xs.map f) = (splitRun less xs).map (Prod.map (List.map f) (List.map f)) := by
  match xs with
  | [] => rfl
  | [x] => rfl
  | x :: y :: rest =>
    simp only [List.map_cons, splitRun, h, fallingRun_map h, risingRun_map h, ← List.map_take,
      ← List.map_drop]
    cases less y x with
    | error e => rfl
    | ok b =>
      cases b with
      | true =>
        cases fallingRun less y rest with
        | error e => rfl
        | ok n => simp [bind, Except.bind, pure, Except.pure, Except.map]
      | false =>
        cases risingRun less y rest with
        | error e => rfl
        | ok n => simp [bind, Except.bind, pure, Except.pure, Except.map]

theorem place_map (h : ∀ x y, less' (f x) (f y) = less x y) (x : α) (sorted : List α)
    (fuel low high : Nat) :
    place less' (f x) (sorted.map f) fuel low high = place less x sorted fuel low high := by
  induction fuel generalizing low high with
  | zero => rfl
  | succ fuel ih =>
    simp only [place, List.getElem?_map]
    cases sorted[low + (high - low) / 2]? with
    | none => rfl
    | some y => simp only [Option.map_some, h, ih]

theorem insert_map (h : ∀ x y, less' (f x) (f y) = less x y) (x : α) (sorted : List α) :
    insert less' (f x) (sorted.map f) = (insert less x sorted).map (List.map f) := by
  simp only [insert, List.length_map, place_map h]
  cases place less x sorted sorted.length 0 sorted.length with
  | error e => rfl
  | ok n => simp [bind, Except.bind, pure, Except.pure, Except.map]

theorem insertAll_map (h : ∀ x y, less' (f x) (f y) = less x y) (sorted rest : List α) :
    insertAll less' (sorted.map f) (rest.map f) = (insertAll less sorted rest).map (List.map f) := by
  induction rest generalizing sorted with
  | nil => rfl
  | cons x rest ih =>
    simp only [List.map_cons, insertAll, insert_map h]
    cases insert less x sorted with
    | error e => rfl
    | ok sorted' => exact ih sorted'

/-- Sorting commutes with a function that keeps what the comparison says. -/
theorem sort_map (h : ∀ x y, less' (f x) (f y) = less x y) (xs : List α) :
    sort less' (xs.map f) = (sort less xs).map (List.map f) := by
  simp only [sort, splitRun_map h]
  cases splitRun less xs with
  | error e => rfl
  | ok split => exact insertAll_map h split.1 split.2

theorem sort_map_of_mem {xs : List α}
    (h : ∀ x ∈ xs, ∀ y ∈ xs, less' (f x) (f y) = less x y) :
    sort less' (xs.map f) = (sort less xs).map (List.map f) := by
  have hsame : ∀ x y : { x // x ∈ xs }, less' (f x) (f y) = less x y :=
    fun x y => h x x.2 y y.2
  have hleft := sort_map hsame xs.attach
  have hright : sort less (xs.attach.map Subtype.val) =
      (sort (fun x y : { x // x ∈ xs } => less x y) xs.attach).map (List.map Subtype.val) :=
    sort_map (fun _ _ => rfl) xs.attach
  rw [List.attach_map_subtype_val] at hright
  rw [List.attach_map_val] at hleft
  rw [hleft, hright]
  cases sort (fun x y : { x // x ∈ xs } => less x y) xs.attach with
  | error e => rfl
  | ok ys => simp [Except.map]

end Map

/-! ## Sorting only fails if a comparison does -/

section Ok
variable (h : ∀ x y, ∃ b, less x y = .ok b)
include h

theorem fallingRun_ok (prev : α) (xs : List α) : ∃ n, fallingRun less prev xs = .ok n := by
  induction xs generalizing prev with
  | nil => exact ⟨0, rfl⟩
  | cons x xs ih =>
    obtain ⟨b, hb⟩ := h x prev
    obtain ⟨n, hn⟩ := ih x
    rw [fallingRun, hb, hn]
    cases b <;> exact ⟨_, rfl⟩

theorem risingRun_ok (prev : α) (xs : List α) : ∃ n, risingRun less prev xs = .ok n := by
  induction xs generalizing prev with
  | nil => exact ⟨0, rfl⟩
  | cons x xs ih =>
    obtain ⟨b, hb⟩ := h x prev
    obtain ⟨n, hn⟩ := ih x
    rw [risingRun, hb, hn]
    cases b <;> exact ⟨_, rfl⟩

theorem splitRun_ok (xs : List α) : ∃ split, splitRun less xs = .ok split := by
  match xs with
  | [] => exact ⟨_, rfl⟩
  | [x] => exact ⟨_, rfl⟩
  | x :: y :: rest =>
    obtain ⟨b, hb⟩ := h y x
    obtain ⟨n, hn⟩ := fallingRun_ok h y rest
    obtain ⟨k, hk⟩ := risingRun_ok h y rest
    rw [splitRun, hb, hn, hk]
    cases b <;> exact ⟨_, rfl⟩

theorem place_ok (x : α) (sorted : List α) (fuel low high : Nat) :
    ∃ n, place less x sorted fuel low high = .ok n := by
  induction fuel generalizing low high with
  | zero => exact ⟨low, rfl⟩
  | succ fuel ih =>
    rw [place]
    by_cases hdone : high ≤ low
    · rw [if_pos hdone]
      exact ⟨low, rfl⟩
    simp only [if_neg hdone]
    cases sorted[low + (high - low) / 2]? with
    | none => exact ⟨low, rfl⟩
    | some y =>
      obtain ⟨b, hb⟩ := h x y
      simp only [hb]
      cases b with
      | true => exact ih _ _
      | false => exact ih _ _

theorem insertAll_ok (sorted rest : List α) : ∃ ys, insertAll less sorted rest = .ok ys := by
  induction rest generalizing sorted with
  | nil => exact ⟨sorted, rfl⟩
  | cons x rest ih =>
    obtain ⟨n, hn⟩ := place_ok h x sorted sorted.length 0 sorted.length
    rw [insertAll, insert, hn]
    exact ih _

theorem sort_ok (xs : List α) : ∃ ys, sort less xs = .ok ys := by
  obtain ⟨split, hsplit⟩ := splitRun_ok h xs
  rw [sort, hsplit]
  exact insertAll_ok h split.1 split.2

end Ok

/-- Sorting only compares the elements of the list. -/
theorem sort_ok_of_mem {xs : List α} (h : ∀ x ∈ xs, ∀ y ∈ xs, ∃ b, less x y = .ok b) :
    ∃ ys, sort less xs = .ok ys := by
  have hsub : ∀ x y : { x // x ∈ xs }, ∃ b, less x y = .ok b := fun x y => h x x.2 y y.2
  obtain ⟨ys, hys⟩ := sort_ok hsub xs.attach
  have hmap : sort less (xs.attach.map Subtype.val) =
      (sort (fun x y : { x // x ∈ xs } => less x y) xs.attach).map (List.map Subtype.val) :=
    sort_map (fun _ _ => rfl) xs.attach
  rw [List.attach_map_subtype_val, hys] at hmap
  exact ⟨_, hmap⟩

/-! ## The result is a permutation -/

theorem splitRun_perm {xs run rest : List α} (h : splitRun less xs = .ok (run, rest)) :
    (run ++ rest).Perm xs := by
  match xs, h with
  | [], h =>
    obtain ⟨rfl, rfl⟩ := Prod.mk.inj (Except.ok.inj h)
    exact .refl _
  | [x], h =>
    obtain ⟨rfl, rfl⟩ := Prod.mk.inj (Except.ok.inj h)
    exact .refl _
  | x :: y :: more, h =>
    obtain ⟨b, -, h⟩ := ok_of_bind h
    have htake (n : Nat) : (x :: y :: more.take n) ++ more.drop n = x :: y :: more := by
      rw [List.cons_append, List.cons_append, List.take_append_drop]
    cases b with
    | true =>
      obtain ⟨n, -, h⟩ := ok_of_bind h
      obtain ⟨rfl, rfl⟩ := Prod.mk.inj (Except.ok.inj h)
      exact ((List.reverse_perm _).append_right _).trans (.of_eq (htake n))
    | false =>
      obtain ⟨n, -, h⟩ := ok_of_bind h
      obtain ⟨rfl, rfl⟩ := Prod.mk.inj (Except.ok.inj h)
      exact .of_eq (htake n)

theorem insert_perm {x : α} {sorted ys : List α} (h : insert less x sorted = .ok ys) :
    ys.Perm (x :: sorted) := by
  obtain ⟨n, -, h⟩ := ok_of_bind h
  obtain rfl := Except.ok.inj h
  refine List.perm_middle.trans (.of_eq ?_)
  rw [List.take_append_drop]

theorem insertAll_perm {rest : List α} : ∀ {sorted ys : List α},
    insertAll less sorted rest = .ok ys → ys.Perm (sorted ++ rest) := by
  induction rest with
  | nil =>
    intro sorted ys h
    obtain rfl := Except.ok.inj h
    rw [List.append_nil]
  | cons x rest ih =>
    intro sorted ys h
    obtain ⟨sorted', hinsert, h⟩ := ok_of_bind h
    exact (ih h).trans (((insert_perm hinsert).append_right rest).trans List.perm_middle.symm)

theorem sort_perm {xs ys : List α} (h : sort less xs = .ok ys) : ys.Perm xs := by
  obtain ⟨⟨run, rest⟩, hsplit, h⟩ := ok_of_bind h
  exact (insertAll_perm h).trans (splitRun_perm hsplit)

end Cabinet.Order
