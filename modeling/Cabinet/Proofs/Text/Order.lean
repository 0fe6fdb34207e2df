import Cabinet.Proofs.Order.Stable
import Cabinet.Text.Basic

/-!
# The order of texts

* `Text.compare_eq` : texts are ordered as the lists of their code points' numbers;
* `Text.ranks` : this is a total preorder;
* `Text.sort_filter` : texts may be left out before or after a sort.
-/

namespace Cabinet.Text

theorem compare_eq : ∀ t u : Text,
    t.compare u = Ord.compare (t.map CodePoint.toNat) (u.map CodePoint.toNat)
  | [], [] => rfl
  | [], _ :: _ => rfl
  | _ :: _, [] => rfl
  | p :: t, q :: u => by
    rw [Text.compare, compare_eq t u, List.map_cons, List.map_cons, List.compare_cons_cons]
    rfl

theorem atMost_eq (t u : Text) : (t.compare u != .gt) =
    (Ord.compare (t.map CodePoint.toNat) (u.map CodePoint.toNat)).isLE := by
  rw [compare_eq]
  cases Ord.compare (t.map CodePoint.toNat) (u.map CodePoint.toNat) <;> rfl

theorem ranks : Order.Ranks (fun t u : Text => t.compare u != .gt) fun _ => True where
  total t u _ _ := by
    have hswap : Ord.compare (t.map CodePoint.toNat) (u.map CodePoint.toNat) =
        (Ord.compare (u.map CodePoint.toNat) (t.map CodePoint.toNat)).swap :=
      Std.OrientedCmp.eq_swap
    rw [atMost_eq, atMost_eq, hswap]
    cases Ord.compare (u.map CodePoint.toNat) (t.map CodePoint.toNat) <;> simp
  trans t u v _ _ _ htu huv := by
    rw [atMost_eq] at htu huv ⊢
    exact Std.TransCmp.isLE_trans htu huv

theorem sort_filter (texts : List Text) (p : Text → Bool) :
    sort (texts.filter p) = (sort texts).filter p :=
  Order.mergeSort_filter ranks (fun _ _ => trivial) p

end Cabinet.Text
