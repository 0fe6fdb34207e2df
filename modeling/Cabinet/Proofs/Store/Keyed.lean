import Mathlib
import Cabinet.Store.Disk
import Cabinet.Store.Memory

/-!
# Lists of pairs with keys

Memories and folders are lists of pairs, of which the first with a key counts.

* `Keyed.get?`, `Keyed.put`, `Keyed.remove` : what both do with their pairs;
* `Keyed.get?_put`, `Keyed.get?_remove` : looking up after a change;
* `Keyed.put_keys`, `Keyed.put_new`, `Keyed.mem_put_keys` : replacing what is under a key leaves the keys
  in place, and a new key comes last;
* `Keyed.put_self` : putting what is under a key already changes nothing;
* `Keyed.remove_keys` : removing what is under a key leaves the others in order;
* `Keyed.remove_put` : removing what was new leaves everything as it was;
* `Keyed.get?_filter`, `Keyed.filter_put`, `Keyed.filter_remove` : the pairs of only some of the keys;
* `Keyed.nodup_put`, `Keyed.nodup_remove` : keys stay distinct.
-/

namespace Cabinet

namespace Keyed

variable {β : Type}

/-- What is under a key. -/
def get? : List (Text × β) → Text → Option β
  | [], _ => none
  | (k, x) :: rest, key => if k = key then some x else get? rest key

/-- Replaces what is under a key; a key that is new comes last. -/
def put : List (Text × β) → Text → β → List (Text × β)
  | [], key, x => [(key, x)]
  | (k, old) :: rest, key, x =>
    if k = key then (k, x) :: rest else (k, old) :: put rest key x

def remove (m : List (Text × β)) (key : Text) : List (Text × β) := m.filter fun e => e.1 != key

theorem get?_put (m : List (Text × β)) (key i : Text) (x : β) :
    get? (put m key x) i = if i = key then some x else get? m i := by
  induction m with
  | nil => simp only [put, get?, eq_comm]
  | cons e rest ih =>
    obtain ⟨k, old⟩ := e
    by_cases hk : k = key
    · rw [put, if_pos hk, get?, get?, hk]
      by_cases hi : i = key
      · rw [if_pos hi, if_pos hi.symm]
      · rw [if_neg hi, if_neg (Ne.symm hi)]
        simp [Ne.symm hi]
    · rw [put, if_neg hk, get?, get?, ih]
      by_cases hi : k = i
      · rw [if_pos hi, if_pos hi, if_neg (hi ▸ hk)]
      · rw [if_neg hi, if_neg hi]

theorem get?_remove (m : List (Text × β)) (key i : Text) :
    get? (remove m key) i = if i = key then none else get? m i := by
  induction m with
  | nil => simp [remove, get?]
  | cons e rest ih =>
    obtain ⟨k, x⟩ := e
    simp only [remove] at ih ⊢
    by_cases hk : k = key
    · rw [List.filter_cons_of_neg (by simp [hk]), ih, get?, hk]
      by_cases hi : i = key
      · rw [if_pos hi, if_pos hi]
      · rw [if_neg hi, if_neg hi, if_neg (Ne.symm hi)]
    · rw [List.filter_cons_of_pos (by simp [hk]), get?, get?, ih]
      by_cases hi : k = i
      · rw [if_pos hi, if_pos hi, if_neg (hi ▸ hk)]
      · rw [if_neg hi, if_neg hi]

theorem get?_eq_none {m : List (Text × β)} {key : Text} :
    get? m key = none ↔ key ∉ m.map Prod.fst := by
  induction m with
  | nil => simp [get?]
  | cons e rest ih =>
    obtain ⟨k, x⟩ := e
    by_cases hk : k = key
    · simp [get?, hk]
    · rw [get?, if_neg hk, ih, List.map_cons, List.mem_cons, not_or]
      exact (and_iff_right (Ne.symm hk)).symm

theorem put_keys {m : List (Text × β)} {key : Text} (h : key ∈ m.map Prod.fst) (x : β) :
    (put m key x).map Prod.fst = m.map Prod.fst := by
  induction m with
  | nil => cases h
  | cons e rest ih =>
    obtain ⟨k, old⟩ := e
    by_cases hk : k = key
    · rw [put, if_pos hk]
      rfl
    · rw [put, if_neg hk, List.map_cons, List.map_cons,
        ih ((List.mem_cons.mp h).resolve_left (Ne.symm hk))]

theorem put_self {m : List (Text × β)} {key : Text} {x : β} (h : get? m key = some x) :
    put m key x = m := by
  induction m with
  | nil => cases h
  | cons e rest ih =>
    obtain ⟨k, old⟩ := e
    by_cases hk : k = key
    · rw [get?, if_pos hk] at h
      rw [put, if_pos hk, Option.some.inj h]
    · rw [get?, if_neg hk] at h
      rw [put, if_neg hk, ih h]

theorem put_new {m : List (Text × β)} {key : Text} (h : get? m key = none) (x : β) :
    put m key x = m ++ [(key, x)] := by
  induction m with
  | nil => rfl
  | cons e rest ih =>
    obtain ⟨k, old⟩ := e
    by_cases hk : k = key
    · simp [get?, hk] at h
    · rw [get?, if_neg hk] at h
      rw [put, if_neg hk, ih h]
      rfl

theorem mem_put_keys (m : List (Text × β)) (key i : Text) (x : β) :
    i ∈ (put m key x).map Prod.fst ↔ i = key ∨ i ∈ m.map Prod.fst := by
  by_cases hkey : key ∈ m.map Prod.fst
  · rw [put_keys hkey]
    exact ⟨.inr, fun h => h.elim (fun heq => heq ▸ hkey) id⟩
  · rw [put_new (get?_eq_none.mpr hkey), List.map_append, List.mem_append, or_comm]
    exact or_congr_left List.mem_singleton

theorem remove_put {m : List (Text × β)} {key : Text} (h : get? m key = none) (x : β) :
    remove (put m key x) key = m := by
  induction m with
  | nil => simp [put, remove]
  | cons e rest ih =>
    obtain ⟨k, old⟩ := e
    by_cases hk : k = key
    · simp [get?, hk] at h
    · rw [get?, if_neg hk] at h
      rw [put, if_neg hk, remove, List.filter_cons_of_pos (by simp [hk])]
      exact congrArg _ (ih h)

theorem remove_keys (m : List (Text × β)) (key : Text) :
    (remove m key).map Prod.fst = (m.map Prod.fst).filter (· != key) := by
  rw [List.filter_map]
  rfl

/-! ## Some of the keys -/

theorem get?_filter {p : Text → Bool} {key : Text} (hkey : p key = true) (m : List (Text × β)) :
    get? (m.filter fun e => p e.1) key = get? m key := by
  induction m with
  | nil => rfl
  | cons e rest ih =>
    obtain ⟨k, x⟩ := e
    by_cases hk : p k = true
    · rw [List.filter_cons_of_pos (by exact hk), get?, get?, ih]
    · have hne : k ≠ key := fun h => hk (h ▸ hkey)
      rw [List.filter_cons_of_neg (by exact hk), ih, get?, if_neg hne]

/-- What is put under one of the other keys is not seen. -/
theorem filter_put (p : Text → Bool) (m : List (Text × β)) (key : Text) (x : β) :
    (put m key x).filter (fun e => p e.1) =
      if p key then put (m.filter fun e => p e.1) key x else m.filter fun e => p e.1 := by
  induction m with
  | nil =>
    rw [put, List.filter_cons]
    rfl
  | cons e rest ih =>
    obtain ⟨k, old⟩ := e
    by_cases hk : k = key
    · subst hk
      rw [put, if_pos rfl, List.filter_cons, List.filter_cons]
      by_cases hp : p k = true
      · simp only [hp, if_true, put]
      · simp only [hp, if_false, Bool.false_eq_true]
    · rw [put, if_neg hk, List.filter_cons, List.filter_cons, ih]
      by_cases hpk : p k = true <;> by_cases hp : p key = true <;> simp [hpk, hp, put, hk]

theorem filter_remove (p : Text → Bool) (m : List (Text × β)) (key : Text) :
    (remove m key).filter (fun e => p e.1) = remove (m.filter fun e => p e.1) key := by
  rw [remove, remove, List.filter_comm]

/-- Nothing that is seen is removed with one of the other keys. -/
theorem remove_filter {p : Text → Bool} {key : Text} (hkey : p key = false) (m : List (Text × β)) :
    remove (m.filter fun e => p e.1) key = m.filter fun e => p e.1 := by
  refine List.filter_eq_self.mpr fun e he => ?_
  have hp : p e.1 = true := (List.mem_filter.mp he).2
  have hne : e.1 ≠ key := by
    rintro rfl
    rw [hkey] at hp
    cases hp
  simpa using hne

/-! ## Distinct keys -/

theorem nodup_put {m : List (Text × β)} (h : (m.map Prod.fst).Nodup) (key : Text) (x : β) :
    ((put m key x).map Prod.fst).Nodup := by
  by_cases hkey : key ∈ m.map Prod.fst
  · rw [put_keys hkey]
    exact h
  · rw [put_new (get?_eq_none.mpr hkey), List.map_append]
    apply List.Nodup.append h (List.nodup_singleton key)
    simpa using hkey

theorem nodup_remove {m : List (Text × β)} (h : (m.map Prod.fst).Nodup) (key : Text) :
    ((remove m key).map Prod.fst).Nodup :=
  h.sublist (List.filter_sublist.map Prod.fst)

end Keyed

theorem Memory.get?_eq (m : Memory) (id : Text) : get? m id = Keyed.get? m id := by
  induction m with
  | nil => rfl
  | cons e rest ih => rw [get?, Keyed.get?, ih]

theorem Memory.remove_eq (m : Memory) (id : Text) : remove m id = Keyed.remove m id := rfl

theorem Memory.put_eq (m : Memory) (id kept : Text) : put m id kept = Keyed.put m id kept := by
  induction m with
  | nil => rfl
  | cons e rest ih => rw [put, Keyed.put, ih]

theorem Memory.get?_put (m : Memory) (id kept i : Text) :
    get? (put m id kept) i = if i = id then some kept else get? m i := by
  rw [get?_eq, put_eq, Keyed.get?_put, get?_eq]

theorem Memory.get?_remove (m : Memory) (id i : Text) :
    get? (remove m id) i = if i = id then none else get? m i := by
  rw [get?_eq, remove_eq, Keyed.get?_remove, get?_eq]

theorem Disk.Entries.get?_eq (es : Disk.Entries) (name : Text) :
    get? es name = Keyed.get? es name := by
  induction es with
  | nil => rfl
  | cons e rest ih => rw [get?, Keyed.get?, ih]

theorem Disk.Entries.remove_eq (es : Disk.Entries) (name : Text) :
    remove es name = Keyed.remove es name := rfl

theorem Disk.Entries.put_eq (es : Disk.Entries) (name : Text) (node : Disk.Node) :
    put es name node = Keyed.put es name node := by
  induction es with
  | nil => rfl
  | cons e rest ih => rw [put, Keyed.put, ih]

theorem Disk.Entries.put_self {es : Disk.Entries} {name : Text} {node : Disk.Node}
    (h : es.get? name = some node) : es.put name node = es := by
  rw [get?_eq] at h
  rw [put_eq, Keyed.put_self h]

theorem Disk.Entries.get?_put (es : Disk.Entries) (name n : Text) (node : Disk.Node) :
    (put es name node).get? n = if n = name then some node else get? es n := by
  rw [get?_eq, put_eq, Keyed.get?_put, get?_eq]

theorem Disk.Entries.get?_remove (es : Disk.Entries) (name n : Text) :
    (remove es name).get? n = if n = name then none else get? es n := by
  rw [get?_eq, remove_eq, Keyed.get?_remove, get?_eq]

end Cabinet
