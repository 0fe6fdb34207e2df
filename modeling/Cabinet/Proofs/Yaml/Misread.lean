import Cabinet.Proofs.Store.Action
import Cabinet.Yaml.Meaning

/-!
# Scalars that are misread

Reading a text as YAML fails by a flaw of the text, or by a scalar that is not what it has to be.

* `FailsOnly` : a result that may fail in some ways only, and how results are built of such ones;
* `Token.failsOnly_ofSource`, `Node.failsOnly_ofText` : up to the nodes of a text there is but one way to
  misread, an escape for a number that no code point has;
* `Node.Within` : the nodes in a node;
* `Node.Misreads` : a scalar in a node is not what its kind says;
* `Node.value_misread` : otherwise no node is misread;
* `Yaml.Misreads`, `Yaml.parse_misread` : so what is misread in a text is an escape or a scalar of it.
-/

namespace Cabinet

/-- The result is no failure, or one of some kind. -/
def FailsOnly {ε α : Type} (kind : ε → Prop) (r : Except ε α) : Prop := ∀ e, r = .error e → kind e

section
variable {ε ε' α β : Type} {kind kind' : ε → Prop} {r : Except ε α}

theorem failsOnly_ok (x : α) : FailsOnly kind (.ok x : Except ε α) := fun _ h => nomatch h

theorem failsOnly_error {e : ε} (h : kind e) : FailsOnly kind (.error e : Except ε α) :=
  fun _ he => Except.error.inj he ▸ h

theorem FailsOnly.mono (hr : FailsOnly kind r) (h : ∀ e, kind e → kind' e) : FailsOnly kind' r :=
  fun e he => h e (hr e he)

theorem failsOnly_ite {c : Prop} [Decidable c] {r' : Except ε α} (h : FailsOnly kind r)
    (h' : FailsOnly kind r') : FailsOnly kind (if c then r else r') := by
  split
  · exact h
  · exact h'

theorem FailsOnly.bind {f : α → Except ε β} (hr : FailsOnly kind r)
    (hf : ∀ x, FailsOnly kind (f x)) : FailsOnly kind (r >>= f) := by
  cases r with
  | error e => exact fun e' he => hr e' (Except.error.inj he ▸ rfl)
  | ok x => exact hf x

theorem FailsOnly.map {f : α → β} (hr : FailsOnly kind r) : FailsOnly kind (r.map f) := by
  cases r with
  | error e => exact fun e' he => hr e' (Except.error.inj he ▸ rfl)
  | ok x => exact failsOnly_ok _

theorem failsOnly_mapError {f : ε → ε'} {kind : ε' → Prop} (h : ∀ e, r = .error e → kind (f e)) :
    FailsOnly kind (r.mapError f) := by
  cases r with
  | error e => exact failsOnly_error (h e rfl)
  | ok x => exact failsOnly_ok _

end

namespace Yaml

/-- What can be wrong with a text before it is known what its nodes stand for: it is malformed, or it has
an escape for a number that no code point has. -/
def Error.IsOfText : Error → Prop
  | .malformed _ => True
  | .misread m => ∃ n, m = .codePoint n ∧ 0x110000 ≤ n

theorem failsOnly_malformed {α : Type} (r : Except Problem α) :
    FailsOnly Error.IsOfText (r.mapError .malformed) :=
  failsOnly_mapError fun _ _ => trivial

namespace Quoted

theorem failsOnly_takeBreaks (fuel : Nat) : ∀ s, FailsOnly Error.IsOfText (takeBreaks fuel s) := by
  induction fuel with
  | zero => exact fun _ => failsOnly_ok _
  | succ fuel ih =>
    intro s
    rw [takeBreaks]
    split
    · exact failsOnly_error trivial
    · dsimp only
      split
      · exact (ih _).bind fun _ => failsOnly_ok _
      · exact failsOnly_ok _

theorem failsOnly_takeGap (s : Source) : FailsOnly Error.IsOfText (takeGap s) := by
  rw [takeGap]
  dsimp only
  split
  · exact failsOnly_error trivial
  split
  · exact (failsOnly_takeBreaks _ _).bind fun _ => failsOnly_ok _
  · exact failsOnly_ok _

theorem failsOnly_takeHex (width : Nat) (s : Source) : FailsOnly Error.IsOfText (takeHex width s) := by
  rw [takeHex]
  split
  · exact failsOnly_error trivial
  split
  · exact failsOnly_error trivial
  next n _ =>
  split
  · exact failsOnly_ok _
  · next hn => exact failsOnly_error ⟨n, rfl, Nat.le_of_not_lt hn⟩

theorem failsOnly_takeEscape (s : Source) : FailsOnly Error.IsOfText (takeEscape s) := by
  rw [takeEscape]
  split
  · exact failsOnly_ok _
  · exact failsOnly_takeHex _ _
  · split
    · exact (failsOnly_takeBreaks _ _).bind fun _ => failsOnly_ok _
    · exact failsOnly_error trivial

theorem failsOnly_readSingle (fuel : Nat) :
    ∀ s, FailsOnly Error.IsOfText (readSingle fuel s) := by
  induction fuel with
  | zero => exact fun _ => failsOnly_error trivial
  | succ fuel ih =>
    intro s
    rw [readSingle.eq_def]
    simp only
    split
    · exact (ih _).bind fun _ => failsOnly_ok _
    · exact failsOnly_ok _
    · split
      · exact (failsOnly_takeGap s).bind fun _ => (ih _).bind fun _ => failsOnly_ok _
      · exact (ih _).bind fun _ => failsOnly_ok _
    · exact failsOnly_error trivial

theorem failsOnly_readDouble (fuel : Nat) :
    ∀ s, FailsOnly Error.IsOfText (readDouble fuel s) := by
  induction fuel with
  | zero => exact fun _ => failsOnly_error trivial
  | succ fuel ih =>
    intro s
    rw [readDouble.eq_def]
    simp only
    split
    · exact failsOnly_ok _
    · exact (failsOnly_takeEscape _).bind fun _ => (ih _).bind fun _ => failsOnly_ok _
    · split
      · exact (failsOnly_takeGap s).bind fun _ => (ih _).bind fun _ => failsOnly_ok _
      · exact (ih _).bind fun _ => failsOnly_ok _
    · exact failsOnly_error trivial

end Quoted

namespace Token

theorem failsOnly_readQuoted {read : (fuel : Nat) → Source → Except Error (Text × Source)}
    (h : ∀ fuel s, FailsOnly Error.IsOfText (read fuel s)) (r : Reader) :
    FailsOnly Error.IsOfText (r.readQuoted read) :=
  (failsOnly_malformed _).bind fun _ => (h _ _).bind fun _ => failsOnly_ok _

theorem failsOnly_readToken (r : Reader) : FailsOnly Error.IsOfText r.readToken := by
  rw [Reader.readToken]
  refine failsOnly_ite (failsOnly_malformed _) (failsOnly_ite (failsOnly_malformed _)
    (failsOnly_ite (failsOnly_malformed _) ?_))
  split
  case h_9 => exact failsOnly_readQuoted Quoted.failsOnly_readSingle r
  case h_10 => exact failsOnly_readQuoted Quoted.failsOnly_readDouble r
  case h_11 =>
    exact failsOnly_ite (failsOnly_malformed _) <| failsOnly_ite (failsOnly_malformed _) <|
      failsOnly_ite (failsOnly_malformed _) <| failsOnly_ite (failsOnly_malformed _) <|
      failsOnly_ite (failsOnly_malformed _) <| failsOnly_ite (failsOnly_malformed _) <|
      failsOnly_error trivial
  all_goals exact failsOnly_malformed _

theorem failsOnly_readAll (fuel : Nat) :
    ∀ r : Reader, FailsOnly Error.IsOfText (r.readAll fuel) := by
  induction fuel with
  | zero => exact fun _ => failsOnly_ok _
  | succ fuel ih =>
    intro r
    rw [Reader.readAll]
    refine (failsOnly_malformed _).bind fun r => ?_
    exact failsOnly_ite ((failsOnly_malformed _).bind fun _ => failsOnly_ok _)
      ((failsOnly_readToken _).bind fun _ => ih _)

theorem failsOnly_ofSource (s : Source) : FailsOnly Error.IsOfText (ofSource s) :=
  (failsOnly_readAll _ _).bind fun _ => failsOnly_ok _

end Token

/-- A flaw that is no misread, or one of some kind. -/
def Flaw.IsIn (misreads : Misread → Prop) (f : Flaw) : Prop := ∀ m, f.error = .misread m → misreads m

section
variable {misreads : Misread → Prop} {α β : Type}

theorem failsOnly_of_isIn {misreads' : Misread → Prop} {x : Except Flaw α}
    (hx : FailsOnly (Flaw.IsIn misreads) x) (h : ∀ m, misreads m → misreads' m) :
    FailsOnly (Flaw.IsIn misreads') x :=
  hx.mono fun _ he m hm => h m (he m hm)

theorem failsOnly_flawed (rank : Nat) (p : Problem) :
    FailsOnly (Flaw.IsIn misreads) (flawed rank p : Except Flaw α) :=
  failsOnly_error fun _ h => nomatch h

theorem failsOnly_both {x : Except Flaw α} {y : Except Flaw β} (hx : FailsOnly (Flaw.IsIn misreads) x)
    (hy : FailsOnly (Flaw.IsIn misreads) y) : FailsOnly (Flaw.IsIn misreads) (both x y) := by
  rcases x with e | a <;> rcases y with f | b
  · refine failsOnly_error ?_
    split
    · exact hy f rfl
    · exact hx e rfl
  · exact failsOnly_error (hx e rfl)
  · exact failsOnly_error (hy f rfl)
  · exact failsOnly_ok _

end

namespace Node

theorem failsOnly_ofText (t : Text) : FailsOnly Error.IsOfText (ofText t) := by
  rw [ofText]
  split
  · exact failsOnly_error trivial
  · exact failsOnly_ite ((Token.failsOnly_ofSource _).bind fun _ => failsOnly_malformed _)
      (failsOnly_error trivial)

/-- A node is another one, or is in it. -/
inductive Within (part : Node) : Node → Prop where
  | self : Within part part
  | item {kind : Kind} {items : List Node} {x : Node} :
    x ∈ items → Within part x → Within part (.sequence kind items)
  | key {kind : Kind} {entries : List (Node × Node)} {f : Node × Node} :
    f ∈ entries → Within part f.1 → Within part (.mapping kind entries)
  | entry {kind : Kind} {entries : List (Node × Node)} {f : Node × Node} :
    f ∈ entries → Within part f.2 → Within part (.mapping kind entries)

/-- There is a scalar in the node that is not what its kind says. -/
def Misreads (n : Node) (m : Misread) : Prop :=
  ∃ part t, Within part n ∧ part.text? = some t ∧ scalarOf part.kind t = .error (.misread m)

theorem failsOnly_scalarAt (rank : Nat) (n : Node) :
    FailsOnly (Flaw.IsIn n.Misreads) (scalarAt rank n.kind n) := by
  rw [scalarAt]
  split
  · exact failsOnly_flawed _ _
  · next t ht =>
    exact failsOnly_mapError fun e he m hm => ⟨n, t, .self, ht, he.trans (congrArg _ hm)⟩

theorem failsOnly_nameAt (rank : Nat) (key : Node) :
    FailsOnly (Flaw.IsIn key.Misreads) (nameAt rank key) := by
  rw [nameAt]
  refine failsOnly_ite (failsOnly_flawed _ _) ?_
  split
  · -- A text is never misread.
    rw [scalarAt]
    split
    · exact failsOnly_flawed _ _
    · exact failsOnly_ok _
  · exact failsOnly_scalarAt rank key

theorem Misreads.item {kind : Kind} {items : List Node} {x : Node} {m : Misread} (hx : x ∈ items)
    (h : x.Misreads m) : (sequence kind items).Misreads m := by
  obtain ⟨part, t, hpart, ht⟩ := h
  exact ⟨part, t, .item hx hpart, ht⟩

theorem Misreads.entry {kind : Kind} {entries : List (Node × Node)} {f : Node × Node} {m : Misread}
    (hf : f ∈ entries) (h : f.1.Misreads m ∨ f.2.Misreads m) : (mapping kind entries).Misreads m := by
  obtain ⟨part, t, hpart, ht⟩ | ⟨part, t, hpart, ht⟩ := h
  · exact ⟨part, t, .key hf hpart, ht⟩
  · exact ⟨part, t, .entry hf hpart, ht⟩

/-! The induction is on the node: what is misread in a list of nodes or of entries is misread in one of
them. -/

mutual

theorem failsOnly_valueAt : ∀ (rank : Nat) (n : Node),
    FailsOnly (Flaw.IsIn n.Misreads) (valueAt rank n)
  | rank, .scalar kind t => by
    rw [valueAt]
    exact failsOnly_ite (failsOnly_flawed _ _) (failsOnly_scalarAt (rank + 1) (.scalar kind t)).map
  | rank, .sequence kind items => by
    rw [valueAt.eq_def]
    simp only
    split
    · exact (failsOnly_itemsAt (rank + 2) items fun _ hx _ => .item hx).map
    · exact (failsOnly_pairsAt (rank + 2) items fun _ hx _ => .item hx).map
    · exact (failsOnly_pairsAt (rank + 2) items fun _ hx _ => .item hx).map
    · exact failsOnly_flawed _ _
    · exact failsOnly_flawed _ _
    · exact (failsOnly_scalarAt (rank + 1) (.sequence kind items)).map
  | rank, .mapping kind entries => by
    rw [valueAt.eq_def]
    simp only
    split
    · exact (failsOnly_fieldsAt (rank + 2) entries fun _ hf _ => .entry hf).map
    · exact (failsOnly_fieldsAt (rank + 2) entries fun _ hf _ => .entry hf).map
    · exact failsOnly_flawed _ _
    · exact failsOnly_flawed _ _
    · exact failsOnly_flawed _ _
    · exact (failsOnly_scalarAt (rank + 1) (.mapping kind entries)).map

theorem failsOnly_itemsAt : ∀ (rank : Nat) (items : List Node) {misreads : Misread → Prop},
    (∀ x ∈ items, ∀ m, x.Misreads m → misreads m) →
    FailsOnly (Flaw.IsIn misreads) (itemsAt rank items)
  | _, [], _, _ => failsOnly_ok _
  | rank, x :: rest, _, h => by
    obtain ⟨hx, hrest⟩ := List.forall_mem_cons.mp h
    rw [itemsAt]
    exact (failsOnly_both (failsOnly_of_isIn (failsOnly_valueAt rank x) hx)
      (failsOnly_itemsAt rank rest hrest)).map

theorem failsOnly_pairsAt : ∀ (rank : Nat) (items : List Node) {misreads : Misread → Prop},
    (∀ x ∈ items, ∀ m, x.Misreads m → misreads m) →
    FailsOnly (Flaw.IsIn misreads) (pairsAt rank items)
  | _, [], _, _ => failsOnly_ok _
  | rank, .mapping kind [(key, x)] :: rest, _, h => by
    obtain ⟨hpair, hrest⟩ := List.forall_mem_cons.mp h
    have hkey := failsOnly_of_isIn (failsOnly_valueAt rank key)
      fun m hm => hpair m (.entry (List.mem_singleton_self _) (.inl hm))
    have hx := failsOnly_of_isIn (failsOnly_valueAt rank x)
      fun m hm => hpair m (.entry (List.mem_singleton_self _) (.inr hm))
    rw [pairsAt]
    exact (failsOnly_both (failsOnly_both hkey hx) (failsOnly_pairsAt rank rest hrest)).map
  | rank, .mapping _ [] :: _, _, _ | rank, .mapping _ (_ :: _ :: _) :: _, _, _
  | rank, .scalar .. :: _, _, _ | rank, .sequence .. :: _, _, _ => failsOnly_flawed _ _

theorem failsOnly_fieldsAt : ∀ (rank : Nat) (entries : List (Node × Node)) {misreads : Misread → Prop},
    (∀ f ∈ entries, ∀ m, f.1.Misreads m ∨ f.2.Misreads m → misreads m) →
    FailsOnly (Flaw.IsIn misreads) (fieldsAt rank entries)
  | _, [], _, _ => failsOnly_ok _
  | rank, (key, x) :: rest, _, h => by
    obtain ⟨hentry, hrest⟩ := List.forall_mem_cons.mp h
    have hothers := failsOnly_fieldsAt rank rest hrest
    have hkey := failsOnly_of_isIn (failsOnly_nameAt (rank + 1) key) fun m hm => hentry m (.inl hm)
    have hx := failsOnly_of_isIn (failsOnly_valueAt rank x) fun m hm => hentry m (.inr hm)
    have hmerged := failsOnly_of_isIn (failsOnly_mergedAt rank x) fun m hm => hentry m (.inr hm)
    rw [fieldsAt]
    exact failsOnly_ite (failsOnly_both hmerged hothers).map
      (failsOnly_both (failsOnly_both hkey hx) hothers).map

theorem failsOnly_mergedAt : ∀ (rank : Nat) (n : Node),
    FailsOnly (Flaw.IsIn n.Misreads) (mergedAt rank n)
  | _, .scalar .. => failsOnly_flawed _ _
  | rank, .mapping _ entries => by
    rw [mergedAt]
    exact (failsOnly_fieldsAt rank entries fun _ hf _ => .entry hf).map
  | rank, .sequence _ items => by
    rw [mergedAt]
    exact failsOnly_mergedItemsAt rank items fun _ hx _ => .item hx

theorem failsOnly_mergedItemsAt : ∀ (rank : Nat) (items : List Node) {misreads : Misread → Prop},
    (∀ x ∈ items, ∀ m, x.Misreads m → misreads m) →
    FailsOnly (Flaw.IsIn misreads) (mergedItemsAt rank items)
  | _, [], _, _ => failsOnly_ok _
  | rank, .mapping _ entries :: rest, _, h => by
    obtain ⟨hx, hrest⟩ := List.forall_mem_cons.mp h
    rw [mergedItemsAt]
    exact (failsOnly_both (failsOnly_fieldsAt rank entries fun _ hf m hm => hx m (.entry hf hm))
      (failsOnly_mergedItemsAt rank rest hrest)).map
  | _, .scalar .. :: _, _, _ | _, .sequence .. :: _, _, _ => failsOnly_flawed _ _

end

/-- Nothing is misread but truth values, numbers and times. -/
theorem Misreads.kind {n : Node} {m : Misread} (h : n.Misreads m) :
    ∃ part, Within part n ∧ part.kind ∈ [.bool, .int, .float, .timestamp] := by
  obtain ⟨part, t, hpart, -, ht⟩ := h
  refine ⟨part, hpart, ?_⟩
  cases hkind : part.kind with
  | bool | int | float | timestamp => decide
  | binary =>
    rw [hkind, scalarOf] at ht
    cases hbytes : readBytes t <;> (rw [hbytes] at ht; cases ht)
  | _ =>
    rw [hkind] at ht
    cases ht

/-- What is misread in a node is a scalar in it. -/
theorem value_misread {n : Node} {m : Misread} (h : n.value = .error (.misread m)) : n.Misreads m := by
  cases hvalue : valueAt 0 n with
  | ok v =>
    rw [value, hvalue] at h
    cases h
  | error f =>
    rw [value, hvalue] at h
    exact failsOnly_valueAt 0 n f hvalue m (Except.error.inj h)

end Node

/-- In a text there is an escape for a number that no code point has, or a scalar that is not what its kind
says. -/
def Misreads (t : Text) (m : Misread) : Prop :=
  (∃ n, m = .codePoint n ∧ 0x110000 ≤ n) ∨ ∃ n, Node.ofText t = .ok (some n) ∧ n.Misreads m

theorem parse_misread {t : Text} {m : Misread} (h : parse t = .error (.misread m)) : Misreads t m := by
  cases hnode : Node.ofText t with
  | error e =>
    rw [parse, hnode] at h
    obtain rfl : e = .misread m := Except.error.inj h
    exact .inl (Node.failsOnly_ofText t _ hnode)
  | ok found =>
    rw [parse, hnode] at h
    cases found with
    | none => cases h
    | some n => exact .inr ⟨n, hnode, Node.value_misread h⟩

end Yaml

end Cabinet
