import Cabinet.Proofs.Collection.Snapshot
import Cabinet.Proofs.Cursor.Guard
import Cabinet.Proofs.Cursor.Results

/-!
# Asking again after a failure

Taking all items keeps no result if it fails, but the chain does not start anew: the identifiers that
were taken out of the list stay out of it.

* `Unread`, `Lost` : what a chain that was new has pending while it is pulled, and when it has failed;
* `source_unread`, `source_within` : the source keeps this, and later gives only what is left;
* `items_after_failure` : items that are asked for again come from behind the document that was lost;
* `toList_after_damage` : so a folder that was damaged and put right gives only its last document.
-/

namespace Cabinet

variable {σ : Type} {s : Store σ} {idField : Option Text}

/-! ## The source -/

/-- What is pending once the chain was asked in a state `w`: nothing as long as the identifiers were
not listed, then what is left of them. -/
def Unread (s : Store σ) (w : σ) (pending : Option (List Text)) (w' : σ) : Prop :=
  (pending = none ∧ w' = w) ∨
    ∃ taken left, (s.index w).1 = .ok (taken ++ left) ∧ pending = some left

/-- What is pending when it has failed: nothing if the identifiers could not be listed, otherwise
what is left behind one that could not be read. -/
def Lost (s : Store σ) (w : σ) (e : Failure) (pending : Option (List Text)) : Prop :=
  (pending = none ∧ (s.index w).1 = .error e) ∨
    ∃ taken lost left, (s.index w).1 = .ok (taken ++ lost :: left) ∧
      (∃ w₁, (s.read lost w₁).1 = .error e) ∧ pending = some left

theorem readNext_unread {w : σ} (taken : List Text) : ∀ {ids : List Text} {w' : σ},
    (s.index w).1 = .ok (taken ++ ids) →
    Ends (fun x p w' => (∀ i ∈ x, True) ∧ Unread s w p w') (fun e p _ => Lost s w e p)
      (Stage.readNext s idField ids w')
  | [], _, h => .ok ⟨known_none, .inr ⟨taken, [], h, rfl⟩⟩
  | id :: rest, w', h => by
    rw [Stage.readNext]
    generalize hread : s.read id w' = r
    rcases r with ⟨e | d, w₁⟩
    · exact .error (.inr ⟨taken, id, rest, h, ⟨w', by rw [hread]⟩, rfl⟩)
    · refine .ok ⟨fun _ _ => trivial, .inr ⟨taken ++ [id], rest, ?_, rfl⟩⟩
      rw [h, List.append_assoc]
      rfl

theorem source_unread (s : Store σ) (idField : Option Text) (w : σ) :
    Guards (Stage.source s idField) (Unread s w) (fun _ => True) fun e p _ => Lost s w e p := by
  rintro pending w' (⟨rfl, rfl⟩ | ⟨taken, left, hindex, rfl⟩)
  · rw [Stage.source]
    generalize hindex : s.index w' = r
    rcases r with ⟨e | ids, w₁⟩
    · exact .error (.inl ⟨rfl, by rw [hindex]⟩)
    · refine readNext_unread [] ?_
      rw [hindex]
      rfl
  · exact readNext_unread taken hindex

/-- Once identifiers are pending, what is read is among them. -/
theorem source_within (s : Store σ) (idField : Option Text) (left : List Text) :
    Guards (Stage.source s idField)
      (fun pending _ => ∃ ids, pending = some ids ∧ ∀ id ∈ ids, id ∈ left) (fun x => x.id ∈ left)
      fun _ _ _ => True := by
  rintro _ w ⟨ids, rfl, hids⟩
  cases ids with
  | nil => exact .ok ⟨known_none, [], rfl, hids⟩
  | cons id rest =>
    obtain ⟨hid, hrest⟩ := List.forall_mem_cons.mp hids
    show Ends _ _ (Stage.readNext s idField (id :: rest) w)
    rw [Stage.readNext]
    generalize s.read id w = r
    rcases r with ⟨e | d, w₁⟩
    · exact .error trivial
    · exact .ok ⟨known_some hid, rest, rfl, hrest⟩

/-! ## Chains -/

/-- What is true of what is pending is true of one list, or of none. -/
theorem Progress.exists_pending {stock : Option (List Item) → Prop}
    {pending : Option (List Text) → σ → Prop} {w : σ} : ∀ (chain : List Stage) {p : Progress chain},
    Each stock pending chain p w → ∃ q, pending q w ∧ Each stock (fun r (_ : σ) => r = q) chain p w
  | [], p, h => ⟨p, h, rfl⟩
  | .condition _ :: rest, _, h => exists_pending rest h
  | .projection _ :: rest, _, h => exists_pending rest h
  | .sort _ :: rest, _, h => by
    obtain ⟨q, hq, hrest⟩ := exists_pending rest h.2
    exact ⟨q, hq, h.1, hrest⟩
  | .offset _ :: rest, _, h => exists_pending rest h
  | .limit _ :: rest, _, h => exists_pending rest h

namespace Cursor

open Progress (Each each_rewound each_mono exists_pending)

/-- Items are asked for again after a failure, in whatever state the store is then. No result was
kept, but unless the identifiers could not even be listed, one document could not be read, and what
comes now comes from the identifiers behind it. -/
theorem items_after_failure {chain : List Stage} (hchain : ∀ stage ∈ chain, stage.IsTotal)
    {w w' : σ} {e : Failure} {c : Cursor σ}
    (hfail : items (start s idField chain, w) = (.error e, c, w')) :
    c.results = none ∧ ((s.index w).1 = .error e ∨
      ∃ taken lost left, (s.index w).1 = .ok (taken ++ lost :: left) ∧
        (∃ w₁, (s.read lost w₁).1 = .error e) ∧
        ∀ w₁ xs again, items (c, w₁) = (.ok xs, again) → ∀ x ∈ xs, x.id ∈ left) := by
  rw [items_apply rfl rfl] at hfail
  have hdrain := drain_guards (source_unread s idField w)
    (fun _ _ _ => trivial) hchain
    (each_rewound (fun items h => by cases h) (.inl ⟨rfl, rfl⟩) chain)
  simp only [start] at hfail
  generalize drain s idField chain (Progress.rewound chain) w = r at hdrain hfail
  cases hdrain with
  | ok _ => cases hfail
  | @error e' p w₁ h =>
    cases hfail
    refine ⟨rfl, ?_⟩
    obtain ⟨pending, hlost, hpending⟩ := exists_pending chain h
    rcases hlost with ⟨-, hindex⟩ | ⟨taken, lost, left, hindex, hread, rfl⟩
    · exact .inl hindex
    · refine .inr ⟨taken, lost, left, hindex, hread, fun w₂ xs again hagain => ?_⟩
      rw [items_apply rfl rfl] at hagain
      have hdrain := drain_guards (source_within s idField left)
        (fun _ _ h => h) hchain (p := p) (w := w₂) (each_mono (fun items h _ hitems => by
          rw [h] at hitems
          cases hitems) (fun q hq => ⟨left, hq, fun _ h => h⟩) chain hpending)
      simp only at hagain
      generalize drain s idField chain p w₂ = r at hdrain hagain
      cases hdrain with
      | error _ => cases hagain
      | ok h =>
        cases hagain
        exact h.1

/-! ## A folder with a damaged file -/

/-- Three numbered files, of which the second has a text of its own. -/
def numbered (second : Text) : Disk :=
  [("a.json".toText, lampFile "\x7b\"n\": 1\x7d".toText), ("b.json".toText, lampFile second),
    ("c.json".toText, lampFile "\x7b\"n\": 3\x7d".toText)]

def damaged : Disk := numbered "?".toText

def repaired : Disk := numbered "\x7b\"n\": 2\x7d".toText

/-- A query for everything in the folder. -/
def everything : Cursor Disk := make (Folder.store .json ⟨[]⟩) .nothing .nothing none

theorem items_after_failure_damaged :
    ∃ e c d, items (everything, damaged) = (.error e, c, d) ∧ c.results = none ∧
      ∃ taken lost left, ["a".toText, "b".toText, "c".toText] = taken ++ lost :: left ∧
        ∀ w xs again, items (c, w) = (.ok xs, again) → ∀ x ∈ xs, x.id ∈ left := by
  have hindex : ((Folder.store .json ⟨[]⟩).index damaged).1 =
      .ok ["a".toText, "b".toText, "c".toText] := by
    cbv
  have hfails : (items (everything, damaged)).1.toOption.isSome = false := by
    cbv
  obtain ⟨⟨e | xs, c, d⟩, hrun⟩ : ∃ r, items (everything, damaged) = r := ⟨_, rfl⟩
  · obtain ⟨hnone, hindex' | ⟨taken, lost, left, hids, -, hlater⟩⟩ :=
      items_after_failure (fun _ h => absurd h List.not_mem_nil) hrun
    · cases hindex.symm.trans hindex'
    · exact ⟨e, c, d, hrun, hnone, taken, lost, left, Except.ok.inj (hindex.symm.trans hids), hlater⟩
  · rw [hrun] at hfails
    cases hfails

/-- The folder cannot be read whole, and is then put right. The cursor that was asked before gives
only the last document, as if it were the whole result; a new one gives all three. -/
theorem toList_after_damage :
    (toList (everything, damaged)).1.toOption = none ∧
    (toList ((toList (everything, damaged)).2.1, repaired)).1 =
      .ok [.object [(.text "n".toText, .int 3)]] ∧
    (toList (everything, repaired)).1 =
      .ok [.object [(.text "n".toText, .int 1)], .object [(.text "n".toText, .int 2)],
        .object [(.text "n".toText, .int 3)]] := by
  refine ⟨?_, ?_, ?_⟩
  · cbv
  · cbv
  · cbv

end Cursor

end Cabinet
