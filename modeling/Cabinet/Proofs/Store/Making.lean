import Cabinet.Proofs.Store.Apart
import Cabinet.Proofs.Store.Confined
import Cabinet.Proofs.Store.Standing

/-!
# A file in a folder that is made first

* `Disk.Settled` : every step of a path that leads back does so from a folder;
* `Disk.makeSteps_eq` : behind such a path folders are made without any step back;
* `Disk.find_beside_made` : nothing comes to stand beside folders that are made;
* `Disk.changedAt_putFile`, `Disk.readFile_put` : a file that was put somewhere is read from there, and all that
  has changed is that file;
* `Disk.exists?_beside` : where a folder was made and a file was put into it, nothing else has come to stand
  beside the folder.
-/

namespace Cabinet.Disk

/-! ## Paths without detours -/

/-- Every step of a path that leads back does so from a folder. -/
def Settled (d : Disk) (p : Path) : Prop := ∃ steps, directSteps d [] p.steps = .ok steps

theorem Settled.keeps {d d' : Disk} {p : Path} (h : Settled d p) (hkeeps : KeepsFolders d d') : Settled d' p :=
  h.imp fun _ hsteps => hkeeps.directSteps hsteps

theorem directSteps_child {d : Disk} {p : Path} {steps : List Text} {name : Text}
    (h : directSteps d [] p.steps = .ok steps) (hname : name ≠ Path.back) :
    directSteps d [] (p.child name).steps = .ok (steps ++ [name]) := by
  rw [Path.child, directSteps_append hname, h]
  rfl

/-- Making a folder that is there changes nothing. -/
theorem makeFoldersAt_self : ∀ {es inner : Entries} {steps : List Text},
    find es steps = .ok (.folder inner) → makeFoldersAt es steps = .ok es
  | _, _, [], _ => rfl
  | es, _, name :: rest, h => by
    obtain ⟨hname, first, hget, h⟩ := find_cons_folder h
    rw [makeFoldersAt.eq_def]
    simp only [hname, hget, Bool.false_eq_true, if_false, makeFoldersAt_self h]
    exact congrArg Except.ok (Entries.put_self hget)

/-- By induction on the steps: a folder that a step leads back from is there. -/
theorem makeSteps_eq {d : Disk} : ∀ {taken steps path : List Text}, directSteps d taken steps = .ok path →
    makeSteps d taken steps = makeFoldersAt d path
  | taken, [], path, h => by
    obtain rfl := Except.ok.inj h
    rw [makeSteps]
  | taken, s :: rest, path, h => by
    rw [directSteps] at h
    rw [makeSteps]
    split at h
    · next hs =>
      obtain ⟨node, hnode, h⟩ := ok_of_bind h
      cases node with
      | file content => cases h
      | folder inner =>
        rw [if_pos hs, makeFoldersAt_self hnode]
        exact makeSteps_eq h
    · next hs =>
      rw [if_neg hs]
      exact makeSteps_eq h

/-! ## What stands beside -/

theorem find_nil (s : Text) (steps : List Text) {node : Node} : find [] (s :: steps) ≠ .ok node := by
  rw [find.eq_def]
  simp only
  split
  · exact nofun
  · exact nofun

/-- By induction on the steps: the folder on the way is the one that was there, or a new one, in which there is
nothing but the next. -/
theorem find_beside_made {a b : Text} (hab : b ≠ a) {node : Node} : ∀ {es es' : Entries} {steps : List Text},
    makeFoldersAt es (steps ++ [a]) = .ok es' → find es' (steps ++ [b]) = .ok node →
    find es (steps ++ [b]) = .ok node
  | es, _, [], hmake, hfind => by
    obtain ⟨-, _, inner, -, -, rfl⟩ := makeFoldersAt_cons hmake
    have hsame : (es.put a (.folder inner)).get? b = es.get? b := (Entries.get?_put ..).trans (if_neg hab)
    exact (find_congr hsame).symm.trans hfind
  | es, _, s :: rest, hmake, hfind => by
    obtain ⟨hs, first, inner, hfirst, hinner, rfl⟩ := makeFoldersAt_cons hmake
    have hput : (es.put s (.folder inner)).get? s = some (.folder inner) :=
      (Entries.get?_put ..).trans (if_pos rfl)
    rw [List.cons_append, find_cons hs hput] at hfind
    have hrest := find_beside_made hab hinner hfind
    obtain hget | ⟨-, rfl⟩ := hfirst
    · rw [List.cons_append, find_cons hs hget]
      exact hrest
    · obtain ⟨s, steps, hcons⟩ := List.exists_cons_of_ne_nil (l := rest ++ [b]) (by simp)
      rw [hcons] at hrest
      exact absurd hrest (find_nil s steps)

/-! ## A file in a folder that was made -/

section
variable {d d₁ d' : Disk} {p folder : Path} {a b name : Text} {content : List UInt8}

theorem exists?_iff : exists? d p = true ↔ ∃ node, lookup d p = .ok node := by
  unfold exists?
  cases lookup d p with
  | error cause => exact iff_of_false nofun nofun
  | ok node => exact iff_of_true rfl ⟨node, rfl⟩

theorem makeFolders_keeps (h : makeFolders d p = .ok d₁) : KeepsFolders d d₁ :=
  (makeSteps_ok (ok_of_mapError h)).1

/-- A file that is put into a folder changes the disk in that place, and no folder is lost. -/
theorem changedAt_putFile (h : putFile d (folder.child name) content = .ok d') :
    Entries.isTooLong name = false ∧ ChangedAt folder name (some (.file content)) d d' ∧ KeepsFolders d d' := by
  rw [putFile, Folder.splitLast_child] at h
  have hchange : change (putEntry name content) d folder = .ok d' := ok_of_mapError h
  obtain ⟨es, hes⟩ := change_folder hchange
  cases hput : putEntry name content es with
  | error cause => cases (change_error hes hput).symm.trans hchange
  | ok es' =>
    have hkeeps := keepsFolders_putEntry hput
    obtain ⟨hshort, -, rfl⟩ := putEntry_ok hput
    obtain ⟨d₂, hd₂, hchanged⟩ := changedAt_change name hes hput hkeeps fun n hn =>
      (Entries.get?_put ..).trans (if_neg hn)
    obtain ⟨d₃, hd₃, hbecomes⟩ := becomes_change hes hput hkeeps
    obtain rfl := Except.ok.inj (hd₂.symm.trans hchange)
    obtain rfl := Except.ok.inj (hd₃.symm.trans hchange)
    rw [Entries.get?_put, if_pos rfl] at hchanged
    exact ⟨hshort, hchanged, hbecomes.keeps⟩

theorem readFile_put (hname : name ≠ Path.back) (h : putFile d (folder.child name) content = .ok d') :
    readFile d' (folder.child name) = .ok content := by
  obtain ⟨hshort, ⟨⟨_, es, -, hes, hget, -⟩, -⟩, -⟩ := changedAt_putFile h
  rw [readFile_ok_iff, lookup_child hes hname, find.eq_def]
  simp only [hshort, hget, Bool.false_eq_true, if_false]

/-- Beside a folder that was made, and into which a file was put, stands nothing that did not stand there
before. -/
theorem exists?_beside (hp : Settled d p) (ha : a ≠ Path.back) (hb : b ≠ Path.back) (hab : b ≠ a)
    (hmake : makeFolders d (p.child a) = .ok d₁)
    (hput : putFile d₁ ((p.child a).child name) content = .ok d') (h : exists? d' (p.child b) = true) :
    exists? d (p.child b) = true := by
  obtain ⟨steps, hsteps⟩ := hp
  obtain ⟨-, hchanged, hkeeps⟩ := changedAt_putFile hput
  have hmade := makeFolders_keeps hmake
  obtain ⟨node, hnode⟩ := exists?_iff.mp h
  rw [lookup, directSteps_child (hkeeps.directSteps (hmade.directSteps hsteps)) hb] at hnode
  obtain ⟨way, hway, helsewhere⟩ := hchanged.elsewhere
  obtain rfl := Except.ok.inj ((directSteps_child (hmade.directSteps hsteps) ha).symm.trans hway)
  -- The file stands deeper, so what is seen there is the same before it was put.
  have hshallow : ¬ steps ++ [a] ++ [name] <+: steps ++ [b] := fun hprefix => by
    have hlength := hprefix.length_le
    simp only [List.length_append, List.length_singleton] at hlength
    omega
  obtain ⟨node₁, hnode₁⟩ : ∃ node₁, find d₁ (steps ++ [b]) = .ok node₁ := by
    have hseen := helsewhere _ hshallow
    rw [glance, glance, show find d' (steps ++ [b]) = .ok node from hnode] at hseen
    exact (ok_of_map hseen.symm).imp fun _ => And.left
  have hmake : makeFoldersAt d (steps ++ [a]) = .ok d₁ :=
    (makeSteps_eq (directSteps_child hsteps ha)).symm.trans (ok_of_mapError hmake)
  refine exists?_iff.mpr ⟨node₁, ?_⟩
  rw [lookup, directSteps_child hsteps hb]
  exact find_beside_made hab hmake hnode₁

end

end Cabinet.Disk
