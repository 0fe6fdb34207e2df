import Cabinet.Proofs.Store.Action
import Cabinet.Proofs.Store.Keyed
import Cabinet.Proofs.Text.Lead

/-!
# Changing a folder of a disk

* `Disk.find_append` : finding something in steps;
* `Disk.KeepsFolders`, `Disk.lookup_change` : a change of the entries of a folder that leaves all
  folders in it puts exactly these entries there, behind the same path;
* `Disk.change_error`, `Disk.change_self` : a change that is refused in a folder is refused, and putting
  a folder's own entries back changes nothing;
* `Disk.change_folder` : only a folder is changed;
* `Disk.putEntry_ok`, `Disk.makeFoldersAt_cons`, `Disk.removeEntry_ok` : what it takes to put a file, to make a
  folder, and to remove a file;
* `Disk.get?_unusedName`, `Disk.makeTemporary_spec` : a temporary name is unused, and without a
  temporary file all entries are as before;
* `Disk.replaceEntry_eq` : replacing a file changes that entry and nothing else, or nothing at all.
-/

namespace Cabinet.Disk

/-! ## Finding -/

theorem find_cons {es inner : Entries} {name : Text} (hname : Entries.isTooLong name = false)
    (hget : es.get? name = some (.folder inner)) (rest : List Text) :
    find es (name :: rest) = find inner rest := by
  rw [find.eq_def]
  simp only [hname, hget, Bool.false_eq_true, if_false]

/-- Folders are found in folders. -/
theorem find_cons_folder {es inner : Entries} {name : Text} {rest : List Text}
    (h : find es (name :: rest) = .ok (.folder inner)) : Entries.isTooLong name = false ∧
      ∃ first, es.get? name = some (.folder first) ∧ find first rest = .ok (.folder inner) := by
  rw [find.eq_def] at h
  simp only at h
  split at h
  · cases h
  · next hlong =>
    split at h
    · cases h
    · cases h
    · cases h
    · next first hget => exact ⟨Bool.eq_false_iff.mpr hlong, first, hget, h⟩

theorem find_append : ∀ {es : Entries} {steps : List Text} {inner : Entries},
    find es steps = .ok (.folder inner) → ∀ more, find es (steps ++ more) = find inner more
  | es, [], inner, h, more => by
    obtain rfl : es = inner := by simpa [find] using h
    rfl
  | es, name :: rest, inner, h, more => by
    obtain ⟨hname, first, hget, h⟩ := find_cons_folder h
    rw [List.cons_append, find_cons hname hget]
    exact find_append h more

/-- What is found in one step is told by one entry. -/
theorem find_congr {es es' : Entries} {name : Text} (h : es.get? name = es'.get? name) :
    find es [name] = find es' [name] := by
  rw [find.eq_def, find.eq_def es']
  simp only [h]

/-- A last step that does not lead back only comes behind the others. -/
theorem directSteps_append {d : Disk} {name : Text} (hname : name ≠ Path.back) :
    ∀ taken steps : List Text,
    directSteps d taken (steps ++ [name]) = (directSteps d taken steps).map (· ++ [name])
  | taken, [] => by
    have hlast : directSteps d taken [name] = .ok (name :: taken).reverse := by
      rw [directSteps, if_neg hname, directSteps]
    rw [List.nil_append, hlast, List.reverse_cons, directSteps]
    rfl
  | taken, s :: rest => by
    rw [List.cons_append, directSteps, directSteps]
    split
    · cases find d taken.reverse with
      | error e => rfl
      | ok node => cases node with
        | file content => rfl
        | folder inner => exact directSteps_append hname (taken.drop 1) rest
    · exact directSteps_append hname (s :: taken) rest

theorem lookup_ok {d : Disk} {p : Path} {node : Node} (h : lookup d p = .ok node) :
    ∃ steps, directSteps d [] p.steps = .ok steps ∧ find d steps = .ok node := ok_of_bind h

theorem lookup_child {d : Disk} {folder : Path} {es : Entries}
    (h : lookup d folder = .ok (.folder es)) {name : Text} (hname : name ≠ Path.back) :
    lookup d (folder.child name) = find es [name] := by
  obtain ⟨steps, hsteps, hfind⟩ := lookup_ok h
  have hchild : directSteps d [] (folder.child name).steps = .ok (steps ++ [name]) := by
    rw [Path.child, directSteps_append hname, hsteps]
    rfl
  rw [lookup, hchild]
  exact find_append hfind [name]

/-! ## Changing -/

/-- Where one tree has a folder, the other has one, too. -/
def KeepsFolders (es es' : Entries) : Prop :=
  ∀ steps inner, find es steps = .ok (.folder inner) → ∃ inner', find es' steps = .ok (.folder inner')

theorem KeepsFolders.directSteps {d d' : Disk} (h : KeepsFolders d d') :
    ∀ {taken steps p : List Text}, directSteps d taken steps = .ok p →
      directSteps d' taken steps = .ok p
  | taken, [], p, hp => hp
  | taken, s :: rest, p, hp => by
    rw [Disk.directSteps] at hp ⊢
    split at hp
    · next hs =>
      rw [if_pos hs]
      obtain ⟨node, hnode, hp⟩ := ok_of_bind hp
      cases node with
      | file content => cases hp
      | folder inner =>
        obtain ⟨inner', hinner⟩ := h _ _ hnode
        rw [hinner]
        exact KeepsFolders.directSteps h hp
    · next hs =>
      rw [if_neg hs]
      exact KeepsFolders.directSteps h hp

/-- Putting a folder in an entry keeps all folders, if it keeps those of the folder that was there. -/
theorem keepsFolders_putFolder {es inner' : Entries} {name : Text}
    (hinner : ∀ inner, es.get? name = some (.folder inner) → KeepsFolders inner inner') :
    KeepsFolders es (es.put name (.folder inner')) := by
  have hput := fun n => Entries.get?_put es name n (.folder inner')
  intro steps inner₁ hsteps
  cases steps with
  | nil => exact ⟨_, rfl⟩
  | cons n more =>
    obtain ⟨hn, first, hfirst, hmore⟩ := find_cons_folder hsteps
    by_cases hsame : n = name
    · subst hsame
      obtain ⟨found, hfound⟩ := hinner first hfirst more inner₁ hmore
      exact ⟨found, (find_cons hn ((hput n).trans (if_pos rfl)) more).trans hfound⟩
    · have hkept := (hput n).trans ((if_neg hsame).trans hfirst)
      exact ⟨inner₁, (find_cons hn hkept more).trans hmore⟩

/-- Putting entries in the place of a folder's own finds them there and keeps all other folders. -/
theorem within_ok {es' : Entries} : ∀ {d : Disk} {steps : List Text} {es : Entries},
    find d steps = .ok (.folder es) → KeepsFolders es es' →
    ∃ d', within (fun _ => .ok es') d steps = .ok d' ∧ find d' steps = .ok (.folder es') ∧
      KeepsFolders d d'
  | d, [], es, h, hkeeps => by
    obtain rfl : d = es := by simpa [find] using h
    exact ⟨es', rfl, rfl, hkeeps⟩
  | d, name :: rest, es, h, hkeeps => by
    obtain ⟨hname, inner, hget, h⟩ := find_cons_folder h
    obtain ⟨inner', hwithin, hfind, hinner⟩ := within_ok h hkeeps
    have hput := fun n => Entries.get?_put d name n (.folder inner')
    refine ⟨d.put name (.folder inner'), ?_, ?_, ?_⟩
    · rw [within, hname, hget]
      simp only [Bool.false_eq_true, if_false, hwithin]
      rfl
    · rw [find_cons hname ((hput name).trans (if_pos rfl))]
      exact hfind
    · refine keepsFolders_putFolder fun first hfirst => ?_
      obtain rfl : inner = first := by simpa [hget] using hfirst
      exact hinner

/-- A change of a folder only depends on what it makes of the folder's own entries. -/
theorem within_congr {f g : Entries → Except Cause Entries} : ∀ {d : Disk} {steps : List Text}
    {es : Entries}, find d steps = .ok (.folder es) → f es = g es → within f d steps = within g d steps
  | d, [], es, h, hfg => by
    obtain rfl : d = es := by simpa [find] using h
    exact hfg
  | d, name :: rest, es, h, hfg => by
    obtain ⟨hname, inner, hget, h⟩ := find_cons_folder h
    rw [within, within, hname, hget]
    simp only [within_congr h hfg]

theorem within_error {cause : Cause} : ∀ {d : Disk} {steps : List Text} {es : Entries},
    find d steps = .ok (.folder es) → within (fun _ => .error cause) d steps = .error cause
  | _, [], _, _ => rfl
  | d, name :: rest, es, h => by
    obtain ⟨hname, inner, hget, h⟩ := find_cons_folder h
    rw [within, hname, hget]
    simp only [within_error h]
    rfl

theorem within_self {es : Entries} : ∀ {d : Disk} {steps : List Text},
    find d steps = .ok (.folder es) → within (fun _ => .ok es) d steps = .ok d
  | d, [], h => by
    obtain rfl : d = es := by simpa [find] using h
    rfl
  | d, s :: steps, h => by
    obtain ⟨hs, inner, hget, h⟩ := find_cons_folder h
    rw [within, hs, hget]
    simp only [Bool.false_eq_true, if_false, within_self h]
    exact congrArg Except.ok (Entries.put_self hget)

/-- Putting back the entries that a folder has changes nothing. -/
theorem change_self {d : Disk} {folder : Path} {es : Entries}
    (h : lookup d folder = .ok (.folder es)) : change (fun _ => .ok es) d folder = .ok d := by
  obtain ⟨steps, hsteps, hfind⟩ := lookup_ok h
  rw [change, hsteps]
  exact within_self hfind

theorem lookup_change {f : Entries → Except Cause Entries} {d : Disk} {p : Path} {es es' : Entries}
    (h : lookup d p = .ok (.folder es)) (hf : f es = .ok es') (hkeeps : KeepsFolders es es') :
    ∃ d', change f d p = .ok d' ∧ lookup d' p = .ok (.folder es') := by
  obtain ⟨steps, hsteps, hfind⟩ := lookup_ok h
  obtain ⟨d', hwithin, hfind', hfolders⟩ := within_ok hfind hkeeps
  refine ⟨d', ?_, ?_⟩
  · rw [change, hsteps]
    exact (within_congr hfind hf).trans hwithin
  · rw [lookup, hfolders.directSteps hsteps]
    exact hfind'

theorem change_error {f : Entries → Except Cause Entries} {d : Disk} {p : Path} {es : Entries}
    {cause : Cause} (h : lookup d p = .ok (.folder es)) (hf : f es = .error cause) :
    change f d p = .error cause := by
  obtain ⟨steps, hsteps, hfind⟩ := lookup_ok h
  rw [change, hsteps]
  exact (within_congr hfind hf).trans (within_error hfind)

/-- Only a folder is changed. -/
theorem within_folder {f : Entries → Except Cause Entries} : ∀ {d d' : Disk} {steps : List Text},
    within f d steps = .ok d' → ∃ es, find d steps = .ok (.folder es)
  | d, _, [], _ => ⟨d, rfl⟩
  | d, _, name :: rest, h => by
    rw [within] at h
    split at h
    · cases h
    · next hlong =>
      split at h
      · cases h
      · cases h
      · next inner hget =>
        obtain ⟨inner', hinner, -⟩ := ok_of_bind h
        obtain ⟨es, hfind⟩ := within_folder hinner
        exact ⟨es, (find_cons (Bool.eq_false_iff.mpr hlong) hget rest).trans hfind⟩

theorem change_folder {f : Entries → Except Cause Entries} {d d' : Disk} {p : Path}
    (h : change f d p = .ok d') : ∃ es, lookup d p = .ok (.folder es) := by
  obtain ⟨steps, hsteps, hwithin⟩ := ok_of_bind h
  obtain ⟨es, hfind⟩ := within_folder hwithin
  refine ⟨es, ?_⟩
  rw [lookup, hsteps]
  exact hfind

/-- A folder in which every folder stays as it is keeps its folders. -/
theorem keepsFolders_of_get? {es es' : Entries}
    (h : ∀ n inner, es.get? n = some (.folder inner) → es'.get? n = some (.folder inner)) :
    KeepsFolders es es' := by
  intro steps inner hsteps
  cases steps with
  | nil => exact ⟨_, rfl⟩
  | cons n more =>
    obtain ⟨hn, first, hfirst, hmore⟩ := find_cons_folder hsteps
    exact ⟨inner, (find_cons hn (h n first hfirst) more).trans hmore⟩

/-- Giving a file its content keeps all folders. -/
theorem keepsFolders_put {es : Entries} {name : Text}
    (hfile : ∀ inner, es.get? name ≠ some (.folder inner)) (content : List UInt8) :
    KeepsFolders es (es.put name (.file content)) := by
  refine keepsFolders_of_get? fun n inner hn => ?_
  have hne : n ≠ name := fun h => hfile inner (h ▸ hn)
  rw [Entries.get?_put, if_neg hne, hn]

/-- So does removing a file. -/
theorem keepsFolders_remove {es : Entries} {name : Text}
    (hfile : ∀ inner, es.get? name ≠ some (.folder inner)) : KeepsFolders es (es.remove name) := by
  refine keepsFolders_of_get? fun n inner hn => ?_
  have hne : n ≠ name := fun h => hfile inner (h ▸ hn)
  rw [Entries.get?_remove, if_neg hne, hn]

theorem putEntry_ok {name : Text} {content : List UInt8} {es es' : Entries}
    (h : putEntry name content es = .ok es') : Entries.isTooLong name = false ∧
      (∀ inner, es.get? name ≠ some (.folder inner)) ∧ es' = es.put name (.file content) := by
  rw [putEntry] at h
  split at h
  · cases h
  · next hlong =>
    split at h
    · cases h
    · next hfile => exact ⟨Bool.eq_false_iff.mpr hlong, hfile, (Except.ok.inj h).symm⟩

/-- The first folder is one that was there, or a new one, which is made of nothing. -/
theorem makeFoldersAt_cons {es es' : Entries} {name : Text} {rest : List Text}
    (h : makeFoldersAt es (name :: rest) = .ok es') : Entries.isTooLong name = false ∧
      ∃ first inner, (es.get? name = some (.folder first) ∨ es.get? name = none ∧ first = []) ∧
        makeFoldersAt first rest = .ok inner ∧ es' = es.put name (.folder inner) := by
  rw [makeFoldersAt.eq_def] at h
  simp only at h
  split at h
  · cases h
  next hlong =>
  refine ⟨Bool.eq_false_iff.mpr hlong, ?_⟩
  split at h
  · cases h
  · cases h
  · next first hget =>
    obtain ⟨inner, hmake, hes⟩ := ok_of_bind h
    exact ⟨first, inner, .inl hget, hmake, (Except.ok.inj hes).symm⟩
  · next hnone =>
    obtain ⟨inner, hmake, hes⟩ := ok_of_bind h
    exact ⟨[], inner, .inr ⟨hnone, rfl⟩, hmake, (Except.ok.inj hes).symm⟩

theorem removeEntry_ok {name : Text} {es es' : Entries} (h : removeEntry name es = .ok es') :
    Entries.isTooLong name = false ∧
      ∃ content, es.get? name = some (.file content) ∧ es' = es.remove name := by
  rw [removeEntry] at h
  split at h
  · cases h
  · next hlong =>
    split at h
    · cases h
    · cases h
    · next content hget =>
      exact ⟨Bool.eq_false_iff.mpr hlong, content, hget, (Except.ok.inj h).symm⟩

theorem keepsFolders_removeEntry {name : Text} {es es' : Entries}
    (h : removeEntry name es = .ok es') : KeepsFolders es es' := by
  obtain ⟨-, content, hfile, rfl⟩ := removeEntry_ok h
  refine keepsFolders_remove fun inner hinner => ?_
  rw [hfile] at hinner
  cases hinner

/-! ## Replacing a file -/

theorem temporaryName_injective (ending : Text) {n k : Nat}
    (h : temporaryName ending n = temporaryName ending k) : n = k := by
  rw [temporaryName, temporaryName] at h
  have hdigits : Text.ofNat n = Text.ofNat k :=
    List.append_cancel_left (List.append_cancel_right h)
  have hchars : Nat.toDigits 10 n = Nat.toDigits 10 k :=
    (List.map_inj_right fun _ _ => CodePoint.char.inj).mp hdigits
  rw [← Nat.ofDigitChars_ten_toDigits (n := n), hchars, Nat.ofDigitChars_ten_toDigits]

theorem temporaryName_startsWith (ending : Text) (n : Nat) :
    (temporaryName ending n).startsWith temporaryMark = true := by
  rw [temporaryName, List.append_assoc, Text.startsWith, Text.dropLead?_append]
  rfl

/-- Every temporary name carries the mark. -/
theorem unusedName_startsWith (ending : Text) (es : Entries) : ∀ fuel n : Nat,
    (unusedName ending es fuel n).startsWith temporaryMark = true
  | 0, n => temporaryName_startsWith ending n
  | fuel + 1, n => by
    rw [unusedName]
    split
    · exact unusedName_startsWith ending es fuel (n + 1)
    · exact temporaryName_startsWith ending n

/-- A name that is used was only tried after all names with smaller numbers. -/
theorem used_of_unusedName {ending : Text} {es : Entries} : ∀ {fuel n : Nat},
    (es.get? (unusedName ending es fuel n)).isSome = true →
    ∀ k ≤ fuel, (es.get? (temporaryName ending (n + k))).isSome = true
  | 0, n, h, k, hk => by
    obtain rfl : k = 0 := by omega
    exact h
  | fuel + 1, n, h, k, hk => by
    rw [unusedName] at h
    split at h
    · next hused =>
      cases k with
      | zero => exact hused
      | succ k =>
        have hrest := used_of_unusedName h k (by omega)
        rwa [Nat.add_right_comm] at hrest
    · next hunused => exact absurd h hunused

/-- There are more names to try than entries. -/
theorem get?_unusedName (ending : Text) (es : Entries) :
    es.get? (unusedName ending es es.length 0) = none := by
  cases hname : es.get? (unusedName ending es es.length 0) with
  | none => rfl
  | some node =>
    have hused := used_of_unusedName (by rw [hname]; rfl)
    have hnames : (List.range (es.length + 1)).map (temporaryName ending) ⊆ es.map Prod.fst := by
      intro name hmem
      obtain ⟨k, hk, rfl⟩ := List.mem_map.mp hmem
      have hk := hused k (by have := List.mem_range.mp hk; omega)
      rw [Nat.zero_add, Entries.get?_eq] at hk
      refine Decidable.not_not.mp fun hmissing => ?_
      rw [Keyed.get?_eq_none.mpr hmissing] at hk
      cases hk
    have hdistinct : ((List.range (es.length + 1)).map (temporaryName ending)).Nodup :=
      List.Pairwise.map _ (fun _ _ hne heq => hne (temporaryName_injective ending heq))
        List.nodup_range
    have hle := hdistinct.length_le_of_subset hnames
    rw [List.length_map, List.length_map, List.length_range] at hle
    omega

/-- A temporary file takes no entry's place, and without it all entries are as before, whatever is
the cause that it could not be moved. -/
theorem makeTemporary_spec (ending : Text) (content : List UInt8) (es : Entries) :
    es.get? (makeTemporary ending content es).1 = none ∧
      (makeTemporary ending content es).2.remove (makeTemporary ending content es).1 = es := by
  have hnew := get?_unusedName ending es
  refine ⟨hnew, ?_⟩
  rw [Entries.get?_eq] at hnew
  rw [makeTemporary, Entries.put_eq]
  exact Keyed.remove_put hnew _

/-- Replacing a file gives that entry its content and changes nothing else; it changes nothing at all
if the name is too long or is that of a folder. -/
theorem replaceEntry_eq {name : Text} (hname : Text.startsWith name temporaryMark = false)
    (ending : Text) (content : List UInt8) (es : Entries) :
    replaceEntry name ending content es =
      if Entries.isTooLong name then (es, some .nameTooLong)
      else match es.get? name with
        | some (.folder _) => (es, some .isFolder)
        | _ => (es.put name (.file content), none) := by
  obtain ⟨temporary, htemporary⟩ : ∃ t, t = unusedName ending es es.length 0 := ⟨_, rfl⟩
  have hother : name ≠ temporary := by
    intro heq
    rw [heq, htemporary, unusedName_startsWith] at hname
    cases hname
  have hremove : (es.put temporary (.file content)).remove temporary = es := by
    rw [htemporary]
    exact (makeTemporary_spec ending content es).2
  unfold replaceEntry makeTemporary moveEntry
  simp only [← htemporary, Entries.get?_put, if_true, if_neg hother, hremove]
  cases hlong : Entries.isTooLong name with
  | true => rfl
  | false =>
    cases hget : es.get? name with
    | none => rfl
    | some node => cases node <;> rfl

end Cabinet.Disk
