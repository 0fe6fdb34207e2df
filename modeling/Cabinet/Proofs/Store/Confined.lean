import Cabinet.Proofs.Store.Folder

/-!
# A document's change is confined to its file

* `Disk.glance` : what stands behind steps, without what is in it;
* `Disk.ChangedAt` : two disks that differ in one entry of one folder;
* `Disk.changedAt_change` : a change of one entry of a folder is one of the whole disk;
* `Folder.filePath_child` : a document's file is directly in the folder, under a name that is no
  step to another folder, is not hidden and is not that of a temporary file;
* `Folder.write_cases`, `Folder.erase_cases` : what a write and an erasure do, whatever happens;
* `Folder.changes_confined` : one entry changes if they succeed, and nothing at all if they fail.
-/

namespace Cabinet

namespace Disk

/-! ## Disks that differ in one entry -/

/-- What stands behind steps: the bytes of a file, and no more than that it is one for a folder. -/
def glance (d : Disk) (steps : List Text) : Except Cause (Option (List UInt8)) :=
  (find d steps).map fun
    | .file content => some content
    | .folder _ => none

/-- An entry of the folder at a path may have become another one, and nothing else on the disk is
different. -/
structure ChangedAt (folder : Path) (name : Text) (node : Option Node) (d d' : Disk) : Prop where
  inside : ∃ es es' : Entries, lookup d folder = .ok (.folder es) ∧
    lookup d' folder = .ok (.folder es') ∧ es'.get? name = node ∧
    ∀ n, n ≠ name → es'.get? n = es.get? n
  elsewhere : ∃ steps, directSteps d [] folder.steps = .ok steps ∧
    ∀ q, ¬ steps ++ [name] <+: q → glance d' q = glance d q

theorem glance_congr {es es' : Entries} {n : Text} (h : es'.get? n = es.get? n) (rest : List Text) :
    glance es' (n :: rest) = glance es (n :: rest) := by
  rw [glance, glance, find.eq_def es', find.eq_def es]
  simp only [h]

theorem glance_cons {es inner : Entries} {name : Text} (hname : Entries.isTooLong name = false)
    (hget : es.get? name = some (.folder inner)) (rest : List Text) :
    glance es (name :: rest) = glance inner rest := by
  rw [glance, find_cons hname hget, glance]

/-- By induction on the way to the folder: a step off it meets what was there before, and a step on it
leads to where the rest of the way is the same. -/
theorem glance_within {es es' : Entries} {name : Text}
    (hsame : ∀ n, n ≠ name → es'.get? n = es.get? n) : ∀ {d d' : Disk} {steps : List Text},
    find d steps = .ok (.folder es) → within (fun _ => .ok es') d steps = .ok d' →
    ∀ q, ¬ steps ++ [name] <+: q → glance d' q = glance d q
  | _, _, _, _, _, [], _ => rfl
  | d, d', [], h, hwithin, n :: q, hq => by
    obtain rfl : d = es := by simpa [find] using h
    obtain rfl : es' = d' := Except.ok.inj hwithin
    refine glance_congr (hsame n ?_) q
    rintro rfl
    exact hq ⟨q, rfl⟩
  | d, d', s :: steps, h, hwithin, n :: q, hq => by
    obtain ⟨hs, inner, hget, hrest⟩ := find_cons_folder h
    rw [within, hs, hget] at hwithin
    obtain ⟨inner', hinner, hput⟩ := ok_of_bind hwithin
    obtain rfl : d.put s (.folder inner') = d' := Except.ok.inj hput
    by_cases hn : n = s
    · subst hn
      have hput : (d.put n (.folder inner')).get? n = some (.folder inner') :=
        (Entries.get?_put ..).trans (if_pos rfl)
      have hoff : ¬ steps ++ [name] <+: q := fun hp => hq (List.cons_prefix_cons.mpr ⟨rfl, hp⟩)
      rw [glance_cons hs hput, glance_cons hs hget]
      exact glance_within hsame hrest hinner q hoff
    · exact glance_congr ((Entries.get?_put ..).trans (if_neg hn)) q

/-- A change of one entry of a folder is one of the disk in that place. -/
theorem changedAt_change {f : Entries → Except Cause Entries} {d : Disk} {folder : Path}
    {es es' : Entries} (name : Text) (h : lookup d folder = .ok (.folder es)) (hf : f es = .ok es')
    (hkeeps : KeepsFolders es es') (hsame : ∀ n, n ≠ name → es'.get? n = es.get? n) :
    ∃ d', change f d folder = .ok d' ∧ ChangedAt folder name (es'.get? name) d d' := by
  obtain ⟨d', hchange, hlookup⟩ := lookup_change h hf hkeeps
  obtain ⟨steps, hsteps, hfind⟩ := lookup_ok h
  have hwithin : within (fun _ => .ok es') d steps = .ok d' := by
    rw [change, hsteps] at hchange
    exact (within_congr hfind hf).symm.trans hchange
  exact ⟨d', hchange, ⟨es, es', h, hlookup, rfl, hsame⟩,
    steps, hsteps, glance_within hsame hfind hwithin⟩

end Disk

namespace Key

theorem escapeByte_slash : ∀ n < 256, .char '/' ∉ escapeByte n.toUInt8 := by decide +kernel

/-- A key is one step. -/
theorem escape_slash {id key : Text} (h : escape id = .ok key) : .char '/' ∉ key := by
  obtain ⟨-, bytes, -, rfl⟩ := escape_ok h
  intro hslash
  obtain ⟨b, -, hb⟩ := List.mem_flatMap.mp hslash
  refine escapeByte_slash b.toNat b.toNat_lt ?_
  rwa [Nat.toUInt8_eq, UInt8.ofNat_toNat]

end Key

/-! ## Names of files -/

/-- A text without slashes is one step. -/
theorem Text.splitOn_of_not_mem {mark : CodePoint} : ∀ {t : Text}, mark ∉ t → t.splitOn mark = [t]
  | [], _ => rfl
  | p :: t, h => by
    rw [List.mem_cons, not_or] at h
    rw [splitOn, Text.splitOn_of_not_mem h.2]
    exact if_neg (Ne.symm h.1)

namespace Folder

/-- A name of an entry that is not hidden and that is no step to another folder. -/
structure PlainName (name : Text) : Prop where
  single : Disk.Path.ofText name = ⟨[name]⟩
  ne_back : name ≠ Disk.Path.back
  visible : name.head? ≠ some (.char '.')
  not_temporary : name.startsWith Disk.temporaryMark = false

theorem plainName_fileName {id key ending : Text} (hkey : Key.escape id = .ok key)
    (hending : .char '/' ∉ ending) : PlainName (key ++ ending) := by
  have hslash : .char '/' ∉ key ++ ending := by
    rw [List.mem_append, not_or]
    exact ⟨Key.escape_slash hkey, hending⟩
  obtain ⟨hback, htemporary⟩ := fileName_ne hkey ending
  obtain ⟨p, rest, rfl, hp⟩ := Key.escape_head hkey
  have hfirst : p ≠ .char '/' := fun h => hslash (h ▸ List.mem_cons_self)
  have hdot : p :: rest ++ ending ≠ ".".toText := fun h => hp (List.cons.inj h).1
  refine ⟨?_, hback, ?_, htemporary⟩
  · rw [Disk.Path.ofText, Text.splitOn_of_not_mem hslash]
    rw [List.cons_append] at hdot ⊢
    simp [hfirst, hdot]
  · simpa using hp

/-- The endings of the formats are no steps. -/
theorem ending_slash : ∀ format ∈ Format.all, .char '/' ∉ format.ending := by
  intro format h
  obtain rfl | rfl := Format.cases_all h <;> decide

/-- The file of a document is directly in the folder. -/
theorem filePath_child {format : Format} (hending : .char '/' ∉ format.ending) {folder p : Disk.Path}
    {id : Text} (h : filePath format folder id = .ok p) :
    ∃ key, Key.escape id = .ok key ∧ p = folder.child (key ++ format.ending) ∧
      PlainName (key ++ format.ending) := by
  obtain ⟨key, hkey, hp⟩ := ok_of_bind h
  exact ⟨key, hkey, (Except.ok.inj hp).symm, plainName_fileName hkey hending⟩

/-! ## Writing and erasing -/

section

variable {format : Format} {folder : Disk.Path} {d d' : Disk} {es : Disk.Entries} {id : Text}

/-- A write that fails leaves the disk as it was, and one that succeeds changes the document's entry to
a file of the document's text. -/
theorem write_cases (h : Disk.lookup d folder = .ok (.folder es)) {v : Value}
    {r : Except Failure Unit} (hrun : write format folder id v d = (r, d')) :
    (∃ e, r = .error e ∧ d' = d) ∨
    r = .ok () ∧ ∃ key t bytes, Key.escape id = .ok key ∧ format.encode v = .ok t ∧
      t.toUtf8 = .ok bytes ∧
      Disk.ChangedAt folder (key ++ format.ending) (some (.file bytes)) d d' := by
  obtain ⟨e, he⟩ | ⟨key, t, bytes, hkey, ht, hbytes⟩ := write_ready format folder id v
  · exact .inl (failed_of_eq ((he d).symm.trans hrun))
  rw [write_eq h hkey ht hbytes] at hrun
  by_cases hlong : Disk.Entries.isTooLong (key ++ format.ending) = true
  · rw [if_pos hlong] at hrun
    exact .inl (failed_of_eq hrun)
  rw [if_neg hlong] at hrun
  split at hrun
  · exact .inl (failed_of_eq hrun)
  next hkept =>
  obtain ⟨d₁, hchange, hchanged⟩ := Disk.changedAt_change (key ++ format.ending)
    (f := fun _ => .ok (es.put (key ++ format.ending) (.file bytes))) h rfl
    (Disk.keepsFolders_put hkept bytes)
    fun n hn => (Disk.Entries.get?_put ..).trans (if_neg hn)
  rw [Disk.Entries.get?_put, if_pos rfl] at hchanged
  rw [hchange] at hrun
  obtain ⟨rfl, rfl⟩ := Prod.mk.inj hrun
  exact .inr ⟨rfl, key, t, bytes, hkey, ht, hbytes, hchanged⟩

/-- An erasure that fails leaves the disk as it was, and one that succeeds removes the document's
entry, which was a file. -/
theorem erase_cases (h : Disk.lookup d folder = .ok (.folder es)) {r : Except Failure Unit}
    (hrun : erase format folder id d = (r, d')) :
    (∃ e, r = .error e ∧ d' = d) ∨
    r = .ok () ∧ ∃ key content, Key.escape id = .ok key ∧
      es.get? (key ++ format.ending) = some (.file content) ∧
      Disk.ChangedAt folder (key ++ format.ending) none d d' := by
  cases hkey : Key.escape id with
  | error e =>
    rw [erase, filePath, hkey] at hrun
    exact .inl (failed_of_eq hrun)
  | ok key =>
    rw [erase_eq hkey] at hrun
    cases hremove : Disk.removeEntry (key ++ format.ending) es with
    | error cause =>
      rw [Disk.change_error h hremove] at hrun
      simp only at hrun
      split at hrun
      · exact .inl (failed_of_eq hrun)
      · exact .inl (failed_of_eq hrun)
    | ok es' =>
      obtain ⟨-, content, hfile, rfl⟩ := Disk.removeEntry_ok hremove
      obtain ⟨d₁, hchange, hchanged⟩ := Disk.changedAt_change (key ++ format.ending) h hremove
        (Disk.keepsFolders_removeEntry hremove)
        fun n hn => (Disk.Entries.get?_remove ..).trans (if_neg hn)
      rw [Disk.Entries.get?_remove, if_pos rfl] at hchanged
      rw [hchange] at hrun
      obtain ⟨rfl, rfl⟩ := Prod.mk.inj hrun
      exact .inr ⟨rfl, key, content, rfl, hfile, hchanged⟩

end

/-- A store in a folder that is there changes nothing on the disk but a document's own file, which
holds the document's text once it is written and is no more once it is erased. Whenever a write or
an erasure fails, the disk is as before; a write does not fail if there is a text to write to an entry
that is no folder, and an erasure not if there is a file. Reading, asking for a document and listing
never change the disk. The file is directly in the folder, whatever the identifier is. -/
theorem changes_confined (format : Format) (hending : .char '/' ∉ format.ending)
    {folder : Disk.Path} {d : Disk} {es : Disk.Entries}
    (hfolder : Disk.lookup d folder = .ok (.folder es)) (id : Text) :
    (∀ v r d', (store format folder).write id v d = (r, d') →
      (∃ e, r = .error e ∧ d' = d) ∨
      r = .ok () ∧ ∃ key t bytes, Key.escape id = .ok key ∧ format.encode v = .ok t ∧
        t.toUtf8 = .ok bytes ∧
        Disk.ChangedAt folder (key ++ format.ending) (some (.file bytes)) d d') ∧
    (∀ v key t bytes, Key.escape id = .ok key → format.encode v = .ok t → t.toUtf8 = .ok bytes →
      Disk.Entries.isTooLong (key ++ format.ending) = false →
      (∀ inner, es.get? (key ++ format.ending) ≠ some (.folder inner)) →
      ((store format folder).write id v d).1 = .ok ()) ∧
    (∀ r d', (store format folder).erase id d = (r, d') →
      (∃ e, r = .error e ∧ d' = d) ∨
      r = .ok () ∧ ∃ key content, Key.escape id = .ok key ∧
        es.get? (key ++ format.ending) = some (.file content) ∧
        Disk.ChangedAt folder (key ++ format.ending) none d d') ∧
    (∀ key content, Key.escape id = .ok key →
      Disk.Entries.isTooLong (key ++ format.ending) = false →
      es.get? (key ++ format.ending) = some (.file content) →
      ((store format folder).erase id d).1 = .ok ()) ∧
    ((store format folder).read id d).2 = d ∧ ((store format folder).exist id d).2 = d ∧
    ((store format folder).index d).2 = d ∧
    ∀ p, filePath format folder id = .ok p → ∃ key, Key.escape id = .ok key ∧
      p = folder.child (key ++ format.ending) ∧ PlainName (key ++ format.ending) := by
  refine ⟨fun _ _ _ => write_cases hfolder, fun v key t bytes hkey ht hbytes hlong hfile => ?_,
    fun _ _ => erase_cases hfolder, fun key content hkey hlong hfile => ?_, rfl, rfl, rfl,
    fun _ => filePath_child hending⟩
  · obtain ⟨d', hwrite, -⟩ := write_file hfolder hkey ht hbytes hlong hfile
    exact congrArg Prod.fst hwrite
  · obtain ⟨d', herase, -⟩ := erase_file hfolder hkey hlong hfile
    exact congrArg Prod.fst herase

/-- A folder with a document, a folder that has the name of a document's file, and a hidden file. -/
def shelf : Disk :=
  [("shelf".toText, .folder [("a.json".toText, .file [123, 125]), ("%C3%A9.json".toText, .folder []),
    (".hidden".toText, .file [])])]

theorem changes_confined_shelf :
    let s := store .json (.ofText "shelf".toText)
    (∃ d', s.write "..".toText (.object []) shelf = (.ok (), d') ∧
      Disk.ChangedAt (.ofText "shelf".toText) "%2E%2E.json".toText (some (.file [123, 125])) shelf
        d') ∧
    (∃ e, s.write "é".toText (.object []) shelf = (.error e, shelf)) ∧
    (∃ d', s.erase "a".toText shelf = (.ok (), d') ∧
      Disk.ChangedAt (.ofText "shelf".toText) "a.json".toText none shelf d') ∧
    PlainName "%2E%2E.json".toText := by
  intro s
  have hconfined := changes_confined .json (ending_slash _ List.mem_cons_self) (d := shelf)
    (show Disk.lookup shelf (.ofText "shelf".toText) = _ from rfl)
  obtain ⟨hwrite, hwrites, -, -, -, -, -, hname⟩ := hconfined "..".toText
  obtain ⟨-, -, herase, herases, -⟩ := hconfined "a".toText
  have hwritten : (s.write "..".toText (.object []) shelf).1 = .ok () :=
    hwrites _ "%2E%2E".toText "\x7b\x7d".toText _ rfl rfl rfl rfl (by rintro inner ⟨⟩)
  have herased : (s.erase "a".toText shelf).1 = .ok () := herases "a".toText _ rfl rfl rfl
  refine ⟨⟨_, Prod.ext hwritten rfl, ?_⟩, ?_, ⟨_, Prod.ext herased rfl, ?_⟩, ?_⟩
  · obtain ⟨e, he, -⟩ | ⟨-, key, t, bytes, hkey, ht, hbytes, hchanged⟩ :=
      hwrite _ _ _ (Prod.ext hwritten rfl)
    · cases he
    · obtain rfl : "%2E%2E".toText = key := Except.ok.inj hkey
      obtain rfl : "\x7b\x7d".toText = t := Except.ok.inj ht
      obtain rfl : [123, 125] = bytes := Except.ok.inj hbytes
      exact hchanged
  · obtain ⟨e, he, hkept⟩ | ⟨hok, -⟩ := (hconfined "é".toText).1 (.object []) _ _ rfl
    · exact ⟨e, Prod.ext he hkept⟩
    · cases hok
  · obtain ⟨e, he, -⟩ | ⟨-, key, content, hkey, -, hchanged⟩ :=
      herase _ _ (Prod.ext herased rfl)
    · cases he
    · obtain rfl : "a".toText = key := Except.ok.inj hkey
      exact hchanged
  · obtain ⟨key, hkey, -, hplain⟩ := hname _ rfl
    obtain rfl : "%2E%2E".toText = key := Except.ok.inj hkey
    exact hplain

end Folder

end Cabinet
