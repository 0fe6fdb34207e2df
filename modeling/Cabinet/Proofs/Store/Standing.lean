import Cabinet.Command.Shell
import Cabinet.Proofs.Store.Listing
import Cabinet.Proofs.Store.Runs
import Cabinet.Proofs.Yaml.Misread

/-!
# Folders that stand while a store works in them

* `Disk.makeFolders_ok`, `Disk.failsOnly_putFile` : a folder that was made is there, and where it is there a
  file can be put into it;
* `Failure.IsRejection` : what was asked for means nothing, or it is not there;
* `Folder.Stands` : the folder of a store is there;
* `Folder.openFolder_runs`, `Folder.write_runs`, `Folder.erase_runs` : opening makes it so, a write keeps it
  so and is no rejection if it fails, and an erasure that fails changes nothing;
* `Folder.Holds`, `Folder.erase_holds` : documents that are there are erased one after another.
-/

namespace Cabinet

/-! ## Making folders and putting files into them -/

namespace Disk

theorem keepsFolders_putEntry {name : Text} {content : List UInt8} {es es' : Entries}
    (h : putEntry name content es = .ok es') : KeepsFolders es es' := by
  obtain ⟨-, hfile, rfl⟩ := putEntry_ok h
  exact keepsFolders_put hfile content

theorem makeFoldersAt_ok : ∀ {es es' : Entries} {steps : List Text}, makeFoldersAt es steps = .ok es' →
    KeepsFolders es es' ∧ ∃ inner, find es' steps = .ok (.folder inner)
  | es, es', [], h => by
    obtain rfl : es = es' := by simpa [makeFoldersAt] using h
    exact ⟨fun _ inner h => ⟨inner, h⟩, es, rfl⟩
  | es, _, name :: rest, h => by
    obtain ⟨hname, first, inner, hfirst, hmake, rfl⟩ := makeFoldersAt_cons h
    obtain ⟨hkeeps, found, hfound⟩ := makeFoldersAt_ok hmake
    have hold : ∀ old, es.get? name = some (.folder old) → old = first := by
      intro old hold
      obtain hget | ⟨hget, -⟩ := hfirst
      · exact Node.folder.inj (Option.some.inj (hold.symm.trans hget))
      · cases hold.symm.trans hget
    refine ⟨keepsFolders_putFolder fun old h => hold old h ▸ hkeeps, found, ?_⟩
    have hget : (es.put name (.folder inner)).get? name = some (.folder inner) :=
      (Entries.get?_put ..).trans (if_pos rfl)
    rw [find_cons hname hget]
    exact hfound

/-- By induction on the steps: at each step back the folder behind is made, so that it can be left again. -/
theorem makeSteps_ok : ∀ {d d' : Disk} {taken steps : List Text}, makeSteps d taken steps = .ok d' →
    KeepsFolders d d' ∧
      ∃ path es, directSteps d' taken steps = .ok path ∧ find d' path = .ok (.folder es)
  | d, d', taken, [], h => by
    rw [makeSteps] at h
    obtain ⟨hkeeps, es, hes⟩ := makeFoldersAt_ok h
    exact ⟨hkeeps, _, es, rfl, hes⟩
  | d, d', taken, s :: rest, h => by
    rw [makeSteps] at h
    rw [directSteps]
    split at h
    · next hback =>
      obtain ⟨d₁, hmake, h⟩ := ok_of_bind h
      obtain ⟨hfirst, es, hes⟩ := makeFoldersAt_ok hmake
      obtain ⟨hrest, path, es', hpath, hes'⟩ := makeSteps_ok h
      obtain ⟨inner, hinner⟩ := hrest _ _ hes
      refine ⟨fun p inner hp => ?_, path, es', ?_, hes'⟩
      · obtain ⟨inner₁, hinner₁⟩ := hfirst p inner hp
        exact hrest p inner₁ hinner₁
      · rw [if_pos hback, hinner]
        exact hpath
    · next hname =>
      rw [if_neg hname]
      exact makeSteps_ok h

/-- A folder that was made is there. -/
theorem makeFolders_ok {d d' : Disk} {p : Path} (h : makeFolders d p = .ok d') :
    ∃ es, lookup d' p = .ok (.folder es) := by
  obtain ⟨-, path, es, hpath, hes⟩ := makeSteps_ok (ok_of_mapError h)
  refine ⟨es, ?_⟩
  rw [lookup, hpath]
  exact hes

/-- Where a folder is there, a file is put into it, or something is wrong with its name. -/
theorem failsOnly_putFile {d : Disk} {p : Path} {es : Entries}
    (h : lookup d (splitLast p).1 = .ok (.folder es)) (content : List UInt8) :
    FailsOnly (fun e => e.cause ≠ .missing) (putFile d p content) := by
  refine failsOnly_mapError fun cause hcause => ?_
  have hput : FailsOnly (· ≠ .missing) (putEntry (splitLast p).2 content es) := by
    rw [putEntry]
    split
    · exact failsOnly_error (by decide)
    · split
      · exact failsOnly_error (by decide)
      · exact failsOnly_ok _
  cases hentry : putEntry (splitLast p).2 content es with
  | error c =>
    obtain rfl := Except.error.inj ((change_error h hentry).symm.trans hcause)
    exact hput c hentry
  | ok es' =>
    obtain ⟨d', hd', -⟩ := lookup_change h hentry (keepsFolders_putEntry hentry)
    cases hd'.symm.trans hcause

end Disk

/-! ## Rejections -/

/-- What was asked for means nothing, or it is not there. -/
def Failure.IsRejection (e : Failure) : Prop := e.family = .query ∨ e.family = .notFound

namespace Failure

instance (e : Failure) : Decidable e.IsRejection :=
  inferInstanceAs (Decidable (_ ∨ _))

/-- Failures of other families are no rejections. -/
theorem not_isRejection {e : Failure} (h : decide e.IsRejection = false) : ¬ e.IsRejection :=
  of_decide_eq_false h

end Failure

theorem Key.failsOnly_escape (id : Text) : FailsOnly (fun e => ¬ e.IsRejection) (escape id) := by
  rw [escape]
  split
  · exact failsOnly_error (Failure.not_isRejection rfl)
  · cases id.toUtf8 with
    | ok bytes => exact failsOnly_ok _
    | error e => exact failsOnly_error (Failure.not_isRejection rfl)

theorem Format.failsOnly_encode {format : Format} (h : format ∈ Format.all) (v : Value) :
    FailsOnly (fun e => ¬ e.IsRejection) (format.encode v) := by
  obtain rfl | rfl := Format.cases_all h
  · exact failsOnly_mapError fun _ _ => Failure.not_isRejection rfl
  · exact failsOnly_ok _

/-! ## The folder of a store -/

namespace Folder

variable {format : Format} {folder : Disk.Path}

/-- The folder is there. -/
def Stands (folder : Disk.Path) (d : Disk) : Prop :=
  ∃ es : Disk.Entries, Disk.lookup d folder = .ok (.folder es)

theorem stands_of_isFolder {d : Disk} (h : Disk.isFolder d folder = true) : Stands folder d := by
  rw [Disk.isFolder] at h
  split at h
  · next es hes => exact ⟨es, hes⟩
  · cases h

/-- A folder that is opened is there. Opening it changes nothing unless it may be made, and nothing if it
fails. -/
theorem openFolder_runs (create : Bool) (folder : Disk.Path) (d : Disk) :
    Runs (· = d) (openFolder create folder)
      (fun _ d' => Stands folder d' ∧ (create = false → d' = d)) fun _ d' => d' = d := by
  rintro d rfl
  rw [openFolder]
  split
  · next hcreate =>
    cases hmake : Disk.makeFolders d folder with
    | ok d' => exact .ok ⟨Disk.makeFolders_ok hmake, fun h => absurd (hcreate.symm.trans h) (by decide)⟩
    | error e => exact .error rfl
  · split
    · next hfolder => exact .ok ⟨stands_of_isFolder hfolder, fun _ => rfl⟩
    · exact .error rfl

theorem failsOnly_bytesOf (hformat : format ∈ Format.all) (v : Value) :
    FailsOnly (fun e => ¬ e.IsRejection) (bytesOf format v) := by
  refine (Format.failsOnly_encode hformat v).bind fun t => ?_
  cases t.toUtf8 with
  | ok bytes => exact failsOnly_ok _
  | error e => exact failsOnly_error (Failure.not_isRejection rfl)

/-- A write into a folder that is there leaves it there. If it fails, something is wrong with what was to be
written, or with the system. -/
theorem write_runs (hformat : format ∈ Format.all) (folder : Disk.Path) (id : Text) (v : Value) :
    Runs (Stands folder) (write format folder id v) (fun _ => Stands folder)
      fun e _ => ¬ e.IsRejection := by
  rintro d ⟨es, hes⟩
  cases hkey : Key.escape id with
  | error e =>
    rw [write, filePath, hkey]
    exact .error (Key.failsOnly_escape id e hkey)
  | ok key =>
  cases hbytes : bytesOf format v with
  | error e =>
    rw [write, filePath_eq hkey, hbytes]
    exact .error (failsOnly_bytesOf hformat v e hbytes)
  | ok bytes =>
  obtain ⟨t, ht, hutf⟩ := bytesOf_ok hbytes
  have hrefused : ∀ cause d', Ended (fun _ => Stands folder) (fun e _ => ¬ e.IsRejection)
      (writeRefused format folder (key ++ format.ending) cause, d') :=
    fun _ _ => .error (Failure.not_isRejection rfl)
  by_cases hlong : Disk.Entries.isTooLong (key ++ format.ending) = true
  · rw [write_eq hes hkey ht hutf, if_pos hlong]
    exact hrefused _ _
  by_cases hfile : ∃ inner, Disk.Entries.get? es (key ++ format.ending) = some (.folder inner)
  · obtain ⟨inner, hinner⟩ := hfile
    rw [write_eq hes hkey ht hutf, if_neg hlong, hinner]
    exact hrefused _ _
  · obtain ⟨d', hrun, hes'⟩ :=
      write_file hes hkey ht hutf (Bool.eq_false_iff.mpr hlong) (not_exists.mp hfile)
    rw [hrun]
    exact .ok ⟨_, hes'⟩

/-- An erasure that fails changes nothing. -/
theorem erase_runs (format : Format) (folder : Disk.Path) (id : Text) (d : Disk) :
    Runs (· = d) (erase format folder id) (fun _ _ => True) fun _ d' => d' = d := by
  rintro _ rfl
  rw [erase]
  split
  · exact .error rfl
  · split
    · exact .ok trivial
    · split
      · exact .error rfl
      · exact .error rfl

/-- The folder is there, and in it a file for each of some identifiers. -/
def Holds (format : Format) (folder : Disk.Path) (ids : List Text) (d : Disk) : Prop :=
  ∃ es : Disk.Entries, Disk.lookup d folder = .ok (.folder es) ∧
    ∀ id ∈ ids, ∃ key content, Key.escape id = .ok key ∧
      Disk.Entries.isTooLong (key ++ format.ending) = false ∧
      es.get? (key ++ format.ending) = some (.file content)

/-- Documents that are read have their files. -/
theorem holds_of_read {d : Disk} {ids : List Text} (h : Stands folder d)
    (hread : ∀ id ∈ ids, ∃ doc, read format folder id d = .ok doc) : Holds format folder ids d := by
  obtain ⟨es, hes⟩ := h
  refine ⟨es, hes, fun id hid => ?_⟩
  obtain ⟨doc, hdoc⟩ := hread id hid
  exact file_of_read hes hdoc

/-- A document that is there is erased, and others stay there. -/
theorem erase_holds {id : Text} {ids : List Text} (hid : id ∉ ids) :
    Runs (Holds format folder (id :: ids)) (erase format folder id) (fun _ => Holds format folder ids)
      fun _ _ => False := by
  rintro d ⟨es, hes, hfiles⟩
  obtain ⟨⟨key, content, hkey, hlong, hfile⟩, hothers⟩ := List.forall_mem_cons.mp hfiles
  obtain ⟨d', hrun, hes'⟩ := erase_file hes hkey hlong hfile
  rw [hrun]
  refine .ok ⟨_, hes', fun i hi => ?_⟩
  obtain ⟨key', content', hkey', hlong', hfile'⟩ := hothers i hi
  -- Different identifiers have different files.
  have hne : key' ++ format.ending ≠ key ++ format.ending := by
    intro heq
    have hsame : identifier? format (key' ++ format.ending) = some i := identifier?_fileName hkey'
    rw [heq, identifier?_fileName hkey] at hsame
    exact hid (Option.some.inj hsame ▸ hi)
  refine ⟨key', content', hkey', hlong', ?_⟩
  rw [Disk.Entries.get?_remove, if_neg hne]
  exact hfile'

end Folder

end Cabinet
