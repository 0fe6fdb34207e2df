import Cabinet.Proofs.Store.Regular

/-!
# What is listed and what is there

A store in a folder lists its identifiers by the names in the folder, and asks the system whether the file
of an identifier is there.

* `Disk.lookup_of_child` : what stands below a path stands in a folder;
* `Folder.file_of_read` : a document that is read has its file there;
* `Folder.exist_iff` : when a document is said to be there;
* `Folder.mem_index_iff`, `Folder.nodup_index` : which identifiers are listed, and that each of them is
  listed once;
* `Folder.index_agrees` : listed are the identifiers of all documents that are there, and those of folders
  that have the name of a document's file;
* `Folder.index_lists_folder` : such a folder is listed as a document, which is not there.
-/

namespace Cabinet

namespace Disk

/-- Behind a step something only stands if the steps before it lead to a folder. -/
theorem folder_of_find_append {name : Text} {more : List Text} {node : Node} :
    ∀ {es : Entries} {steps : List Text}, find es (steps ++ name :: more) = .ok node →
      ∃ inner, find es steps = .ok (.folder inner)
  | es, [], _ => ⟨es, rfl⟩
  | es, s :: steps, h => by
    rw [List.cons_append, find.eq_def] at h
    simp only at h
    split at h
    · cases h
    next hs =>
    split at h
    · cases h
    · next hend => simp at hend
    · cases h
    · next first hget =>
      obtain ⟨inner, hinner⟩ := folder_of_find_append h
      exact ⟨inner, (find_cons (Bool.eq_false_iff.mpr hs) hget steps).trans hinner⟩

theorem lookup_of_child {d : Disk} {folder : Path} {name : Text} (hname : name ≠ Path.back)
    {node : Node} (h : lookup d (folder.child name) = .ok node) :
    ∃ es, lookup d folder = .ok (.folder es) := by
  rw [lookup, Path.child, directSteps_append hname] at h
  obtain ⟨steps, hsteps, hfind⟩ := ok_of_bind h
  obtain ⟨before, hbefore, rfl⟩ := ok_of_map hsteps
  obtain ⟨es, hes⟩ := folder_of_find_append hfind
  refine ⟨es, ?_⟩
  rw [lookup, hbefore]
  exact hes

theorem isFile_iff {d : Disk} {p : Path} :
    isFile d p = .ok true ↔ ∃ content, lookup d p = .ok (.file content) := by
  unfold isFile
  split
  · next content h => exact iff_of_true rfl ⟨content, h⟩
  · next h => exact iff_of_false nofun fun ⟨_, hfile⟩ => nomatch h.symm.trans hfile
  · next hfile _ => exact iff_of_false nofun fun ⟨content, h⟩ => hfile content h

theorem isFolder_iff {d : Disk} {p : Path} :
    isFolder d p = true ↔ ∃ es, lookup d p = .ok (.folder es) := by
  unfold isFolder
  split
  · next es h => exact iff_of_true rfl ⟨es, h⟩
  · next hfolder => exact iff_of_false nofun fun ⟨es, h⟩ => hfolder es h

theorem readFile_ok_iff {d : Disk} {p : Path} {content : List UInt8} :
    readFile d p = .ok content ↔ lookup d p = .ok (.file content) := by
  rw [readFile]
  cases lookup d p with
  | error cause =>
    constructor <;>
    · intro h
      cases h
  | ok node =>
    cases node with
    | file bytes =>
      constructor
      · intro h
        obtain rfl : bytes = content := Except.ok.inj h
        rfl
      · intro h
        obtain rfl := Node.file.inj (Except.ok.inj h)
        rfl
    | folder es =>
      constructor <;>
      · intro h
        cases h

end Disk

namespace Folder

variable {format : Format} {folder : Disk.Path} {d : Disk} {es : Disk.Entries} {id key : Text}
  {ids : List Text}

theorem exist_iff (hkey : Key.escape id = .ok key) : exist format folder id d = .ok true ↔
    ∃ content, Disk.lookup d (folder.child (key ++ format.ending)) = .ok (.file content) := by
  have hexist : exist format folder id d =
      (Disk.isFile d (folder.child (key ++ format.ending))).mapError .system := by
    rw [exist, filePath_eq hkey]
    rfl
  rw [hexist, ← Disk.isFile_iff]
  exact ⟨ok_of_mapError, fun h => h ▸ rfl⟩

/-- A document that is there has a key, and a folder around it. -/
theorem folder_of_exist (h : exist format folder id d = .ok true) :
    ∃ es, Disk.lookup d folder = .ok (.folder es) := by
  cases hkey : Key.escape id with
  | error e =>
    rw [exist, filePath, hkey] at h
    cases h
  | ok key =>
    obtain ⟨content, hfile⟩ := (exist_iff hkey).mp h
    exact Disk.lookup_of_child (fileName_ne hkey format.ending).1 hfile

section Listed
variable (hes : Disk.lookup d folder = .ok (.folder es)) (hindex : index format folder d = .ok ids)
include hes hindex

/-- An identifier is listed if an entry of the folder has the name of its file, whatever the entry is. -/
theorem mem_index_iff (hkey : Key.escape id = .ok key) :
    id ∈ ids ↔ key ++ format.ending ∈ Disk.Entries.names es := by
  obtain rfl := Except.ok.inj ((index_eq hes).symm.trans hindex)
  rw [List.mem_filterMap]
  constructor
  · rintro ⟨name, hname, hid⟩
    obtain ⟨key', hkey', rfl⟩ := identifier?_eq_some hid
    obtain rfl := Except.ok.inj (hkey.symm.trans hkey')
    exact List.mem_mergeSort.mp hname
  · exact fun hname => ⟨_, List.mem_mergeSort.mpr hname, identifier?_fileName hkey⟩

theorem nodup_index (hdistinct : (Disk.Entries.names es).Nodup) : ids.Nodup := by
  obtain rfl := Except.ok.inj ((index_eq hes).symm.trans hindex)
  refine List.Nodup.filterMap ?_ ((List.mergeSort_perm _ _).nodup_iff.mpr hdistinct)
  intro name name' i hname hname'
  obtain ⟨key, hkey, rfl⟩ := identifier?_eq_some hname
  obtain ⟨key', hkey', rfl⟩ := identifier?_eq_some hname'
  rw [Except.ok.inj (hkey.symm.trans hkey')]

end Listed

/-- What stands under a name that is short enough is what the folder's entries say. -/
theorem lookup_entry (hd : d.Regular) (hes : Disk.lookup d folder = .ok (.folder es))
    (hkey : Key.escape id = .ok key) (node : Disk.Node) :
    Disk.lookup d (folder.child (key ++ format.ending)) = .ok node ↔
      Disk.Entries.get? es (key ++ format.ending) = some node := by
  rw [Disk.lookup_child hes (fileName_ne hkey format.ending).1, Disk.find.eq_def]
  cases hget : Disk.Entries.get? es (key ++ format.ending) with
  | none =>
    simp only [hget]
    split <;> simp
  | some found =>
    have hshort := (hd.lookup hes).short (Disk.mem_names_iff.mpr ⟨found, hget⟩)
    simp only [hget, hshort, Bool.false_eq_true, if_false]
    cases found <;> simp [Disk.find]

/-- A document that is read has its file in the folder. -/
theorem file_of_read (hes : Disk.lookup d folder = .ok (.folder es)) {doc : Document}
    (hread : read format folder id d = .ok doc) : ∃ key content, Key.escape id = .ok key ∧
      Disk.Entries.isTooLong (key ++ format.ending) = false ∧
      es.get? (key ++ format.ending) = some (.file content) := by
  cases hkey : Key.escape id with
  | error e =>
    rw [read, filePath, hkey] at hread
    cases hread
  | ok key =>
    rw [read, filePath_eq hkey] at hread
    obtain ⟨t, htext, -⟩ := ok_of_bind (f := format.decode) hread
    rw [readText] at htext
    split at htext
    · next e _ =>
      split at htext <;> cases htext
    next content hcontent =>
    have hfind := Disk.readFile_ok_iff.mp hcontent
    rw [Disk.lookup_child hes (fileName_ne hkey format.ending).1, Disk.find.eq_def] at hfind
    simp only at hfind
    split at hfind
    · cases hfind
    next hshort =>
    refine ⟨key, content, rfl, Bool.eq_false_iff.mpr hshort, ?_⟩
    cases hget : es.get? (key ++ format.ending) with
    | none =>
      rw [hget] at hfind
      cases hfind
    | some node =>
      rw [hget] at hfind
      cases node with
      | file bytes => exact congrArg some (Except.ok.inj hfind)
      | folder inner => simp [Disk.find] at hfind

/-- Where the folder can be listed, each identifier is listed at most once, and listed are those whose
document is there and those for whose file there is a folder. Where it cannot be listed, no document is
there. -/
theorem index_agrees (format : Format) (folder : Disk.Path) {d : Disk} (hd : d.Regular) :
    (∀ ids, index format folder d = .ok ids → ids.Nodup ∧ ∀ id key, Key.escape id = .ok key →
      (id ∈ ids ↔ exist format folder id d = .ok true ∨
        Disk.isFolder d (folder.child (key ++ format.ending)) = true)) ∧
    ∀ e, index format folder d = .error e → ∀ id, exist format folder id d ≠ .ok true := by
  refine ⟨fun ids hindex => ?_, fun e hindex id hexist => ?_⟩
  · obtain ⟨es, hes⟩ := lookup_of_index hindex
    refine ⟨nodup_index hes hindex (hd.lookup hes).distinct, fun id key hkey => ?_⟩
    rw [mem_index_iff hes hindex hkey, exist_iff hkey, Disk.isFolder_iff, Disk.mem_names_iff]
    simp only [lookup_entry hd hes hkey]
    constructor
    · rintro ⟨_ | _, hnode⟩
      · exact .inl ⟨_, hnode⟩
      · exact .inr ⟨_, hnode⟩
    · rintro (⟨_, hnode⟩ | ⟨_, hnode⟩)
      · exact ⟨_, hnode⟩
      · exact ⟨_, hnode⟩
  · obtain ⟨es, hes⟩ := folder_of_exist hexist
    rw [index_eq hes] at hindex
    cases hindex

/-- A folder with a document, a folder that has the name of a document's file, and a file that is not the
store's. -/
def drawer : Disk :=
  [("b.json".toText, .folder []), ("bad name.json".toText, .file []),
    ("a.json".toText, .file [123, 125])]

theorem regular_drawer : drawer.Regular := by
  refine Disk.regular_of_get? (by decide) (by decide) fun name inner h => ?_
  simp only [drawer, Disk.Entries.get?] at h
  split at h
  · obtain rfl := Disk.Node.folder.inj (Option.some.inj h)
    exact Disk.regular_nil
  · split at h
    · cases h
    · split at h <;> cases h

theorem index_agrees_drawer : drawer.Regular ∧
    ∃ ids, index .json ⟨[]⟩ drawer = .ok ids ∧ ids.Nodup ∧ "a".toText ∈ ids ∧
      (exist .json ⟨[]⟩ "b".toText drawer = .ok false → "b".toText ∈ ids) ∧ "c".toText ∉ ids := by
  obtain ⟨hlisted, -⟩ := index_agrees .json ⟨[]⟩ regular_drawer
  have hindex : index .json ⟨[]⟩ drawer = .ok ["a".toText, "b".toText] := by
    rw [index_eq rfl]
    cbv
  obtain ⟨hnodup, hagrees⟩ := hlisted _ hindex
  refine ⟨regular_drawer, _, hindex, hnodup, ?_, fun _ => ?_, fun hmem => ?_⟩
  · exact (hagrees "a".toText "a".toText rfl).mpr (.inl rfl)
  · exact (hagrees "b".toText "b".toText rfl).mpr (.inr rfl)
  · rcases (hagrees "c".toText "c".toText rfl).mp hmem with h | h
    · exact absurd h (by decide)
    · exact absurd h (by decide)

/-- The folder is listed under the identifier of a document, and the document is not there. -/
theorem index_lists_folder : drawer.Regular ∧
    index .json ⟨[]⟩ drawer = .ok ["a".toText, "b".toText] ∧
    exist .json ⟨[]⟩ "b".toText drawer = .ok false := by
  refine ⟨regular_drawer, ?_, rfl⟩
  rw [index_eq rfl]
  cbv

end Folder

end Cabinet
