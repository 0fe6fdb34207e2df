import Cabinet.Proofs.Store.Disk
import Cabinet.Proofs.Store.Key
import Cabinet.Store.Folder

/-!
# A store in a folder

What the store does, in terms of the entries of its folder.

* `Folder.fileName` : the name of an identifier's file; `Folder.identifier?_eq_some` and
  `Folder.identifier?_fileName` say that the identifier can be read off it;
* `Folder.index_eq`, `Folder.exist_eq`, `Folder.read_congr`, `Folder.read_file`,
  `Folder.read_missing` : what is listed, found and read;
* `Folder.write_eq`, `Folder.erase_eq` : a write and an erasure, in terms of the folder's entries;
  `Folder.write_ready` says what a write needs;
* `Folder.write_file`, `Folder.write_ok` : what a write leaves behind;
* `Folder.erase_file`, `Folder.erase_ok`, `Folder.erase_missing` : what an erasure leaves behind.
-/

namespace Cabinet

theorem Format.cases_all {format : Format} (h : format ∈ Format.all) : format = .json ∨ format = .yaml := by
  simpa [Format.all] using h

namespace Folder

variable {format : Format} {folder : Disk.Path} {d d' : Disk} {es es' : Disk.Entries}

/-! ## File names -/

/-- The name of an identifier's file. -/
def fileName (format : Format) (id : Text) : Text :=
  (Key.escape id).toOption.getD [] ++ format.ending

theorem fileName_eq {id key : Text} (h : Key.escape id = .ok key) :
    fileName format id = key ++ format.ending := by
  rw [fileName, h]
  rfl

theorem filePath_eq {id key : Text} (h : Key.escape id = .ok key) :
    filePath format folder id = .ok (folder.child (key ++ format.ending)) := by
  rw [filePath, h]
  rfl

/-- No file of the store has the name of a temporary file, or leads back. -/
theorem fileName_ne {id key : Text} (h : Key.escape id = .ok key) (ending : Text) :
    key ++ ending ≠ Disk.Path.back ∧
      Text.startsWith (key ++ ending) Disk.temporaryMark = false := by
  obtain ⟨p, rest, rfl, hp⟩ := Key.escape_head h
  refine ⟨fun hback => hp (List.cons.inj hback).1, ?_⟩
  exact Text.startsWith_eq_false _ _ hp

theorem identifier?_eq_some {name id : Text} (h : identifier? format name = some id) :
    ∃ key, Key.escape id = .ok key ∧ name = key ++ format.ending := by
  rw [identifier?] at h
  split at h
  · next hname =>
    obtain ⟨rest, hrest⟩ := Option.isSome_iff_exists.mp (Bool.and_eq_true_iff.mp hname).1
    have hsplit : name = rest.reverse ++ format.ending := by
      have hreverse := Text.dropLead?_eq_some.mp hrest
      rw [← List.reverse_reverse name, hreverse, List.reverse_append, List.reverse_reverse]
    have htake : name.take (name.length - format.ending.length) = rest.reverse := by
      rw [hsplit, List.length_append, Nat.add_sub_cancel, List.take_left]
    rw [htake] at h
    cases hunescape : Key.unescape rest.reverse with
    | error e => rw [hunescape] at h; cases h
    | ok id' =>
      rw [hunescape] at h
      obtain rfl : id' = id := Option.some.inj h
      exact ⟨rest.reverse, Key.escape_of_unescape hunescape, hsplit⟩
  · cases h

theorem identifier?_fileName {id key : Text} (h : Key.escape id = .ok key) :
    identifier? format (key ++ format.ending) = some id := by
  have htake : (key ++ format.ending).take ((key ++ format.ending).length - format.ending.length) =
      key := by
    rw [List.length_append, Nat.add_sub_cancel, List.take_left]
  rw [identifier?, Text.endsWith_append, (fileName_ne h format.ending).2, htake, Key.unescape_of_escape h]
  rfl

/-! ## Reading -/

theorem index_eq (h : Disk.lookup d folder = .ok (.folder es)) :
    index format folder d =
      .ok ((Text.sort (Disk.Entries.names es)).filterMap (identifier? format)) := by
  rw [index, Disk.list, h]
  rfl

/-- A folder that can be listed is there. -/
theorem lookup_of_index {ids : List Text} (h : index format folder d = .ok ids) :
    ∃ es : Disk.Entries, Disk.lookup d folder = .ok (.folder es) := by
  rw [index, Disk.list] at h
  cases hlookup : Disk.lookup d folder with
  | error cause => rw [hlookup] at h; cases h
  | ok node =>
    rw [hlookup] at h
    cases node with
    | file content => cases h
    | folder es => exact ⟨es, rfl⟩

/-- What is read depends on one entry of the folder. -/
theorem read_congr (h : Disk.lookup d folder = .ok (.folder es))
    (h' : Disk.lookup d' folder = .ok (.folder es')) (id : Text)
    (hsame : ∀ key, Key.escape id = .ok key →
      es.get? (key ++ format.ending) = es'.get? (key ++ format.ending)) :
    read format folder id d = read format folder id d' := by
  cases hkey : Key.escape id with
  | error e => rw [read, read, filePath, hkey]; rfl
  | ok key =>
    have hfind : Disk.find es [key ++ format.ending] = Disk.find es' [key ++ format.ending] :=
      Disk.find_congr (hsame key hkey)
    have htext : readText format (folder.child (key ++ format.ending)) id d =
        readText format (folder.child (key ++ format.ending)) id d' := by
      have hback := (fileName_ne hkey format.ending).1
      rw [readText, readText, Disk.readFile, Disk.readFile, Disk.lookup_child h hback,
        Disk.lookup_child h' hback, hfind]
    rw [read, read, filePath, hkey]
    exact congrArg (fun r => Except.bind r format.decode) htext

/-- A file that holds a text is read as that text. -/
theorem read_file (h : Disk.lookup d folder = .ok (.folder es)) {id key t : Text}
    {bytes : List UInt8} (hkey : Key.escape id = .ok key)
    (hlong : Disk.Entries.isTooLong (key ++ format.ending) = false)
    (hfile : es.get? (key ++ format.ending) = some (.file bytes)) (hbytes : t.toUtf8 = .ok bytes) :
    read format folder id d = format.decode t.withLineFeeds := by
  have hfind : Disk.find es [key ++ format.ending] = .ok (.file bytes) := by
    rw [Disk.find.eq_def]
    simp only [hlong, hfile, Bool.false_eq_true, if_false]
  have htext : readText format (folder.child (key ++ format.ending)) id d = .ok t.withLineFeeds := by
    rw [readText, Disk.readFile, Disk.lookup_child h (fileName_ne hkey format.ending).1, hfind]
    simp only [Disk.located, bind, Except.bind, pure, Except.pure, Except.mapError,
      Text.ofUtf8_toUtf8 hbytes]
  rw [read, filePath, hkey]
  exact congrArg (fun r => Except.bind r format.decode) htext

theorem read_missing (h : Disk.lookup d folder = .ok (.folder es)) {id key : Text}
    (hkey : Key.escape id = .ok key)
    (hlong : Disk.Entries.isTooLong (key ++ format.ending) = false)
    (hnone : es.get? (key ++ format.ending) = none) :
    read format folder id d = .error (.notFound id) := by
  have hfind : Disk.find es [key ++ format.ending] = .error .missing := by
    rw [Disk.find.eq_def]
    simp only [hlong, hnone, Bool.false_eq_true, if_false]
  have htext : readText format (folder.child (key ++ format.ending)) id d =
      .error (.notFound id) := by
    rw [readText, Disk.readFile, Disk.lookup_child h (fileName_ne hkey format.ending).1, hfind]
    rfl
  rw [read, filePath, hkey]
  exact congrArg (fun r => Except.bind r format.decode) htext

theorem exist_eq (h : Disk.lookup d folder = .ok (.folder es)) {id key : Text}
    (hkey : Key.escape id = .ok key)
    (hlong : Disk.Entries.isTooLong (key ++ format.ending) = false) :
    exist format folder id d = .ok (match es.get? (key ++ format.ending) with
      | some (.file _) => true
      | _ => false) := by
  have hfile : Disk.isFile d (folder.child (key ++ format.ending)) =
      .ok (match es.get? (key ++ format.ending) with
        | some (.file _) => true
        | _ => false) := by
    rw [Disk.isFile, Disk.lookup_child h (fileName_ne hkey format.ending).1, Disk.find.eq_def]
    simp only [hlong, Bool.false_eq_true, if_false]
    cases es.get? (key ++ format.ending) with
    | none => rfl
    | some node => cases node <;> rfl
  rw [exist, filePath, hkey]
  exact congrArg (Except.mapError Failure.system) hfile

/-! ## Writing -/

theorem splitLast_child (name : Text) : Disk.splitLast (folder.child name) = (folder, name) := by
  simp [Disk.splitLast, Disk.Path.child]

theorem bytesOf_ok {v : Value} {bytes : List UInt8} (h : bytesOf format v = .ok bytes) :
    ∃ t, format.encode v = .ok t ∧ t.toUtf8 = .ok bytes := by
  obtain ⟨t, ht, hbytes⟩ := ok_of_bind h
  cases hutf : t.toUtf8 with
  | error e =>
    rw [hutf] at hbytes
    cases hbytes
  | ok bytes' =>
    rw [hutf] at hbytes
    exact ⟨t, ht, hutf.trans (congrArg Except.ok (Except.ok.inj hbytes))⟩

/-- A write fails at once, whatever is on the disk, unless there is a key and a text to write. -/
theorem write_ready (format : Format) (folder : Disk.Path) (id : Text) (v : Value) :
    (∃ e, ∀ d, write format folder id v d = (.error e, d)) ∨
    ∃ key t bytes, Key.escape id = .ok key ∧ format.encode v = .ok t ∧ t.toUtf8 = .ok bytes := by
  cases hfile : filePath format folder id with
  | error e =>
    refine .inl ⟨e, fun d => ?_⟩
    rw [write, hfile]
  | ok file =>
    cases hbytes : bytesOf format v with
    | error e =>
      refine .inl ⟨e, fun d => ?_⟩
      rw [write, hfile, hbytes]
    | ok bytes =>
      obtain ⟨key, hkey, -⟩ := ok_of_bind hfile
      obtain ⟨t, ht, hbytes⟩ := bytesOf_ok hbytes
      exact .inr ⟨key, t, bytes, hkey, ht, hbytes⟩

/-- What the write of a name in the folder is refused. -/
abbrev writeRefused (format : Format) (folder : Disk.Path) (name : Text) (cause : Disk.Cause) :
    Except Failure Unit :=
  refused format .write (folder.child name) ⟨cause, (folder.child name).text⟩

/-- A write puts a file into an entry of the folder. It is refused if the name is too long or that of
a folder, and then the entries of the folder are put back. -/
theorem write_eq (h : Disk.lookup d folder = .ok (.folder es)) {id key t : Text} {v : Value}
    {bytes : List UInt8} (hkey : Key.escape id = .ok key) (ht : format.encode v = .ok t)
    (hbytes : t.toUtf8 = .ok bytes) :
    write format folder id v d =
      if Disk.Entries.isTooLong (key ++ format.ending) then
        (writeRefused format folder (key ++ format.ending) .nameTooLong, d)
      else match es.get? (key ++ format.ending) with
        | some (.folder _) => (writeRefused format folder (key ++ format.ending) .isFolder, d)
        | _ => (.ok (), (Disk.change (fun _ => .ok (es.put (key ++ format.ending) (.file bytes))) d
            folder).toOption.getD d) := by
  have hwritten : bytesOf format v = .ok bytes := by
    rw [bytesOf, ht]
    simp only [bind, Except.bind, hbytes]
    rfl
  rw [write, filePath_eq hkey, hwritten]
  simp only [h, splitLast_child, Disk.replaceEntry_eq (fileName_ne hkey format.ending).2]
  by_cases hlong : Disk.Entries.isTooLong (key ++ format.ending) = true
  · simp only [if_pos hlong, Disk.change_self h]
    rfl
  · simp only [if_neg hlong]
    cases es.get? (key ++ format.ending) with
    | none => rfl
    | some node =>
      cases node with
      | file content => rfl
      | folder inner =>
        simp only [Disk.change_self h]
        rfl

/-- A file is written in its entry of the folder, and nowhere else. -/
theorem write_file (h : Disk.lookup d folder = .ok (.folder es)) {id key t : Text} {v : Value}
    {bytes : List UInt8} (hkey : Key.escape id = .ok key) (ht : format.encode v = .ok t)
    (hbytes : t.toUtf8 = .ok bytes)
    (hlong : Disk.Entries.isTooLong (key ++ format.ending) = false)
    (hfile : ∀ inner, es.get? (key ++ format.ending) ≠ some (.folder inner)) :
    ∃ d', write format folder id v d = (.ok (), d') ∧
      Disk.lookup d' folder = .ok (.folder (es.put (key ++ format.ending) (.file bytes))) := by
  obtain ⟨d', hchange, hlookup⟩ := Disk.lookup_change (f := fun _ =>
      .ok (es.put (key ++ format.ending) (.file bytes))) h rfl (Disk.keepsFolders_put hfile bytes)
  refine ⟨d', ?_, hlookup⟩
  rw [write_eq h hkey ht hbytes, hchange, if_neg (Bool.eq_false_iff.mp hlong)]
  split
  · next inner hinner => exact absurd hinner (hfile inner)
  · rfl

/-- A write that succeeds puts the document's text into one entry of the folder. -/
theorem write_ok (h : Disk.lookup d folder = .ok (.folder es)) {id : Text} {v : Value}
    (hwrite : write format folder id v d = (.ok (), d')) :
    ∃ key t bytes, Key.escape id = .ok key ∧ format.encode v = .ok t ∧ t.toUtf8 = .ok bytes ∧
      Disk.Entries.isTooLong (key ++ format.ending) = false ∧
      Disk.lookup d' folder = .ok (.folder (es.put (key ++ format.ending) (.file bytes))) := by
  obtain ⟨e, he⟩ | ⟨key, t, bytes, hkey, ht, hbytes⟩ := write_ready format folder id v
  · rw [he] at hwrite
    cases hwrite
  have hrun := hwrite
  rw [write_eq h hkey ht hbytes] at hrun
  by_cases hlong : Disk.Entries.isTooLong (key ++ format.ending) = true
  · rw [if_pos hlong] at hrun
    cases hrun
  rw [if_neg hlong] at hrun
  split at hrun
  · cases hrun
  · next hfile =>
    have hlong := Bool.eq_false_iff.mpr hlong
    obtain ⟨d₁, hrun₁, hlookup⟩ := write_file h hkey ht hbytes hlong hfile
    obtain rfl : d₁ = d' := (Prod.mk.inj (hrun₁.symm.trans hwrite)).2
    exact ⟨key, t, bytes, hkey, ht, hbytes, hlong, hlookup⟩

/-! ## Erasing -/

theorem erase_eq {id key : Text} (hkey : Key.escape id = .ok key) :
    erase format folder id d =
      match Disk.change (Disk.removeEntry (key ++ format.ending)) d folder with
      | .ok d => (.ok (), d)
      | .error cause =>
        let file := folder.child (key ++ format.ending)
        if cause = .missing then (.error (.notFound id), d)
        else (refused format .erase file ⟨cause, file.text⟩, d) := by
  simp only [erase, filePath_eq hkey, Disk.removeFile, splitLast_child]
  cases Disk.change (Disk.removeEntry (key ++ format.ending)) d folder <;> rfl

theorem erase_file (h : Disk.lookup d folder = .ok (.folder es)) {id key : Text}
    {content : List UInt8} (hkey : Key.escape id = .ok key)
    (hlong : Disk.Entries.isTooLong (key ++ format.ending) = false)
    (hfile : es.get? (key ++ format.ending) = some (.file content)) :
    ∃ d', erase format folder id d = (.ok (), d') ∧
      Disk.lookup d' folder = .ok (.folder (es.remove (key ++ format.ending))) := by
  have hremove : Disk.removeEntry (key ++ format.ending) es =
      .ok (es.remove (key ++ format.ending)) := by
    rw [Disk.removeEntry, hlong, hfile]
    rfl
  obtain ⟨d', hchange, hlookup⟩ :=
    Disk.lookup_change h hremove (Disk.keepsFolders_removeEntry hremove)
  exact ⟨d', by rw [erase_eq hkey, hchange], hlookup⟩

/-- An erasure that succeeds takes a file out of the folder. -/
theorem erase_ok (h : Disk.lookup d folder = .ok (.folder es)) {id : Text}
    (herase : erase format folder id d = (.ok (), d')) :
    ∃ key, Key.escape id = .ok key ∧ Disk.Entries.isTooLong (key ++ format.ending) = false ∧
      Disk.lookup d' folder = .ok (.folder (es.remove (key ++ format.ending))) := by
  cases hkey : Key.escape id with
  | error e =>
    rw [erase, filePath, hkey] at herase
    cases herase
  | ok key =>
    cases hremove : Disk.removeEntry (key ++ format.ending) es with
    | error cause =>
      rw [erase_eq hkey, Disk.change_error h hremove] at herase
      simp only at herase
      split at herase <;> cases herase
    | ok es' =>
      obtain ⟨hlong, content, hcontent, -⟩ := Disk.removeEntry_ok hremove
      obtain ⟨d₁, hrun₁, hlookup⟩ := erase_file h hkey hlong hcontent
      obtain rfl : d₁ = d' := (Prod.mk.inj (hrun₁.symm.trans herase)).2
      exact ⟨key, rfl, hlong, hlookup⟩

theorem erase_missing (h : Disk.lookup d folder = .ok (.folder es)) {id key : Text}
    (hkey : Key.escape id = .ok key)
    (hlong : Disk.Entries.isTooLong (key ++ format.ending) = false)
    (hnone : es.get? (key ++ format.ending) = none) :
    erase format folder id d = (.error (.notFound id), d) := by
  have hremove : Disk.removeEntry (key ++ format.ending) es = .error .missing := by
    rw [Disk.removeEntry, hlong, hnone]
    rfl
  rw [erase_eq hkey, Disk.change_error h hremove]
  rfl

end Folder

end Cabinet
