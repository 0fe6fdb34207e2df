import Cabinet.Proofs.Store.Ensures
import Cabinet.Proofs.Store.Folder

/-!
# Disks as a system keeps them

In a folder no two entries have one name, and no name is longer than the system takes.

* `Disk.Regular` : this is so in all folders of a disk;
* `Regular.put`, `Regular.remove`, `Regular.within` : a change of an entry, and of a folder somewhere on
  the disk, keeps it so;
* `Regular.makeSteps`, `Regular.putFile`, `Regular.removeTree` : so do the changes that a disk can
  undergo;
* `Folder.upholds_regular`, `Folder.openFolder_regular` : and so does everything that a store in a folder
  is asked for.
-/

namespace Cabinet

namespace Disk

/-- The entries of each folder have different names, which are short enough. -/
def Regular (d : Disk) : Prop :=
  ∀ (steps : List Text) (es : Entries), find d steps = .ok (.folder es) →
    es.names.Nodup ∧ ∀ name ∈ es.names, Entries.isTooLong name = false

section
variable {es es' d d' : Entries} {name : Text}

theorem get?_eq_none : es.get? name = none ↔ name ∉ es.names := by
  rw [Entries.get?_eq, Entries.names]
  exact Keyed.get?_eq_none

theorem mem_names_iff : name ∈ es.names ↔ ∃ node, es.get? name = some node := by
  rw [← not_iff_not, ← get?_eq_none, ← Option.isSome_iff_exists, Option.not_isSome_iff_eq_none]

theorem Regular.distinct (h : Regular es) : es.names.Nodup := (h [] es rfl).1

theorem Regular.short (h : Regular es) (hname : name ∈ es.names) :
    Entries.isTooLong name = false :=
  (h [] es rfl).2 name hname

/-- A folder of a regular disk is a regular disk itself. -/
theorem Regular.found (h : Regular d) {steps : List Text}
    (hfind : find d steps = .ok (.folder es)) : Regular es := by
  intro more inner hmore
  rw [← find_append hfind more] at hmore
  exact h _ _ hmore

theorem Regular.get? (h : Regular es) {inner : Entries}
    (hget : es.get? name = some (.folder inner)) : Regular inner := by
  have hname : Entries.isTooLong name = false := h.short (mem_names_iff.mpr ⟨_, hget⟩)
  exact h.found ((find_cons hname hget []).trans rfl)

theorem Regular.lookup (h : Regular d) {p : Path} (hp : lookup d p = .ok (.folder es)) :
    Regular es := by
  obtain ⟨steps, -, hfind⟩ := lookup_ok hp
  exact h.found hfind

/-- What is regular in itself and in its folders is regular. -/
theorem regular_of_get? (hdistinct : es.names.Nodup)
    (hshort : ∀ name ∈ es.names, Entries.isTooLong name = false)
    (hinner : ∀ name inner, es.get? name = some (.folder inner) → Regular inner) : Regular es := by
  intro steps found hfound
  cases steps with
  | nil =>
    obtain rfl : es = found := by simpa [find] using hfound
    exact ⟨hdistinct, hshort⟩
  | cons name more =>
    obtain ⟨-, inner, hget, hmore⟩ := find_cons_folder hfound
    exact hinner name inner hget more found hmore

theorem regular_nil : Regular [] :=
  regular_of_get? List.nodup_nil (fun _ h => absurd h List.not_mem_nil) fun _ _ h => nomatch h

/-! ## Changes of a folder -/

theorem Regular.put (h : Regular es) (hname : Entries.isTooLong name = false) {node : Node}
    (hnode : ∀ inner, node = .folder inner → Regular inner) : Regular (es.put name node) := by
  refine regular_of_get? ?_ (fun n hn => ?_) fun n inner hn => ?_
  · rw [Entries.names, Entries.put_eq]
    exact Keyed.nodup_put h.distinct name node
  · rw [Entries.names, Entries.put_eq] at hn
    obtain rfl | hn := (Keyed.mem_put_keys es name n node).mp hn
    · exact hname
    · exact h.short hn
  · rw [Entries.get?_put] at hn
    split at hn
    · exact hnode inner (Option.some.inj hn)
    · exact h.get? hn

theorem regular_file {content : List UInt8} : ∀ inner, Node.file content = .folder inner → Regular inner :=
  fun _ h => nomatch h

theorem Regular.remove (h : Regular es) (name : Text) : Regular (es.remove name) := by
  have hnames : (es.remove name).names = es.names.filter (· != name) := Keyed.remove_keys es name
  refine regular_of_get? ?_ (fun n hn => ?_) fun n inner hn => ?_
  · rw [hnames]
    exact h.distinct.filter _
  · rw [hnames] at hn
    exact h.short (List.mem_filter.mp hn).1
  · rw [Entries.get?_remove] at hn
    split at hn
    · cases hn
    · exact h.get? hn

/-- By induction on the way to the folder: each folder on it gets one entry changed. -/
theorem Regular.within {f : Entries → Except Cause Entries}
    (hf : ∀ es es', Regular es → f es = .ok es' → Regular es') : ∀ {d d' : Disk} {steps : List Text},
    Regular d → within f d steps = .ok d' → Regular d'
  | d, d', [], h, hwithin => hf d d' h hwithin
  | d, d', name :: rest, h, hwithin => by
    rw [Disk.within] at hwithin
    split at hwithin
    · cases hwithin
    next hname =>
    split at hwithin
    · cases hwithin
    · cases hwithin
    · next inner hget =>
      obtain ⟨inner', hinner, hput⟩ := ok_of_bind hwithin
      obtain rfl := Except.ok.inj hput
      have hregular := Regular.within hf (h.get? hget) hinner
      exact h.put (Bool.eq_false_iff.mpr hname) fun _ heq => Node.folder.inj heq ▸ hregular

theorem Regular.change {f : Entries → Except Cause Entries}
    (hf : ∀ es es', Regular es → f es = .ok es' → Regular es') (h : Regular d) {p : Path}
    (hchange : change f d p = .ok d') : Regular d' := by
  obtain ⟨steps, -, hwithin⟩ := ok_of_bind hchange
  exact Regular.within hf h hwithin

/-! ## Changes of a disk -/

theorem Regular.putEntry {content : List UInt8} (h : Regular es)
    (hput : putEntry name content es = .ok es') : Regular es' := by
  rw [Disk.putEntry] at hput
  split at hput
  · cases hput
  next hname =>
  split at hput
  · cases hput
  · obtain rfl := Except.ok.inj hput
    exact h.put (Bool.eq_false_iff.mpr hname) regular_file

theorem Regular.removeEntry (h : Regular es) (hremove : removeEntry name es = .ok es') :
    Regular es' := by
  obtain ⟨-, -, -, rfl⟩ := removeEntry_ok hremove
  exact h.remove name

theorem Regular.makeFoldersAt : ∀ {es es' : Entries} {steps : List Text}, Regular es →
    makeFoldersAt es steps = .ok es' → Regular es'
  | es, es', [], h, hmake => by
    obtain rfl : es = es' := by simpa [Disk.makeFoldersAt] using hmake
    exact h
  | es, _, name :: rest, h, hmake => by
    obtain ⟨hname, first, inner, hfirst, hinner, rfl⟩ := makeFoldersAt_cons hmake
    have hold : Regular first := by
      obtain hget | ⟨-, rfl⟩ := hfirst
      · exact h.get? hget
      · exact regular_nil
    have hregular := Regular.makeFoldersAt hold hinner
    exact h.put hname fun _ heq => Node.folder.inj heq ▸ hregular

theorem Regular.makeSteps : ∀ {d d' : Disk} {taken steps : List Text}, Regular d →
    makeSteps d taken steps = .ok d' → Regular d'
  | d, d', taken, [], h, hmake => h.makeFoldersAt (by rwa [Disk.makeSteps] at hmake)
  | d, d', taken, s :: rest, h, hmake => by
    rw [Disk.makeSteps] at hmake
    split at hmake
    · obtain ⟨d₁, hfirst, hmake⟩ := ok_of_bind hmake
      exact Regular.makeSteps (h.makeFoldersAt hfirst) hmake
    · exact Regular.makeSteps h hmake

theorem Regular.putFile (h : Regular d) {p : Path} {content : List UInt8}
    (hput : putFile d p content = .ok d') : Regular d' :=
  h.change (fun _ _ h => h.putEntry) (ok_of_mapError hput)

theorem Regular.removeTree (h : Regular d) {p : Path} (hremove : removeTree d p = .ok d') :
    Regular d' :=
  h.change (fun _ _ h hes => Except.ok.inj hes ▸ h.remove _) (ok_of_mapError hremove)

end

end Disk

namespace Folder
open Disk (Regular)

variable (format : Format) (folder : Disk.Path)

theorem write_regular (id : Text) (v : Value) :
    Action.Ensures Regular (write format folder id v) fun _ => True := by
  refine Action.ensures_of_state fun d h => ?_
  by_cases hfolder : ∃ es, Disk.lookup d folder = .ok (.folder es)
  · obtain ⟨es, hes⟩ := hfolder
    obtain ⟨e, he⟩ | ⟨key, t, bytes, hkey, ht, hbytes⟩ := write_ready format folder id v
    · rw [he]
      exact h
    rw [write_eq hes hkey ht hbytes]
    split
    · exact h
    next hname =>
    split
    · exact h
    · -- The entry that is put into the folder is a file with a name that is short enough.
      have hput : Regular (Disk.Entries.put es (key ++ format.ending) (.file bytes)) :=
        (h.lookup hes).put (Bool.eq_false_iff.mpr hname) Disk.regular_file
      cases hchange : Disk.change (fun _ => .ok (Disk.Entries.put es (key ++ format.ending)
          (.file bytes))) d folder with
      | error cause => exact h
      | ok d' => exact h.change (fun _ _ _ hes => Except.ok.inj hes ▸ hput) hchange
  · rw [write]
    split
    · exact h
    · exact h
    · split
      · exact h
      · exact h
      · next es hes => exact absurd ⟨es, hes⟩ hfolder

theorem erase_regular (id : Text) :
    Action.Ensures Regular (erase format folder id) fun _ => True := by
  refine Action.ensures_of_state fun d h => ?_
  cases hkey : Key.escape id with
  | error e =>
    rw [erase, filePath, hkey]
    exact h
  | ok key =>
    rw [erase_eq hkey]
    cases hchange : Disk.change (Disk.removeEntry (key ++ format.ending)) d folder with
    | ok d' => exact h.change (fun _ _ h => h.removeEntry) hchange
    | error cause =>
      simp only
      split <;> exact h

/-- Whatever a store in a folder is asked for, the disk stays regular. -/
theorem upholds_regular : (store format folder).Upholds Regular fun _ => True where
  index := Action.ensures_of_state fun _ h => h
  read _ := Action.ensures_of_state fun _ h => h
  exist _ := Action.ensures_of_state fun _ h => h
  write id v _ := write_regular format folder id v
  erase id := erase_regular format folder id

theorem openFolder_regular (create : Bool) :
    Action.Ensures Regular (openFolder create folder) fun _ => True := by
  refine Action.ensures_of_state fun d h => ?_
  rw [openFolder]
  split
  · cases hmake : Disk.makeFolders d folder with
    | error e => exact h
    | ok d' => exact h.makeSteps (ok_of_mapError hmake)
  · split <;> exact h

end Folder

end Cabinet
