import Cabinet.Proofs.Collection.Snapshot
import Cabinet.Proofs.Text.Order

/-!
# Changing one document

* `Store.ReplacedAt`, `Store.ErasedAt` : two states of a store between which one document was
  replaced, or erased, and all others are as they were;
* `IsPlain.replacedAt`, `IsPlain.erasedAt` : what a write and an erasure do in memories and folders of
  JSON files.
-/

namespace Cabinet

variable {σ : Type}

/-- The document of an identifier was replaced: what is read is what the text of the new document
stands for. Other documents are read as before, and the same identifiers are listed. -/
structure Store.ReplacedAt (s : Store σ) (id : Text) (v : Value) (w w' : σ) : Prop where
  document : ∃ t, s.encode v = .ok t ∧ (s.read id w').1 = s.decode t
  others : ∀ i, i ≠ id → (s.read i w').1 = (s.read i w).1
  index : (s.index w').1 = (s.index w).1

/-- The document of an identifier was erased. Other documents are read as before, and the other
identifiers are listed in the same order. -/
structure Store.ErasedAt (s : Store σ) (id : Text) (w w' : σ) : Prop where
  document : (s.read id w').1 = .error (.notFound id)
  others : ∀ i, i ≠ id → (s.read i w').1 = (s.read i w).1
  index : (s.index w').1 = (s.index w).1.map (List.filter (· != id))

theorem IsPlain.replacedAt {s : Store σ} (hs : IsPlain s) {id : Text} {v : Value} {w w' : σ}
    {ids : List Text} (hindex : (s.index w).1 = .ok ids) (hid : id ∈ ids)
    (h : s.write id v w = (.ok (), w')) : s.ReplacedAt id v w w' := by
  obtain ⟨hindex', hdocument, hothers⟩ := hs.persists.write hindex hid h
  exact ⟨hdocument, hothers, hindex'.trans hindex.symm⟩

theorem Memory.erasedAt {id : Text} {m m' : Memory} (h : Memory.store.erase id m = (.ok (), m')) :
    Memory.store.ErasedAt id m m' := by
  simp only [Memory.store] at h
  split at h
  · cases h
  obtain rfl : m.remove id = m' := (Prod.mk.inj h).2
  refine ⟨?_, fun i hi => ?_, ?_⟩
  · simp only [Memory.store, get?_remove, if_true]
  · simp only [Memory.store, get?_remove, if_neg hi]
    split <;> rfl
  · exact congrArg Except.ok (Keyed.remove_keys m id)

/-- The names of files other than a document's are those that stand for other identifiers. -/
theorem Folder.filterMap_identifier? {format : Format} {id key : Text}
    (hkey : Key.escape id = .ok key) (names : List Text) :
    (names.filter (· != key ++ format.ending)).filterMap (identifier? format) =
      (names.filterMap (identifier? format)).filter (· != id) := by
  rw [List.filterMap_filter, List.filter_filterMap]
  refine List.filterMap_congr fun name _ => ?_
  by_cases hname : name = key ++ format.ending
  · rw [hname, identifier?_fileName hkey]
    simp [Option.filter]
  · cases hi : identifier? format name with
    | none => simp
    | some i =>
      have hne : i ≠ id := by
        rintro rfl
        obtain ⟨key', hkey', hname'⟩ := identifier?_eq_some hi
        obtain rfl := Except.ok.inj (hkey.symm.trans hkey')
        exact hname hname'
      simp [hname, hne, Option.filter]

theorem Folder.erasedAt_json {folder : Disk.Path} {id : Text} {d d' : Disk} {ids : List Text}
    (hindex : ((Folder.store .json folder).index d).1 = .ok ids)
    (h : (Folder.store .json folder).erase id d = (.ok (), d')) :
    (Folder.store .json folder).ErasedAt id d d' := by
  obtain ⟨es, hes⟩ := lookup_of_index hindex
  obtain ⟨key, hkey, hlong, hes'⟩ := erase_ok hes h
  refine ⟨?_, fun i hi => ?_, ?_⟩
  · refine read_missing hes' hkey hlong ?_
    rw [Disk.Entries.get?_remove, if_pos rfl]
  · refine read_congr hes' hes i fun key' hkey' => ?_
    rw [Disk.Entries.get?_remove, if_neg fun hname => hi ?_]
    exact Key.escape_injective hkey' (List.append_cancel_right hname ▸ hkey)
  · have hnames : (es.remove (key ++ Format.json.ending)).names =
        es.names.filter (· != key ++ Format.json.ending) :=
      Keyed.remove_keys es _
    change index .json folder d' = (index .json folder d).map _
    rw [index_eq hes', index_eq hes, hnames, Text.sort_filter, filterMap_identifier? hkey]
    rfl

theorem IsPlain.erasedAt {s : Store σ} (hs : IsPlain s) {id : Text} {w w' : σ} {ids : List Text}
    (hindex : (s.index w).1 = .ok ids) (h : s.erase id w = (.ok (), w')) : s.ErasedAt id w w' := by
  cases hs with
  | memory => exact Memory.erasedAt h
  | json folder => exact Folder.erasedAt_json hindex h

end Cabinet
