import Cabinet.Command.Shell
import Cabinet.Proofs.Store.Listing
import Cabinet.Proofs.Yaml.Misread

/-!
# Files that hold no document

The contract of a store is that reading gives a document, or finds none, or fails by a failure of the store.

* `Failure.IsDocumented` : the failures that the contract has;
* `Folder.read_other` : reading keeps to it whatever stands in the place of a file;
* `Format.failsOnly_decode` : and so does decoding, except for a scalar of YAML that is misread;
* `Folder.read_documented_iff` : so it is kept to unless a file is not in UTF-8, or is YAML with something
  misread, and by that the reading then fails;
* `Folder.read_outside_contract` : both do happen.
-/

namespace Cabinet

/-- The failures of reading a document that the contract of stores has. -/
def Failure.IsDocumented (id : Text) (e : Failure) : Prop := e = .notFound id ∨ e.family = .storage

theorem Yaml.Misread.family_ne_storage (m : Misread) : m.family ≠ .storage := by
  cases m with
  | codePoint n =>
    rw [Misread.family]
    split <;> nofun
  | _ => nofun

/-- Stored text fails as a failure of the store, but for a misread scalar. -/
theorem Format.failsOnly_decode {format : Format} (h : format ∈ Format.all) (kept : Text) :
    FailsOnly (fun e => e.family = .storage ∨
      format = .yaml ∧ ∃ m, e = .misread m ∧ Yaml.parse kept = .error (.misread m))
      (format.decode kept) := by
  obtain rfl | rfl := Format.cases_all h
  · change FailsOnly _ (Store.decodeJson _ _)
    rw [Store.decodeJson]
    split
    · exact failsOnly_error (.inl rfl)
    · exact failsOnly_ok _
    · exact failsOnly_error (.inl rfl)
  · rw [Format.yaml]
    dsimp only
    split
    · exact failsOnly_error (.inl rfl)
    · next m hm => exact failsOnly_error (.inr ⟨rfl, m, rfl, hm⟩)
    · exact failsOnly_ok _
    · exact failsOnly_error (.inl rfl)

namespace Folder

variable {format : Format} {folder : Disk.Path} {d : Disk} {id key : Text}

theorem read_content (hkey : Key.escape id = .ok key) {bytes : List UInt8}
    (hfile : Disk.lookup d (folder.child (key ++ format.ending)) = .ok (.file bytes)) :
    read format folder id d = match Text.ofUtf8 bytes with
      | .error e => .error (.malformedBytes e)
      | .ok t => format.decode t.withLineFeeds := by
  have hread := Disk.readFile_ok_iff.mpr hfile
  rw [read, filePath_eq hkey]
  change (readText _ _ _ _ >>= _) = _
  rw [readText, hread]
  dsimp only
  cases Text.ofUtf8 bytes <;> rfl

theorem read_other (hkey : Key.escape id = .ok key)
    (hfile : ∀ bytes, Disk.lookup d (folder.child (key ++ format.ending)) ≠ .ok (.file bytes)) :
    FailsOnly (Failure.IsDocumented id) (read format folder id d) := by
  rw [read, filePath_eq hkey]
  change FailsOnly _ (readText _ _ _ _ >>= _)
  rw [readText]
  cases hread : Disk.readFile d (folder.child (key ++ format.ending)) with
  | ok bytes => exact absurd (Disk.readFile_ok_iff.mp hread) (hfile bytes)
  | error e =>
    dsimp only
    split
    · exact failsOnly_error (.inl rfl)
    · exact failsOnly_error (.inr rfl)

/-- The ways in which reading fails outside of the contract. -/
theorem read_undocumented (hformat : format ∈ Format.all) (hkey : Key.escape id = .ok key) {e : Failure}
    (he : read format folder id d = .error e) (hne : ¬ e.IsDocumented id) :
    ∃ bytes, Disk.lookup d (folder.child (key ++ format.ending)) = .ok (.file bytes) ∧
      ((∃ flaw, e = .malformedBytes flaw ∧ Text.ofUtf8 bytes = .error flaw) ∨
      format = .yaml ∧ ∃ t m, e = .misread m ∧ Text.ofUtf8 bytes = .ok t ∧
        Yaml.parse t.withLineFeeds = .error (.misread m)) := by
  by_cases hfile : ∃ bytes, Disk.lookup d (folder.child (key ++ format.ending)) = .ok (.file bytes)
  · obtain ⟨bytes, hbytes⟩ := hfile
    refine ⟨bytes, hbytes, ?_⟩
    rw [read_content hkey hbytes] at he
    cases htext : Text.ofUtf8 bytes with
    | error flaw =>
      rw [htext] at he
      exact .inl ⟨flaw, (Except.error.inj he).symm, rfl⟩
    | ok t =>
      rw [htext] at he
      obtain hstorage | ⟨hyaml, m, hm, hparse⟩ := Format.failsOnly_decode hformat _ e he
      · exact absurd (.inr hstorage) hne
      · exact .inr ⟨hyaml, t, m, hm, rfl, hparse⟩
  · exact absurd (read_other hkey (not_exists.mp hfile) e he) hne

/-- Reading keeps to the contract unless what stands in the file's place is a file that is not in UTF-8, or
is YAML with something misread. It then fails by the bytes, or by what is misread: an escape for a number
that no code point has, or a scalar in the text. -/
theorem read_documented_iff (hformat : format ∈ Format.all) (folder : Disk.Path)
    (hkey : Key.escape id = .ok key) (d : Disk) :
    (FailsOnly (Failure.IsDocumented id) (read format folder id d) ↔
      ∀ bytes, Disk.lookup d (folder.child (key ++ format.ending)) = .ok (.file bytes) →
        bytes.toByteArray.IsValidUTF8 ∧ (format = .yaml → ∀ t m, Text.ofUtf8 bytes = .ok t →
          Yaml.parse t.withLineFeeds ≠ .error (.misread m))) ∧
    ∀ e, read format folder id d = .error e → ¬ e.IsDocumented id →
      (∃ flaw, e = .malformedBytes flaw) ∨ format = .yaml ∧ ∃ m, e = .misread m ∧
        ∃ bytes t, Disk.lookup d (folder.child (key ++ format.ending)) = .ok (.file bytes) ∧
          Text.ofUtf8 bytes = .ok t ∧ Yaml.Misreads t.withLineFeeds m := by
  refine ⟨⟨fun hread bytes hbytes => ⟨?_, ?_⟩, fun h e he => ?_⟩, fun e he hne => ?_⟩
  · rw [← Text.ofUtf8_ok_iff]
    cases htext : Text.ofUtf8 bytes with
    | ok t => exact ⟨t, rfl⟩
    | error flaw =>
      have hfails : read format folder id d = .error (.malformedBytes flaw) := by
        rw [read_content hkey hbytes, htext]
      rcases hread _ hfails with h | h <;> cases h
  · rintro rfl t m htext hparse
    have hfails := read_content hkey hbytes
    rw [htext] at hfails
    have hmisread : Format.yaml.decode t.withLineFeeds = .error (.misread m) := by
      rw [Format.yaml]
      dsimp only
      rw [hparse]
    rcases hread _ (hfails.trans hmisread) with h | h
    · cases h
    · exact absurd h m.family_ne_storage
  · by_contra hne
    obtain ⟨bytes, hbytes, ⟨flaw, -, htext⟩ | ⟨hyaml, t, m, -, htext, hparse⟩⟩ :=
      read_undocumented hformat hkey he hne
    · obtain ⟨t, ht⟩ := Text.ofUtf8_ok_iff.mpr (h bytes hbytes).1
      cases htext.symm.trans ht
    · exact (h bytes hbytes).2 hyaml t m htext hparse
  · obtain ⟨bytes, hbytes, ⟨flaw, hflaw, -⟩ | ⟨hyaml, t, m, hm, htext, hparse⟩⟩ :=
      read_undocumented hformat hkey he hne
    · exact .inl ⟨flaw, hflaw⟩
    · exact .inr ⟨hyaml, m, hm, bytes, t, hbytes, htext, Yaml.parse_misread hparse⟩

/-- A folder with a file that is not in UTF-8, one with a day that is none, and one that is no JSON. -/
def attic : Disk :=
  [("a.json".toText, .file [255]),
    ("b.yaml".toText, .file ("d: 2020-02-30".toList.map fun c => c.toNat.toUInt8)),
    ("c.json".toText, .file [63])]

theorem parse_noDay :
    Yaml.parse "d: 2020-02-30".toText.withLineFeeds = .error (.misread (.calendar .day)) := by
  decide +kernel

theorem json_ne_yaml : Format.json ≠ Format.yaml :=
  fun h => absurd (congrArg Format.name h) (by decide)

theorem read_documented_iff_attic :
    FailsOnly (Failure.IsDocumented "c".toText) (read .json ⟨[]⟩ "c".toText attic) ∧
      ¬ FailsOnly (Failure.IsDocumented "b".toText) (read .yaml ⟨[]⟩ "b".toText attic) := by
  have hjson : Format.json ∈ Format.all := .head _
  have hyaml : Format.yaml ∈ Format.all := .tail _ (.head _)
  have hc : Key.escape "c".toText = .ok "c".toText := rfl
  have hb : Key.escape "b".toText = .ok "b".toText := rfl
  constructor
  · refine (read_documented_iff hjson ⟨[]⟩ hc attic).1.mpr
      fun bytes hbytes => ⟨?_, fun h => absurd h json_ne_yaml⟩
    have hmark : [63] = bytes := Disk.Node.file.inj (Except.ok.inj hbytes)
    have htext : Text.ofUtf8 [63] = .ok "?".toText := rfl
    exact hmark ▸ Text.ofUtf8_ok_iff.mp ⟨_, htext⟩
  · intro hread
    have hlegible := (read_documented_iff hyaml ⟨[]⟩ hb attic).1.mp hread _ rfl
    exact hlegible.2 rfl _ _ (by decide +kernel) parse_noDay

/-- Bytes that are not in UTF-8, and a day that is none, make reading fail outside of the contract. -/
theorem read_outside_contract :
    (read .json ⟨[]⟩ "a".toText attic = .error (.malformedBytes ⟨255, 0, 1, .start⟩) ∧
      ¬ FailsOnly (Failure.IsDocumented "a".toText) (read .json ⟨[]⟩ "a".toText attic)) ∧
    read .yaml ⟨[]⟩ "b".toText attic = .error (.misread (.calendar .day)) ∧
      ¬ FailsOnly (Failure.IsDocumented "b".toText) (read .yaml ⟨[]⟩ "b".toText attic) := by
  have hbytes : read .json ⟨[]⟩ "a".toText attic = .error (.malformedBytes ⟨255, 0, 1, .start⟩) := rfl
  have hday : read .yaml ⟨[]⟩ "b".toText attic = .error (.misread (.calendar .day)) := by
    decide +kernel
  refine ⟨⟨hbytes, fun h => ?_⟩, hday, fun h => ?_⟩
  · rcases h _ hbytes with h | h <;> cases h
  · rcases h _ hday with h | h <;> cases h

end Folder

end Cabinet
