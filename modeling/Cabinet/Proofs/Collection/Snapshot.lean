import Cabinet.Proofs.Collection.Matching
import Cabinet.Proofs.Json.Lines
import Cabinet.Proofs.Store.Folder

/-!
# Updates act on a snapshot

An update changes what matched before it began, once each, and nothing else.

* `Store.WrittenAt` : two states of a store between which one document was written, and all others are
  as they were;
* `Memory.writtenAt`, `Folder.writtenAt_json` : what a write does in memories and folders of JSON files;
* `Persists` : a store in which a write to an identifier that is there changes what is read under it
  and nothing else, as it is in both;
* `Persists.leaves_write` : what writing an item leaves to be read;
* `update_snapshot` : what an update leaves to be read, in terms of what was read before.
-/

namespace Cabinet

variable {σ : Type}

/-- Asking the store changes nothing. A write to an identifier that is listed makes the document be
read that its text stands for; what else is read stays the same, and so do the identifiers. -/
structure Persists (s : Store σ) : Prop where
  index_same : ∀ w, (s.index w).2 = w
  read_same : ∀ id w, (s.read id w).2 = w
  write : ∀ {id v w w' ids}, (s.index w).1 = .ok ids → id ∈ ids → s.write id v w = (.ok (), w') →
    (s.index w').1 = .ok ids ∧
    (∃ t, s.encode v = .ok t ∧ (s.read id w').1 = s.decode t) ∧
    ∀ i, i ≠ id → (s.read i w').1 = (s.read i w).1

/-! ## Memories and folders -/

/-- The document of an identifier was written: what is read is what the text of the document stands for.
Other documents are read as before, and the identifier is listed besides those that were. -/
structure Store.WrittenAt (s : Store σ) (id : Text) (v : Value) (w w' : σ) : Prop where
  document : ∃ t, s.encode v = .ok t ∧ (s.read id w').1 = s.decode t
  others : ∀ i, i ≠ id → (s.read i w').1 = (s.read i w).1
  index : ∀ ids, (s.index w).1 = .ok ids → ∃ ids', (s.index w').1 = .ok ids' ∧
    (∀ i, i ∈ ids' ↔ i = id ∨ i ∈ ids) ∧ (id ∈ ids → ids' = ids)

theorem Store.WrittenAt.index_same {s : Store σ} {id : Text} {v : Value} {w w' : σ}
    (h : s.WrittenAt id v w w') {ids : List Text} (hindex : (s.index w).1 = .ok ids) (hid : id ∈ ids) :
    (s.index w').1 = .ok ids := by
  obtain ⟨ids', hindex', -, hsame⟩ := h.index ids hindex
  rw [hindex', hsame hid]

theorem Memory.writtenAt {id : Text} {v : Value} {m m' : Memory}
    (h : Memory.store.write id v m = (.ok (), m')) : Memory.store.WrittenAt id v m m' := by
  simp only [Memory.store] at h
  split at h
  · cases h
  next t ht =>
  obtain rfl : put m id t = m' := (Prod.mk.inj h).2
  refine ⟨⟨t, ht, ?_⟩, fun i hi => ?_, ?_⟩
  · simp only [Memory.store, get?_put, if_true]
  · simp only [Memory.store, get?_put, if_neg hi]
    split <;> rfl
  · rintro ids hids
    obtain rfl := Except.ok.inj hids
    refine ⟨_, rfl, fun i => ?_, fun hid => ?_⟩
    · rw [put_eq]
      exact Keyed.mem_put_keys m id i t
    · rw [put_eq]
      exact Keyed.put_keys hid t

theorem Format.json_encode_lines {v : Value} {t : Text} (h : Format.json.encode v = .ok t) :
    t.withLineFeeds = t :=
  Text.withLineFeeds_eq (Json.write_plain ⟨by decide, by decide⟩ (ok_of_mapError h))

/-- The file of an identifier has a name from which the identifier can be read, and no other name is. -/
theorem Folder.mem_identifiers {format : Format} {id key : Text} (hkey : Key.escape id = .ok key)
    {names names' : List Text} (h : ∀ n, n ∈ names' ↔ n = key ++ format.ending ∨ n ∈ names) (i : Text) :
    i ∈ names'.filterMap (identifier? format) ↔ i = id ∨ i ∈ names.filterMap (identifier? format) := by
  simp only [List.mem_filterMap, h, or_and_right, exists_or, exists_eq_left]
  rw [identifier?_fileName hkey, Option.some.injEq, eq_comm]

theorem Folder.writtenAt_json {folder : Disk.Path} {id : Text} {v : Value} {d d' : Disk} {ids : List Text}
    (hindex : ((Folder.store .json folder).index d).1 = .ok ids)
    (h : (Folder.store .json folder).write id v d = (.ok (), d')) :
    (Folder.store .json folder).WrittenAt id v d d' := by
  obtain ⟨es, hes⟩ := Folder.lookup_of_index hindex
  obtain ⟨key, t, bytes, hkey, ht, hbytes, hlong, hes'⟩ := Folder.write_ok hes h
  have hput := fun n => Disk.Entries.get?_put es (key ++ Format.json.ending) n (.file bytes)
  have hnames : (es.put (key ++ Format.json.ending) (.file bytes)).names =
      (Keyed.put es (key ++ Format.json.ending) (.file bytes)).map Prod.fst := by
    rw [Disk.Entries.names, Disk.Entries.put_eq]
  refine ⟨⟨t, ht, ?_⟩, fun i hi => ?_, fun ids hids => ?_⟩
  · change Folder.read .json folder id d' = _
    rw [Folder.read_file hes' hkey hlong ((hput _).trans (if_pos rfl)) hbytes,
      Format.json_encode_lines ht]
    rfl
  · refine Folder.read_congr hes' hes i fun key' hkey' => (hput _).trans (if_neg fun h => ?_)
    exact hi (Key.escape_injective hkey' (List.append_cancel_right h ▸ hkey))
  · obtain rfl := Except.ok.inj ((Folder.index_eq hes).symm.trans hids)
    refine ⟨_, Folder.index_eq hes', fun i => ?_, fun hid => ?_⟩
    · refine Folder.mem_identifiers hkey (fun n => ?_) i
      rw [Text.sort, Text.sort, List.mem_mergeSort, List.mem_mergeSort, hnames]
      exact Keyed.mem_put_keys es (key ++ Format.json.ending) n (.file bytes)
    · obtain ⟨name, hname, hid⟩ := List.mem_filterMap.mp hid
      obtain ⟨key', hkey', rfl⟩ := Folder.identifier?_eq_some hid
      obtain rfl := Except.ok.inj (hkey.symm.trans hkey')
      rw [hnames, Keyed.put_keys (List.mem_mergeSort.mp hname)]
      rfl

theorem Memory.persists : Persists Memory.store where
  index_same _ := rfl
  read_same id w := by
    simp only [Memory.store]
    split <;> rfl
  write {id v w w' ids} hindex hid hwrite := by
    have hwritten := Memory.writtenAt hwrite
    exact ⟨hwritten.index_same hindex hid, hwritten.document, hwritten.others⟩

theorem Folder.persists_json (folder : Disk.Path) : Persists (Folder.store .json folder) where
  index_same _ := rfl
  read_same _ _ := rfl
  write {id v d d' ids} hindex hid hwrite := by
    have hwritten := Folder.writtenAt_json hindex hwrite
    exact ⟨hwritten.index_same hindex hid, hwritten.document, hwritten.others⟩

/-! ## Updates -/

open Collection

variable {s : Store σ}

/-- Writing items leaves them to be read as what their texts stand for. -/
theorem Persists.leaves_write (hs : Persists s) (change : Option Transform) (ids : List Text) :
    Leaves (writeChanged s change) (fun x => x.id ∈ ids) (fun w => (s.index w).1 = .ok ids)
      (fun w id => (s.read id w).1)
      fun x r => ∃ v t, changed change x.document = .ok v ∧ s.encode v = .ok t ∧ r = s.decode t := by
  intro x w w' hx hw h
  obtain ⟨v, hv, hwrite⟩ := writeChanged_ok h
  obtain ⟨hindex, ⟨t, ht, hread⟩, hothers⟩ := hs.write hw hx hwrite
  refine ⟨hindex, s.decode t, ⟨v, t, hv, ht, rfl⟩, funext fun i => ?_⟩
  rw [replaced]
  split
  · next hi =>
    rw [hi]
    exact hread
  · next hi => exact hothers i hi

/-- A store in which everything is read answers without a change. -/
theorem Persists.answers (hs : Persists s) {w : σ} {ids : List Text} {doc : Text → Document}
    (hindex : (s.index w).1 = .ok ids) (hread : ∀ id ∈ ids, (s.read id w).1 = .ok (doc id))
    (failed : Failure → σ → Prop) : Answers s ⟨(· = w), (· = w), failed⟩ ids doc where
  index w' hw := by
    obtain rfl : w' = w := hw
    have hrun : s.index w' = (.ok ids, w') := Prod.ext hindex (hs.index_same w')
    rw [hrun]
    exact .ok rfl
  index_none w' hw e he := by
    rw [show w' = w from hw, hindex] at he
    cases he
  read id hid w' hw := by
    obtain rfl : w' = w := hw
    have hrun : s.read id w' = (.ok (doc id), w') := Prod.ext (hread id hid) (hs.read_same id w')
    rw [hrun]
    exact .ok rfl

/-- A store in memory, or of JSON files in a folder. -/
inductive IsPlain : {σ : Type} → Store σ → Prop where
  | memory : IsPlain Memory.store
  | json (folder : Disk.Path) : IsPlain (Folder.store .json folder)

theorem IsPlain.persists {s : Store σ} (h : IsPlain s) : Persists s := by
  cases h with
  | memory => exact Memory.persists
  | json folder => exact Folder.persists_json folder

/-- An update that succeeds counts the documents that matched before it began. Under each of their
identifiers the changed document is read, as its text stands for it; under every other identifier
the same is read as before, and the identifiers stay as they are. -/
theorem update_snapshot {c : Collection σ} (hc : IsPlain c.store) {condition : Given Predicate}
    {accepts : Predicate} (hcondition : Condition.compile condition = .ok accepts)
    {update : Given Transform} {change : Option Transform}
    (hupdate : Update.compile update = .ok change) {options : Value} {multi : Bool}
    (hmulti : option options "multi" true = .ok multi) {w w' : σ} {ids : List Text}
    {doc : Text → Document} (hindex : (c.store.index w).1 = .ok ids)
    (hread : ∀ id ∈ ids, (c.store.read id w).1 = .ok (doc id)) {n : Nat}
    (hrun : c.update condition update options w = (.ok n, w')) :
    n = (matching accepts multi ids doc).length ∧
    (∀ x ∈ matching accepts multi ids doc, ∃ v t, changed change x.document = .ok v ∧
      c.store.encode v = .ok t ∧ (c.store.read x.id w').1 = c.store.decode t) ∧
    (∀ id, id ∉ (matching accepts multi ids doc).map Item.id →
      (c.store.read id w').1 = (c.store.read id w).1) ∧
    (c.store.index w').1 = .ok ids := by
  have hs := hc.persists
  rw [update_eq c condition hupdate, hmulti, bulk, Action.bind_apply, Action.ofExcept_apply] at hrun
  simp only [Action.bind_apply] at hrun
  have hquery := runQuery_answered
    (hs.answers hindex hread fun e _ => ∃ d, accepts d = .error e)
    (fun e he _ _ => he) hcondition (fun x _ e he => ⟨x.document, he⟩) multi rfl
  generalize runQuery (matchQuery c.store condition multi) Cursor.items w = r at hquery hrun
  cases hquery with
  | failure => cases hrun
  | @ok w₁ good =>
    obtain rfl : w₁ = w := good.elim id id
    simp only at hrun
    obtain ⟨w₂, acts, hall⟩ | ⟨done, x, rest, w₁, w₂, e, -, -, -, hall⟩ := actAll_cases
      (writeChanged c.store change) (matching accepts multi ids doc) w₁
    · obtain ⟨hn, rfl⟩ := Prod.mk.inj (hall.symm.trans hrun)
      obtain ⟨hindex', hchanged, hothers⟩ := acts.held_eq (hs.leaves_write change ids)
        (fun x hx => id_mem_of_matching hx) (fun x hx y hy => eq_of_mem_matching hx hy) hindex
      exact ⟨(Except.ok.inj hn).symm, hchanged, hothers, hindex'⟩
    · cases hall.symm.trans hrun

/-! ## A small folder -/

def lampFile (t : Text) : Disk.Node := .file (t.toUtf8.toOption.getD [])

/-- A folder with a file for a lamp that is on and one for a lamp that is off. -/
def lampDisk : Disk :=
  [("b.json".toText, lampFile "\x7b\"n\": 5, \"on\": false\x7d".toText),
    ("a.json".toText, lampFile "\x7b\"n\": 1, \"on\": true\x7d".toText)]

def lampFolder : Collection Disk := ⟨Folder.store .json ⟨[]⟩, "id".toText, fun d => (.ok [], d)⟩

theorem update_snapshot_lamps :
    ∃ d, lampFolder.update Cursor.isOn addOne .null lampDisk = (.ok 1, d) ∧
      (lampFolder.store.read "a".toText d).1 =
        .ok [(.text "n".toText, .int 2), (.text "on".toText, .bool true)] ∧
      (lampFolder.store.read "b".toText d).1 = .ok (Cursor.lamp "b".toText) := by
  let d : Disk := lampDisk.put "a.json".toText
    (lampFile "\x7b\n  \"n\": 2,\n  \"on\": true\n\x7d".toText)
  have hquery : runQuery (matchQuery lampFolder.store Cursor.isOn true) Cursor.items lampDisk =
      (.ok [⟨"a".toText, .object (Cursor.lamp "a".toText)⟩], lampDisk) := by
    cbv
  have hrun : lampFolder.update Cursor.isOn addOne .null lampDisk = (.ok 1, d) := by
    rw [update_eq lampFolder Cursor.isOn (rfl : Update.compile addOne = .ok (some addedOne))]
    simp only [bulk, Action.bind_apply, Action.ofExcept_apply]
    have hmulti : option .null "multi" true = .ok true := rfl
    rw [hmulti]
    simp only [hquery]
    rfl
  have hindex : (lampFolder.store.index lampDisk).1 = .ok ["a".toText, "b".toText] := by cbv
  have hread : ∀ id ∈ ["a".toText, "b".toText],
      (lampFolder.store.read id lampDisk).1 = .ok (Cursor.lamp id) := by
    intro id hid
    obtain rfl | rfl : id = "a".toText ∨ id = "b".toText := by simpa using hid
    all_goals cbv
  have hmatching : matching (Condition.meets [(.text "on".toText, .bool true)]) true
      ["a".toText, "b".toText] Cursor.lamp = [⟨"a".toText, .object (Cursor.lamp "a".toText)⟩] := rfl
  obtain ⟨-, hchanged, hothers, -⟩ := update_snapshot (c := lampFolder) (.json ⟨[]⟩)
    (rfl : Condition.compile Cursor.isOn = .ok (Condition.meets [(.text "on".toText, .bool true)]))
    (rfl : Update.compile addOne = .ok (some addedOne)) rfl hindex hread hrun
  rw [hmatching] at hchanged hothers
  obtain ⟨v, t, hv, ht, hnew⟩ := hchanged _ List.mem_cons_self
  obtain rfl : .object [(.text "n".toText, .int 2), (.text "on".toText, .bool true)] = v :=
    Except.ok.inj hv
  obtain rfl : "\x7b\n  \"n\": 2,\n  \"on\": true\n\x7d".toText = t := Except.ok.inj ht
  refine ⟨d, hrun, hnew.trans ?_, ?_⟩
  · cbv
  · rw [hothers _ (by decide)]
    exact hread _ (by decide)

end Cabinet
