import Cabinet.Proofs.Json.Ascii
import Cabinet.Proofs.Json.Lines
import Cabinet.Proofs.Store.Contract
import Cabinet.Proofs.Store.Folder

/-!
# Memories and folders of JSON files are one map

* `Storable`, `Sendable` : identifiers that have a file, and documents whose text has bytes;
* `Holds` : a list of pairs that holds a content, under a name for each identifier; `Holds.put` and
  `Holds.remove` say that it goes on holding what was changed;
* `OverPairs` : a store that keeps pairs; `OverPairs.refines` : it does what the map does;
* `Memory.overPairs`, `Folder.overPairs` : memories and folders of JSON files are such stores;
* `backends_agree` : so they answer alike, whatever they are asked.
-/

namespace Cabinet
open Store (Request Reply Alike)

/-! ## The scalars of JSON -/

namespace Json

/-- A value that has a text has literals only. -/
theorem hasLiteral_of_mem {v : Value} (hv : Writable v) {s : Scalar} (hs : s ∈ v.scalars) :
    HasLiteral s := by
  induction hv with
  | scalar h =>
    rw [Value.scalars, List.mem_singleton] at hs
    rwa [hs]
  | list _ ih =>
    obtain ⟨x, hx, hs⟩ := Value.mem_scalars_list.mp hs
    exact ih x hx hs
  | object hnames _ ih =>
    obtain ⟨f, hf, rfl | hs⟩ := Value.mem_scalars_object.mp hs
    · exact hnames f hf
    · exact ih f hf hs

/-- A scalar with a literal has no text between quotes unless it is a text. -/
theorem text_or_bare {s : Scalar} (hs : HasLiteral s) : (∃ t, s = .text t) ∨ s.ownText = [] := by
  cases s with
  | text t => exact .inl ⟨t, rfl⟩
  | date d => exact hs.elim
  | timestamp t => exact hs.elim
  | bytes content => exact hs.elim
  | null | bool b | int n | float x => exact .inr rfl

end Json

/-- The JSON text of a value whose texts have bytes has bytes, too. -/
theorem Json.render_encodable {v : Value} (hv : Json.Writable v) (htexts : v.Encodable) :
    (Json.render .indented 0 v).Encodable := by
  have hascii : Json.HoldsAscii fun p => ∃ c, p = .char c := fun c _ => ⟨c, rfl⟩
  refine Json.render_within hascii (Json.Style.within_indented hascii) 0 v fun s hs p hp _ _ => ?_
  obtain ⟨t, rfl⟩ | hnone := Json.text_or_bare (Json.hasLiteral_of_mem hv hs)
  · exact htexts t hs p hp
  · rw [hnone] at hp
    cases hp

/-! ## What fits -/

/-- An identifier that has a file in a folder of JSON files. -/
structure Storable (id : Text) : Prop where
  nonempty : id ≠ []
  encodable : id.Encodable
  short : Disk.Entries.isTooLong (Folder.fileName .json id) = false

/-- A document that JSON text holds as it is, with texts that have bytes. -/
structure Sendable (d : Document) : Prop where
  json : Json.IsJson (.object d)
  encodable : ∀ t, .text t ∈ (Value.object d).scalars → t.Encodable

/-- Calls about such identifiers and documents. -/
def Store.Request.Fits : Request → Prop
  | .write id d => Storable id ∧ Sendable d
  | .read id | .erase id | .exist id => Storable id
  | .index => True

theorem Storable.escape {id : Text} (h : Storable id) : ∃ key, Key.escape id = .ok key ∧
    Folder.fileName .json id = key ++ Format.json.ending ∧
    Disk.Entries.isTooLong (key ++ Format.json.ending) = false := by
  obtain ⟨key, hkey⟩ := Key.escape_encodable h.nonempty h.encodable
  refine ⟨key, hkey, Folder.fileName_eq hkey, ?_⟩
  rw [← Folder.fileName_eq hkey]
  exact h.short

theorem Storable.identifier? {id : Text} (h : Storable id) :
    Folder.identifier? .json (Folder.fileName .json id) = some id := by
  obtain ⟨key, hkey, hname, -⟩ := h.escape
  rw [hname]
  exact Folder.identifier?_fileName hkey

/-- The document is read back from its text, in every layout. -/
theorem Sendable.kept {d : Document} (h : Sendable d) {style : Json.Style} (hstyle : style.Legible)
    (name : Text) :
    Store.encodeJson style name (.object d) = .ok (Json.render style 0 (.object d)) ∧
    Store.decodeJson name (Json.render style 0 (.object d)) = .ok d := by
  constructor
  · rw [Store.encodeJson, Json.write_writable style h.json.writable]
    rfl
  · unfold Store.decodeJson
    rw [Json.parse_render hstyle h.json]

/-- The text of a file has bytes, and its lines end in one way. -/
theorem Sendable.file {d : Document} (h : Sendable d) : ∃ t bytes,
    Format.json.encode (.object d) = .ok t ∧ t.toUtf8 = .ok bytes ∧
    Format.json.decode t.withLineFeeds = .ok d := by
  obtain ⟨hencode, hdecode⟩ := h.kept Json.Style.legible_indented "json".toText
  obtain ⟨bytes, hbytes⟩ := Text.toUtf8_ok (Json.render_encodable h.json.writable h.encodable)
  refine ⟨_, bytes, hencode, hbytes, ?_⟩
  have hplain := Json.write_plain ⟨by decide, by decide⟩ (ok_of_mapError hencode)
  rw [Text.withLineFeeds_eq hplain]
  exact hdecode

/-! ## Lists of pairs that hold a content -/

section Holds
variable {β : Type} {name : Text → Text} {identifier? : Text → Option Text}
  {kept : Document → β → Prop} {m : Contents} {pairs : List (Text × β)} {id : Text}

/-- Identifiers can be read off their names. -/
def Names (name : Text → Text) (identifier? : Text → Option Text) : Prop :=
  ∀ {id}, Storable id → identifier? (name id) = some id

theorem Names.injective (hname : Names name identifier?) {i : Text} (hid : Storable id)
    (hi : Storable i) (hsame : name id = name i) : id = i := by
  apply Option.some.inj
  rw [← hname hid, hsame, hname hi]

/-- Under the name of each identifier stands what its document is kept as, and under no other name
stands anything. -/
structure Holds (name : Text → Text) (kept : Document → β → Prop) (m : Contents)
    (pairs : List (Text × β)) : Prop where
  distinct : (pairs.map Prod.fst).Nodup
  storable : ∀ id ∈ m, Storable id
  named : ∀ n, (Keyed.get? pairs n).isSome → ∃ id ∈ m, name id = n
  found : ∀ id, Storable id → Option.Rel kept (m.lookup id) (Keyed.get? pairs (name id))

theorem Holds.empty : Holds name kept ∅ [] where
  distinct := List.nodup_nil
  storable id hid := absurd hid Finmap.notMem_empty
  named n hn := by cases hn
  found id _ := by
    rw [Finmap.lookup_empty]
    exact .none

theorem Holds.put (hname : Names name identifier?) (h : Holds name kept m pairs)
    (hid : Storable id) {d : Document} {x : β} (hx : kept d x) :
    Holds name kept (m.insert id d) (Keyed.put pairs (name id) x) where
  distinct := Keyed.nodup_put h.distinct _ _
  storable i hi := by
    rcases Finmap.mem_insert.mp hi with rfl | hi
    · exact hid
    · exact h.storable i hi
  named n hn := by
    rw [Keyed.get?_put] at hn
    split at hn
    · next heq => exact ⟨id, Finmap.mem_insert.mpr (.inl rfl), heq.symm⟩
    · obtain ⟨i, hi, hin⟩ := h.named n hn
      exact ⟨i, Finmap.mem_insert.mpr (.inr hi), hin⟩
  found i hi := by
    rw [Keyed.get?_put]
    by_cases heq : i = id
    · rw [heq, if_pos rfl, Finmap.lookup_insert]
      exact .some hx
    · rw [if_neg fun h => heq (hname.injective hi hid h), Finmap.lookup_insert_of_ne _ heq]
      exact h.found i hi

theorem Holds.remove (hname : Names name identifier?) (h : Holds name kept m pairs)
    (hid : Storable id) : Holds name kept (m.erase id) (Keyed.remove pairs (name id)) where
  distinct := Keyed.nodup_remove h.distinct _
  storable i hi := h.storable i (Finmap.mem_erase.mp hi).2
  named n hn := by
    rw [Keyed.get?_remove] at hn
    split at hn
    · cases hn
    · next hne =>
      obtain ⟨i, hi, rfl⟩ := h.named n hn
      refine ⟨i, Finmap.mem_erase.mpr ⟨?_, hi⟩, rfl⟩
      rintro rfl
      exact hne rfl
  found i hi := by
    rw [Keyed.get?_remove]
    by_cases heq : i = id
    · rw [heq, if_pos rfl, Finmap.lookup_erase]
      exact .none
    · rw [if_neg fun h => heq (hname.injective hi hid h), Finmap.lookup_erase_ne heq]
      exact h.found i hi

/-- What stands under the name of an identifier tells what the content has there. -/
theorem Holds.cases (h : Holds name kept m pairs) (hid : Storable id) :
    (m.lookup id = none ∧ id ∉ m ∧ Keyed.get? pairs (name id) = none) ∨
    ∃ d x, m.lookup id = some d ∧ id ∈ m ∧ Keyed.get? pairs (name id) = some x ∧ kept d x := by
  have hrel := h.found id hid
  generalize hl : m.lookup id = l at hrel
  generalize Keyed.get? pairs (name id) = r at hrel
  cases hrel with
  | none => exact .inl ⟨rfl, Finmap.lookup_eq_none.mp hl, rfl⟩
  | some hx => exact .inr ⟨_, _, rfl, Finmap.mem_of_lookup_eq_some hl, rfl, hx⟩

/-- Every name that is taken is that of an identifier, and each of these has one. -/
theorem Holds.names (hname : Names name identifier?) (h : Holds name kept m pairs) :
    ((pairs.map Prod.fst : List Text) : Multiset Text) = m.keys.val.map name := by
  have hnames : (m.keys.val.map name).Nodup := by
    apply Multiset.Nodup.map_on _ m.keys.nodup
    intro i hi i' hi'
    exact hname.injective (h.storable i (Finmap.mem_keys.mp hi))
      (h.storable i' (Finmap.mem_keys.mp hi'))
  apply (Multiset.Nodup.ext (Multiset.coe_nodup.mpr h.distinct) hnames).mpr
  intro n
  have htaken : n ∈ pairs.map Prod.fst ↔ (Keyed.get? pairs n).isSome := by
    rw [← not_iff_not, ← Keyed.get?_eq_none, Bool.not_eq_true, Option.isSome_eq_false_iff,
      Option.isNone_iff_eq_none]
  rw [Multiset.mem_coe, htaken, Multiset.mem_map]
  constructor
  · intro hn
    obtain ⟨id, hid, hin⟩ := h.named n hn
    exact ⟨id, Finmap.mem_keys.mpr hid, hin⟩
  · rintro ⟨id, hid, rfl⟩
    have hid := Finmap.mem_keys.mp hid
    rcases h.cases (h.storable id hid) with ⟨-, hmissing, -⟩ | ⟨d, x, -, -, hget, -⟩
    · exact absurd hid hmissing
    · rw [hget]
      rfl

/-- The identifiers that are read off the names are those of the content, each of them once. -/
theorem Holds.identifiers (hname : Names name identifier?) (h : Holds name kept m pairs) :
    (((pairs.map Prod.fst).filterMap identifier? : List Text) : Multiset Text) = m.keys.val := by
  rw [← Multiset.filterMap_coe, h.names hname, Multiset.filterMap_map]
  have hread : ∀ id ∈ m.keys.val, (identifier? ∘ name) id = some id := fun id hid =>
    hname (h.storable id (Finmap.mem_keys.mp hid))
  obtain ⟨ids, hids⟩ := Quot.exists_rep m.keys.val
  rw [← hids] at hread ⊢
  exact congrArg _ ((List.filterMap_congr hread).trans List.filterMap_some)

end Holds

/-! ## Stores over lists of pairs -/

section OverPairs
variable {σ β : Type} {s : Store σ} {name : Text → Text} {identifier? : Text → Option Text}
  {kept : Document → β → Prop} {stands : List (Text × β) → σ → Prop}

/-- What the calls of a store do in terms of a list of pairs, which stands in its states. -/
structure OverPairs (s : Store σ) (name : Text → Text) (identifier? : Text → Option Text)
    (kept : Document → β → Prop) (stands : List (Text × β) → σ → Prop) : Prop where
  names : Names name identifier?
  write : ∀ {pairs w id d}, stands pairs w → Storable id → Sendable d →
    (∀ x, Keyed.get? pairs (name id) = some x → ∃ old, kept old x) →
    ∃ x w', s.write id (.object d) w = (.ok (), w') ∧ kept d x ∧
      stands (Keyed.put pairs (name id) x) w'
  missing : ∀ {pairs w id}, stands pairs w → Storable id → Keyed.get? pairs (name id) = none →
    s.read id w = (.error (.notFound id), w) ∧ s.exist id w = (.ok false, w) ∧
    s.erase id w = (.error (.notFound id), w)
  found : ∀ {pairs w id x d}, stands pairs w → Storable id →
    Keyed.get? pairs (name id) = some x → kept d x →
    s.read id w = (.ok d, w) ∧ s.exist id w = (.ok true, w) ∧
    ∃ w', s.erase id w = (.ok (), w') ∧ stands (Keyed.remove pairs (name id)) w'
  index : ∀ {pairs w}, stands pairs w → ∃ ids, s.index w = (.ok ids, w) ∧
    ids.Perm ((pairs.map Prod.fst).filterMap identifier?)

/-- Such a store does what the map does that its pairs hold. -/
theorem OverPairs.refines (hs : OverPairs s name identifier? kept stands) :
    Store.Refines s Request.Fits fun m w => ∃ pairs, stands pairs w ∧ Holds name kept m pairs := by
  intro m w q hq ⟨pairs, hw, hm⟩
  cases q with
  | write id d =>
    obtain ⟨hid, hd⟩ := hq
    have hold : ∀ x, Keyed.get? pairs (name id) = some x → ∃ old, kept old x := by
      intro x hx
      rcases hm.cases hid with ⟨-, -, hnone⟩ | ⟨old, x', -, -, hget, hkept⟩
      · rw [hnone] at hx
        cases hx
      · obtain rfl := Option.some.inj (hget.symm.trans hx)
        exact ⟨old, hkept⟩
    obtain ⟨x, w', hrun, hx, hw'⟩ := hs.write hw hid hd hold
    rw [Request.run, Action.map_apply, hrun]
    exact ⟨rfl, _, hw', hm.put hs.names hid hx⟩
  | read id =>
    rw [Request.run, Action.map_apply]
    rcases hm.cases hq with ⟨hlookup, -, hnone⟩ | ⟨d, x, hlookup, -, hget, hkept⟩
    · rw [(hs.missing hw hq hnone).1]
      exact ⟨by rw [Contents.Allows, hlookup]; rfl, pairs, hw, hm⟩
    · rw [(hs.found hw hq hget hkept).1]
      exact ⟨by rw [Contents.Allows, hlookup]; rfl, pairs, hw, hm⟩
  | erase id =>
    rw [Request.run, Action.map_apply]
    rcases hm.cases hq with ⟨-, hid, hnone⟩ | ⟨d, x, -, hid, hget, hkept⟩
    · rw [(hs.missing hw hq hnone).2.2]
      refine ⟨by rw [Contents.Allows, if_neg hid]; rfl, pairs, hw, ?_⟩
      rw [Contents.after, Contents.erase_missing hid]
      exact hm
    · obtain ⟨-, -, w', hrun, hw'⟩ := hs.found hw hq hget hkept
      rw [hrun]
      exact ⟨by rw [Contents.Allows, if_pos hid]; rfl, _, hw', hm.remove hs.names hq⟩
  | exist id =>
    rw [Request.run, Action.map_apply]
    rcases hm.cases hq with ⟨-, hid, hnone⟩ | ⟨d, x, -, hid, hget, hkept⟩
    · rw [(hs.missing hw hq hnone).2.1]
      exact ⟨by rw [Contents.Allows, decide_eq_false hid]; rfl, pairs, hw, hm⟩
    · rw [(hs.found hw hq hget hkept).2.1]
      exact ⟨by rw [Contents.Allows, decide_eq_true hid]; rfl, pairs, hw, hm⟩
  | index =>
    obtain ⟨ids, hrun, hids⟩ := hs.index hw
    rw [Request.run, Action.map_apply, hrun]
    refine ⟨⟨ids, rfl, ?_⟩, pairs, hw, hm⟩
    rw [← hm.identifiers hs.names]
    exact Multiset.coe_eq_coe.mpr hids

end OverPairs

/-! ## Memories -/

/-- A text that a memory reads as a document. -/
def Memory.Keeps (d : Document) (kept : Text) : Prop := Store.decodeJson storeName kept = .ok d

theorem Memory.overPairs :
    OverPairs Memory.store (fun id => id) some Memory.Keeps fun pairs w => w = pairs where
  names _ := rfl
  write {pairs w id d} hw _ hd _ := by
    subst hw
    obtain ⟨hencode, hdecode⟩ := hd.kept Json.Style.legible_compact storeName
    refine ⟨_, put w id (Json.render .compact 0 (.object d)), ?_, hdecode, put_eq _ _ _⟩
    simp only [store, hencode]
  missing {pairs w id} hw _ hnone := by
    subst hw
    simp [store, get?_eq, hnone]
  found {pairs w id kept d} hw _ hget hkept := by
    subst hw
    simp only [store, get?_eq, hget]
    exact ⟨Prod.ext hkept rfl, rfl, remove w id, rfl, rfl⟩
  index {pairs w} hw := by
    subst hw
    exact ⟨w.map Prod.fst, rfl, by rw [List.filterMap_some]⟩

/-! ## Folders of JSON files -/

/-- A file that is read as a document. -/
def Folder.Keeps (d : Document) (node : Disk.Node) : Prop :=
  ∃ (t : Text) (bytes : List UInt8), node = .file bytes ∧ t.toUtf8 = .ok bytes ∧
    Format.json.decode t.withLineFeeds = .ok d

theorem Folder.overPairs (folder : Disk.Path) :
    OverPairs (Folder.store .json folder) (fileName .json) (identifier? .json) Folder.Keeps
      fun es d => Disk.lookup d folder = .ok (.folder es) where
  names := Storable.identifier?
  write {es disk id d} hes hid hd hold := by
    obtain ⟨key, hkey, hname, hlong⟩ := hid.escape
    obtain ⟨t, bytes, ht, hbytes, hdecode⟩ := hd.file
    have hfile : ∀ inner, Disk.Entries.get? es (key ++ Format.json.ending) ≠ some (.folder inner) := by
      intro inner hinner
      rw [Disk.Entries.get?_eq, ← hname] at hinner
      obtain ⟨old, _, _, hnode, -⟩ := hold _ hinner
      cases hnode
    obtain ⟨disk', hrun, hlookup⟩ := write_file hes hkey ht hbytes hlong hfile
    rw [Disk.Entries.put_eq, ← hname] at hlookup
    exact ⟨.file bytes, disk', hrun, ⟨t, bytes, rfl, hbytes, hdecode⟩, hlookup⟩
  missing {es disk id} hes hid hnone := by
    obtain ⟨key, hkey, hname, hlong⟩ := hid.escape
    rw [hname, ← Disk.Entries.get?_eq] at hnone
    refine ⟨?_, ?_, erase_missing hes hkey hlong hnone⟩
    · exact Prod.ext (read_missing hes hkey hlong hnone) rfl
    · refine Prod.ext ((exist_eq hes hkey hlong).trans ?_) rfl
      rw [hnone]
  found {es disk id node d} hes hid hget hkept := by
    obtain ⟨key, hkey, hname, hlong⟩ := hid.escape
    obtain ⟨t, bytes, rfl, hbytes, hdecode⟩ := hkept
    rw [hname, ← Disk.Entries.get?_eq] at hget
    refine ⟨?_, ?_, ?_⟩
    · exact Prod.ext ((read_file hes hkey hlong hget hbytes).trans hdecode) rfl
    · refine Prod.ext ((exist_eq hes hkey hlong).trans ?_) rfl
      rw [hget]
    · obtain ⟨disk', hrun, hlookup⟩ := erase_file hes hkey hlong hget
      rw [Disk.Entries.remove_eq, ← hname] at hlookup
      exact ⟨disk', hrun, hlookup⟩
  index {es disk} hes :=
    ⟨_, Prod.ext (index_eq hes) rfl, (List.mergeSort_perm _ _).filterMap _⟩

/-! ## Agreement -/

/-- Whatever fits is asked of a memory that is empty and of a folder that is empty, both give results
that one map from identifiers to documents allows, and so they give the same, up to the order in
which identifiers are listed. -/
theorem backends_agree {disk : Disk} {folder : Disk.Path}
    (hfolder : Disk.lookup disk folder = .ok (.folder [])) {qs : List Request}
    (hqs : ∀ q ∈ qs, q.Fits) :
    Contents.AllowsAll ∅ qs (Memory.store.serve qs []).1 ∧
    Contents.AllowsAll ∅ qs ((Folder.store .json folder).serve qs disk).1 ∧
    List.Forall₂ Alike (Memory.store.serve qs []).1
      ((Folder.store .json folder).serve qs disk).1 := by
  have hmemory := (Memory.overPairs.refines.serve hqs ⟨[], rfl, .empty⟩).1
  have hdisk := ((Folder.overPairs folder).refines.serve hqs ⟨[], hfolder, .empty⟩).1
  exact ⟨hmemory, hdisk, hmemory.alike hdisk⟩

/-- A document with one field. -/
def coffee : Document := [(.text "naïve".toText, .text "café".toText)]

theorem sendable_coffee : Sendable coffee where
  json := by
    apply Json.IsJson.object
    · intro f hf
      obtain rfl := List.mem_singleton.mp hf
      exact ⟨_, rfl⟩
    · decide
    · intro f hf
      obtain rfl := List.mem_singleton.mp hf
      exact .scalar trivial
  encodable t ht := by
    have ht : t = "naïve".toText ∨ t = "café".toText := by
      simpa [coffee, Value.scalars, Value.scalarsOfFields] using ht
    rcases ht with rfl | rfl
    · exact Text.encodable_toText _
    · exact Text.encodable_toText _

theorem backends_agree_coffee :
    Disk.lookup [] ⟨[]⟩ = .ok (.folder []) ∧
    Storable "a/b".toText ∧ Storable "é".toText ∧ Sendable coffee ∧
    List.Forall₂ Alike
      (Memory.store.serve [.write "é".toText coffee, .write "a/b".toText coffee, .index,
        .erase "é".toText, .read "é".toText, .exist "a/b".toText, .read "a/b".toText] []).1
      ((Folder.store .json ⟨[]⟩).serve [.write "é".toText coffee, .write "a/b".toText coffee, .index,
        .erase "é".toText, .read "é".toText, .exist "a/b".toText, .read "a/b".toText] []).1 := by
  have hslash : Storable "a/b".toText := ⟨by decide, Text.encodable_toText _, by decide⟩
  have haccent : Storable "é".toText := ⟨by decide, Text.encodable_toText _, by decide⟩
  refine ⟨rfl, hslash, haccent, sendable_coffee, (backends_agree rfl ?_).2.2⟩
  simp only [List.forall_mem_cons, List.not_mem_nil, false_imp_iff, implies_true, and_true]
  exact ⟨⟨haccent, sendable_coffee⟩, ⟨hslash, sendable_coffee⟩, trivial, haccent, haccent, hslash, hslash⟩

end Cabinet
