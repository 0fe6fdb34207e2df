import Cabinet.Proofs.Command.Configuring
import Cabinet.Proofs.Json.Reading

/-!
# What the file of the configuration holds

Whatever stands in its file, a configuration is loaded: the one that the file describes, or else the
defaults. Only bytes that are not in UTF-8 are not taken for a file without a configuration, and make loading
fail.

* `Config.HasOnly`, `Config.Describes` : an object with a group of settings, and with both groups;
* `Config.given?` : the value that such an object has for a setting;
* `Config.setFields_cases`, `Config.setGroup_cases`, `Config.ofValue_cases` : exactly what describes a
  configuration is read as one, with the defaults for the settings that it leaves out;
* `Json.Spells` : bytes that are the UTF-8 form of a JSON text for a value;
* `Config.load_of_content` : what is loaded for each content of the file.
-/

namespace Cabinet

/-- The bytes are a JSON text for a value, in UTF-8. -/
def Json.Spells (bytes : List UInt8) (v : Value) : Prop :=
  ∃ t : Text, t.toUtf8 = .ok bytes ∧ Json.parse t.withLineFeeds = .ok v

/-! ## Names of settings -/

namespace Setting

theorem name_injective {s s' : Setting} (h : s.name.toText = s'.name.toText) : s = s' := by
  cases s <;> cases s' <;> first | rfl | exact absurd h (by decide)

theorem mem_all (s : Setting) : s ∈ all := by
  cases s <;> decide

/-- A field of a group is a setting if it has the name of one that belongs there. -/
theorem ofName?_eq_some {group : String} {name : Scalar} {s : Setting} :
    ofName? group name = some s ↔ s.group = group ∧ name = .text s.name.toText := by
  constructor
  · intro h
    simpa using List.find?_some h
  · rintro ⟨hgroup, rfl⟩
    cases hfound : ofName? group (.text s.name.toText) with
    | none =>
      have hnone := List.find?_eq_none.mp hfound s s.mem_all
      simp [hgroup] at hnone
    | some s' =>
      have hname := List.find?_some hfound
      simp only [Bool.and_eq_true, decide_eq_true_eq, Scalar.text.injEq] at hname
      rw [name_injective hname.2]

end Setting

namespace Config

/-! ## Objects with settings -/

/-- All fields are settings of a group. -/
def AreSettings (group : String) (inner : Document) : Prop :=
  ∀ f ∈ inner, ∃ s : Setting, s.group = group ∧ f.1 = .text s.name.toText

/-- If the group is there, it is an object with nothing but settings of that group. -/
def HasOnly (fields : Document) (group : String) : Prop :=
  ∀ x, fields.get? (.text group.toText) = some x → ∃ inner, x = .object inner ∧ AreSettings group inner

/-- Each of the two groups that is there is an object with nothing but its settings. -/
def Describes (fields : Document) : Prop := HasOnly fields "storage" ∧ HasOnly fields "cli"

/-- The value of a setting in an object of groups. -/
def given? (fields : Document) (s : Setting) : Option Value :=
  match fields.get? (.text s.group.toText) with
  | some (.object inner) => Document.get? inner (.text s.name.toText)
  | _ => none

/-! ## Reading groups -/

theorem setFields_cons_known {group : String} {s : Setting} (hgroup : s.group = group) (c : Config) (v : Value)
    (rest : Document) :
    setFields group c ((.text s.name.toText, v) :: rest) = setFields group (c.set v s) rest := by
  rw [setFields, Setting.ofName?_eq_some.mpr ⟨hgroup, rfl⟩]

/-- Fields are taken into account if all of them are settings of the group, and fail otherwise. -/
theorem setFields_cases {group : String} {inner : Document} (hnames : (inner.map (·.1)).Nodup) (c : Config) :
    (AreSettings group inner ∧ ∃ c', setFields group c inner = .ok c' ∧ ∀ s : Setting, c'.get s =
      if s.group = group then (Document.get? inner (.text s.name.toText)).getD (c.get s) else c.get s) ∨
    (¬ AreSettings group inner ∧ ∃ e, setFields group c inner = .error e) := by
  induction inner generalizing c with
  | nil => exact .inl ⟨List.forall_mem_nil _, c, rfl, fun s => by simp [Document.get?]⟩
  | cons f rest ih =>
    obtain ⟨name, v⟩ := f
    obtain ⟨hnew, hrestnames⟩ := List.nodup_cons.mp hnames
    cases hfound : Setting.ofName? group name with
    | none =>
      refine .inr ⟨fun hall => ?_, _, by rw [setFields, hfound]⟩
      obtain ⟨s, hgroup, hname⟩ := hall _ List.mem_cons_self
      rw [Setting.ofName?_eq_some.mpr ⟨hgroup, hname⟩] at hfound
      cases hfound
    | some s =>
      obtain ⟨hgroup, rfl⟩ := Setting.ofName?_eq_some.mp hfound
      rw [setFields_cons_known hgroup, AreSettings, List.forall_mem_cons]
      obtain ⟨hrest, c', hc', hget⟩ | ⟨hrest, e, he⟩ := ih hrestnames (c.set v s)
      · refine .inl ⟨⟨⟨s, hgroup, rfl⟩, hrest⟩, c', hc', fun s' => ?_⟩
        rw [hget, get_set, Document.get?_cons]
        by_cases hs : s' = s
        · -- the rest names this setting no more
          subst hs
          have hgone : Document.get? rest (.text s'.name.toText) = none := by
            cases hrest : Document.get? rest (.text s'.name.toText) with
            | none => rfl
            | some x =>
              obtain ⟨g, hg, hsame, -⟩ := Document.mem_of_get? hrest
              have hmem : g.1 ∈ rest.map (·.1) := List.mem_map_of_mem hg
              rw [Scalar.same_text.mp hsame] at hmem
              exact absurd hmem hnew
          simp [hgroup, hgone]
        · have hname : Scalar.text s.name.toText ≠ .text s'.name.toText := fun h =>
            hs (Setting.name_injective (Scalar.text.inj h)).symm
          rw [if_neg hs, if_neg hname]
      · exact .inr ⟨fun hall => hrest hall.2, e, he⟩

section Groups
variable {fields : Document} (hfields : Json.IsFields fields)
include hfields

/-- So is a group if it is an object of such fields, or left out. -/
theorem setGroup_cases (group : String) (c : Config) :
    (HasOnly fields group ∧ ∃ c', setGroup fields group c = .ok c' ∧
      ∀ s : Setting, c'.get s = if s.group = group then (given? fields s).getD (c.get s) else c.get s) ∨
    (¬ HasOnly fields group ∧ ∃ e, setGroup fields group c = .error e) := by
  rw [setGroup]
  cases hgroup : fields.get? (.text group.toText) with
  | none =>
    refine .inl ⟨fun x hx => (nomatch hgroup.symm.trans hx), c, rfl, fun s => ?_⟩
    split
    · next hs => rw [given?, hs, hgroup, Option.getD_none]
    · rfl
  | some x =>
    cases x with
    | object inner =>
      have hinner : (inner.map (·.1)).Nodup := by
        obtain ⟨f, hf, -, heq⟩ := Document.mem_of_get? hgroup
        exact (Json.isFields_of_isJson (heq ▸ hfields.values f hf)).distinct
      have hgiven : ∀ s : Setting, s.group = group →
          given? fields s = Document.get? inner (.text s.name.toText) := by
        intro s hs
        rw [given?, hs, hgroup]
      obtain ⟨hall, c', hc', hget⟩ | ⟨hall, e, he⟩ := @setFields_cases group inner hinner c
      · refine .inl ⟨fun x hx => ⟨inner, Option.some.inj (hx.symm.trans hgroup), hall⟩, c', hc', fun s => ?_⟩
        rw [hget]
        split
        · next hs => rw [hgiven s hs]
        · rfl
      · refine .inr ⟨fun honly => ?_, e, he⟩
        obtain ⟨inner', heq, hall'⟩ := honly _ hgroup
        obtain rfl := Value.object.inj heq
        exact hall hall'
    | scalar _ | list _ =>
      refine .inr ⟨fun honly => ?_, _, rfl⟩
      obtain ⟨_, heq, -⟩ := honly _ hgroup
      cases heq

/-- An object is read as a configuration exactly if it describes one. -/
theorem ofValue_cases :
    (Describes fields ∧ ∃ c, ofValue (.object fields) = .ok c ∧
      ∀ s, c.get s = (given? fields s).getD (defaults.get s)) ∨
    (¬ Describes fields ∧ ∃ e, ofValue (.object fields) = .error e) := by
  rw [ofValue]
  obtain ⟨hstorage, c, hc, hget⟩ | ⟨hstorage, e, he⟩ := setGroup_cases hfields "storage" defaults
  · rw [hc]
    obtain ⟨hcli, c', hc', hget'⟩ | ⟨hcli, e, he⟩ := setGroup_cases hfields "cli" c
    · refine .inl ⟨⟨hstorage, hcli⟩, c', hc', fun s => ?_⟩
      rw [hget', hget]
      cases s <;> rfl
    · exact .inr ⟨fun h => hcli h.2, e, he⟩
  · rw [he]
    exact .inr ⟨fun h => hstorage h.1, e, rfl⟩

end Groups

/-! ## Reading the file -/

/-- The defaults stand for a text that describes no configuration. -/
theorem ofText_cases (t : Text) :
    (∃ fields, Json.parse t = .ok (.object fields) ∧ Describes fields ∧
      ∀ s, (ofText t).get s = (given? fields s).getD (defaults.get s)) ∨
    ((∀ fields, Json.parse t = .ok (.object fields) → ¬ Describes fields) ∧ ofText t = defaults) := by
  rw [ofText]
  cases hparse : Json.parse t with
  | error e => exact .inr ⟨fun fields h => (by cases h), rfl⟩
  | ok v =>
    cases v with
    | object fields =>
      obtain ⟨hdescribes, c, hc, hget⟩ | ⟨hdescribes, e, he⟩ :=
        ofValue_cases (Json.isFields_of_isJson (Json.parse_isJson hparse))
      · simp only [hc]
        exact .inl ⟨fields, rfl, hdescribes, hget⟩
      · simp only [he]
        refine .inr ⟨fun fields' h => ?_, rfl⟩
        obtain rfl := Value.object.inj (Except.ok.inj h)
        exact hdescribes
    | scalar _ | list _ => exact .inr ⟨fun fields h => (by cases h), rfl⟩

section Content
variable {p : Premises} {bytes : List UInt8} (hfile : Disk.readFile p.disk (file p) = .ok bytes)
include hfile

theorem load_of_text {t : Text} (ht : Text.ofUtf8 bytes = .ok t) :
    load p = (.ok (ofText t.withLineFeeds), p) := by
  simp only [load, hfile, ht]

theorem load_of_flaw {flaw : Utf8.DecodeError} (hflaw : Text.ofUtf8 bytes = .error flaw) :
    load p = (.error (.malformedBytes flaw), p) := by
  simp only [load, hfile, hflaw]

end Content

/-- For every content of its file that is in UTF-8 a configuration is loaded: if the content is a JSON text
of an object whose groups have nothing but settings, the one with the values that it gives and the defaults
beside them, and otherwise that of the defaults. Other bytes make loading fail, by the first place where they
are malformed. Loading changes nothing. -/
theorem load_of_content {p : Premises} {bytes : List UInt8}
    (hfile : Disk.readFile p.disk (file p) = .ok bytes) :
    (bytes.toByteArray.IsValidUTF8 → ∃ c, load p = (.ok c, p) ∧
      (∀ fields, Json.Spells bytes (.object fields) → Describes fields →
        ∀ s, c.get s = (given? fields s).getD (defaults.get s)) ∧
      ((∀ fields, Json.Spells bytes (.object fields) → ¬ Describes fields) → c = defaults)) ∧
    (¬ bytes.toByteArray.IsValidUTF8 → ∃ flaw, Text.ofUtf8 bytes = .error flaw ∧
      load p = (.error (.malformedBytes flaw), p)) := by
  rw [← Text.ofUtf8_ok_iff]
  constructor
  · rintro ⟨t, ht⟩
    have hspells : ∀ v, Json.Spells bytes v ↔ Json.parse t.withLineFeeds = .ok v := by
      intro v
      constructor
      · rintro ⟨u, hu, hparse⟩
        rw [Text.ofUtf8_toUtf8 hu, Except.ok.injEq] at ht
        exact ht ▸ hparse
      · exact fun hparse => ⟨t, Text.toUtf8_ofUtf8 ht, hparse⟩
    simp only [hspells]
    refine ⟨_, load_of_text hfile ht, ?_⟩
    obtain ⟨fields, hparse, hdescribes, hget⟩ | ⟨hnone, hdefaults⟩ := ofText_cases t.withLineFeeds
    · refine ⟨fun fields' hparse' _ => ?_, fun hnone => absurd hdescribes (hnone fields hparse)⟩
      rw [hparse, Except.ok.injEq, Value.object.injEq] at hparse'
      exact hparse' ▸ hget
    · exact ⟨fun fields hparse hdescribes => absurd hdescribes (hnone fields hparse), fun _ => hdefaults⟩
  · intro hbytes
    cases htext : Text.ofUtf8 bytes with
    | ok t => exact absurd ⟨t, htext⟩ hbytes
    | error flaw => exact ⟨flaw, rfl, load_of_flaw hfile htext⟩

/-! ## A desk with a note, and one with a byte -/

/-- A size of the page beside a field that is no group, with a line end of two characters. -/
def note : Text := "\x7b\"cli\": \x7b\"page_size\": 5\x7d,\r\n\"by\": null\x7d".toText

theorem parse_note : Json.parse note.withLineFeeds =
    .ok (.object [(.text "cli".toText, .object [(.text "page_size".toText, .int 5)]),
      (.text "by".toText, .null)]) := by
  decide +kernel

theorem load_of_content_note : ∃ bytes c, note.toUtf8 = .ok bytes ∧
    load (Command.deskWith bytes) = (.ok c, Command.deskWith bytes) ∧ c.pageSize = .int 5 ∧
      c.backend = .text "json".toText := by
  obtain ⟨bytes, hbytes⟩ := Text.toUtf8_ok (Text.encodable_toText _ : note.Encodable)
  obtain ⟨c, hload, hget, -⟩ := (@load_of_content (Command.deskWith bytes) bytes rfl).1
    (Text.ofUtf8_ok_iff.mp ⟨note, Text.ofUtf8_toUtf8 hbytes⟩)
  have hget := hget _ ⟨note, hbytes, parse_note⟩ ⟨fun x hx => (nomatch hx), fun x hx => ?_⟩
  · exact ⟨bytes, c, hbytes, hload, hget .pageSize, hget .backend⟩
  · obtain rfl := Option.some.inj hx
    exact ⟨_, rfl, List.forall_mem_singleton.mpr ⟨.pageSize, rfl, rfl⟩⟩

/-- A single byte makes loading fail. -/
theorem load_stopped_by_byte :
    Disk.readFile (Command.deskWith [255]).disk (file (Command.deskWith [255])) = .ok [255] ∧
    load (Command.deskWith [255]) = (.error (.malformedBytes ⟨255, 0, 1, .start⟩), Command.deskWith [255]) ∧
    ¬ ∀ p : Premises, ∃ c, (load p).1 = .ok c := by
  have hload : load (Command.deskWith [255]) =
      (.error (.malformedBytes ⟨255, 0, 1, .start⟩), Command.deskWith [255]) := rfl
  refine ⟨rfl, hload, fun hall => ?_⟩
  obtain ⟨c, hc⟩ := hall (Command.deskWith [255])
  rw [hload] at hc
  cases hc

end Config

end Cabinet
