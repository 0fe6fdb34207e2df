import Cabinet.Proofs.Collection.Setting

/-!
# Looking a document up by its identifier

A query that puts identifiers into a field embeds them before it filters, over whatever a document holds there.
As each identifier is listed once, a query for the value of that field is a lookup.

* `Store.Displays.exist_iff` : where everything that is listed can be read, an identifier is listed if its
  document is there;
* `Cursor.runQuery_displays` : what a query gives in such a state;
* `Cursor.asked_embedded` : which of the embedded documents have the identifier asked for;
* `Collection.find_embedded` : the query finds the document of the identifier, and nothing else.
-/

namespace Cabinet

variable {σ : Type}

/-! ## Listed and there -/

/-- Where every identifier that is listed can be read, listed are the identifiers of the documents that are
there. -/
theorem Store.Displays.exist_iff {s : Store σ} {states : σ → Prop} (hs : StatesOf s states) {w : σ}
    (hw : states w) {ids : List Text} {doc : Text → Document} (hdocs : s.Displays w ids doc) {id key : Text}
    (hkey : s.escape id = .ok key) : (s.exist id w).1 = .ok true ↔ id ∈ ids := by
  cases hs with
  | memory =>
    obtain rfl : w.map Prod.fst = ids := Except.ok.inj hdocs.index
    rw [← not_iff_not, ← Keyed.get?_eq_none, ← Memory.get?_eq]
    simp [Memory.store]
  | json folder =>
    obtain ⟨hlisted, -⟩ := Folder.index_agrees .json folder hw
    obtain ⟨-, hagrees⟩ := hlisted ids hdocs.index
    refine ⟨fun hexist => (hagrees id key hkey).mpr (.inl hexist), fun hid => ?_⟩
    -- A folder with the name of the file could not be read.
    obtain ⟨es, hes⟩ := Folder.lookup_of_index hdocs.index
    obtain ⟨key', content, hkey', -, hfile⟩ := Folder.file_of_read hes (hdocs.read id hid)
    exact (Folder.exist_iff hkey').mpr ⟨content, (Folder.lookup_entry hw hes hkey' _).mpr hfile⟩

namespace Cursor

open Collection (runQuery)
open Progress (toCome)

/-! ## A query over documents that can be read -/

theorem runQuery_displays {s : Store σ} (hs : Persists s) {w : σ} {ids : List Text} {doc : Text → Document}
    (hdocs : s.Displays w ids doc) {idField : Option Text} {chain : List Stage}
    (hfits : Fits idField ids doc never chain) :
    runQuery (start s idField chain) toList w =
      (.ok ((answer chain (storedItems idField ids doc)).map Item.document), w) := by
  have hanswers := hs.answers hdocs.index hdocs.read fun _ _ => False
  obtain ⟨p, w', hdrain, -, hp⟩ := (drain_drained hanswers (fun _ h => h.elim) hfits
    (sound_rewound rfl chain)).of_never fun _ _ h => h
  obtain rfl : w' = w := (Progress.sound_state chain hp).elim id id
  rw [toCome_rewound] at hdrain
  obtain ⟨c', hlist⟩ := (toList_iff (c := start s idField chain) rfl rfl).mpr ⟨_, p, hdrain, rfl⟩
  rw [runQuery, hlist]

/-- The document of an identifier with it in a field. -/
def embedded (f : Text) (doc : Text → Document) (id : Text) : Document := (doc id).set (.text f) (.text id)

theorem storedItems_embedded {f : Text} (hf : f ≠ []) (ids : List Text) (doc : Text → Document) :
    storedItems (some f) ids doc = ids.map fun id => ⟨id, .object (embedded f doc id)⟩ := by
  cases f with
  | nil => exact absurd rfl hf
  | cons p f => rfl

/-- Whatever a document holds in the field, it is accepted if it is that of the identifier asked for. -/
theorem asked_embedded (f x : Text) (doc : Text → Document) (id : Text) :
    accepted (Condition.meets [(.text f, .text x)]) (.object (embedded f doc id)) = decide (id = x) := by
  rw [Condition.accepted_meets_one, embedded, Document.getD, Document.get?_set, if_pos rfl]
  rw [Bool.eq_iff_iff, decide_eq_true_iff]
  exact Scalar.same_text.trans (iff_of_eq (Scalar.text.injEq id x))

theorem filter_asked (f x : Text) (doc : Text → Document) {ids : List Text} (hids : ids.Nodup) :
    (ids.map fun id => (⟨id, .object (embedded f doc id)⟩ : Item)).filter
        (fun i => accepted (Condition.meets [(.text f, .text x)]) i.document) =
      if x ∈ ids then [⟨x, .object (embedded f doc x)⟩] else [] := by
  have hfilter : ids.filter (fun id => decide (id = x)) = if x ∈ ids then [x] else [] := by
    rw [List.filter_eq]
    split
    · next hx => rw [List.count_eq_one_of_mem hids hx, List.replicate_one]
    · next hx => rw [List.count_eq_zero_of_not_mem hx, List.replicate_zero]
  rw [List.filter_map, Function.comp_def]
  simp only [asked_embedded, hfilter]
  split <;> rfl

end Cursor

/-! ## Lookups -/

namespace Collection

open Cursor (embedded)

/-- All that a memory or a folder of JSON files lists can be read. A query that embeds identifiers into a field
and asks this field for one gives the document that is read under this identifier, with the identifier in the
field, if it is there, and otherwise nothing. What the documents hold in that field makes no difference. -/
theorem find_embedded {c : Collection σ} {states : σ → Prop} (hs : StatesOf c.store states) {w : σ}
    (hw : states w) {ids : List Text} (hindex : (c.store.index w).1 = .ok ids)
    (hread : ∀ id ∈ ids, ∃ d, (c.store.read id w).1 = .ok d) {f : Text} (hf : f ≠ []) {x key : Text}
    (hkey : c.store.escape x = .ok key) :
    ((c.store.exist x w).1 = .ok true → ∃ d, c.store.read x w = (.ok d, w) ∧
      runQuery (c.find (asks f (.text x)) .nothing (some f)) Cursor.toList w =
        (.ok [.object (d.set (.text f) (.text x))], w)) ∧
    ((c.store.exist x w).1 ≠ .ok true →
      runQuery (c.find (asks f (.text x)) .nothing (some f)) Cursor.toList w = (.ok [], w)) := by
  choose! doc hdoc using hread
  have hdocs : c.store.Displays w ids doc := ⟨hindex, hdoc⟩
  have hplain := hs.isPlain.persists
  have hquery : runQuery (c.find (asks f (.text x)) .nothing (some f)) Cursor.toList w =
      (.ok (if x ∈ ids then [.object (embedded f doc x)] else []), w) := by
    have hcondition : Condition.compile (asks f (.text x)) =
        .ok (Condition.meets [(.text f, .text x)]) := rfl
    have hfits : Fits (some f) ids doc never (Cursor.firstStages (asks f (.text x)) .nothing
        (Condition.meets [(.text f, .text x)]) Projection.identity.apply) := by
      refine Cursor.fits_firstStages hcondition (fun i hi e he => ?_) fun i _ _ e he => by cases he
      obtain ⟨id, -, rfl⟩ := List.mem_map.mp hi
      rw [Condition.meets_eq_all] at he
      cases he
    rw [find, Cursor.make_eq_start hcondition rfl, Cursor.runQuery_displays hplain hdocs hfits,
      Cursor.answer_firstStages hcondition rfl, Cursor.firstItems, Cursor.map_projected_identity,
      Cursor.storedItems_embedded hf, Cursor.filter_asked f x doc (hs.nodup hw hindex)]
    split <;> rfl
  have hexist := Store.Displays.exist_iff hs hw hdocs hkey
  refine ⟨fun h => ?_, fun h => ?_⟩
  · have hx : x ∈ ids := hexist.mp h
    refine ⟨doc x, Prod.ext (hdoc x hx) (hplain.read_same x w), ?_⟩
    rw [hquery, if_pos hx]
    rfl
  · rw [hquery, if_neg (mt hexist.mpr h)]

/-! ## Lamps that are labelled as others -/

/-- Two lamps, each labelled with the identifier of the other one. -/
def labelled : Memory :=
  [("a".toText, "\x7b\"id\": \"b\", \"n\": 1\x7d".toText), ("b".toText, "\x7b\"id\": \"a\"\x7d".toText)]

theorem find_embedded_labelled :
    runQuery (lampMemory.find (asks "id".toText (.text "a".toText)) .nothing (some "id".toText)) Cursor.toList
        labelled =
      (.ok [.object [(.text "id".toText, .text "a".toText), (.text "n".toText, .int 1)]], labelled) ∧
    runQuery (lampMemory.find (asks "id".toText (.text "c".toText)) .nothing (some "id".toText)) Cursor.toList
        labelled = (.ok [], labelled) := by
  have hstates : (labelled.map Prod.fst).Nodup := by decide
  have hread : ∀ id ∈ ["a".toText, "b".toText], ∃ d, (lampMemory.store.read id labelled).1 = .ok d := by
    intro id hid
    obtain rfl | rfl : id = "a".toText ∨ id = "b".toText := by simpa using hid
    · exact ⟨[(.text "id".toText, .text "b".toText), (.text "n".toText, .int 1)], by cbv⟩
    · exact ⟨[(.text "id".toText, .text "a".toText)], by cbv⟩
  have hf : "id".toText ≠ [] := by decide
  obtain ⟨hfound, -⟩ := find_embedded (c := lampMemory) .memory hstates rfl hread hf (x := "a".toText) rfl
  obtain ⟨-, hnone⟩ := find_embedded (c := lampMemory) .memory hstates rfl hread hf (x := "c".toText) rfl
  obtain ⟨d, hd, hquery⟩ := hfound rfl
  obtain rfl : [(.text "id".toText, .text "b".toText), (.text "n".toText, .int 1)] = d :=
    Except.ok.inj ((show _ = (lampMemory.store.read "a".toText labelled).1 by cbv).trans (congrArg Prod.fst hd))
  exact ⟨hquery, hnone (by decide)⟩

end Collection

end Cabinet
