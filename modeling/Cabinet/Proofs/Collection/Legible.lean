import Cabinet.Proofs.Collection.OneDocument
import Cabinet.Proofs.Collection.Session
import Cabinet.Proofs.Json.RoundTrip
import Cabinet.Proofs.Store.Confined

/-!
# What stays legible

A store takes any value that has a JSON text, but only objects are read back. So whether all that is
listed can be read depends on what was written.

* `IsPlain.write_cases`, `IsPlain.erase_cases` : what a write and an erasure do in memories and folders of
  JSON files, whether they fail or not;
* `IsPlain.decode_encoded` : what is read of a value that was written;
* `Store.Legible` : every identifier that is listed can be read, or holds something other than an object,
  where there may be such;
* `IsPlain.upholds_legible` : every call of the store keeps it so;
* `stays_legible` : so does a session, whichever of its requests fail;
* `illegible_list` : a list that was written is listed and cannot be read.
-/

namespace Cabinet

variable {σ τ : Type}

open Cabinet.Action

/-! ## Calls of plain stores -/

section Plain
variable {s : Store σ} (hs : IsPlain s) {id : Text} {w w' : σ} {r : Except Failure Unit} {ids : List Text}

include hs

theorem IsPlain.write_cases {v : Value} (hindex : (s.index w).1 = .ok ids)
    (h : s.write id v w = (r, w')) :
    (∃ e, r = .error e ∧ w' = w) ∨ r = .ok () ∧ s.WrittenAt id v w w' := by
  cases hs with
  | memory =>
    simp only [Memory.store] at h
    split at h
    · exact .inl (failed_of_eq h)
    · next t ht =>
      obtain ⟨rfl, rfl⟩ := Prod.mk.inj h
      exact .inr ⟨rfl, Memory.writtenAt (by simp only [Memory.store, ht])⟩
  | json folder =>
    obtain ⟨es, hes⟩ := Folder.lookup_of_index hindex
    obtain hfailed | ⟨rfl, -⟩ := Folder.write_cases hes h
    · exact .inl hfailed
    · exact .inr ⟨rfl, Folder.writtenAt_json hindex h⟩

theorem IsPlain.erase_cases (hindex : (s.index w).1 = .ok ids) (h : s.erase id w = (r, w')) :
    (∃ e, r = .error e ∧ w' = w) ∨ r = .ok () ∧ s.ErasedAt id w w' := by
  have herased : r = .ok () → s.ErasedAt id w w' := fun hr => hs.erasedAt hindex (hr ▸ h)
  cases hs with
  | memory =>
    simp only [Memory.store] at h
    split at h
    · exact .inl (failed_of_eq h)
    · obtain ⟨rfl, -⟩ := Prod.mk.inj h
      exact .inr ⟨rfl, herased rfl⟩
  | json folder =>
    obtain ⟨es, hes⟩ := Folder.lookup_of_index hindex
    obtain hfailed | ⟨rfl, -⟩ := Folder.erase_cases hes h
    · exact .inl hfailed
    · exact .inr ⟨rfl, herased rfl⟩

theorem IsPlain.decode_encoded {v : Value} {t : Text} (h : s.encode v = .ok t) :
    s.decode t = Store.readBack s.name v := by
  cases hs with
  | memory => exact Store.decodeJson_written Json.Style.legible_compact h
  | json folder => exact Store.decodeJson_written Json.Style.legible_indented h

end Plain

/-! ## Legible stores -/

/-- Every identifier that is listed can be read. Where something may be torn, it may also hold a value
that is no object. -/
def Store.Legible (s : Store σ) (torn : Prop) (w : σ) : Prop :=
  ∃ ids, (s.index w).1 = .ok ids ∧ ∀ id ∈ ids,
    (∃ d, (s.read id w).1 = .ok d) ∨ torn ∧ (s.read id w).1 = .error (.notDocument s.name)

/-- A value that may be written: an object, or anything where something may be torn. -/
def Value.MayBeWritten (torn : Prop) (v : Value) : Prop := (∃ d, v = .object d) ∨ torn

section Upheld
variable {s : Store σ} {torn : Prop} {id : Text} {v : Value} {w w' : σ}

theorem Store.Legible.written (hs : IsPlain s) (hw : s.Legible torn w) (hv : v.MayBeWritten torn)
    (h : s.WrittenAt id v w w') : s.Legible torn w' := by
  obtain ⟨ids, hindex, hread⟩ := hw
  obtain ⟨ids', hindex', hids, -⟩ := h.index ids hindex
  obtain ⟨t, ht, hdocument⟩ := h.document
  refine ⟨ids', hindex', fun i hi => ?_⟩
  by_cases hid : i = id
  · rw [hid, hdocument, hs.decode_encoded ht]
    cases v with
    | object fs => exact .inl ⟨_, rfl⟩
    | scalar x | list xs => exact .inr ⟨hv.resolve_left nofun, rfl⟩
  · rw [h.others i hid]
    exact hread i (((hids i).mp hi).resolve_left hid)

theorem Store.Legible.erased (hw : s.Legible torn w) (h : s.ErasedAt id w w') : s.Legible torn w' := by
  obtain ⟨ids, hindex, hread⟩ := hw
  refine ⟨ids.filter (· != id), by rw [h.index, hindex]; rfl, fun i hi => ?_⟩
  obtain ⟨hi, hne⟩ := List.mem_filter.mp hi
  rw [h.others i (bne_iff_ne.mp hne)]
  exact hread i hi

/-- Every call of the store keeps it legible, as long as what may be written is. -/
theorem IsPlain.upholds_legible (hs : IsPlain s) (torn : Prop) :
    s.Upholds (s.Legible torn) (Value.MayBeWritten torn) where
  index := ensures_of_state fun w hw => (hs.persists.index_same w).symm ▸ hw
  read id := ensures_of_state fun w hw => (hs.persists.read_same id w).symm ▸ hw
  exist id := ensures_of_state fun w hw => by
    cases hs with
    | memory => exact hw
    | json folder => exact hw
  write id v hv := by
    refine ensures_of_state fun w hw => ?_
    have ⟨ids, hindex, _⟩ := hw
    rcases hrun : s.write id v w with ⟨r, w'⟩
    obtain ⟨e, -, rfl⟩ | ⟨-, hwritten⟩ := hs.write_cases hindex hrun
    · exact hw
    · exact hw.written hs hv hwritten
  erase id := by
    refine ensures_of_state fun w hw => ?_
    have ⟨ids, hindex, _⟩ := hw
    rcases hrun : s.erase id w with ⟨r, w'⟩
    obtain ⟨e, -, rfl⟩ | ⟨-, herased⟩ := hs.erase_cases hindex hrun
    · exact hw
    · exact hw.erased herased

end Upheld

/-! ## Sessions -/

namespace Collection

/-- After any requests to a store that was empty, in memory or of JSON files, whichever of them fail,
every identifier that is listed can be read if only objects were given to be written and functions of
updates gave nothing else; otherwise what cannot be read is a value that is no object. What a write
takes is read back as JSON text holds it, if it is an object. -/
theorem stays_legible {s : Store τ} (hs : IsPlain s) {get : σ → τ} {put : τ → σ → σ}
    (hget : ∀ w x, get (put w x) = w) {c : Collection σ} (hstore : c.store = s.focus get put)
    (hfresh : ∀ x, get (c.freshId x).2 = get x) {x : σ} (hempty : (c.store.index x).1 = .ok [])
    (torn : Prop) {requests : List (Request σ)}
    (hrequests : ∀ q ∈ requests, q.Fits (c.store.Legible torn) (Value.MayBeWritten torn)) :
    let after := (c.serve requests ([], x)).2.2
    c.store.Legible torn after ∧
    ∀ id v x', c.store.write id v after = (.ok (), x') →
      (c.store.read id x').1 = Store.readBack c.store.name v := by
  intro after
  have hpart : ∀ x, c.store.Legible torn x ↔ s.Legible torn (get x) := by
    rw [hstore]
    exact fun _ => .rfl
  have hupholds : c.store.Upholds (c.store.Legible torn) (Value.MayBeWritten torn) := by
    rw [funext fun x => propext (hpart x), hstore]
    exact (hs.upholds_legible torn).focus hget
  have hnew : Ensures (c.store.Legible torn) c.freshId fun _ => True := by
    refine ensures_of_state fun x hx => (hpart _).mpr ?_
    rw [hfresh x]
    exact (hpart x).mp hx
  have hstart : c.store.Legible torn x := ⟨[], hempty, fun _ h => absurd h List.not_mem_nil⟩
  have hafter : c.store.Legible torn after := (serve_states hupholds (fun d => .inl ⟨d, rfl⟩) hnew
    hrequests ⟨fun _ h => absurd h List.not_mem_nil, hstart⟩).2
  refine ⟨hafter, fun id v x' hwrite => ?_⟩
  obtain ⟨ids, hindex, -⟩ := (hpart after).mp hafter
  rw [hstore] at hwrite ⊢
  obtain ⟨e, he, -⟩ | ⟨-, hwritten⟩ := hs.write_cases hindex (focus_run hget hwrite)
  · cases he
  · obtain ⟨t, ht, hread⟩ := hwritten.document
    exact hread.trans (hs.decode_encoded ht)

/-! ## Lamps that are packed -/

/-- Puts a document into a field of another one. -/
def packed : Given Transform := .function fun d => .ok (.object [(.text "lamp".toText, d)])

/-- Two lamps are written and packed; bytes are not taken, and a lamp that is not there is not erased. -/
def chores : List (Request Memory) :=
  [.write "a".toText (.object [(.text "n".toText, .int 1)]),
    .insert (.object [(.text "id".toText, .text "b".toText)]), .update .nothing packed .null,
    .write "c".toText (.object [(.text "n".toText, .scalar (.bytes [0]))]), .erase "c".toText]

theorem stays_legible_packed :
    let after := (lampMemory.serve chores ([], [])).2.2
    lampMemory.store.Legible False after ∧
    (lampMemory.store.index after).1 = .ok ["a".toText, "b".toText] ∧
    ∃ m, lampMemory.store.write "a".toText (.object [(.int 5, .null)]) after = (.ok (), m) ∧
      (lampMemory.store.read "a".toText m).1 = .ok [(.text "5".toText, .null)] := by
  have hfits : ∀ q ∈ chores, q.Fits (lampMemory.store.Legible False) (Value.MayBeWritten False) := by
    intro q hq
    simp only [chores, List.mem_cons, List.not_mem_nil, or_false] at hq
    obtain rfl | rfl | rfl | rfl | rfl := hq
    · exact .inl ⟨_, rfl⟩
    · trivial
    · rintro f hf d v hv
      obtain rfl := Given.function.inj hf
      exact .inl ⟨_, (Except.ok.inj hv).symm⟩
    · exact .inl ⟨_, rfl⟩
    · trivial
  have hindex : (lampMemory.store.index (lampMemory.serve chores ([], [])).2.2).1 =
      .ok ["a".toText, "b".toText] := by cbv
  intro after
  have hget : ∀ m x : Memory, id ((fun m (_ : Memory) => m) m x) = m := fun _ _ => rfl
  have hempty : (lampMemory.store.index []).1 = .ok [] := rfl
  obtain ⟨hlegible, hreads⟩ := stays_legible .memory hget (rfl : lampMemory.store = _) (fun _ => rfl)
    hempty False hfits
  obtain ⟨m, hm⟩ : ∃ m, lampMemory.store.write "a".toText (.object [(.int 5, .null)]) after =
    (.ok (), m) := ⟨_, rfl⟩
  exact ⟨hlegible, hindex, m, hm, (hreads _ _ _ hm).trans (by cbv)⟩

/-- A list is written, or a function makes one of a document: it is listed, and cannot be read, and
neither can anything be found from then on. -/
theorem illegible_list :
    let written := (lampMemory.serve [.write "a".toText (.list [.int 1])] ([], [])).2.2
    let changed := (lampMemory.serve [.write "a".toText (.object []),
      .update .nothing (.function fun _ => .ok (.list [.int 1])) .null] ([], [])).2.2
    (lampMemory.store.write "a".toText (.list [.int 1]) []).1 = .ok () ∧
    (lampMemory.store.index written).1 = .ok ["a".toText] ∧
    (lampMemory.store.read "a".toText written).1 = .error (.notDocument "memory".toText) ∧
    changed = written ∧ (lampMemory.findOne .nothing .nothing written).1 =
      .error (.notDocument "memory".toText) := by
  intro written changed
  refine ⟨rfl, rfl, ?_, ?_, ?_⟩
  all_goals cbv

end Collection

end Cabinet
