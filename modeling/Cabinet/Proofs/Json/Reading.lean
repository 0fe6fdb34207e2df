import Cabinet.Proofs.Json.RoundTrip
import Cabinet.Proofs.Store.Action
import Cabinet.Proofs.Value.Document

/-!
# What JSON text stands for

* `Json.IsFields` : the fields of an object that JSON text may stand for;
* `Json.parse_isJson` : what is read from JSON text can be written as JSON text again: scalars have
  literals, and the fields of an object have distinct texts as names. Not-a-number and the infinities
  are among these scalars.
-/

namespace Cabinet

namespace Json

/-! ## Documents from fields -/

/-- The fields of an object that JSON text may stand for. -/
structure IsFields (d : Document) : Prop where
  names : ∀ f ∈ d, ∃ t, f.1 = .text t
  distinct : (d.map (·.1)).Nodup
  values : ∀ f ∈ d, IsJson f.2

theorem IsFields.isJson {d : Document} (h : IsFields d) : IsJson (.object d) :=
  .object h.names h.distinct h.values

theorem isFields_of_isJson {d : Document} (h : IsJson (.object d)) : IsFields d := by
  cases h with
  | object hnames hdistinct hvalues => exact ⟨hnames, hdistinct, hvalues⟩

theorem isFields_nil : IsFields [] where
  names _ hf := absurd hf List.not_mem_nil
  distinct := List.nodup_nil
  values _ hf := absurd hf List.not_mem_nil

theorem IsJson.of_mem_list {xs : List Value} (h : IsJson (.list xs)) {x : Value} (hx : x ∈ xs) :
    IsJson x := by
  cases h with
  | list hxs => exact hxs x hx

theorem isJson_text (t : Text) : IsJson (.text t) := .scalar trivial

theorem IsFields.named {d : Document} (h : IsFields d) : d.Named := ⟨h.names, h.distinct⟩

theorem IsFields.set {d : Document} (h : IsFields d) {x : Value} (hx : IsJson x) (t : Text) :
    IsFields (d.set (.text t) x) where
  names := (h.named.set t x).texts
  distinct := (h.named.set t x).distinct
  values f hf := by
    rcases Document.mem_set hf with heq | ⟨g, hg, heq⟩
    · exact heq ▸ hx
    · exact heq ▸ h.values g hg

theorem isFields_ofPairs {fs : List (Scalar × Value)}
    (h : ∀ f ∈ fs, (∃ t, f.1 = .text t) ∧ IsJson f.2) : IsFields (Document.ofPairs fs) := by
  suffices hall : ∀ d : Document, IsFields d →
      IsFields (fs.foldl (fun d f => d.set f.1 f.2) d) from
    hall [] isFields_nil
  induction fs with
  | nil => exact fun d hd => hd
  | cons f fs ih =>
    obtain ⟨⟨⟨t, ht⟩, hx⟩, hfs⟩ := List.forall_mem_cons.mp h
    obtain ⟨key, x⟩ := f
    obtain rfl : key = .text t := ht
    intro d hd
    exact ih hfs _ (hd.set hx t)

/-! ## Reading -/

theorem readMagnitude?_isJson {negative : Bool} {t : Text} {v : Value} {rest : Text}
    (h : readMagnitude? negative t = some (v, rest)) : IsJson v := by
  unfold readMagnitude? at h
  obtain ⟨⟨whole, after⟩, -, h⟩ := Option.bind_eq_some_iff.mp h
  simp only at h
  split at h
  · rw [← (Prod.mk.inj (Option.some.inj h)).1]
    exact .scalar trivial
  · rw [← (Prod.mk.inj (Option.some.inj h)).1]
    exact .scalar trivial
  · split at h
    · rw [← (Prod.mk.inj (Option.some.inj h)).1]
      exact .scalar trivial
    · rw [← (Prod.mk.inj (Option.some.inj h)).1]
      exact .scalar trivial

theorem readNumber?_isJson {t : Text} {v : Value} {rest : Text}
    (h : readNumber? t = some (v, rest)) : IsJson v := by
  unfold readNumber? at h
  split at h
  · exact readMagnitude?_isJson h
  · exact readMagnitude?_isJson h

theorem readLiteral?_isJson {t : Text} {v : Value} {rest : Text}
    (h : readLiteral? t = some (v, rest)) : IsJson v := by
  obtain ⟨⟨word, u⟩, hword, hfound⟩ := List.exists_of_findSome?_eq_some h
  obtain ⟨after, -, heq⟩ := Option.map_eq_some_iff.mp hfound
  obtain rfl : u = v := (Prod.mk.inj heq).1
  simp only [literals, List.mem_cons, List.not_mem_nil, or_false, Prod.mk.injEq] at hword
  rcases hword with ⟨-, rfl⟩ | ⟨-, rfl⟩ | ⟨-, rfl⟩ | ⟨-, rfl⟩ | ⟨-, rfl⟩ | ⟨-, rfl⟩
  all_goals exact .scalar trivial

mutual

theorem readValue_isJson : ∀ {fuel : Nat} {t : Text} {v : Value} {rest : Text},
    readValue fuel t = .ok (v, rest) → IsJson v
  | 0, _, _, _, h => nomatch h
  | fuel + 1, t, v, rest, h => by
    unfold readValue at h
    split at h
    · obtain ⟨⟨s, after⟩, -, heq⟩ := ok_of_map h
      rw [← (Prod.mk.inj heq).1]
      exact .scalar trivial
    · split at h
      · rw [← (Prod.mk.inj (Except.ok.inj h)).1]
        exact isFields_nil.isJson
      · obtain ⟨⟨fs, after⟩, hfs, h⟩ := ok_of_bind h
        rw [← (Prod.mk.inj (Except.ok.inj h)).1]
        exact (isFields_ofPairs (readFields_isJson hfs)).isJson
    · split at h
      · rw [← (Prod.mk.inj (Except.ok.inj h)).1]
        exact .list fun x hx => absurd hx List.not_mem_nil
      · obtain ⟨⟨xs, after⟩, hxs, h⟩ := ok_of_bind h
        rw [← (Prod.mk.inj (Except.ok.inj h)).1]
        exact .list (readItems_isJson hxs)
    · split at h
      · next hfound =>
        rw [Except.ok.inj h] at hfound
        exact readLiteral?_isJson hfound
      · split at h
        · next hfound =>
          rw [Except.ok.inj h] at hfound
          exact readNumber?_isJson hfound
        · cases h

theorem readItems_isJson : ∀ {fuel : Nat} {t : Text} {xs : List Value} {rest : Text},
    readItems fuel t = .ok (xs, rest) → ∀ x ∈ xs, IsJson x
  | 0, _, _, _, h => nomatch h
  | fuel + 1, t, xs, rest, h => by
    unfold readItems at h
    obtain ⟨⟨x, rest'⟩, hx, h⟩ := ok_of_bind h
    have hx := readValue_isJson hx
    simp only at h
    split at h
    · rw [← (Prod.mk.inj (Except.ok.inj h)).1]
      exact List.forall_mem_singleton.mpr hx
    · obtain ⟨⟨ys, after⟩, hys, h⟩ := ok_of_bind h
      rw [← (Prod.mk.inj (Except.ok.inj h)).1]
      exact List.forall_mem_cons.mpr ⟨hx, readItems_isJson hys⟩
    · cases h

theorem readFields_isJson : ∀ {fuel : Nat} {t : Text} {fs : List (Scalar × Value)} {rest : Text},
    readFields fuel t = .ok (fs, rest) → ∀ f ∈ fs, (∃ t, f.1 = .text t) ∧ IsJson f.2
  | 0, _, _, _, h => nomatch h
  | fuel + 1, t, fs, rest, h => by
    unfold readFields at h
    split at h
    · obtain ⟨⟨name, rest'⟩, -, h⟩ := ok_of_bind h
      simp only at h
      split at h
      · obtain ⟨⟨x, rest''⟩, hx, h⟩ := ok_of_bind h
        have hx := readValue_isJson hx
        simp only at h
        split at h
        · rw [← (Prod.mk.inj (Except.ok.inj h)).1]
          exact List.forall_mem_singleton.mpr ⟨⟨name, rfl⟩, hx⟩
        · obtain ⟨⟨gs, after⟩, hgs, h⟩ := ok_of_bind h
          rw [← (Prod.mk.inj (Except.ok.inj h)).1]
          exact List.forall_mem_cons.mpr ⟨⟨⟨name, rfl⟩, hx⟩, readFields_isJson hgs⟩
        · cases h
      · cases h
    · cases h

end

/-- What is read from a JSON text can be written as JSON text. -/
theorem parse_isJson {t : Text} {v : Value} (h : parse t = .ok v) : IsJson v := by
  have hwhole := ok_of_mapError h
  unfold readWholeText at hwhole
  split at hwhole
  · obtain ⟨_, h, -⟩ := ok_of_bind hwhole
    cases h
  · obtain ⟨⟨u, rest⟩, hu, hwhole⟩ := ok_of_bind hwhole
    simp only at hwhole
    split at hwhole
    · rw [← Except.ok.inj hwhole]
      exact readValue_isJson hu
    · cases hwhole

/-- So is every document that a text is decoded to. -/
theorem decodeJson_isJson {name kept : Text} {d : Document}
    (h : Store.decodeJson name kept = .ok d) : IsJson (.object d) := by
  unfold Store.decodeJson at h
  split at h
  · cases h
  · next hparse =>
    rw [← Except.ok.inj h]
    exact parse_isJson hparse
  · cases h

end Json

end Cabinet
