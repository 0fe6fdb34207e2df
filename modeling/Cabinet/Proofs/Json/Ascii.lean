import Cabinet.Proofs.Json.Points
import Cabinet.Proofs.Json.RoundTrip
import Cabinet.Proofs.Text.Utf8

/-!
# Reading texts from ASCII

In ASCII every other code point is written as an escape, a character past the first plane as two. Two lone
surrogates that stand together are written like such a character, and so they are read as one.

* `Json.readText_ascii` : one code point is read from its own escape, unless it is a surrogate and what
  follows makes up a character with it;
* `Text.Alike`, `Scalar.Alike` : texts and scalars that are written in ASCII in the same way;
* `Value.Encodable` : a value without surrogates in any text;
* `Json.readsAs_text` : a text is read as another one if what stands between its quotes is;
* `Json.exists_textReadsAs`, `Json.exists_readsAs` : every text, and every scalar that has a literal, is read
  as one that is written in the same way; `Json.textReadsAs_encodable` : without surrogates it is the same;
* `Json.readsAs_named` : an object keeps its names; `Json.render_named` : only the values make a difference.
-/

namespace Cabinet

/-- Two texts that are written in ASCII in the same way. -/
def Text.Alike (t u : Text) : Prop := t.flatMap (Json.escape true) = u.flatMap (Json.escape true)

theorem Text.Alike.cons (p : CodePoint) {t u : Text} (h : t.Alike u) : Text.Alike (p :: t) (p :: u) := by
  unfold Text.Alike at h ⊢
  rw [List.flatMap_cons, List.flatMap_cons, h]

/-- Two scalars that are the same, or texts that are written in ASCII in the same way. -/
inductive Scalar.Alike : Scalar → Scalar → Prop where
  | refl (s : Scalar) : Alike s s
  | text {t u : Text} : t.Alike u → Alike (.text t) (.text u)

/-- A value whose texts have bytes. -/
def Value.Encodable (v : Value) : Prop := ∀ t, .text t ∈ v.scalars → t.Encodable

namespace Value.Encodable
variable {xs : List Value} {d : Document} {f : Scalar × Value}

theorem of_mem_list (h : Encodable (.list xs)) {x : Value} (hx : x ∈ xs) : x.Encodable :=
  fun t ht => h t (mem_scalars_list.mpr ⟨x, hx, ht⟩)

theorem of_mem_object (h : Encodable (.object d)) (hf : f ∈ d) : f.2.Encodable :=
  fun t ht => h t (mem_scalars_object.mpr ⟨f, hf, .inr ht⟩)

theorem name (h : Encodable (.object d)) (hf : f ∈ d) {t : Text} (ht : f.1 = .text t) : t.Encodable :=
  h t (mem_scalars_object.mpr ⟨f, hf, .inl ht.symm⟩)

end Value.Encodable

namespace Json

open Text (joinSurrogates?)

variable (opening : Nat)

/-! ## One code point -/

theorem joinSurrogates?_none {n m : Nat} (h : ¬ (0xDC00 ≤ m ∧ m < 0xE000)) : joinSurrogates? n m = none :=
  if_neg fun hrange => h hrange.2.2

/-- A number past the first plane is escaped by the two surrogates that make it up. -/
theorem escapeNumber_large {n : Nat} (hn : ¬ n < 0x10000) (hmax : n < 0x110000) :
    ∃ a b c d e f g h, escapeNumber n =
        [.char '\\', .char 'u', a, b, c, d, .char '\\', .char 'u', e, f, g, h] ∧
      hexNumber? a b c d = some (0xD800 + (n - 0x10000) / 0x400) ∧
      hexNumber? e f g h = some (0xDC00 + (n - 0x10000) % 0x400) :=
  ⟨_, _, _, _, _, _, _, _, by rw [escapeNumber, if_neg hn]; rfl, hexNumber?_hex (by omega),
    hexNumber?_hex (by omega)⟩

/-- The escape of a code point that makes up no character with a unit adds nothing to one before it. -/
theorem alone_escape {n : Nat} {q : CodePoint}
    (hq : ∀ v, q = .surrogate v → joinSurrogates? n q.toNat = none) (rest : Text) :
    Alone n (escape true q ++ rest) := by
  intro e f g h next after heq
  obtain ⟨p, hescape, hp⟩ | ⟨hescape, -⟩ | ⟨hescape, -, hbackslash, -⟩ := escape_cases true q
  · rw [hescape] at heq
    obtain ⟨rfl, -⟩ := List.cons.inj (List.cons.inj heq).2
    cases hp
  · by_cases hsmall : q.toNat < 0x10000
    · obtain ⟨a, b, c, d, hnumber, hdigits⟩ := escapeNumber_small hsmall
      rw [hescape, hnumber] at heq
      simp only [List.cons_append, List.nil_append, List.cons.injEq, true_and] at heq
      obtain ⟨rfl, rfl, rfl, rfl, -⟩ := heq
      refine ⟨q.toNat, hdigits, ?_⟩
      cases q with
      | surrogate v => exact hq v rfl
      | char c =>
        have hc : c.toNat < 0xD800 ∨ 0xDFFF < c.toNat ∧ c.toNat < 0x110000 := c.valid
        exact joinSurrogates?_none (by show ¬ (0xDC00 ≤ c.toNat ∧ c.toNat < 0xE000); omega)
    · have hmax : q.toNat < 0x110000 := by
        cases q with
        | surrogate v => exact absurd (show 0xD800 + v.val < 0x10000 by omega) hsmall
        | char c =>
          have hc : c.toNat < 0xD800 ∨ 0xDFFF < c.toNat ∧ c.toNat < 0x110000 := c.valid
          show c.toNat < 0x110000
          omega
      obtain ⟨a, b, c, d, a', b', c', d', hnumber, hdigits, -⟩ := escapeNumber_large hsmall hmax
      rw [hescape, hnumber] at heq
      simp only [List.cons_append, List.nil_append, List.cons.injEq, true_and] at heq
      obtain ⟨rfl, rfl, rfl, rfl, -⟩ := heq
      exact ⟨_, hdigits, joinSurrogates?_none (by omega)⟩
  · rw [hescape] at heq
    exact absurd (List.cons.inj heq).1 hbackslash

/-- A code point is read from its own escape. -/
theorem readText_ascii (p : CodePoint) {t : Text} (ht : t ≠ [])
    (halone : ∀ v, p = .surrogate v → Alone p.toNat t) :
    readText opening (escape true p ++ t) = push p (readText opening t) := by
  obtain ⟨q, hescape, hq⟩ | ⟨hescape, -⟩ | ⟨hescape, hquote, hbackslash, hn⟩ := escape_cases true p
  · rw [hescape]
    exact readText_simple opening t hq
  · cases p with
    | surrogate v =>
      have hsmall : (CodePoint.surrogate v).toNat < 0x10000 := by
        show 0xD800 + v.val < 0x10000
        omega
      obtain ⟨a, b, c, d, hnumber, hdigits⟩ := escapeNumber_small hsmall
      have hread := readText_number opening hdigits (fun _ _ => halone v rfl) ht
      rw [ofNat_toNat] at hread
      rw [hescape, hnumber]
      exact hread
    | char x =>
      have hx : x.toNat < 0xD800 ∨ 0xDFFF < x.toNat ∧ x.toNat < 0x110000 := x.valid
      change escape true (.char x) = escapeNumber x.toNat at hescape
      by_cases hsmall : x.toNat < 0x10000
      · obtain ⟨a, b, c, d, hnumber, hdigits⟩ := escapeNumber_small hsmall
        have hread := readText_number opening hdigits (by omega) ht
        have hself : CodePoint.ofNat x.toNat = .char x := ofNat_toNat (.char x)
        rw [hself] at hread
        rw [hescape, hnumber]
        exact hread
      · obtain ⟨a, b, c, d, e, f, g, h, hnumber, hhigh, hlow⟩ := escapeNumber_large hsmall (by omega)
        have hjoin : joinSurrogates? (0xD800 + (x.toNat - 0x10000) / 0x400)
            (0xDC00 + (x.toNat - 0x10000) % 0x400) = some x := by
          have hunits : 0x10000 + (0xD800 + (x.toNat - 0x10000) / 0x400 - 0xD800) * 0x400 +
              (0xDC00 + (x.toNat - 0x10000) % 0x400 - 0xDC00) = x.toNat := by omega
          rw [joinSurrogates?, if_pos (by omega), hunits, Char.ofNat_toNat]
        rw [hescape, hnumber]
        exact readText_pair opening hhigh hlow hjoin ht
  · rw [hescape]
    exact readText_plain opening t hquote hbackslash hn

/-- What lies past the printable ASCII characters is escaped by its number. -/
theorem escape_number {p : CodePoint} (hp : 0x7E < p.toNat) : escape true p = escapeNumber p.toNat := by
  unfold escape
  split
  · exact absurd hp (by decide)
  · exact absurd hp (by decide)
  · exact absurd hp (by decide)
  · exact absurd hp (by decide)
  · exact absurd hp (by decide)
  · simp only
    rw [if_neg (by omega), if_neg (by omega), if_pos (by simp [hp])]

/-- Two surrogates that make up a character are escaped as it is. -/
theorem escape_joined {v w : Fin 0x800} {c : Char}
    (hjoin : joinSurrogates? (0xD800 + v.val) (0xD800 + w.val) = some c) :
    escape true (.surrogate v) ++ escape true (.surrogate w) = escape true (.char c) := by
  unfold joinSurrogates? at hjoin
  split at hjoin
  · next hrange =>
    have hvalid : (0x10000 + (0xD800 + v.val - 0xD800) * 0x400 + (0xD800 + w.val - 0xDC00)).isValidChar :=
      .inr ⟨by omega, by omega⟩
    have hc : (CodePoint.char c).toNat =
        0x10000 + (0xD800 + v.val - 0xD800) * 0x400 + (0xD800 + w.val - 0xDC00) := by
      rw [← Option.some.inj hjoin, CodePoint.toNat, Char.toNat_ofNat, if_pos hvalid]
    have hhigh : 0xD800 + ((CodePoint.char c).toNat - 0x10000) / 0x400 = 0xD800 + v.val := by omega
    have hlow : 0xDC00 + ((CodePoint.char c).toNat - 0x10000) % 0x400 = 0xD800 + w.val := by omega
    rw [escape_number (p := .surrogate v) (by show 0x7E < 0xD800 + v.val; omega),
      escape_number (p := .surrogate w) (by show 0x7E < 0xD800 + w.val; omega),
      escape_number (p := .char c) (by omega)]
    show escapeNumber (0xD800 + v.val) ++ escapeNumber (0xD800 + w.val) = _
    unfold escapeNumber
    rw [if_pos (by omega), if_pos (by omega), if_neg (by omega), hhigh, hlow]
    simp only [List.append_assoc]
  · cases hjoin

/-! ## Whole texts -/

/-- What a text is read as once another code point stands in front. -/
theorem TextReadsAs.cons {p : CodePoint} {t u : Text} (h : TextReadsAs true t u)
    (halone : ∀ v, p = .surrogate v → ∀ rest, Alone p.toNat (t.flatMap (escape true) ++ .char '"' :: rest)) :
    TextReadsAs true (p :: t) (p :: u) := by
  intro opening rest
  rw [List.flatMap_cons, List.append_assoc,
    readText_ascii opening p (by simp) (fun v hp => halone v hp rest), h]
  rfl

/-- Nothing but the closing quote follows. -/
theorem alone_quote (n : Nat) (rest : Text) : Alone n (.char '"' :: rest) := by
  intro e f g h next after heq
  exact absurd (List.cons.inj heq).1 (by decide)

/-- Every text is read as one that is written in the same way. -/
theorem exists_textReadsAs : ∀ t : Text, ∃ u, TextReadsAs true t u ∧ t.Alike u
  | [] => ⟨[], fun opening rest => readText_flatMap opening [] rest, rfl⟩
  | [p] => ⟨[p], TextReadsAs.cons (fun opening rest => readText_flatMap opening [] rest)
      fun _ _ rest => alone_quote _ rest, rfl⟩
  | .surrogate v :: .surrogate w :: t => by
    cases hjoin : joinSurrogates? (0xD800 + v.val) (0xD800 + w.val) with
    | some c =>
      obtain ⟨u, hread, halike⟩ := exists_textReadsAs t
      have hread : TextReadsAs true (.char c :: t) (.char c :: u) := hread.cons fun v hv => by cases hv
      have hsame : Text.Alike (.surrogate v :: .surrogate w :: t) (.char c :: t) := by
        unfold Text.Alike
        rw [List.flatMap_cons, List.flatMap_cons, List.flatMap_cons, ← List.append_assoc, escape_joined hjoin]
      refine ⟨.char c :: u, fun opening rest => ?_, hsame.trans (halike.cons _)⟩
      rw [hsame]
      exact hread opening rest
    | none =>
      obtain ⟨u, hread, halike⟩ := exists_textReadsAs (.surrogate w :: t)
      refine ⟨.surrogate v :: u, hread.cons fun _ _ rest => ?_, halike.cons _⟩
      rw [List.flatMap_cons, List.append_assoc]
      exact alone_escape (fun _ _ => hjoin) _
  | .surrogate v :: .char c :: t => by
    obtain ⟨u, hread, halike⟩ := exists_textReadsAs (.char c :: t)
    refine ⟨.surrogate v :: u, hread.cons fun _ _ rest => ?_, halike.cons _⟩
    rw [List.flatMap_cons, List.append_assoc]
    exact alone_escape (fun _ hc => by cases hc) _
  | .char c :: q :: t => by
    obtain ⟨u, hread, halike⟩ := exists_textReadsAs (q :: t)
    exact ⟨.char c :: u, hread.cons fun v hv => by (cases hv), halike.cons _⟩

/-- A text without surrogates is read as it is. -/
theorem textReadsAs_encodable : ∀ {t : Text}, t.Encodable → TextReadsAs true t t
  | [], _ => fun opening rest => readText_flatMap opening [] rest
  | p :: t, h => by
    obtain ⟨⟨c, rfl⟩, ht⟩ := List.forall_mem_cons.mp h
    exact (textReadsAs_encodable ht).cons nofun

theorem escape_ne_nil (asciiOnly : Bool) (p : CodePoint) : escape asciiOnly p ≠ [] := by
  obtain ⟨q, hescape, -⟩ | ⟨hescape, -⟩ | ⟨hescape, -⟩ := escape_cases asciiOnly p
  · rw [hescape]
    exact List.cons_ne_nil _ _
  · rw [hescape, escapeNumber]
    split <;> exact List.cons_ne_nil _ _
  · rw [hescape]
    exact List.cons_ne_nil _ _

/-- Only an empty text is written like one. -/
theorem alike_nil {t u : Text} (h : t.Alike u) (ht : t = []) : u = [] := by
  subst ht
  cases u with
  | nil => rfl
  | cons p u => exact absurd (List.append_eq_nil_iff.mp h.symm).1 (escape_ne_nil true p)

/-! ## Scalars -/

theorem renderScalar_alike {s s' : Scalar} (h : s.Alike s') : renderScalar true s = renderScalar true s' := by
  cases h with
  | refl => rfl
  | text halike => exact congrArg (fun written => .char '"' :: written ++ [.char '"']) halike

variable {style : Style}

theorem readsAs_text (hascii : style.asciiOnly = true) {t u : Text} (hread : TextReadsAs true t u) :
    ReadsAs style (.text t) (.text u) := by
  refine ⟨fun level => ?_, fun level fuel rest hfuel _ => ?_⟩
  · rw [render]
    exact ⟨_, _, rfl, .inr (by decide)⟩
  · rw [render, hascii] at hfuel ⊢
    have htext : renderScalar true (.text t) ++ rest =
        .char '"' :: (t.flatMap (escape true) ++ .char '"' :: rest) := by
      show renderText true t ++ rest = _
      rw [renderText, List.append_assoc]
      rfl
    obtain ⟨fuel, rfl⟩ : ∃ n, fuel = n + 1 := ⟨fuel - 1, by
      have hlength : 1 ≤ (renderScalar true (.text t)).length := Nat.le_add_left 1 _
      omega⟩
    rw [htext, readValue, hread]
    rfl

/-- Every scalar that has a literal is read as one that is written in the same way. -/
theorem exists_readsAs (hascii : style.asciiOnly = true) {s : Scalar} (hs : HasLiteral s) :
    ∃ s', HasLiteral s' ∧ s.Alike s' ∧ ReadsAs style (.scalar s) (.scalar s') := by
  cases s with
  | text t =>
    obtain ⟨u, hread, halike⟩ := exists_textReadsAs t
    exact ⟨.text u, trivial, .text halike, readsAs_text hascii hread⟩
  | null | bool b | int n | float x => exact ⟨_, hs, .refl _, readsAs_scalar hs rfl⟩
  | date d => exact hs.elim
  | timestamp t => exact hs.elim
  | bytes content => exact hs.elim

/-! ## Fields -/

theorem Style.spaced_indentedAscii : Style.indentedAscii.Spaced :=
  ⟨⟨[], rfl, by unfold Blank; decide⟩, ⟨[.char ' '], rfl, by unfold Blank; decide⟩⟩

theorem Style.spaced_ascii : Style.ascii.Spaced :=
  ⟨⟨[.char ' '], rfl, by unfold Blank; decide⟩, ⟨[.char ' '], rfl, by unfold Blank; decide⟩⟩

/-- An object whose fields have distinct names without surrogates keeps them, whatever each value is read
as. -/
theorem readsAs_named {α : Type} (hstyle : style.Spaced) (hascii : style.asciiOnly = true)
    (name : α → String) {value value' : α → Value} {xs : List α}
    (hread : ∀ x ∈ xs, ReadsAs style (value x) (value' x))
    (hdistinct : (xs.map fun x => Scalar.text (name x).toText).Nodup) :
    ReadsAs style (.object (xs.map fun x => (.text (name x).toText, value x)))
      (.object (xs.map fun x => (.text (name x).toText, value' x))) := by
  have hfields : List.Forall₂ (FieldReadsAs style) (xs.map fun x => (.text (name x).toText, value x))
      (xs.map fun x => (.text (name x).toText, value' x)) := by
    rw [List.forall₂_map_left_iff, List.forall₂_map_right_iff, List.forall₂_same]
    refine fun x hx => ⟨⟨_, rfl, ?_⟩, hread x hx⟩
    rw [hascii]
    exact textReadsAs_encodable (Text.encodable_toText _)
  have hnames : ∀ f ∈ xs.map fun x => (Scalar.text (name x).toText, value' x), ∃ t, f.1 = .text t := by
    rintro f hf
    obtain ⟨x, -, rfl⟩ := List.mem_map.mp hf
    exact ⟨_, rfl⟩
  have hobject := readsAs_object hstyle hfields
  rwa [ofPairs_eq hnames (by rwa [List.map_map])] at hobject

theorem renderFields_named {α : Type} (name : α → Scalar) {value value' : α → Value} :
    ∀ {xs : List α}, (∀ x ∈ xs, ∀ level, render style level (value x) = render style level (value' x)) →
    ∀ level, renderFields style level (xs.map fun x => (name x, value x)) =
      renderFields style level (xs.map fun x => (name x, value' x))
  | [], _, _ => rfl
  | x :: xs, h, level => by
    rw [List.map_cons, List.map_cons, renderFields, renderFields, h x List.mem_cons_self,
      renderFields_named name fun y hy => h y (List.mem_cons_of_mem x hy)]

/-- Objects of the same names are written in the same way if their values are. -/
theorem render_named {α : Type} (name : α → Scalar) {value value' : α → Value} {xs : List α}
    (h : ∀ x ∈ xs, ∀ level, render style level (value x) = render style level (value' x)) (level : Nat) :
    render style level (.object (xs.map fun x => (name x, value x))) =
      render style level (.object (xs.map fun x => (name x, value' x))) := by
  cases xs with
  | nil => rfl
  | cons x xs =>
    rw [List.map_cons, List.map_cons, render, render, h x List.mem_cons_self,
      renderFields_named name fun y hy => h y (List.mem_cons_of_mem x hy)]

end Json

end Cabinet
