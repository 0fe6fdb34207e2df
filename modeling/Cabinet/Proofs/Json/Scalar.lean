import Cabinet.Proofs.Json.Number
import Cabinet.Proofs.Json.Text
import Cabinet.Proofs.Text.Lead

/-!
# Reading scalars back

* `Json.Opens` : the code points that the text of a value begins with;
* `Json.readValue_renderText`, `Json.readValue_renderScalar` : a scalar is read from its literal.
-/

namespace Cabinet.Json

/-- A code point that a value begins with. -/
def Opens (p : CodePoint) : Prop := p.isAsciiDigit = true ∨ p ∈ "\"[\x7b-ntfNI".toText

theorem Opens.ne {p q : CodePoint} (h : Opens p)
    (hq : q.isAsciiDigit = false ∧ q ∉ "\"[\x7b-ntfNI".toText) : p ≠ q := by
  rintro rfl
  rcases h with h | h
  · rw [hq.1] at h
    cases h
  · exact hq.2 h

theorem Opens.isSpace {p : CodePoint} (h : Opens p) : isSpace p = false := by
  unfold Json.isSpace
  split
  · exact absurd rfl (h.ne (by decide))
  · exact absurd rfl (h.ne (by decide))
  · exact absurd rfl (h.ne (by decide))
  · exact absurd rfl (h.ne (by decide))
  · rfl

/-! ## Literals and numbers -/

/-- What is no text, list or object is a literal or a number. -/
theorem readValue_other {fuel : Nat} {p : CodePoint} {t : Text} (h : p ∉ "\"[\x7b".toText) :
    readValue (fuel + 1) (p :: t) = match readLiteral? (p :: t) with
      | some found => .ok found
      | none => match readNumber? (p :: t) with
        | some found => .ok found
        | none => flaw .value (p :: t) := by
  have hother : ∀ c ∈ "\"[\x7b".toText, ∀ rest, p :: t ≠ c :: rest := by
    rintro c hc rest heq
    exact h ((List.cons.inj heq).1 ▸ hc)
  unfold readValue
  split
  · next heq => exact absurd heq (hother _ (by decide) _)
  · next heq => exact absurd heq (hother _ (by decide) _)
  · next heq => exact absurd heq (hother _ (by decide) _)
  · rfl

theorem readValue_literal {fuel : Nat} {word rest : Text} {v : Value}
    (h : readLiteral? (word ++ rest) = some (v, rest))
    (hword : ∀ p, word.head? = some p → p ∉ "\"[\x7b".toText) (hne : word ≠ []) :
    readValue (fuel + 1) (word ++ rest) = .ok (v, rest) := by
  cases word with
  | nil => exact absurd rfl hne
  | cons p word =>
    show readValue (fuel + 1) (p :: (word ++ rest)) = _
    rw [readValue_other (hword p rfl)]
    have h : readLiteral? (p :: (word ++ rest)) = some (v, rest) := h
    rw [h]

theorem readNumber?_literal : ∀ w ∈ literals, ∀ rest, readNumber? (w.1 ++ rest) = none := by
  unfold literals
  simp only [List.mem_cons, List.not_mem_nil, or_false]
  rintro w (rfl | rfl | rfl | rfl | rfl | rfl) rest <;> rfl

/-- No number is a literal. -/
theorem readLiteral?_number {t : Text} {found : Value × Text} (h : readNumber? t = some found) :
    readLiteral? t = none := by
  unfold readLiteral?
  apply List.findSome?_eq_none_iff.mpr
  intro w hw
  show (Text.dropLead? w.1 t).map (fun rest => (w.2, rest)) = none
  cases hdrop : Text.dropLead? w.1 t with
  | none => rw [Option.map_none]
  | some rest =>
    rw [Text.dropLead?_eq_some.mp hdrop, readNumber?_literal w hw rest] at h
    cases h

theorem readValue_number {fuel : Nat} {t : Text} {found : Value × Text}
    (h : readNumber? t = some found) : readValue (fuel + 1) t = .ok found := by
  cases t with
  | nil => cases h
  | cons p t =>
    have hp : p ∉ "\"[\x7b".toText := by
      show p ∉ [.char '"', .char '[', .char '\x7b']
      simp only [List.mem_cons, List.not_mem_nil, or_false]
      rintro (rfl | rfl | rfl) <;> cases h
    rw [readValue_other hp, readLiteral?_number h, h]

/-- A number begins with a digit or a minus. -/
theorem opens_of_readNumber? {t : Text} {found : Value × Text} (h : readNumber? t = some found) :
    ∃ p rest, t = p :: rest ∧ Opens p := by
  unfold readNumber? at h
  split at h
  · exact ⟨_, _, rfl, .inr (by decide)⟩
  · obtain ⟨p, rest, rfl, hp⟩ := head_of_readMagnitude? h
    exact ⟨p, rest, rfl, .inl hp⟩

/-! ## Scalars -/

/-- A scalar that JSON has a literal for. -/
def HasLiteral : Scalar → Prop
  | .date _ | .timestamp _ | .bytes _ => False
  | _ => True

theorem readValue_renderText {fuel : Nat} (t rest : Text) :
    readValue (fuel + 1) (renderText false t ++ rest) = .ok (.text t, rest) := by
  have htext : renderText false t ++ rest =
      .char '"' :: (t.flatMap (escape false) ++ .char '"' :: rest) := by
    unfold renderText
    rw [List.append_assoc]
    rfl
  rw [htext, readValue, readText_flatMap]
  rfl

theorem readValue_renderDouble {fuel : Nat} {rest : Text} (x : Double) (hrest : Stops rest) :
    readValue (fuel + 1) (renderDouble x ++ rest) = .ok (.float x, rest) := by
  cases x with
  | nan => exact readValue_literal rfl (by decide) (by decide)
  | infinity negative =>
    cases negative
    · exact readValue_literal rfl (by decide) (by decide)
    · exact readValue_literal rfl (by decide) (by decide)
  | finite negative units hunits => exact readValue_number (readNumber?_text negative hunits hrest)

/-- A scalar is read from its literal. -/
theorem readValue_renderScalar {fuel : Nat} {rest : Text} (s : Scalar) (hs : HasLiteral s)
    (hrest : Stops rest) :
    readValue (fuel + 1) (renderScalar false s ++ rest) = .ok (.scalar s, rest) := by
  cases s with
  | null => exact readValue_literal rfl (by decide) (by decide)
  | bool b =>
    cases b
    · exact readValue_literal rfl (by decide) (by decide)
    · exact readValue_literal rfl (by decide) (by decide)
  | int n => exact readValue_number (readNumber?_ofInt n hrest)
  | float x => exact readValue_renderDouble x hrest
  | text t => exact readValue_renderText t rest
  | date d => exact hs.elim
  | timestamp t => exact hs.elim
  | bytes content => exact hs.elim

theorem opens_renderScalar (s : Scalar) (hs : HasLiteral s) :
    ∃ p t, renderScalar false s = p :: t ∧ Opens p := by
  have hstops : Stops [] := fun p hp => by cases hp
  cases s with
  | null => exact ⟨_, _, rfl, .inr (by decide)⟩
  | bool b =>
    cases b
    · exact ⟨_, _, rfl, .inr (by decide)⟩
    · exact ⟨_, _, rfl, .inr (by decide)⟩
  | int n =>
    have hread := readNumber?_ofInt n hstops
    rw [List.append_nil] at hread
    exact opens_of_readNumber? hread
  | float x =>
    cases x with
    | nan => exact ⟨_, _, rfl, .inr (by decide)⟩
    | infinity negative =>
      cases negative
      · exact ⟨_, _, rfl, .inr (by decide)⟩
      · exact ⟨_, _, rfl, .inr (by decide)⟩
    | finite negative units hunits =>
      have hread := readNumber?_text negative hunits hstops
      rw [List.append_nil] at hread
      exact opens_of_readNumber? hread
  | text t => exact ⟨_, _, rfl, .inr (by decide)⟩
  | date d => exact hs.elim
  | timestamp t => exact hs.elim
  | bytes content => exact hs.elim

end Cabinet.Json
