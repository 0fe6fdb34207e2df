import Cabinet.Proofs.Json.Points

/-!
# The lines of JSON text

Within JSON text a carriage return is always escaped, so a file of it has its lines ended in one way:
`Json.write_plain` says that no value is written with a carriage return.
-/

namespace Cabinet.Json

/-- A text without carriage returns. -/
def Plain (t : Text) : Prop := .char '\r' ∉ t

instance (t : Text) : Decidable (Plain t) := inferInstanceAs (Decidable (_ ∉ _))

theorem plain_iff_within {t : Text} : Plain t ↔ Text.Within (· ≠ .char '\r') t :=
  ⟨fun h _ hp heq => h (heq ▸ hp), fun h hp => h _ hp rfl⟩

/-- A style whose separators hold no carriage returns. -/
structure Style.IsPlain (style : Style) : Prop where
  item : Plain style.itemSeparator.toText
  name : Plain style.nameSeparator.toText

theorem write_plain {style : Style} (h : style.IsPlain) {v : Value} {t : Text}
    (ht : write style v = .ok t) : Plain t := by
  have hascii : HoldsAscii (· ≠ .char '\r') := by
    rintro _ hc heq
    obtain rfl := CodePoint.char.inj heq
    exact absurd hc (by decide)
  obtain ⟨-, -, ht⟩ := ok_of_bind ht
  rw [← Except.ok.inj ht]
  exact plain_iff_within.mpr (render_within hascii
    ⟨plain_iff_within.mp h.item, plain_iff_within.mp h.name⟩ 0 v
    fun _ _ _ _ _ hp heq => absurd (heq ▸ hp) (by decide))

end Cabinet.Json
