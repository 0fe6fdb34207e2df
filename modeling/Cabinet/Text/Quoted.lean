import Cabinet.Text.Printable

/-!
# Quoted text in messages

A text is shown between single quotes, or between double quotes if it holds a single quote and no
double one. The quote in use, the backslash and every code point without a printable character are
written as escapes.
-/

namespace Cabinet

namespace Quoted

/-- The escape of a code point without a printable character. -/
def escapeNumber (n : Nat) : Text :=
  if n < 0x100 then "\\x".toText ++ Text.hex 2 n
  else if n < 0x10000 then "\\u".toText ++ Text.hex 4 n
  else "\\U".toText ++ Text.hex 8 n

/-- How one code point is written between two `quote`s. -/
def escape (quote : Char) (p : CodePoint) : Text :=
  if p = .char quote || p = .char '\\' then [.char '\\', p]
  else if p = .char '\n' then "\\n".toText
  else if p = .char '\r' then "\\r".toText
  else if p = .char '\t' then "\\t".toText
  else if p.isPrintable then [p]
  else escapeNumber p.toNat

/-- The quote that a text is shown between. -/
def quoteFor (t : Text) : Char :=
  if t.elem (.char '\'') && !t.elem (.char '"') then '"' else '\''

end Quoted

/-- A text as messages show it. -/
def Text.quoted (t : Text) : Text :=
  let quote := Quoted.quoteFor t
  .char quote :: t.flatMap (Quoted.escape quote) ++ [.char quote]

end Cabinet
