import Cabinet.Failure

/-!
# Storage keys

An identifier becomes a file name by writing each byte of its UTF-8 form that is no ASCII letter,
digit, underscore or hyphen as `%` and two upper-case hexadecimal digits.

* `Key.escape` : the key of an identifier, which may not be empty;
* `Key.unescape` : the identifier of a key; a text that no identifier has as its key is refused.
-/

namespace Cabinet.Key

/-- Whether a byte stands for itself in a key. -/
def isPlain (b : UInt8) : Bool := (CodePoint.char (Char.ofNat b.toNat)).isAsciiWord || b == 45

/-- A hexadecimal digit in upper case. -/
def digit (n : Nat) : CodePoint := .char (Nat.digitChar n).toUpper

/-- How a byte is written. -/
def escapeByte (b : UInt8) : Text :=
  if isPlain b then [.char (Char.ofNat b.toNat)]
  else [.char '%', digit (b.toNat / 16), digit (b.toNat % 16)]

/-- The key of an identifier. -/
def escape (id : Text) : Except Failure Text :=
  if id.isEmpty then .error (.badIdentifier id.quoted)
  else match id.toUtf8 with
    | .ok bytes => .ok (bytes.flatMap escapeByte)
    | .error e => .error (.loneSurrogate e)

/-- The key of a value, which has to be a text. -/
def ofValue : Value → Except Failure Text
  | .text id => escape id
  | v => .error (.badIdentifier v.shown)

/-- The bytes that a key is written for, if it is written in ASCII with both digits behind each
`%`. -/
def bytes? : Text → Option (List UInt8)
  | [] => some []
  | .char '%' :: a :: b :: rest => do
    return ((← a.hexDigit?) * 16 + (← b.hexDigit?)).toUInt8 :: (← bytes? rest)
  | p :: rest =>
    if p = .char '%' || 0x80 ≤ p.toNat then none
    else (bytes? rest).map (p.toNat.toUInt8 :: ·)

/-- The identifier of a key. -/
def unescape (key : Text) : Except Failure Text :=
  match (bytes? key).bind fun bytes => (Text.ofUtf8 bytes).toOption with
  | none => .error (.badKey key)
  | some id =>
    match escape id with
    | .ok written => if written = key then .ok id else .error (.badKey key)
    | .error _ => .error (.badKey key)

end Cabinet.Key
