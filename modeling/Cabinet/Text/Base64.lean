import Cabinet.Text.Basic

/-!
# Bytes as text in base 64

* `Base64.encode` : bytes as lines of 76 digits at most, each with a line feed;
* `Base64.decode?` : the bytes of a text, where everything but digits and padding is passed over.
-/

namespace Cabinet.Base64

def digit (n : Nat) : Char :=
  if n < 26 then Char.ofNat (n + 65)
  else if n < 52 then Char.ofNat (n + 71)
  else if n < 62 then Char.ofNat (n - 4)
  else if n = 62 then '+' else '/'

/-- The four digits for up to three bytes. -/
def encodeGroup (bytes : List UInt8) : Text :=
  let filled := bytes.map UInt8.toNat ++ List.replicate (3 - bytes.length) 0
  let number := filled.foldl (fun n b => n * 256 + b) 0
  let digits := [number / 262144, number / 4096 % 64, number / 64 % 64, number % 64]
  ((digits.take (bytes.length + 1)).map fun n => .char (digit n))
    ++ Text.repeated (3 - bytes.length) '='

/-- Digits without line feeds. -/
def encodeLine : List UInt8 → Text
  | a :: b :: c :: rest => encodeGroup [a, b, c] ++ encodeLine rest
  | [] => []
  | bytes => encodeGroup bytes

/-- Bytes as lines, each for 57 bytes at most; the fuel bounds the lines. -/
def encodeLines : (fuel : Nat) → List UInt8 → Text
  | 0, _ | _, [] => []
  | fuel + 1, bytes =>
    encodeLine (bytes.take 57) ++ [.char '\n'] ++ encodeLines fuel (bytes.drop 57)

def encode (bytes : List UInt8) : Text := encodeLines bytes.length bytes

/-- The value of a digit. -/
def digit? : CodePoint → Option Nat
  | .surrogate _ => none
  | .char c =>
    if 'A' ≤ c ∧ c ≤ 'Z' then some (c.toNat - 65)
    else if 'a' ≤ c ∧ c ≤ 'z' then some (c.toNat - 71)
    else if '0' ≤ c ∧ c ≤ '9' then some (c.toNat + 4)
    else if c = '+' then some 62
    else if c = '/' then some 63
    else none

/-- The bytes that up to four digits hold in full. -/
def groupBytes (digits : List Nat) : List UInt8 :=
  let number := (digits ++ List.replicate (4 - digits.length) 0).foldl (fun n d => n * 64 + d) 0
  ([number / 65536, number / 256 % 256, number % 256].take (digits.length - 1)).map (·.toUInt8)

/-- Reads on with the digits of a group that is not full and the padding right before. Padding that
makes a group full ends the text. -/
def decodeFrom (group : List Nat) (padding : Nat) : Text → Option (List UInt8)
  | [] => if group.isEmpty then some [] else none
  | p :: t =>
    if p = .char '=' then
      if 2 ≤ group.length then
        if 4 ≤ group.length + padding + 1 then some (groupBytes group)
        else decodeFrom group (padding + 1) t
      else decodeFrom group padding t
    else match digit? p with
      | none => decodeFrom group padding t
      | some d =>
        if group.length = 3 then (decodeFrom [] 0 t).map (groupBytes (group ++ [d]) ++ ·)
        else decodeFrom (group ++ [d]) 0 t

def decode? (t : Text) : Option (List UInt8) := decodeFrom [] 0 t

end Cabinet.Base64
