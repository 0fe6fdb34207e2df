import Cabinet.Json.Reader
import Cabinet.Text.Digit
import Cabinet.Value.Shown

/-!
# Tokens of path expressions

`Path.Token.ofText` cuts the text of a path expression into tokens and drops the blanks between
them. Text between backquotes is JSON, or a text without its quotes; text between double quotes is a
name; text between single quotes is a text literal.
-/

namespace Cabinet.Path

/-- What is wrong with the text of a path expression. -/
inductive SyntaxError where
  | empty
  | unknownToken (remaining : Nat)
  | unclosed (delimiter : Char) (remaining : Nat)
  | badLiteral (lexeme : Text)
  | badName (lexeme : Text)
  | unexpected (token : Text)
  | incomplete
  | quotedFunctionName
  | badFunctionName
  deriving DecidableEq, Repr

inductive Token where
  | name (t : Text)
  | quotedName (t : Text)
  | literal (v : Value)
  | number (n : Int)
  | dot
  | star
  | lbracket
  | rbracket
  | lparen
  | rparen
  | lbrace
  | rbrace
  | comma
  | colon
  | current
  | flatten
  | filter
  | or
  | pipe
  | and
  | reference
  | not
  | equal
  | notEqual
  | less
  | lessEqual
  | greater
  | greaterEqual
  | ending
  deriving DecidableEq

instance : Inhabited Token := ⟨.ending⟩

namespace Token

/-- A token as messages show it. -/
def text : Token → Text
  | .name t | .quotedName t => t
  | .literal v => v.plain
  | .number n => Text.ofInt n
  | .dot => ".".toText
  | .star => "*".toText
  | .lbracket => "[".toText
  | .rbracket => "]".toText
  | .lparen => "(".toText
  | .rparen => ")".toText
  | .lbrace => "\x7b".toText
  | .rbrace => "\x7d".toText
  | .comma => ",".toText
  | .colon => ":".toText
  | .current => "@".toText
  | .flatten => "[]".toText
  | .filter => "[?".toText
  | .or => "||".toText
  | .pipe => "|".toText
  | .and => "&&".toText
  | .reference => "&".toText
  | .not => "!".toText
  | .equal => "==".toText
  | .notEqual => "!=".toText
  | .less => "<".toText
  | .lessEqual => "<=".toText
  | .greater => ">".toText
  | .greaterEqual => ">=".toText
  | .ending => []

def isNameStart : CodePoint → Bool
  | .char c => ('a' ≤ c && c ≤ 'z') || ('A' ≤ c && c ≤ 'Z') || c == '_'
  | .surrogate _ => false

/-- The text up to a delimiter, which a backslash before it makes part of the text, and the rest
behind the delimiter. A backslash stays in the text. -/
def untilDelimiter? (delimiter : CodePoint) : Text → Option (Text × Text)
  | [] => none
  | .char '\\' :: [] => none
  | .char '\\' :: p :: rest =>
    (untilDelimiter? delimiter rest).map fun (t, rest) => (.char '\\' :: p :: t, rest)
  | p :: rest =>
    if p = delimiter then some ([], rest)
    else (untilDelimiter? delimiter rest).map fun (t, rest) => (p :: t, rest)

/-- Drops the backslash before every delimiter. -/
def unescape (delimiter : CodePoint) : Text → Text
  | [] => []
  | .char '\\' :: p :: rest =>
    if p = delimiter then delimiter :: unescape delimiter rest
    else .char '\\' :: unescape delimiter (p :: rest)
  | p :: rest => p :: unescape delimiter rest

def backquote : CodePoint := .ofNat 96

/-- The value of a literal between backquotes. -/
def literalValue? (lexeme : Text) : Option Value :=
  match Json.parse lexeme with
  | .ok v => some v
  | .error _ =>
    let bare := lexeme.dropWhile CodePoint.isBlank
    (Json.parse (.char '"' :: bare ++ [.char '"'])).toOption

/-- The name between double quotes. -/
def quotedName? (lexeme : Text) : Option Text :=
  match Json.parse (.char '"' :: lexeme ++ [.char '"']) with
  | .ok (.text t) => some t
  | _ => none

/-- A token of one code point, or of two if the second one follows. -/
def oneOrTwo (second : Char) (two one : Token) (rest : Text) : Token × Text :=
  match rest with
  | p :: after => if p = .char second then (two, after) else (one, rest)
  | [] => (one, [])

/-- The token that starts with a character, which `rest` follows. -/
def read (c : Char) (rest : Text) : Except SyntaxError (Token × Text) :=
  let here := rest.length + 1
  if isNameStart (.char c) then
    let (word, after) := rest.span CodePoint.isAsciiWord
    .ok (.name (.char c :: word), after)
  else if '0' ≤ c && c ≤ '9' then
    let (digits, after) := Json.takeDigits (.char c :: rest)
    .ok (.number (Json.natOfDigits digits), after)
  else match c with
    | '.' => .ok (.dot, rest)
    | '*' => .ok (.star, rest)
    | ']' => .ok (.rbracket, rest)
    | ',' => .ok (.comma, rest)
    | ':' => .ok (.colon, rest)
    | '@' => .ok (.current, rest)
    | '(' => .ok (.lparen, rest)
    | ')' => .ok (.rparen, rest)
    | '\x7b' => .ok (.lbrace, rest)
    | '\x7d' => .ok (.rbrace, rest)
    | '[' =>
      match rest with
      | .char ']' :: after => .ok (.flatten, after)
      | .char '?' :: after => .ok (.filter, after)
      | _ => .ok (.lbracket, rest)
    | '|' => .ok (oneOrTwo '|' .or .pipe rest)
    | '&' => .ok (oneOrTwo '&' .and .reference rest)
    | '<' => .ok (oneOrTwo '=' .lessEqual .less rest)
    | '>' => .ok (oneOrTwo '=' .greaterEqual .greater rest)
    | '!' => .ok (oneOrTwo '=' .notEqual .not rest)
    | '=' =>
      match rest with
      | .char '=' :: after => .ok (.equal, after)
      | _ => .error (.unknownToken here)
    | '-' =>
      match Json.takeDigits rest with
      | ([], _) => .error (.unknownToken here)
      | (digits, after) => .ok (.number (-(Json.natOfDigits digits : Int)), after)
    | '\'' =>
      match untilDelimiter? (.char '\'') rest with
      | none => .error (.unclosed c here)
      | some (lexeme, after) => .ok (.literal (.text (unescape (.char '\'') lexeme)), after)
    | '"' =>
      match untilDelimiter? (.char '"') rest with
      | none => .error (.unclosed c here)
      | some (lexeme, after) =>
        match quotedName? lexeme with
        | some word => .ok (.quotedName word, after)
        | none => .error (.badName lexeme)
    | c =>
      if CodePoint.char c = backquote then
        match untilDelimiter? backquote rest with
        | none => .error (.unclosed c here)
        | some (lexeme, after) =>
          let lexeme := unescape backquote lexeme
          match literalValue? lexeme with
          | some v => .ok (.literal v, after)
          | none => .error (.badLiteral lexeme)
      else .error (.unknownToken here)

/-- The tokens of a text, of which each takes at least one code point; the fuel is the length. -/
def readAll : (fuel : Nat) → Text → Except SyntaxError (List Token)
  | _, [] => .ok [.ending]
  | 0, _ :: _ => .ok [.ending]
  | fuel + 1, p :: rest =>
    if Json.isSpace p then readAll fuel rest
    else match p with
      | .surrogate _ => .error (.unknownToken (rest.length + 1))
      | .char c => do
        let (token, after) ← read c rest
        return token :: (← readAll fuel after)

/-- The tokens of a path expression, closed by the ending. -/
def ofText (t : Text) : Except SyntaxError (List Token) :=
  if t.isEmpty then .error .empty else readAll t.length t

end Token

end Cabinet.Path
