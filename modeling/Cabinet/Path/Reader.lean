import Cabinet.Path.Expr
import Cabinet.Path.Token

/-!
# Reading path expressions

`Path.Expr.ofText` reads the text of a path expression. Each kind of token binds with a strength
(`Token.strength`); an expression reaches as far as the tokens behind it bind more strongly than
what it is the right side of. The right side of a projection ends at a token weaker than
`projectionStop`.
-/

namespace Cabinet.Path

namespace Token

/-- How strongly a token binds to the expression on its left. -/
def strength : Token → Nat
  | .pipe => 1
  | .or => 2
  | .and => 3
  | .equal | .notEqual | .less | .lessEqual | .greater | .greaterEqual => 5
  | .flatten => 9
  | .star => 20
  | .filter => 21
  | .dot => 40
  | .not => 45
  | .lbrace => 50
  | .lbracket => 55
  | .lparen => 60
  | _ => 0

/-- The comparison that a token stands for. -/
def comparison? : Token → Option Comparison
  | .equal => some .equal
  | .notEqual => some .notEqual
  | .less => some .less
  | .lessEqual => some .lessEqual
  | .greater => some .greater
  | .greaterEqual => some .greaterEqual
  | _ => none

end Token

namespace Reader

/-- An expression and the tokens behind it. -/
abbrev Parsed := Except SyntaxError (Expr × List Token)

/-- The least strength of a token that belongs to the right side of a projection. -/
def projectionStop : Nat := 10

/-- The first token; behind the last one there is only the ending. -/
def peek (tokens : List Token) : Token := tokens.head?.getD .ending

/-- A token that does not belong where it stands. -/
def refuse {α : Type} (t : Token) : Except SyntaxError α :=
  if t = .ending then .error .incomplete else .error (.unexpected t.text)

/-- The tokens behind one that has to be there. -/
def expect (t : Token) : List Token → Except SyntaxError (List Token)
  | [] => .error .incomplete
  | u :: rest => if u = t then .ok rest else refuse u

/-- The parts of a slice up to the closing bracket, where `place` counts the colons so far. -/
def sliceParts (start stop step : Option Int) (place : Nat) : List Token → Parsed
  | .rbracket :: rest => .ok (.slice start stop step, rest)
  | .colon :: rest =>
    if place < 2 then sliceParts start stop step (place + 1) rest else refuse .colon
  | .number n :: rest =>
    match place with
    | 0 => sliceParts (some n) stop step place rest
    | 1 => sliceParts start (some n) step place rest
    | _ => sliceParts start stop (some n) place rest
  | t :: _ => refuse t
  | [] => .error .incomplete

/-- An index or a slice, behind the opening bracket. -/
def place (tokens : List Token) : Parsed :=
  match tokens with
  | .colon :: _ | .number _ :: .colon :: _ => sliceParts none none none 0 tokens
  | .number n :: rest => do return (.index n, ← expect .rbracket rest)
  | t :: _ => refuse t
  | [] => .error .incomplete

def isSlice : Expr → Bool
  | .slice .. => true
  | _ => false

mutual

/-- The expression at the start of the tokens, which ends before the first token that binds no
more strongly than `strength`. The fuel bounds the depth; of any few calls in a row one passes a
token. -/
def expression : (fuel : Nat) → (strength : Nat) → List Token → Parsed
  | 0, _, _ => .error .incomplete
  | _ + 1, _, [] => .error .incomplete
  | fuel + 1, strength, t :: rest => do
    let (left, rest) ← start fuel t rest
    extend fuel strength left rest

/-- Extends an expression to the right. -/
def extend : (fuel : Nat) → (strength : Nat) → Expr → List Token → Parsed
  | 0, _, _, _ => .error .incomplete
  | fuel + 1, strength, left, tokens =>
    match tokens with
    | [] => .ok (left, [])
    | t :: rest => do
      if strength < t.strength then
        let (left, rest) ← continue? fuel left t rest
        extend fuel strength left rest
      else return (left, tokens)

/-- The expression that starts with a token. -/
def start : (fuel : Nat) → Token → List Token → Parsed
  | 0, _, _ => .error .incomplete
  | fuel + 1, t, rest =>
    match t with
    | .literal v => .ok (.literal v, rest)
    | .name n => .ok (.field n, rest)
    | .quotedName n =>
      if peek rest = .lparen then .error .quotedFunctionName else .ok (.field n, rest)
    | .star =>
      if peek rest = .rbracket then .ok (.projectFields .current .current, rest)
      else do
        let (right, rest) ← projected fuel Token.star.strength rest
        return (.projectFields .current right, rest)
    | .filter => filtered fuel .current rest
    | .lbrace => do
      let (fields, rest) ← objectFields fuel rest
      return (.selectObject fields, rest)
    | .lparen => do
      let (e, rest) ← expression fuel 0 rest
      return (e, ← expect .rparen rest)
    | .flatten => do
      let (right, rest) ← projected fuel Token.flatten.strength rest
      return (.project (.flatten .current) right, rest)
    | .not => do
      let (e, rest) ← expression fuel Token.not.strength rest
      return (.not e, rest)
    | .lbracket =>
      match rest with
      | .number _ :: _ | .colon :: _ => do
        let (right, rest) ← place rest
        afterPlace fuel .current right rest
      | .star :: .rbracket :: rest => do
        let (right, rest) ← projected fuel Token.star.strength rest
        return (.project .current right, rest)
      | _ => do
        let (items, rest) ← listItems fuel rest
        return (.selectList items, rest)
    | .current => .ok (.current, rest)
    | .reference => do
      let (e, rest) ← expression fuel Token.reference.strength rest
      return (.reference e, rest)
    | t => refuse t

/-- The expression on the left and a token that binds to it. -/
def continue? : (fuel : Nat) → Expr → Token → List Token → Parsed
  | 0, _, _, _ => .error .incomplete
  | fuel + 1, left, t, rest =>
    match t with
    | .dot =>
      match rest with
      | .star :: rest => do
        let (right, rest) ← projected fuel Token.dot.strength rest
        return (.projectFields left right, rest)
      | _ => do
        let (right, rest) ← afterDot fuel Token.dot.strength rest
        return (.andThen left right, rest)
    | .pipe => do
      let (right, rest) ← expression fuel Token.pipe.strength rest
      return (.andThen left right, rest)
    | .or => do
      let (right, rest) ← expression fuel Token.or.strength rest
      return (.or left right, rest)
    | .and => do
      let (right, rest) ← expression fuel Token.and.strength rest
      return (.and left right, rest)
    | .lparen =>
      match left with
      | .field function => do
        let (arguments, rest) ← callArguments fuel rest
        return (.call function arguments, rest)
      | _ => .error .badFunctionName
    | .filter => filtered fuel left rest
    | .flatten => do
      let (right, rest) ← projected fuel Token.flatten.strength rest
      return (.project (.flatten left) right, rest)
    | .lbracket =>
      match rest with
      | .number _ :: _ | .colon :: _ => do
        let (right, rest) ← place rest
        match left with
        | .bracketed .. => return (.bracketed left right, rest)
        | _ => afterPlace fuel left right rest
      | _ => do
        let rest ← expect .rbracket (← expect .star rest)
        let (right, rest) ← projected fuel Token.star.strength rest
        return (.project left right, rest)
    | t =>
      match t.comparison? with
      | some c => do
        let (right, rest) ← expression fuel t.strength rest
        return (.compare c left right, rest)
      | none => refuse t

/-- An index or a slice of what is on the left; a slice is projected over. -/
def afterPlace : (fuel : Nat) → (left right : Expr) → List Token → Parsed
  | 0, _, _, _ => .error .incomplete
  | fuel + 1, left, right, rest =>
    if isSlice right then do
      let (behind, rest) ← projected fuel Token.star.strength rest
      return (.project (.bracketed left right) behind, rest)
    else .ok (.bracketed left right, rest)

/-- A filter of what is on the left, behind its opening bracket. -/
def filtered : (fuel : Nat) → Expr → List Token → Parsed
  | 0, _, _ => .error .incomplete
  | fuel + 1, left, rest => do
    let (condition, rest) ← expression fuel 0 rest
    let rest ← expect .rbracket rest
    if peek rest = .flatten then return (.filter left .current condition, rest)
    let (right, rest) ← projected fuel Token.filter.strength rest
    return (.filter left right condition, rest)

/-- The right side of a projection. -/
def projected : (fuel : Nat) → (strength : Nat) → List Token → Parsed
  | 0, _, _ => .error .incomplete
  | fuel + 1, strength, tokens =>
    let t := peek tokens
    if t.strength < projectionStop then .ok (.current, tokens)
    else match t with
      | .lbracket | .filter => expression fuel strength tokens
      | .dot => afterDot fuel strength (tokens.drop 1)
      | t => refuse t

/-- What may follow a dot. -/
def afterDot : (fuel : Nat) → (strength : Nat) → List Token → Parsed
  | 0, _, _ => .error .incomplete
  | fuel + 1, strength, tokens =>
    match tokens with
    | .quotedName _ :: _ | .name _ :: _ | .star :: _ => expression fuel strength tokens
    | .lbracket :: rest => do
      let (items, rest) ← listItems fuel rest
      return (.selectList items, rest)
    | .lbrace :: rest => do
      let (fields, rest) ← objectFields fuel rest
      return (.selectObject fields, rest)
    | t :: _ => refuse t
    | [] => .error .incomplete

/-- The items of a list up to its closing bracket, at least one. -/
def listItems : (fuel : Nat) → List Token → Except SyntaxError (List Expr × List Token)
  | 0, _ => .error .incomplete
  | fuel + 1, tokens => do
    let (e, rest) ← expression fuel 0 tokens
    match rest with
    | .rbracket :: rest => return ([e], rest)
    | _ =>
      let (es, rest) ← listItems fuel (← expect .comma rest)
      return (e :: es, rest)

/-- The fields of an object up to its closing brace, at least one. The comma between two of them
may be left out. -/
def objectFields : (fuel : Nat) → List Token → Except SyntaxError (List (Text × Expr) × List Token)
  | 0, _ => .error .incomplete
  | fuel + 1, tokens => do
    let (name, rest) ← match tokens with
      | .name n :: rest | .quotedName n :: rest => Except.ok (n, rest)
      | t :: _ => refuse t
      | [] => .error .incomplete
    let (e, rest) ← expression fuel 0 (← expect .colon rest)
    match rest with
    | .rbrace :: rest => return ([(name, e)], rest)
    | rest =>
      let rest := if peek rest = .comma then rest.drop 1 else rest
      let (es, rest) ← objectFields fuel rest
      return ((name, e) :: es, rest)

/-- The arguments of a call up to the closing parenthesis. The comma between two of them may be
left out, and one may follow the last. -/
def callArguments : (fuel : Nat) → List Token → Except SyntaxError (List Expr × List Token)
  | 0, _ => .error .incomplete
  | fuel + 1, tokens =>
    match tokens with
    | .rparen :: rest => .ok ([], rest)
    | _ => do
      let (e, rest) ← expression fuel 0 tokens
      let rest := if peek rest = .comma then rest.drop 1 else rest
      let (es, rest) ← callArguments fuel rest
      return (e :: es, rest)

end

end Reader

/-- Reads the text of a path expression. -/
def Expr.ofText (t : Text) : Except SyntaxError Expr := do
  let tokens ← Token.ofText t
  let (e, rest) ← Reader.expression (8 * tokens.length + 8) 0 tokens
  match rest with
  | .ending :: _ | [] => return e
  | t :: _ => Reader.refuse t

/-- The wording of a flaw in a path expression. -/
def SyntaxError.message : SyntaxError → Text
  | .empty => "Invalid JMESPath expression: cannot be empty.".toText
  | .unknownToken _ => "Unknown token".toText
  | .unclosed delimiter _ => "Unclosed ".toText ++ [.char delimiter] ++ " delimiter".toText
  | .badLiteral lexeme => "Bad token ".toText ++ lexeme
  | .badName lexeme => "Bad name ".toText ++ lexeme
  | .unexpected token => "Unexpected token: ".toText ++ token
  | .incomplete => "Incomplete expression".toText
  | .quotedFunctionName => "Quoted identifier not allowed for function names.".toText
  | .badFunctionName => "Invalid function name".toText

end Cabinet.Path
