import MonkeyLanguage.Parser.Literal
import MonkeyLanguage.Parser.Precedence
import MonkeyLanguage.Parser.Stream

/-!
# Parsing by descent

One parser for each form of expression and statement.  An expression is an operand followed by the
operators that bind tighter than the operator on its left; the right operand of an operator is an
expression in the same way.

The forms contain each other.  `Rules` holds the parsers that a form uses for its parts, the other
definitions build the parser of a form from those of its parts, and `rules n` ties the knot.  Every
form reads a token before it turns to a part in `Rules`, so `rules n` parses every stream of at most
`n` tokens: where the rules run out, the stream has run out before.
-/

namespace MonkeyLanguage

open ParserM

/-- The parsers of the parts of a form. -/
structure Rules where
  /-- An expression up to the first operator of the given level or a looser one. -/
  expression : Precedence → ParserM Node
  /-- The operators behind a left operand, in the same bounds. -/
  operators : Precedence → Node → ParserM Node
  /-- The further items of a list, each behind a comma, and the closing token. -/
  items : Token.Kind → ParserM (List Node)
  /-- The further parameters, each behind a comma, and the closing parenthesis. -/
  parameters : ParserM (List String)
  /-- The entries of a hash and the closing brace. -/
  entries : ParserM (List (Node × Node))
  /-- The statements of a block and the closing brace. -/
  statements : ParserM (List Node)

namespace Rules

/-! ## Forms of expressions -/

def integerLiteral (token : Token) : ParserM Node :=
  if token.isTooLarge then throw ⟨.integerTooLarge, token⟩ else return .integer token.integer

/-- Expressions separated by commas, up to the closing token. -/
def list (r : Rules) (close : Token.Kind) : ParserM (List Node) := do
  if (← peekKind) = close then
    let _ ← next
    return []
  let first ← r.expression .lowest
  return first :: (← r.items close)

def block (r : Rules) : ParserM Node := do
  let _ ← expect .leftBrace
  return .block (← r.statements)

def ifElse (r : Rules) : ParserM Node := do
  let _ ← expect .leftParen
  let condition ← r.expression .lowest
  let _ ← expect .rightParen
  let consequence ← r.block
  if (← peekKind) = .elseWord then
    let _ ← next
    return .ifElse condition consequence (← r.block)
  return .ifElse condition consequence .absent

/-- Names separated by commas, up to the closing parenthesis. -/
def parameterList (r : Rules) : ParserM (List String) := do
  if (← peekKind) = .rightParen then
    let _ ← next
    return []
  let first ← expect .identifier
  return first.value :: (← r.parameters)

def function (r : Rules) : ParserM Node := do
  let _ ← expect .leftParen
  let parameters ← r.parameterList
  return .function parameters (← r.block)

/-- An expression without operators behind it. -/
def operand (r : Rules) : ParserM Node := do
  let token ← next
  match token.kind with
  | .identifier => return .identifier token.value
  | .integer => integerLiteral token
  | .string => return .string token.value
  | .trueWord => return .boolean true
  | .falseWord => return .boolean false
  | .bang | .minus => return .unary token.value (← r.expression .unary)
  | .leftParen =>
    let inner ← r.expression .lowest
    let _ ← expect .rightParen
    return inner
  | .ifWord => r.ifElse
  | .fnWord => r.function
  | .leftBracket => return .array (← r.list .rightBracket)
  | .leftBrace => return .hash (← r.entries)
  | .illegal => throw ⟨.illegal, token⟩
  | _ => throw ⟨.noExpression, token⟩

/-- What the operator just read makes of its left operand. -/
def operator (r : Rules) (left : Node) (token : Token) : ParserM Node := do
  match token.kind with
  | .leftParen => return .call left (← r.list .rightParen)
  | .leftBracket =>
    let index ← r.expression .lowest
    let _ ← expect .rightBracket
    return .index left index
  | kind => return .binary left token.value (← r.expression kind.precedence)

/-- The operators behind `left` that bind tighter than `bound`. -/
def climb (r : Rules) (bound : Precedence) (left : Node) : ParserM Node := do
  if bound < (← peekKind).precedence then
    r.operators bound (← r.operator left (← next))
  else
    return left

/-- An operand and the operators behind it that bind tighter than `bound`. -/
def operation (r : Rules) (bound : Precedence) : ParserM Node := do
  r.climb bound (← r.operand)

/-! ## Statements -/

/-- One statement.  A `let` ends in a semicolon, which may be missing behind other statements. -/
def statement (r : Rules) : ParserM Node := do
  match ← peekKind with
  | .letWord =>
    let _ ← next
    let name ← expect .identifier
    let _ ← expect .assign
    let value ← r.expression .lowest
    let _ ← expect .semicolon
    return .letStatement name.value value
  | .returnWord =>
    let _ ← next
    let value ← r.expression .lowest
    skip .semicolon
    return .returnStatement value
  | _ =>
    let expression ← r.operation .lowest
    skip .semicolon
    return .expressionStatement expression

/-! ## The rules for streams of bounded length -/

/-- The rules at the end of the stream. -/
def atEnd : Rules where
  expression _ := do throw ⟨.noExpression, ← next⟩
  operators _ left := return left
  items close := do throw ⟨.expected close, ← next⟩
  parameters := do throw ⟨.expected .rightParen, ← next⟩
  entries := do throw ⟨.noExpression, ← next⟩
  statements := do throw ⟨.expected .rightBrace, ← next⟩

/-- The rules that use `r` for the parts of each form. -/
def step (r : Rules) : Rules where
  expression := r.operation
  operators := r.climb
  items close := do
    if (← peekKind) = .comma then
      let _ ← next
      let item ← r.expression .lowest
      return item :: (← r.items close)
    let _ ← expect close
    return []
  parameters := do
    if (← peekKind) = .comma then
      let _ ← next
      let name ← expect .identifier
      return name.value :: (← r.parameters)
    let _ ← expect .rightParen
    return []
  entries := do
    if (← peekKind) = .rightBrace then
      let _ ← next
      return []
    let key ← r.operation .lowest
    let _ ← expect .colon
    let value ← r.expression .lowest
    if (← peekKind) ≠ .rightBrace then
      let _ ← expect .comma
    return (key, value) :: (← r.entries)
  statements := do
    match ← peekKind with
    | .rightBrace =>
      let _ ← next
      return []
    | .eof => throw ⟨.expected .rightBrace, ← next⟩
    | _ =>
      let first ← r.statement
      return first :: (← r.statements)

end Rules

/-- The rules that parse every stream of at most `n` tokens. -/
def rules : Nat → Rules
  | 0 => .atEnd
  | n + 1 => (rules n).step

end MonkeyLanguage
