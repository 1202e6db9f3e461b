import MonkeyLanguage.Parser.Literal
import MonkeyLanguage.Parser.Level

/-!
# An automaton that reads programs token by token

A state is the part of the tree that has been built, with a hole where the next tokens go.
`State.shift` takes one token into the state, or gives `none` if no program goes on with that token.
There is no recovery and no looking ahead: a construct that could end before the token or go on with
it always goes on.

The hole lies in an `ExpressionHole` or a `StatementHole`, which hold the surroundings from inside to
outside.  Lists in them grow at the front, so they are in reverse order.
-/

namespace MonkeyLanguage.Automaton

mutual

/-- The surroundings of the next statement. -/
inductive StatementHole where
  | program (before : List Node)
  | functionBody (parameters : List String) (before : List Node) (outer : ExpressionHole)
  | thenBlock (condition : Node) (before : List Node) (outer : ExpressionHole)
  | elseBlock (condition consequence : Node) (before : List Node) (outer : ExpressionHole)

/-- The surroundings of an expression. -/
inductive ExpressionHole where
  | letValue (name : String) (outer : StatementHole)
  | returnValue (outer : StatementHole)
  | statement (outer : StatementHole)
  | unary (operator : String) (outer : ExpressionHole)
  | binary (left : Node) (operator : String) (level : Level) (outer : ExpressionHole)
  | group (outer : ExpressionHole)
  | condition (outer : ExpressionHole)
  | argument (function : Node) (before : List Node) (outer : ExpressionHole)
  | element (before : List Node) (outer : ExpressionHole)
  | index (left : Node) (outer : ExpressionHole)
  | entryKey (before : List (Node × Node)) (outer : ExpressionHole)
  | entryValue (before : List (Node × Node)) (key : Node) (outer : ExpressionHole)

end

/-- What has been read, by what comes next. -/
inductive State where
  /-- A statement, or the end of the list of statements. -/
  | statement (hole : StatementHole)
  /-- An expression. -/
  | operand (hole : ExpressionHole)
  /-- An operator, or what follows the expression `left`. -/
  | operator (left : Node) (hole : ExpressionHole)
  /-- The name behind `let`. -/
  | letName (hole : StatementHole)
  /-- The equals sign behind that name. -/
  | letAssign (name : String) (hole : StatementHole)
  /-- The first argument of a call, or the closing parenthesis. -/
  | arguments (function : Node) (hole : ExpressionHole)
  /-- The first element of an array, or the closing bracket. -/
  | elements (hole : ExpressionHole)
  /-- A key of a hash, or the closing brace. -/
  | entries (before : List (Node × Node)) (hole : ExpressionHole)
  /-- The parenthesis behind `if`. -/
  | ifParen (hole : ExpressionHole)
  /-- The brace behind the condition. -/
  | thenBrace (condition : Node) (hole : ExpressionHole)
  /-- An `else`, or what follows an expression. -/
  | elseWord (condition consequence : Node) (hole : ExpressionHole)
  /-- The brace behind `else`. -/
  | elseBrace (condition consequence : Node) (hole : ExpressionHole)
  /-- The parenthesis behind `fn`. -/
  | fnParen (hole : ExpressionHole)
  /-- The first parameter, or the closing parenthesis. -/
  | parameterList (hole : ExpressionHole)
  /-- The parameter behind a comma. -/
  | nextParameter (before : List String) (hole : ExpressionHole)
  /-- A comma or the closing parenthesis behind a parameter. -/
  | parameterEnd (before : List String) (hole : ExpressionHole)
  /-- The brace behind the parameters. -/
  | bodyBrace (parameters : List String) (hole : ExpressionHole)

/-! ## Starting and ending constructs -/

/-- Takes the first token of an expression. -/
def ExpressionHole.start (hole : ExpressionHole) (token : Token) : Option State :=
  match token.kind with
  | .identifier => some (.operator (.identifier token.value) hole)
  | .integer => some (.operator (.integer token.integer) hole)
  | .string => some (.operator (.string token.value) hole)
  | .trueWord => some (.operator (.boolean true) hole)
  | .falseWord => some (.operator (.boolean false) hole)
  | .bang | .minus => some (.operand (.unary token.value hole))
  | .leftParen => some (.operand (.group hole))
  | .ifWord => some (.ifParen hole)
  | .fnWord => some (.fnParen hole)
  | .leftBracket => some (.elements hole)
  | .leftBrace => some (.entries [] hole)
  | _ => none

/-- Adds a statement to the statements before the hole. -/
def StatementHole.add (statement : Node) : StatementHole → StatementHole
  | .program before => .program (statement :: before)
  | .functionBody parameters before outer => .functionBody parameters (statement :: before) outer
  | .thenBlock condition before outer => .thenBlock condition (statement :: before) outer
  | .elseBlock condition consequence before outer =>
    .elseBlock condition consequence (statement :: before) outer

/-- Ends a block at its closing brace. -/
def StatementHole.close : StatementHole → Option State
  | .program _ => none
  | .functionBody parameters before outer =>
    some (.operator (.function parameters (.block before.reverse)) outer)
  | .thenBlock condition before outer =>
    some (.elseWord condition (.block before.reverse) outer)
  | .elseBlock condition consequence before outer =>
    some (.operator (.ifElse condition consequence (.block before.reverse)) outer)

/-- Takes the first token of a statement, or the brace that ends the block. -/
def StatementHole.start (hole : StatementHole) (token : Token) : Option State :=
  match token.kind with
  | .letWord => some (.letName hole)
  | .returnWord => some (.operand (.returnValue hole))
  | .rightBrace => hole.close
  | _ => (ExpressionHole.statement hole).start token

/-! ## Behind an expression -/

/-- Applies the operators before `right` that bind at least as tightly as `level`. -/
def ExpressionHole.apply (level : Level) (right : Node) :
    ExpressionHole → Node × ExpressionHole
  | .unary operator outer =>
    if level ≤ .unary then outer.apply level (.unary operator right)
    else (right, .unary operator outer)
  | .binary left operator own outer =>
    if level ≤ own then outer.apply level (.binary left operator right)
    else (right, .binary left operator own outer)
  | hole => (right, hole)

/-- Takes the token behind a complete expression that is no operator. -/
def ExpressionHole.finish (whole : Node) (token : Token) : ExpressionHole → Option State
  | .letValue name outer =>
    if token.kind = .semicolon then some (.statement (outer.add (.letStatement name whole)))
    else none
  | .returnValue outer =>
    let outer := outer.add (.returnStatement whole)
    if token.kind = .semicolon then some (.statement outer) else outer.start token
  | .statement outer =>
    let outer := outer.add (.expressionStatement whole)
    if token.kind = .semicolon then some (.statement outer) else outer.start token
  | .group outer => if token.kind = .rightParen then some (.operator whole outer) else none
  | .condition outer => if token.kind = .rightParen then some (.thenBrace whole outer) else none
  | .argument function before outer =>
    match token.kind with
    | .comma => some (.operand (.argument function (whole :: before) outer))
    | .rightParen => some (.operator (.call function (whole :: before).reverse) outer)
    | _ => none
  | .element before outer =>
    match token.kind with
    | .comma => some (.operand (.element (whole :: before) outer))
    | .rightBracket => some (.operator (.array (whole :: before).reverse) outer)
    | _ => none
  | .index left outer =>
    if token.kind = .rightBracket then some (.operator (.index left whole) outer) else none
  | .entryKey before outer =>
    if token.kind = .colon then some (.operand (.entryValue before whole outer)) else none
  | .entryValue before key outer =>
    match token.kind with
    | .comma => some (.entries ((key, whole) :: before) outer)
    | .rightBrace => some (.operator (.hash ((key, whole) :: before).reverse) outer)
    | _ => none
  | .unary .. | .binary .. => none

/-- Takes the token behind the operand `left`: an operator, or what follows the whole expression. -/
def ExpressionHole.proceed (hole : ExpressionHole) (left : Node) (token : Token) : Option State :=
  let (left, hole) := hole.apply token.kind.level left
  match token.kind with
  | .leftParen => some (.arguments left hole)
  | .leftBracket => some (.operand (.index left hole))
  | .equal | .notEqual | .less | .greater | .plus | .minus | .asterisk | .slash =>
    some (.operand (.binary left token.value token.kind.level hole))
  | _ => hole.finish left token

/-! ## Shifting -/

def shiftKind (kind : Token.Kind) (token : Token) (next : State) : Option State :=
  if token.kind = kind then some next else none

/-- Takes one token. -/
def State.shift (token : Token) : State → Option State
  | .statement hole => hole.start token
  | .operand hole => hole.start token
  | .operator left hole => hole.proceed left token
  | .letName hole => shiftKind .identifier token (.letAssign token.value hole)
  | .letAssign name hole => shiftKind .assign token (.operand (.letValue name hole))
  | .arguments function hole =>
    if token.kind = .rightParen then some (.operator (.call function []) hole)
    else (ExpressionHole.argument function [] hole).start token
  | .elements hole =>
    if token.kind = .rightBracket then some (.operator (.array []) hole)
    else (ExpressionHole.element [] hole).start token
  | .entries before hole =>
    if token.kind = .rightBrace then some (.operator (.hash before.reverse) hole)
    else (ExpressionHole.entryKey before hole).start token
  | .ifParen hole => shiftKind .leftParen token (.operand (.condition hole))
  | .thenBrace condition hole =>
    shiftKind .leftBrace token (.statement (.thenBlock condition [] hole))
  | .elseWord condition consequence hole =>
    if token.kind = .elseWord then some (.elseBrace condition consequence hole)
    else hole.proceed (.ifElse condition consequence .absent) token
  | .elseBrace condition consequence hole =>
    shiftKind .leftBrace token (.statement (.elseBlock condition consequence [] hole))
  | .fnParen hole => shiftKind .leftParen token (.parameterList hole)
  | .parameterList hole =>
    if token.kind = .rightParen then some (.bodyBrace [] hole)
    else shiftKind .identifier token (.parameterEnd [token.value] hole)
  | .nextParameter before hole =>
    shiftKind .identifier token (.parameterEnd (token.value :: before) hole)
  | .parameterEnd before hole =>
    match token.kind with
    | .comma => some (.nextParameter before hole)
    | .rightParen => some (.bodyBrace before.reverse hole)
    | _ => none
  | .bodyBrace parameters hole =>
    shiftKind .leftBrace token (.statement (.functionBody parameters [] hole))

/-! ## Whole programs -/

def State.initial : State :=
  .statement (.program [])

/-- The statements of a program that ends behind the expression `whole`. -/
def ExpressionHole.statements? (whole : Node) (hole : ExpressionHole) : Option (List Node) :=
  match hole.apply .expr whole with
  | (whole, .returnValue (.program before)) => some (.returnStatement whole :: before).reverse
  | (whole, .statement (.program before)) => some (.expressionStatement whole :: before).reverse
  | _ => none

/-- The statements of a program that may end here. -/
def State.statements? : State → Option (List Node)
  | .statement (.program before) => some before.reverse
  | .operator left hole => hole.statements? left
  | .elseWord condition consequence hole => hole.statements? (.ifElse condition consequence .absent)
  | _ => none

/-- Takes tokens until one cannot be taken, which is given with the state before it. -/
def State.run : State → List Token → Except (State × Token) State
  | state, [] => .ok state
  | state, token :: rest =>
    match state.shift token with
    | some next => next.run rest
    | none => .error (state, token)

end MonkeyLanguage.Automaton
