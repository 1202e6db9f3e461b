import MonkeyLanguage.Parser.Rules

/-!
# Programs and recovery from errors

A program is parsed statement by statement.  When a statement is malformed its error is recorded and
the parser skips to the end of that statement, so the statements behind it are parsed all the same.

Where a malformed statement ends depends on the brackets it has opened.  They are a function of the
tokens read: an opening bracket is put on a stack, and a closing one removes the innermost,
whatever its kind.
-/

namespace MonkeyLanguage

/-! ## Open brackets -/

/-- The brackets opened and not yet closed, the innermost first. -/
abbrev OpenBrackets := List Token.Kind

namespace OpenBrackets

/-- The open brackets behind a token of the given kind. -/
def read (brackets : OpenBrackets) (kind : Token.Kind) : OpenBrackets :=
  if kind.isOpener then kind :: brackets else if kind.isCloser then brackets.tail else brackets

/-- The open brackets behind some tokens, given the last first. -/
def readAll (brackets : OpenBrackets) (tokens : List Token) : OpenBrackets :=
  tokens.foldr (fun token brackets => brackets.read token.kind) brackets

/-- Forgets the inner brackets and keeps the outer ones up to the given depth. -/
def trim (brackets : OpenBrackets) (depth : Nat) : OpenBrackets :=
  brackets.drop (brackets.length - depth)

/-- Forgets parentheses and square brackets above the given depth, from inside, up to a brace. -/
def dropUnclosed (depth : Nat) : OpenBrackets → OpenBrackets
  | [] => []
  | kind :: outer =>
    if depth ≤ outer.length ∧ kind ≠ .leftBrace then dropUnclosed depth outer else kind :: outer

/-- The number of brackets around a statement that starts with a token of the given kind. -/
def depthAround (brackets : OpenBrackets) (kind : Token.Kind) : Nat :=
  if kind.isCloser then brackets.tail.length else brackets.length

end OpenBrackets

/-! ## Skipping a malformed statement -/

/--
Skips to the end of a malformed statement and gives the tokens behind it.  The statement stands
inside `depth` brackets, `last` is the token read last, and `brackets` are open behind it.

The statement ends at a semicolon that stands inside no further bracket, or at a brace that closes
its outermost bracket, if no `else` follows; a semicolon behind that brace belongs to it.  A semicolon
can only stand directly inside braces.  One that stands inside other brackets shows that they were
never closed, and they are forgotten.
-/
def skipStatement (depth : Nat) (last : Token) (brackets : OpenBrackets) :
    List Token → List Token × OpenBrackets
  | [] => ([], brackets.trim depth)
  | token :: rest =>
    let kept := if last.kind = .semicolon then brackets.dropUnclosed depth else brackets
    if last.kind = .semicolon ∧ kept.length ≤ depth then (token :: rest, kept)
    else if last.kind = .rightBrace ∧ brackets.length ≤ depth ∧ token.kind ≠ .elseWord then
      (if token.kind = .semicolon then rest else token :: rest, brackets)
    else skipStatement depth token (kept.read token.kind) rest

/-! ## Programs -/

/-- The form that a malformed statement was taken for. -/
inductive StatementForm where
  | letStatement
  | returnStatement
  | expressionStatement
deriving DecidableEq, Repr

namespace StatementForm

def ofKind : Token.Kind → StatementForm
  | .letWord => letStatement
  | .returnWord => returnStatement
  | _ => expressionStatement

def name : StatementForm → String
  | letStatement => "let statement"
  | returnStatement => "return statement"
  | expressionStatement => "expression statement"

end StatementForm

/-- What a text was parsed to. -/
structure Parse where
  /-- The well-formed statements. -/
  statements : List Node
  /-- The malformed statements: the form of each and its error. -/
  failures : List (StatementForm × ParseError)
  /-- The brackets open at the end. -/
  openAtEnd : OpenBrackets
deriving Repr

namespace Parse

def messages (p : Parse) : List String :=
  p.failures.map fun failure => failure.1.name ++ ": " ++ failure.2.text

/-- Parses at most `n` statements, which is enough for `n` tokens. -/
def ofTokens (r : Rules) (finish : Position) : Nat → List Token → OpenBrackets → Parse
  | 0, _, brackets => ⟨[], [], brackets⟩
  | _, [], brackets => ⟨[], [], brackets⟩
  | n + 1, first :: rest, brackets =>
    match r.statement ⟨[], first :: rest, finish⟩ with
    | .ok node stream =>
      let parse := ofTokens r finish n stream.tokens (brackets.readAll stream.read)
      { parse with statements := node :: parse.statements }
    | .error error stream =>
      let (tokens, brackets) := skipStatement (brackets.depthAround first.kind)
        (stream.read.headD first) (brackets.readAll stream.read) stream.tokens
      let parse := ofTokens r finish n tokens brackets
      { parse with failures := (.ofKind first.kind, error) :: parse.failures }

def ofString (source : String) : Parse :=
  let stream := TokenStream.ofString source
  let n := stream.tokens.length
  ofTokens (rules n) stream.finish n stream.tokens []

end Parse

end MonkeyLanguage
