import MonkeyLanguage.Token.Basic

/-!
# Parse errors

An error has a cause and blames one token.  Its text names the token and tells where it starts.
-/

namespace MonkeyLanguage

/-- Why a text is no program. -/
inductive ParseError.Cause where
  /-- The text of the token is no word of the language. -/
  | illegal
  /-- Another kind of token has to stand here. -/
  | expected (kind : Token.Kind)
  /-- No expression starts with the token. -/
  | noExpression
  /-- The integer is above the greatest value. -/
  | integerTooLarge
  /-- No program goes on with the token. -/
  | unexpected
deriving DecidableEq, Repr

/-- A cause and the token to blame. -/
structure ParseError where
  cause : ParseError.Cause
  token : Token
deriving DecidableEq, Repr

namespace ParseError

def message (e : ParseError) : String :=
  match e.cause with
  | .illegal => "illegal token " ++ Text.quoted e.token.value
  | .expected kind => "expected token " ++ kind.name ++ ", got " ++ e.token.describe
  | .noExpression => "no prefix parse rule for " ++ e.token.describe
  | .integerTooLarge => "could not parse " ++ Text.quoted e.token.value ++ " as integer"
  | .unexpected => "unexpected token " ++ e.token.describe

/-- What is wrong and where. -/
def text (e : ParseError) : String :=
  s!"{e.message} at line {e.token.position.line}, col {e.token.position.column}"

end ParseError

end MonkeyLanguage
