import MonkeyLanguage.Parser.Automaton
import MonkeyLanguage.Parser.Error
import MonkeyLanguage.Parser.Terminal

/-!
# Parsing without recovery

The automaton reads the tokens into which the terminals of the grammar cut a text, up to the first that no program
goes on with, and that token is blamed.  Integers above the greatest value are looked for in a text that has passed.
-/

namespace MonkeyLanguage.Automaton

/-- The token as its source text; of an illegal token only the first character. -/
def sourceToken (token : Token) : Token :=
  match token.kind with
  | .string => { token with value := "\"" ++ token.value ++ "\"" }
  | .illegal => { token with value := String.ofList (token.value.toList.take 1) }
  | _ => token

/-- The error of a token that cannot be taken. -/
def blame (token : Token) : ParseError :=
  ⟨if token.kind = .illegal then .illegal else .unexpected, sourceToken token⟩

/-- The end of a text as an error shows it: at the place where the last token starts. -/
def endToken (tokens : List Token) : Token :=
  .endAt ((tokens.getLast?.map Token.position).getD .start)

def parseTokens (tokens : List Token) : Except ParseError (List Node) :=
  match State.initial.run tokens with
  | .error (_, token) => .error (blame token)
  | .ok state =>
    match state.statements?, tokens.find? Token.isTooLarge with
    | none, _ => .error ⟨.unexpected, endToken tokens⟩
    | some _, some token => .error ⟨.integerTooLarge, token⟩
    | some statements, none => .ok statements

/-- The tokens of a text by the terminals of the grammar. -/
def tokens (source : String) : List Token :=
  Terminal.cut .start source.toList

def parse (source : String) : Except ParseError (List Node) :=
  parseTokens (tokens source)

end MonkeyLanguage.Automaton
