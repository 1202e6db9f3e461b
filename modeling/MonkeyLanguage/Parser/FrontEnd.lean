import MonkeyLanguage.Parser.Recovery
import MonkeyLanguage.Parser.Strict

/-!
# The two front ends

A text can be parsed by descent, with recovery from errors, or by the automaton, which stops at the
first error.  Both give statements and messages; there are messages exactly if the text is no program.

A front end converts the numerals that it reads as integers, and one with too many digits makes it break off.  Then
there are neither statements nor messages, so those of `FrontEnd.parse` count only if `FrontEnd.overlong?` is `none`.
-/

namespace MonkeyLanguage

inductive FrontEnd where
  | descent
  | automaton
deriving DecidableEq, Repr

/-- Parses a text to statements and error messages. -/
def FrontEnd.parse : FrontEnd → String → List Node × List String
  | descent, source =>
    let parse := Parse.ofString source
    (parse.statements, parse.messages)
  | automaton, source =>
    match Automaton.parse source with
    | .ok statements => (statements, [])
    | .error error => ([], [error.text])

def FrontEnd.errors : FrontEnd → String → List ParseError
  | descent, source => (Parse.ofString source).failures.map Prod.snd
  | automaton, source =>
    match Automaton.parse source with
    | .ok _ => []
    | .error error => [error]

/-- The numeral at which a front end breaks off. -/
def FrontEnd.overlong? (frontEnd : FrontEnd) (source : String) : Option Token :=
  ((frontEnd.errors source).find? fun e => e.cause = .integerTooLarge && e.token.isOverlong).map ParseError.token

end MonkeyLanguage
