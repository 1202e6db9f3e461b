import MonkeyLanguage.Node.Render
import MonkeyLanguage.Value.Basic

/-!
# Values as text

`Value.render` writes a value as the source text of the language where it has one.  `Value.display` is
the text for a reader: a string alone is shown without quotes.
-/

namespace MonkeyLanguage

def HashKey.render : HashKey → String
  | integer n => toString n
  | boolean b => Node.boolText b
  | string s => "\"" ++ s ++ "\""

namespace Value

mutual

/-- The source text of a value. -/
def render : Value → String
  | null => "null"
  | integer n => toString n
  | boolean b => Node.boolText b
  | string s => "\"" ++ s ++ "\""
  | array vs => "[" ++ ", ".intercalate (renderElements vs) ++ "]"
  | hash ps => "\x7b" ++ ", ".intercalate (renderEntries ps) ++ "\x7d"
  | function _ parameters body _ =>
    "fn(" ++ ", ".intercalate parameters ++ ") " ++ body.render
  | builtin b => "<builtin " ++ b.name ++ ">"
  | returned v => render v
  | error e => "ERROR: " ++ e.message

def renderElements : List Value → List String
  | [] => []
  | v :: vs => render v :: renderElements vs

def renderEntries : List (HashKey × Value) → List String
  | [] => []
  | (k, v) :: ps => (k.render ++ ": " ++ render v) :: renderEntries ps

end

/-- The text for a reader. -/
def display : Value → String
  | string s => s
  | v => v.render

end Value

end MonkeyLanguage
