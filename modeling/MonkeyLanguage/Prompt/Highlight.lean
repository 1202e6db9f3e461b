import MonkeyLanguage.Text.Newline
import MonkeyLanguage.Token.Cursor

/-!
# Colours for a text

`highlight` styles the tokens of a text by their kind and gives the styled fragments line by line.
Joined they are the text again; an empty line is one empty fragment.

A token says where it starts by line and column, and its value does not have the quotes of a string, so
its stretch of the text is found from the offsets at which lines start and from its kind.
-/

namespace MonkeyLanguage.Prompt

inductive Style where
  | plain
  | keyword
  | boolean
  | number
  | string
  | builtin
  | error
deriving DecidableEq, Repr

def Style.attributes : Style → String
  | plain => ""
  | keyword => "bold ansicyan"
  | boolean => "ansicyan"
  | number => "ansimagenta"
  | string => "ansigreen"
  | builtin => "bold ansiyellow"
  | error => "bold ansired"

/-- The style of a token.  A name has one only if it is among the builtins. -/
def Style.ofToken (builtins : List String) (t : Token) : Style :=
  match t.kind with
  | .trueWord | .falseWord => boolean
  | .integer => number
  | .string => string
  | .illegal => error
  | .identifier => if t.value ∈ builtins then builtin else plain
  | kind => if kind.isKeyword then keyword else plain

/-- A text in one style. -/
structure Fragment where
  style : Style
  text : List Char
deriving DecidableEq, Repr

/-- The fragment, or none if its text is empty. -/
def Fragment.ofText (style : Style) (text : List Char) : List Fragment :=
  if text.isEmpty then [] else [⟨style, text⟩]

def lineStarts (text : List Char) : List Nat :=
  0 :: text.zipIdx.filterMap fun c => if c.1 = '\n' then some (c.2 + 1) else none

/-- The offset of a position in a text whose lines start at the offsets given. -/
def offsetOf (starts : List Nat) (p : Position) : Nat :=
  starts.getD (p.line - 1) 0 + p.column - 1

/-- How many characters of the text a token takes: a string has two quotes besides its value. -/
def spanLength (t : Token) : Nat :=
  if t.kind = .string then t.value.length + 2 else t.value.length

section
variable (builtins : List String) (text : List Char) (starts : List Nat)

/--
The fragments of a text from an offset on: one for each of the tokens there and one for each stretch
between them.
-/
def fragmentsFrom (offset : Nat) : List Token → List Fragment
  | [] => Fragment.ofText .plain (text.drop offset)
  | t :: ts =>
    let start := offsetOf starts t.position
    let stop := start + spanLength t
    Fragment.ofText .plain (text.extract offset start) ++
      ⟨.ofToken builtins t, text.extract start stop⟩ :: fragmentsFrom stop ts

end

def fragments (builtins : List String) (text : String) : List Fragment :=
  fragmentsFrom builtins text.toList (lineStarts text.toList) 0
    ((tokenize text).takeWhile (·.kind ≠ .eof))

/--
Puts the parts of a fragment, one on a line, before lines of fragments.  The last part joins the first
line.
-/
def prependParts (style : Style) : List (List Char) → List (List Fragment) → List (List Fragment)
  | [], lines => lines
  | [part], [] => [Fragment.ofText style part]
  | [part], line :: lines => (Fragment.ofText style part ++ line) :: lines
  | part :: parts, lines => Fragment.ofText style part :: prependParts style parts lines

/-- The fragments line by line. -/
def fragmentLines (fs : List Fragment) : List (List Fragment) :=
  fs.foldr (fun f lines => prependParts f.style (Text.lines f.text) lines) [[]]

/-- A line without fragments, as it is shown. -/
def blankLine : List Fragment :=
  [⟨.plain, []⟩]

/-- The styled text, line by line. -/
def highlight (builtins : List String) (text : String) : List (List Fragment) :=
  (fragmentLines (fragments builtins text)).map fun line =>
    if line.isEmpty then blankLine else line

/-- One of the lines, counted from zero; a blank line where there is none. -/
def lineAt (lines : List (List Fragment)) (number : Int) : List Fragment :=
  if number < 0 then blankLine else lines[number.toNat]?.getD blankLine

end MonkeyLanguage.Prompt
