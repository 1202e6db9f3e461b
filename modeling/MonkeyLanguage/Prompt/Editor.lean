import MonkeyLanguage.Prompt.Continuation

/-!
# Editing an input

An input is edited by keys.  The enter key accepts it, or starts a new line if it has to go on.
-/

namespace MonkeyLanguage.Prompt

inductive Key where
  | enter
  | backspace
  /-- Characters to insert. -/
  | text (text : String)
deriving DecidableEq, Repr

/-- An input being edited, with the cursor at its end. -/
structure Editor where
  text : List Char
  /-- How often completions have been asked for. -/
  completions : Nat
  accepted : Bool
deriving DecidableEq, Repr

namespace Editor

def empty : Editor :=
  ⟨[], 0, false⟩

/-- Whether the input is a command, by its first character. -/
def isCommand (e : Editor) : Bool :=
  e.text.head? = some '/'

/-- What a key does.  Deleting in a command asks for completions. -/
def press (e : Editor) : Key → Editor
  | .text text => { e with text := e.text ++ text.toList }
  | .backspace =>
    let e := { e with text := e.text.dropLast }
    if e.isCommand then { e with completions := e.completions + 1 } else e
  | .enter =>
    if !e.isCommand && goesOn (String.ofList e.text) then { e with text := e.text ++ ['\n'] }
    else { e with accepted := true }

/-- The input after each key, up to the key that accepts it. -/
def type (e : Editor) : List Key → List Editor
  | [] => []
  | key :: keys =>
    let e := e.press key
    if e.accepted then [e] else e :: type e keys

/-- The input that keys submit, if one of them accepts it. -/
def submitted? (keys : List Key) : Option String :=
  match (empty.type keys).getLast? with
  | some e => if e.accepted then some (String.ofList e.text) else none
  | none => none

end Editor

end MonkeyLanguage.Prompt
