import MonkeyLanguage.Host.Settings
import MonkeyLanguage.Text.Blank

/-!
# Commands of the prompt

An input whose first character that is not blank is a slash is a command and not a program.  The word
with the slash names the command, and the rest of the input is its argument.
-/

namespace MonkeyLanguage.Prompt

/-- The names of the commands and what they do, in alphabetic order. -/
def commandHelp : List (String × String) :=
  [("/clear", "Clear the terminal screen"),
    ("/py-traceback", "Toggle Python traceback on host failures"),
    ("/reset", "Reset the REPL environment"),
    ("/tokens", "Toggle printing tokens instead of evaluating")]

/-- A command.  `none` as a switch stands for an argument that cannot be understood. -/
inductive Command where
  | clear
  | reset
  /-- Sets the trace in reports of host failures. -/
  | trace (switch : Option Bool)
  /-- Sets whether tokens are shown in place of values. -/
  | tokens (switch : Option Bool)
  | unknown (name : String)
deriving DecidableEq, Repr

/-- The state that a switch is to have: as the argument says, or the other one without argument. -/
def readSwitch (argument : String) (current : Bool) : Option Bool :=
  let word := lowerCase argument
  if isOn word then some true
  else if isOff word then some false
  else if word.isEmpty then some !current
  else none

/-- Reads an input as a command, given the present states of the two switches. -/
def Command.ofInput? (trace tokens : Bool) (input : String) : Option Command :=
  let text := Text.trim input.toList
  if text.head? = some '/' then
    let words := Text.splitFirstWord text
    let argument := String.ofList words.2
    match String.ofList words.1 with
    | "/clear" => some .clear
    | "/py-traceback" => some (.trace (readSwitch argument trace))
    | "/tokens" => some (.tokens (readSwitch argument tokens))
    | "/reset" => some .reset
    | name => some (.unknown name)
  else none

end MonkeyLanguage.Prompt
