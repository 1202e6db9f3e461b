import MonkeyLanguage.Prompt.Command
import MonkeyLanguage.Session

/-!
# Submitting inputs

The prompt keeps a session, a mode and the settings between inputs.  An input is a command, or a text
that is run in the session, or, in token mode, a text whose tokens are shown.
-/

namespace MonkeyLanguage.Prompt

/-- What the prompt keeps between inputs, and what it has written. -/
structure State where
  session : Session
  /-- Whether tokens are shown in place of values. -/
  tokenMode : Bool
  settings : Settings
  stdout : String
  stderr : String
  /-- How often the screen has been cleared. -/
  cleared : Nat
deriving Repr

namespace State

def initial (limit : Nat) (settings : Settings) : State :=
  ⟨.empty limit, false, settings, "", "", 0⟩

def write (s : State) (text : String) : State :=
  { s with stdout := s.stdout ++ text }

def warn (s : State) (text : String) : State :=
  { s with stderr := s.stderr ++ text }

/-- Forgets what has been written. -/
def flush (s : State) : State :=
  { s with stdout := "", stderr := "" }

/-! ## Commands -/

def switchText (on : Bool) : String :=
  if on then "on" else "off"

def obey (s : State) : Command → State
  | .clear => { s with cleared := s.cleared + 1 }
  | .reset => { s with session := .empty s.session.limit }.write "Environment reset.\n"
  | .trace (some on) =>
    { s with settings := s.settings.setTrace on }.write
      ("Python traceback: " ++ switchText on ++ "\n")
  | .trace none => s.warn "Usage: /py-traceback [on|off]\n"
  | .tokens (some on) => { s with tokenMode := on }.write ("Token mode: " ++ switchText on ++ "\n")
  | .tokens none => s.warn "Usage: /tokens [on|off]\n"
  | .unknown name => s.warn ("Unknown command: " ++ name ++ "\n")

/-- The command that an input is in this state. -/
def command? (s : State) (input : String) : Option Command :=
  Command.ofInput? s.settings.traceEnabled s.tokenMode input

/-! ## Programs -/

/--
An error message as the terminal gets it: a carriage return stands before each line feed and nowhere
else.
-/
def errorText (message : String) : String :=
  let ends := fun c => if c = '\r' then [] else if c = '\n' then ['\r', '\n'] else [c]
  "Error: " ++ String.ofList (message.toList.flatMap ends) ++ "\r\n"

/-- Runs a text, or shows its tokens. -/
def evaluate (s : State) (input : String) : State :=
  if s.tokenMode then
    s.write (String.join ((Cursor.ofString input).tokens.map fun t => t.render ++ "\n"))
  else
    let run := s.session.run .descent .default input
    let s := { s with session := run.session }.write run.printed
    match run.outcome with
    | .rejected messages => s.warn (String.join (messages.map errorText))
    | .aborted reason => s.warn (s.settings.failureReport reason.reason)
    | .finished (.error e) => s.warn (errorText e.message)
    | .finished .null => s
    | .finished v => s.write (v.render ++ "\n")

end State

end MonkeyLanguage.Prompt
