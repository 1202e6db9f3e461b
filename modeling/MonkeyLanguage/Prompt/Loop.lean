import MonkeyLanguage.Host.Machine
import MonkeyLanguage.Prompt.Editor
import MonkeyLanguage.Prompt.State

/-!
# The prompt from greeting to end

The prompt greets the user, takes inputs until there are no more, and says what it shows before each.
-/

namespace MonkeyLanguage.Prompt

/-- What comes in at one prompt. -/
inductive Event where
  /-- A text is submitted. -/
  | line (text : String)
  /-- Keys are pressed, up to the one that submits the text, if one does. -/
  | keys (keys : List Key)
  | interrupt
  /-- There is no more input. -/
  | finish
deriving DecidableEq, Repr

/-- What there is to see when a prompt is shown and answered. -/
structure Shown where
  /-- The state at the prompt, with what has been written since the prompt before. -/
  state : State
  /-- The input after each key, if it was edited. -/
  edits : Option (List Editor)
deriving Repr

namespace State

/-- The state at the first prompt, behind the greeting. -/
def greet (limit : Nat) (settings : Settings) (user : Option String) : State :=
  let name := user.getD "there"
  ((State.initial limit settings).warn settings.limit.warning).write
    ("Hello " ++ name ++ "! This is the Monkey programming language.\n" ++
      "Feel free to type in commands (Ctrl-D to exit, / for commands)\n")

/-- Opens the prompt, if the limit on nested calls can be put in force. -/
def start (machine : Machine) (settings : Settings) (user : Option String) : Except Crash State :=
  let limit := settings.limit.value?
  match machine.refusal? limit with
  | some crash => .error crash
  | none => .ok (greet (machine.evaluations limit) settings user)

def submit (s : State) (text : String) : State :=
  let text := normalize text
  if (Text.trim text.toList).isEmpty then s
  else
    match s.command? text with
    | some command => s.obey command
    | none => s.evaluate text

/-- Takes inputs up to the end, and gives each prompt and the last state. -/
def converse (s : State) : List Event → List Shown × State
  | [] | .finish :: _ => ([⟨s, none⟩], s.flush.write "\n")
  | .interrupt :: events => continueWith none (s.flush.write "KeyboardInterrupt\n") events
  | .line text :: events => continueWith none (s.flush.submit text) events
  | .keys keys :: events =>
    continueWith (some (Editor.empty.type keys)) ((Editor.submitted? keys).elim s.flush s.flush.submit) events
where
  continueWith (edits : Option (List Editor)) (next : State) (events : List Event) :
      List Shown × State :=
    let (shown, last) := next.converse events
    (⟨s, edits⟩ :: shown, last)

end State

end MonkeyLanguage.Prompt
