import MonkeyLanguage.Host.Machine
import MonkeyLanguage.Host.Settings
import MonkeyLanguage.Session
import MonkeyLanguage.Text.Newline

/-!
# The command line

The arguments choose what is done with a text, and where it comes from: from standard input, from a file,
or from the argument itself.  `CommandLine.run` gives what is written and how the process ends.
-/

namespace MonkeyLanguage.CommandLine

/-- What is done with the text. -/
inductive Mode where
  | evaluate
  | showTokens
  | showTree
deriving DecidableEq, Repr

structure Request where
  mode : Mode
  frontEnd : FrontEnd
  /-- The argument that is no flag. -/
  input : Option String
deriving DecidableEq, Repr

def Request.initial : Request :=
  ⟨.evaluate, .descent, none⟩

/-- The first thing to do, by the arguments. -/
inductive Decision where
  | help
  | unknownFlag (flag : String)
  | unexpectedArgument (argument : String)
  | request (request : Request)
deriving DecidableEq, Repr

/-- Reads the arguments from left to right, up to the first that settles the matter. -/
def decideFrom (request : Request) : List String → Decision
  | [] => .request request
  | argument :: rest =>
    if argument = "--tokens" then decideFrom { request with mode := .showTokens } rest
    else if argument = "--ast" then decideFrom { request with mode := .showTree } rest
    else if argument = "--lark" then decideFrom { request with frontEnd := .automaton } rest
    else if argument = "-h" ∨ argument = "--help" then .help
    else if ['-', '-'].isPrefixOf argument.toList then .unknownFlag argument
    else
      match request.input with
      | none => decideFrom { request with input := some argument } rest
      | some _ => .unexpectedArgument argument

/-- How the process ends. -/
inductive Ending where
  | exit (code : Nat)
  | crash (crash : Crash)
deriving DecidableEq, Repr

/-- The exit code of the process; a crash has the code of an error. -/
def Ending.code : Ending → Nat
  | exit code => code
  | crash _ => 1

/-- What the process writes, and how it ends.  The report of a crash is left out. -/
structure Result where
  ending : Ending
  stdout : String
  stderr : String
  /-- The limit on nested calls that was put in force. -/
  limit : Option Nat
deriving DecidableEq, Repr

def usage : String :=
  "usage: monkey [--tokens] [--ast] [--lark] [SOURCE|FILE|-]"

def usageError (message : String) : Result :=
  ⟨.exit 2, "", message ++ "\n" ++ usage ++ "\n", none⟩

def errorLine (message : String) : String :=
  "Error: " ++ message ++ "\n"

/-- What there is under the name of a file. -/
inductive File where
  /-- There is no file that holds data. -/
  | missing
  | text (content : String)
  /-- The file cannot be read, for the given reason. -/
  | unreadable (reason : String)
  /-- The bytes of the file are no text. -/
  | undecodable
deriving DecidableEq, Repr

/-- The text to work on, or what comes of there being none.  Line ends are unified in a file, but not in the
standard input. -/
def source (input : Option String) (stdin : String) (files : String → File) : Except Result String :=
  match input with
  | none | some "-" => if stdin.isEmpty then .error (usageError "No input provided on stdin") else .ok stdin
  | some argument =>
    match files argument with
    | .missing => .ok argument
    | .text content => .ok (String.ofList (Text.unifyNewlines content.toList))
    | .unreadable reason => .error (usageError reason)
    | .undecodable => .error ⟨.crash .undecodable, "", "", none⟩

/-- The result if calls nest too deep, behind what was printed. -/
def overflow (settings : Settings) (printed : String) : Result :=
  ⟨.exit 70, printed, settings.failureReport Abort.tooDeep.reason, none⟩

section

variable (machine : Machine) (settings : Settings) (limit : Option Nat) (frontEnd : FrontEnd) (source : String)

def showTree : Result :=
  match frontEnd.parse source with
  | (statements, []) =>
    if machine.showsTree limit statements then ⟨.exit 0, Node.pretty statements ++ "\n", "", none⟩
    else overflow settings ""
  | (_, messages) => ⟨.exit 1, "", String.join (messages.map errorLine), none⟩

/-- Runs a program and shows its value, unless that is `null`. -/
def evaluate : Result :=
  let run := (Session.empty (machine.evaluations limit)).run frontEnd .default source
  match run.outcome with
  | .rejected messages => ⟨.exit 1, run.printed, String.join (messages.map errorLine), none⟩
  | .aborted reason => ⟨.exit 70, run.printed, settings.failureReport reason.reason, none⟩
  | .finished (.error e) => ⟨.exit 1, run.printed, errorLine e.message, none⟩
  | .finished .null => ⟨.exit 0, run.printed, "", none⟩
  | .finished v =>
    -- overflows are no longer handled when the value is shown
    if machine.showsValue limit v then ⟨.exit 0, run.printed ++ v.display ++ "\n", "", none⟩
    else ⟨.crash .valueTooDeep, run.printed, "", none⟩

def perform (mode : Mode) : Result :=
  if machine.parses limit frontEnd source then
    match frontEnd.overlong? source with
    | some numeral => ⟨.crash (.overlong frontEnd numeral), "", "", none⟩
    | none =>
      if mode = .showTree then showTree machine settings limit frontEnd source
      else evaluate machine settings limit frontEnd source
  else overflow settings ""

end

/-- Puts the limit on nested calls in force before something is done. -/
def withLimit (machine : Machine) (settings : Settings) (work : Option Nat → Result) : Result :=
  let limit := settings.limit
  match machine.refusal? limit.value? with
  | some crash => ⟨.crash crash, "", limit.warning, none⟩
  | none =>
    let result := work limit.value?
    { result with stderr := limit.warning ++ result.stderr, limit := limit.value? }

def fulfil (machine : Machine) (settings : Settings) (request : Request) (source : String) : Result :=
  if request.mode = .showTokens then
    ⟨.exit 0, String.join ((tokenize source).map fun t => t.render ++ "\n"), "", none⟩
  else
    withLimit machine settings fun limit => perform machine settings limit request.frontEnd source request.mode

def run (machine : Machine) (settings : Settings) (arguments : List String) (stdin : String)
    (files : String → File) : Result :=
  match decideFrom .initial arguments with
  | .help => ⟨.exit 0, usage ++ "\n", "", none⟩
  | .unknownFlag flag => usageError ("Unknown flag: " ++ flag)
  | .unexpectedArgument argument => usageError ("Unexpected argument: " ++ argument)
  | .request request =>
    match source request.input stdin files with
    | .error result => result
    | .ok source => fulfil machine settings request source

end MonkeyLanguage.CommandLine
