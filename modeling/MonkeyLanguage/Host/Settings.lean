import MonkeyLanguage.Eval.Evaluator
import MonkeyLanguage.Text.Numeral
import MonkeyLanguage.Text.Quoted

/-!
# Settings

Three texts given from outside steer the hosts of the language: whether the report of a host failure
shows a trace, the limit on the depth of evaluation, and the prompt.  A setting may be absent.
-/

namespace MonkeyLanguage

/-- The settings as they are given. -/
structure Settings where
  trace : Option String
  recursionLimit : Option String
  prompt : Option String
deriving Repr

/--
The word in lower case.  The words compared with it are ASCII and hold no `k`, so they have no spelling
with a letter outside ASCII.
-/
def lowerCase (s : String) : String :=
  s.map Char.toLower

def isOn (word : String) : Bool :=
  ["on", "1", "true", "yes"].contains word

def isOff (word : String) : Bool :=
  ["off", "0", "false", "no"].contains word

/-- What the setting of the limit says. -/
inductive LimitSetting where
  | unset
  | notAnInteger (raw : String)
  | notPositive (raw : String)
  | limit (value : Nat)
deriving DecidableEq, Repr

namespace LimitSetting

def value? : LimitSetting → Option Nat
  | limit n => some n
  | _ => none

def warning : LimitSetting → String
  | notAnInteger raw => ignored raw "not an integer"
  | notPositive raw => ignored raw "must be positive"
  | _ => ""
where
  ignored (raw reason : String) : String :=
    "Warning: ignoring MONKEY_RECURSION_LIMIT=" ++ Text.quoted raw ++ " (" ++ reason ++ ")\n"

end LimitSetting

namespace Settings

def none : Settings :=
  ⟨.none, .none, .none⟩

def traceEnabled (s : Settings) : Bool :=
  isOn (lowerCase (String.ofList (Text.trim (s.trace.getD "").toList)))

def setTrace (s : Settings) (enabled : Bool) : Settings :=
  { s with trace := if enabled then some "1" else .none }

/-- Reads the limit on the depth of evaluation.  A blank setting counts as absent. -/
def limit (s : Settings) : LimitSetting :=
  match s.recursionLimit with
  | .none => .unset
  | some raw =>
    if (Text.trim raw.toList).isEmpty then .unset
    else
      match Text.readInteger? raw.toList with
      | .none => .notAnInteger raw
      | some n => if n ≤ 0 then .notPositive raw else .limit n.toNat

def promptText (s : Settings) : String :=
  s.prompt.getD ">> "

/-- The report of a failure of the host, for the standard error stream. -/
def failureReport (s : Settings) (reason : String) : String :=
  "Error: " ++ reason ++ "\n" ++ if s.traceEnabled then "\nPython traceback:\n" else ""

end Settings

def Abort.reason : Abort → String
  | tooDeep => "maximum recursion depth exceeded"
  | missingNode => "Unsupported AST node NoneType"

end MonkeyLanguage
