import MonkeyLanguage.Eval.Evaluator
import MonkeyLanguage.Parser.FrontEnd

/-!
# Running programs one after another

A session is a world and the scope in which the programs of the session run, so that a program sees the
bindings of those before it.  A text that is no program changes nothing, and an aborted program keeps
the bindings it has made.
-/

namespace MonkeyLanguage

/-- What became of a text that was run. -/
inductive Outcome where
  /-- The text is no program. -/
  | rejected (messages : List String)
  /-- The program has a value, which may be a failure. -/
  | finished (value : Value)
  | aborted (reason : Abort)
deriving Repr

namespace Outcome

def messages : Outcome → List String
  | rejected messages => messages
  | _ => []

/-- The value, which is `null` for a text that is no program. -/
def value? : Outcome → Option Value
  | rejected _ => some .null
  | finished v => some v
  | aborted _ => none

end Outcome

/-- A world and the scope in which programs run. -/
structure Session where
  world : World
  scope : ScopeId
  /-- How many evaluations may stand inside each other in a program. -/
  limit : Nat
deriving Repr

structure Run where
  outcome : Outcome
  /-- The text printed. -/
  printed : String
  /-- The session afterwards. -/
  session : Session
deriving Repr

namespace Session

/-- A session in a new scope of a world. -/
def ofWorld (w : World) (limit : Nat) : Session :=
  let (scope, world) := w.addScope none []
  ⟨world, scope, limit⟩

def empty (limit : Nat) : Session :=
  ofWorld .empty limit

def names (s : Session) : List String :=
  s.world.names s.scope

def evaluate (s : Session) (table : BuiltinTable) (node : Node) : Run :=
  match eval table (s.limit + 1) node s.scope { s.world with output := "" } with
  | .ok value world => ⟨.finished value, world.output, { s with world }⟩
  | .error reason world => ⟨.aborted reason, world.output, { s with world }⟩

def run (s : Session) (frontEnd : FrontEnd) (table : BuiltinTable) (source : String) : Run :=
  match frontEnd.parse source with
  | (statements, []) => s.evaluate table (.program statements)
  | (_, messages) => ⟨.rejected messages, "", s⟩

end Session

end MonkeyLanguage
