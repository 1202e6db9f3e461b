import MonkeyLanguage.Eval.World
import MonkeyLanguage.Value.Operators

/-!
# Evaluation

The value of a node in a scope.  A failure is a value too: whatever needs the value of a part passes a
failure of that part on, and does nothing else.  The value of a `return` passes through statements and
blocks in the same way, up to the function or program around them.

Evaluation of a node evaluates its parts, and a call the body of the function.  `eval depth` allows
`depth` evaluations inside each other and is aborted where more are needed.
-/

namespace MonkeyLanguage

/-- Why an evaluation has no value. -/
inductive Abort where
  /-- Too many evaluations stand inside each other. -/
  | tooDeep
  /-- A node is needed where there is none. -/
  | missingNode
deriving DecidableEq, Repr

/-- A computation in a world, which keeps its changes to the world also when it is aborted. -/
abbrev EvalM := EStateM Abort World

/-- A way to evaluate nodes in scopes. -/
abbrev Evaluator := Node → ScopeId → EvalM Value

namespace Evaluator

variable (eval : Evaluator)

/-- Evaluates statements up to the first that returns or fails.  The value is that of the last. -/
def statements (scope : ScopeId) : Value → List Node → EvalM Value
  | last, [] => return last
  | _, node :: nodes => do
    match ← eval node scope with
    | .returned v => return .returned v
    | .error e => return .error e
    | v => statements scope v nodes

/-- Goes on with the value of a node, unless that is a failure, which then is the value of all. -/
@[inline] def withValue (scope : ScopeId) (node : Node) (next : Value → EvalM Value) : EvalM Value := do
  match ← eval node scope with
  | .error e => return .error e
  | v => next v

/--
Goes on with the values of nodes, evaluated from left to right up to the first failure.  `before` holds
the values of the nodes before these, the last first.
-/
def withValues (scope : ScopeId) (next : List Value → EvalM Value) :
    List Value → List Node → EvalM Value
  | before, [] => next before.reverse
  | before, node :: nodes =>
    withValue eval scope node fun v => withValues scope next (v :: before) nodes

/--
Evaluates the entries of a hash.  `before` holds the keys and values of the entries before these, the
last first.
-/
def entries (scope : ScopeId) : List (HashKey × Value) → List (Node × Node) → EvalM Value
  | before, [] => return .hash (OrderedMap.ofList before.reverse)
  | before, (keyNode, valueNode) :: pairs =>
    withValue eval scope keyNode fun k =>
      match k.hashKey? with
      | none => return .error (.unusableKey k.type)
      | some key => withValue eval scope valueNode fun v => entries scope ((key, v) :: before) pairs

def call (function : Value) (arguments : List Value) : EvalM Value := do
  match function with
  | .function _ parameters body outer =>
    if arguments.length ≠ parameters.length then
      return .error (.wrongArgumentCount parameters.length arguments.length)
    let scope ← modifyGet (World.addScope · (some outer) (.ofList (parameters.zip arguments)))
    return (← eval body scope).unwrapReturned
  | .builtin b =>
    let (value, text) := b.apply arguments
    modify (World.print · text)
    return value
  | v => return .error (.notAFunction v.type)

/-- The value that a name stands for: that of its binding, or the builtin of that name. -/
def lookUp (table : BuiltinTable) (scope : ScopeId) (name : String) : EvalM Value := do
  match (← get).get? scope name with
  | some v => return v
  | none =>
    match table.get? name with
    | some b => return .builtin b
    | none => return .error (.unboundName name)

theorem lookUp_apply (table : BuiltinTable) (scope : ScopeId) (name : String) (w : World) :
    lookUp table scope name w = .ok
      (match w.get? scope name, table.get? name with
        | some v, _ => v
        | none, some b => .builtin b
        | none, none => .error (.unboundName name)) w := by
  change (match w.get? scope name with
    | some v => Pure.pure v
    | none =>
      match table.get? name with
      | some b => Pure.pure (.builtin b)
      | none => Pure.pure (.error (.unboundName name)) : EvalM Value) w = _
  cases w.get? scope name with
  | some v => rfl
  | none => cases table.get? name <;> rfl

def step (table : BuiltinTable) (node : Node) (scope : ScopeId) : EvalM Value := do
  match node with
  | .absent => throw .missingNode
  | .program nodes => return (← eval.statements scope .null nodes).unwrapReturned
  | .block nodes => eval.statements scope .null nodes
  | .expressionStatement expression => eval expression scope
  | .returnStatement expression => eval.withValue scope expression fun v => return .returned v
  | .letStatement name expression =>
    eval.withValue scope expression fun v => do
      modify (World.set · scope name v)
      return .null
  | .integer n => return .integer n
  | .string s => return .string s
  | .boolean b => return .boolean b
  | .array nodes => eval.withValues scope (fun vs => return .array vs) [] nodes
  | .hash pairs => eval.entries scope [] pairs
  | .function parameters body =>
    let identity ← modifyGet World.addFunction
    return .function identity parameters body scope
  | .identifier name => lookUp table scope name
  | .unary operator right => eval.withValue scope right fun v => return v.applyUnary operator
  | .binary left operator right =>
    eval.withValue scope left fun a =>
      eval.withValue scope right fun b => return Value.applyBinary operator a b
  | .ifElse condition consequence alternative =>
    eval.withValue scope condition fun v =>
      if v.isTruthy then eval consequence scope
      else
        match alternative with
        | .absent => return .null
        | node => eval node scope
  | .call function arguments =>
    eval.withValue scope function fun f => eval.withValues scope (eval.call f) [] arguments
  | .index left index =>
    eval.withValue scope left fun a => eval.withValue scope index fun i => return a.applyIndex i

end Evaluator

/-- Evaluates a node in a scope, with at most `depth` evaluations inside each other. -/
def eval (table : BuiltinTable) : Nat → Evaluator
  | 0, _, _ => throw .tooDeep
  | depth + 1, node, scope => Evaluator.step (eval table depth) table node scope

end MonkeyLanguage
