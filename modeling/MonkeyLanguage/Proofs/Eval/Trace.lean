import MonkeyLanguage.Eval.Evaluator

/-!
# Traces

`traced` evaluates as `eval` does and keeps a log besides: an entry when the evaluation of a node, the
application of a function or a builtin begins, and an entry with the value when it ends.  Each entry holds the
world of its moment.  Without the log a traced evaluation is the evaluation itself (`erases_traced`).

An aborted evaluation ends nothing, so activities that it leaves stay open in the log (`pending`).
-/

namespace MonkeyLanguage

/-! ## Logs -/

/-- What takes time in a run. -/
inductive Activity where
  | evaluation (node : Node) (scope : ScopeId)
  | application (function : Value) (arguments : List Value)
  | builtin (builtin : Builtin) (arguments : List Value)

/-- The beginning or the end of an activity. -/
inductive Event where
  | begins (activity : Activity)
  | ends (activity : Activity) (value : Value)

/-- An event and the world of its moment. -/
structure Entry where
  event : Event
  world : World

/-- The failure that the value is, if it is one. -/
def Value.failure? : Value → Option RuntimeError
  | error e => some e
  | _ => none

/-- The failure with which an activity ends. -/
def Entry.failure? (entry : Entry) : Option RuntimeError :=
  match entry.event with
  | .begins _ => none
  | .ends _ v => v.failure?

/-- The activities under way after an entry, the innermost first. -/
def Entry.read (stack : List Activity) (entry : Entry) : List Activity :=
  match entry.event with
  | .begins activity => activity :: stack
  | .ends _ _ => stack.tail

/-- The activities under way after a log, the innermost first. -/
def pending (log : List Entry) : List Activity :=
  log.foldl Entry.read []

/-! ## Traced computations -/

/-- A world and the log of the run so far. -/
structure Traced where
  world : World
  log : List Entry

/-- A computation in a world that keeps a log. -/
abbrev TraceM := EStateM Abort Traced

namespace TraceM

/-- The computation, of which nothing is logged. -/
def lift {α : Type} (m : EvalM α) : TraceM α := fun s =>
  match m s.world with
  | .ok a w => .ok a { s with world := w }
  | .error e w => .error e { s with world := w }

def record (event : Event) : TraceM Unit :=
  modify fun s => { s with log := s.log ++ [⟨event, s.world⟩] }

/-- The computation, with its beginning and end in the log. -/
def during (activity : Activity) (m : TraceM Value) : TraceM Value := do
  record (.begins activity)
  let v ← m
  record (.ends activity v)
  return v

theorem during_apply (activity : Activity) (m : TraceM Value) (s : Traced) :
    during activity m s =
      match m ⟨s.world, s.log ++ [⟨.begins activity, s.world⟩]⟩ with
      | .ok v s' => .ok v ⟨s'.world, s'.log ++ [⟨.ends activity v, s'.world⟩]⟩
      | .error reason s' => .error reason s' := by
  change EStateM.bind m _ _ = _
  rw [EStateM.bind]
  cases m ⟨s.world, s.log ++ [⟨.begins activity, s.world⟩]⟩ <;> rfl

end TraceM

open TraceM

abbrev TracedEvaluator := Node → ScopeId → TraceM Value

namespace TracedEvaluator

variable (eval : TracedEvaluator)

def statements (scope : ScopeId) : Value → List Node → TraceM Value
  | last, [] => return last
  | _, node :: nodes => do
    match ← eval node scope with
    | .returned v => return .returned v
    | .error e => return .error e
    | v => statements scope v nodes

def withValue (scope : ScopeId) (node : Node) (next : Value → TraceM Value) : TraceM Value := do
  match ← eval node scope with
  | .error e => return .error e
  | v => next v

def withValues (scope : ScopeId) (next : List Value → TraceM Value) :
    List Value → List Node → TraceM Value
  | before, [] => next before.reverse
  | before, node :: nodes =>
    withValue eval scope node fun v => withValues scope next (v :: before) nodes

def entries (scope : ScopeId) : List (HashKey × Value) → List (Node × Node) → TraceM Value
  | before, [] => return .hash (OrderedMap.ofList before.reverse)
  | before, (keyNode, valueNode) :: pairs =>
    withValue eval scope keyNode fun k =>
      match k.hashKey? with
      | none => return .error (.unusableKey k.type)
      | some key => withValue eval scope valueNode fun v => entries scope ((key, v) :: before) pairs

def call (function : Value) (arguments : List Value) : TraceM Value :=
  during (.application function arguments) do
    match function with
    | .function _ parameters body outer =>
      if arguments.length ≠ parameters.length then
        return .error (.wrongArgumentCount parameters.length arguments.length)
      let scope ← lift (modifyGet (World.addScope · (some outer) (.ofList (parameters.zip arguments))))
      return (← eval body scope).unwrapReturned
    | .builtin b =>
      during (.builtin b arguments) do
        lift (modify (World.print · (b.apply arguments).2))
        return (b.apply arguments).1
    | v => return .error (.notAFunction v.type)

def step (table : BuiltinTable) (node : Node) (scope : ScopeId) : TraceM Value := do
  match node with
  | .absent => throw .missingNode
  | .program nodes => return (← eval.statements scope .null nodes).unwrapReturned
  | .block nodes => eval.statements scope .null nodes
  | .expressionStatement expression => eval expression scope
  | .returnStatement expression => eval.withValue scope expression fun v => return .returned v
  | .letStatement name expression =>
    eval.withValue scope expression fun v => do
      lift (modify (World.set · scope name v))
      return .null
  | .integer n => return .integer n
  | .string s => return .string s
  | .boolean b => return .boolean b
  | .array nodes => eval.withValues scope (fun vs => return .array vs) [] nodes
  | .hash pairs => eval.entries scope [] pairs
  | .function parameters body =>
    let identity ← lift (modifyGet World.addFunction)
    return .function identity parameters body scope
  | .identifier name => lift (Evaluator.lookUp table scope name)
  | .unary operator right => eval.withValue scope right fun v => return v.applyUnary operator
  | .binary left operator right =>
    eval.withValue scope left fun a =>
      eval.withValue scope right fun b => return Value.applyBinary operator a b
  | .ifElse condition consequence alternative =>
    eval.withValue scope condition fun v =>
      if v.isTruthy then eval consequence scope
      else
        match alternative with
        | .absent => return .null
        | node => eval node scope
  | .call function arguments =>
    eval.withValue scope function fun f => eval.withValues scope (eval.call f) [] arguments
  | .index left index =>
    eval.withValue scope left fun a => eval.withValue scope index fun i => return a.applyIndex i

end TracedEvaluator

/-- Evaluates a node in a scope, with at most `depth` evaluations inside each other, and keeps a log. -/
def traced (table : BuiltinTable) : Nat → TracedEvaluator
  | 0, _, _ => throw .tooDeep
  | depth + 1, node, scope =>
    during (.evaluation node scope) (TracedEvaluator.step (traced table depth) table node scope)

def trace (table : BuiltinTable) (depth : Nat) (node : Node) (scope : ScopeId) (w : World) : List Entry :=
  match traced table depth node scope ⟨w, []⟩ with
  | .ok _ s => s.log
  | .error _ s => s.log

/-! ## Without the log -/

/-- What the computation gives, without the log. -/
def Traced.result {α : Type} : EStateM.Result Abort Traced α → EStateM.Result Abort World α
  | .ok a s => .ok a s.world
  | .error e s => .error e s.world

/-- Without its log the one computation is the other. -/
def Erases {α : Type} (m : TraceM α) (m' : EvalM α) : Prop :=
  ∀ s, Traced.result (m s) = m' s.world

namespace Erases

variable {α β : Type} {m : TraceM α} {m' : EvalM α} {f : α → TraceM β} {f' : α → EvalM β}

theorem pure (a : α) : Erases (Pure.pure a) (Pure.pure a) :=
  fun _ => rfl

theorem throw (e : Abort) : Erases (MonadExcept.throw e : TraceM α) (MonadExcept.throw e) :=
  fun _ => rfl

theorem lift (m' : EvalM α) : Erases (TraceM.lift m') m' := by
  intro s
  rw [TraceM.lift]
  cases m' s.world <;> rfl

theorem bind (hm : Erases m m') (hf : ∀ a, Erases (f a) (f' a)) : Erases (m >>= f) (m' >>= f') := by
  intro s
  have hs := hm s
  change Traced.result (EStateM.bind m f s) = EStateM.bind m' f' s.world
  rw [EStateM.bind, EStateM.bind, ← hs]
  cases m s with
  | ok a s' => exact hf a s'
  | error e s' => rfl

theorem during {m : TraceM Value} {m' : EvalM Value} (activity : Activity) (hm : Erases m m') :
    Erases (TraceM.during activity m) m' := by
  intro s
  have hs := hm ⟨s.world, s.log ++ [⟨.begins activity, s.world⟩]⟩
  rw [during_apply, ← hs]
  cases m ⟨s.world, s.log ++ [⟨.begins activity, s.world⟩]⟩ <;> rfl

end Erases

namespace TracedEvaluator

variable {eval : TracedEvaluator} {eval' : Evaluator} {scope : ScopeId} {node : Node} {nodes : List Node}

theorem erases_withValue {next : Value → TraceM Value} {next' : Value → EvalM Value}
    (heval : ∀ node scope, Erases (eval node scope) (eval' node scope))
    (hnext : ∀ v, Erases (next v) (next' v)) :
    Erases (withValue eval scope node next) (Evaluator.withValue eval' scope node next') := by
  refine (heval node scope).bind fun v => ?_
  cases v with
  | error e => exact .pure _
  | _ => exact hnext _

section

variable (heval : ∀ node scope, Erases (eval node scope) (eval' node scope))
include heval

theorem erases_withValues {next : List Value → TraceM Value} {next' : List Value → EvalM Value}
    (hnext : ∀ vs, Erases (next vs) (next' vs)) (before : List Value) :
    Erases (withValues eval scope next before nodes)
      (Evaluator.withValues eval' scope next' before nodes) := by
  induction nodes generalizing before with
  | nil => exact hnext _
  | cons node nodes ih => exact erases_withValue heval fun v => ih (v :: before)

theorem erases_entries {pairs : List (Node × Node)} (before : List (HashKey × Value)) :
    Erases (entries eval scope before pairs) (Evaluator.entries eval' scope before pairs) := by
  induction pairs generalizing before with
  | nil => exact .pure _
  | cons pair pairs ih =>
    refine erases_withValue heval fun k => ?_
    cases k.hashKey? with
    | none => exact .pure _
    | some key => exact erases_withValue heval fun v => ih _

theorem erases_statements (last : Value) :
    Erases (statements eval scope last nodes) (Evaluator.statements eval' scope last nodes) := by
  induction nodes generalizing last with
  | nil => exact .pure _
  | cons node nodes ih =>
    refine (heval node scope).bind fun v => ?_
    cases v with
    | returned v => exact .pure _
    | error e => exact .pure _
    | _ => exact ih _

theorem erases_call (function : Value) (arguments : List Value) :
    Erases (call eval function arguments) (Evaluator.call eval' function arguments) := by
  refine .during _ ?_
  cases function with
  | function identity parameters body outer =>
    by_cases hlength : arguments.length = parameters.length
    · simp only [Evaluator.call, if_neg (not_not_intro hlength)]
      exact (Erases.lift _).bind fun scope => (heval body scope).bind fun _ => .pure _
    · simp only [Evaluator.call, if_pos hlength]
      exact .pure _
  | builtin b => exact .during _ ((Erases.lift _).bind fun _ => .pure _)
  | _ => exact .pure _

theorem erases_step (table : BuiltinTable) (node : Node) (scope : ScopeId) :
    Erases (step eval table node scope) (Evaluator.step eval' table node scope) := by
  cases node with
  | absent => exact .throw _
  | program nodes => exact (erases_statements heval _).bind fun _ => .pure _
  | block nodes => exact erases_statements heval _
  | expressionStatement e => exact heval e scope
  | returnStatement e => exact erases_withValue heval fun _ => .pure _
  | letStatement name e =>
    exact erases_withValue heval fun v => (Erases.lift _).bind fun _ => .pure _
  | integer n => exact .pure _
  | string s => exact .pure _
  | boolean b => exact .pure _
  | array nodes => exact erases_withValues heval (fun _ => .pure _) _
  | hash pairs => exact erases_entries heval _
  | function parameters body => exact (Erases.lift _).bind fun _ => .pure _
  | identifier name => exact .lift _
  | unary operator e => exact erases_withValue heval fun _ => .pure _
  | binary left operator right =>
    exact erases_withValue heval fun _ => erases_withValue heval fun _ => .pure _
  | ifElse condition consequence alternative =>
    refine erases_withValue heval fun v => ?_
    by_cases hv : v.isTruthy = true
    · simp only [if_pos hv]
      exact heval consequence scope
    · simp only [if_neg hv]
      cases alternative with
      | absent => exact .pure _
      | _ => exact heval _ scope
  | call callee arguments =>
    refine erases_withValue heval fun f => ?_
    exact erases_withValues heval (fun vs => erases_call heval f vs) _
  | index left position =>
    exact erases_withValue heval fun _ => erases_withValue heval fun _ => .pure _

end

end TracedEvaluator

/-- Without its log a traced evaluation is the evaluation. -/
theorem erases_traced (table : BuiltinTable) (depth : Nat) (node : Node) (scope : ScopeId) :
    Erases (traced table depth node scope) (eval table depth node scope) := by
  induction depth generalizing node scope with
  | zero => exact .throw _
  | succ depth ih => exact .during _ (TracedEvaluator.erases_step ih table node scope)

end MonkeyLanguage
