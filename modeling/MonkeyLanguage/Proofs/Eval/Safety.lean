import MonkeyLanguage.Proofs.Eval.Frame
import MonkeyLanguage.Proofs.Parser.WellFormed
import MonkeyLanguage.Proofs.Session.Stored

/-!
# Programs do not get stuck

Evaluation of a tree of the language always finds the nodes that it needs, and applies operators of the language
alone.  So it is aborted only for want of depth, and fails only with what operands can be blamed for
(`Evaluator.safe_eval`).

The trees may come from a closure, so what is bound must be of the language too (`Invariant.runnable`).  `Safely` holds
of a computation that keeps this, and composes, so each form of the evaluator is safe if the evaluations of its parts
are.
-/

namespace MonkeyLanguage

open Node

/-! ## Trees and values -/

/-- The tree is evaluated somewhere in a program: it is an expression, a statement, a block or a program. -/
inductive Node.Evaluable : Node → Prop where
  | expression {e : Node} (h : e.isExpression = true) : Evaluable e
  | statement {node : Node} (h : node.isStatement = true) : Evaluable node
  | block {node : Node} (h : node.isBlock = true) : Evaluable node
  | program {nodes : List Node} (h : allStatements nodes = true) : Evaluable (program nodes)

theorem Node.WellFormed.isBlock_body {parameters : List String} {body : Node}
    (h : (function parameters body).WellFormed) : body.isBlock = true := by
  cases h with
  | expression h =>
    rw [isExpression, Bool.and_eq_true] at h
    exact h.2
  | branch h => cases h
  | statement h => cases h

/-- The value may be bound in a session: it is no failure, and the body of a function is a block of statements. -/
def Value.IsRunnable : Value → Prop
  | .function _ _ body _ => body.isBlock = true
  | .error _ => False
  | _ => True

/-- Programs of the language, and values that may be bound in a session. -/
def Invariant.runnable : Invariant where
  tree := Node.WellFormed
  value := Value.IsRunnable
  use _ _ := True
  part := Node.WellFormed.of_mem_parts
  returned _ _ _ _ := trivial
  null := trivial
  boolean _ := trivial
  builtin _ := trivial
  array _ := trivial
  hash _ := trivial
  closure h _ _ := h.isBlock_body
  body h := .branch (isAlternative_of_isBlock h)
  integer _ := trivial
  string _ := trivial
  wrap _ := trivial
  length _ _ := trivial
  append _ _ := trivial

/-- The errors with which programs fail: a prefix operator does not fit its operand, an operator does not fit two
operands of one type, which are no integers, or something that is no operator goes wrong. -/
def RuntimeError.IsExpected : RuntimeError → Prop
  | unknownUnary operator _ => operator = "!" ∨ operator = "-"
  | unknownBinary _ operands => operands ≠ .integer
  | _ => True

/-- What evaluation may give: a value that may be bound, or a failure with an error that is expected. -/
inductive Value.IsAnswer : Value → Prop where
  | held {v : Value} (h : Invariant.runnable.Held v) : IsAnswer v
  | failure {e : RuntimeError} (h : e.IsExpected) : IsAnswer (.error e)

variable {v a b : Value} {vs : List Value} {e : RuntimeError} {operator : String}

theorem holdsNoFailure_of_runnable (h : Invariant.runnable.Held v) : v.HoldsNoFailure := by
  refine h.mono fun u hu herror => ?_
  cases u with
  | error e => exact hu
  | _ => cases herror

theorem Value.eq_integer_of_type (h : v.type = .integer) : ∃ n, v = .integer n := by
  cases v with
  | integer n => exact ⟨n, rfl⟩
  | _ => cases h

theorem Value.IsAnswer.unwrap (h : v.IsAnswer) : v.unwrapReturned.IsAnswer := by
  cases h with
  | held h =>
    cases v with
    | returned u => exact .held (h.of_mem_parts (List.mem_singleton_self u))
    | _ => exact .held h
  | failure h => exact .failure h

theorem Value.IsAnswer.isExpected (h : (Value.error e).IsAnswer) : e.IsExpected := by
  cases h with
  | held h => exact absurd rfl ((holdsNoFailure_of_runnable h).ne_error e)
  | failure h => exact h

/-- What operands make may be bound, unless they fail; then it is enough that the error is expected. -/
theorem isAnswer_of_gives (h : Invariant.runnable.Gives false v) (hfailure : ∀ e, v = .error e → e.IsExpected) :
    v.IsAnswer := by
  cases h with
  | held h => exact .held h
  | failure e => exact .failure (hfailure e rfl)
  | returned hreturn _ => cases hreturn

/-! ## Operators and builtins -/

theorem isAnswer_applyUnary (hoperator : operator = "!" ∨ operator = "-") (v : Value) :
    (v.applyUnary operator).IsAnswer := by
  refine isAnswer_of_gives (Invariant.gives_applyUnary operator v) fun e he => ?_
  unfold Value.applyUnary at he
  split at he <;> cases he
  exact hoperator

theorem isAnswer_applyIntegers {level : Level} (hoperator : infixLevel? operator = some level) (m n : Int) :
    (Value.applyIntegers operator m n).IsAnswer := by
  refine isAnswer_of_gives (Invariant.gives_applyIntegers operator m n) fun e he => ?_
  unfold Value.applyIntegers at he
  split at he
  case h_4 =>
    split at he <;> cases he
    trivial
  case h_9 =>
    unfold infixLevel? at hoperator
    split at hoperator <;> simp_all
  all_goals cases he

theorem isAnswer_applyBinary {level : Level} (hoperator : infixLevel? operator = some level)
    (ha : Invariant.runnable.Held a) (hb : Invariant.runnable.Held b) :
    (Value.applyBinary operator a b).IsAnswer := by
  have hgives : Invariant.runnable.Gives false (Value.applyBinary operator a b) :=
    Invariant.gives_applyBinary operator ha hb
  unfold Value.applyBinary at hgives ⊢
  split at hgives
  · exact isAnswer_applyIntegers hoperator ..
  · refine isAnswer_of_gives hgives fun e he => ?_
    unfold Value.applyStrings at he
    split at he <;> cases he
    exact ValueType.noConfusion
  · next hintegers _ =>
    refine isAnswer_of_gives hgives fun e he => ?_
    split at he
    · cases he
    split at he
    · cases he
    split at he
    · next htype =>
      cases he
      intro hleft
      obtain ⟨m, rfl⟩ := Value.eq_integer_of_type hleft
      obtain ⟨n, rfl⟩ := Value.eq_integer_of_type (htype.symm.trans hleft)
      exact hintegers m n rfl rfl
    · cases he
      trivial

theorem isAnswer_applyIndex (ha : Invariant.runnable.Held a) (b : Value) : (a.applyIndex b).IsAnswer := by
  refine isAnswer_of_gives (Invariant.gives_applyIndex ha b) fun e he => ?_
  rcases (holdsNoFailure_of_runnable ha).applyIndex_eq_error he with rfl | rfl <;> trivial

theorem isAnswer_apply (builtin : Builtin) (hvs : ∀ v ∈ vs, Invariant.runnable.Held v) :
    (builtin.apply vs).1.IsAnswer := by
  refine isAnswer_of_gives (Invariant.gives_apply builtin trivial hvs) fun e he => ?_
  obtain ⟨_, rfl⟩ | ⟨_, rfl⟩ | ⟨_, _, rfl⟩ :=
    Builtin.apply_eq_error (fun v hv => holdsNoFailure_of_runnable (hvs v hv)) he <;> trivial

/-! ## Safe computations -/

/-- The computation keeps what is bound in a session, is aborted only for want of depth, and gives what has the
property. -/
def Safely {α : Type} (m : EvalM α) (Q : α → Prop) : Prop :=
  ∀ w, Invariant.runnable.Holds w → match m w with
    | .ok a w' => Invariant.runnable.Holds w' ∧ Q a
    | .error reason w' => Invariant.runnable.Holds w' ∧ reason = .tooDeep

namespace Safely

variable {α β : Type} {m : EvalM α} {f : α → EvalM β} {Q : α → Prop} {R : β → Prop}

theorem pure {a : α} (h : Q a) : Safely (Pure.pure a) Q :=
  fun _ hw => ⟨hw, h⟩

theorem tooDeep : Safely (throw .tooDeep : EvalM α) Q :=
  fun _ hw => ⟨hw, rfl⟩

theorem bind (hm : Safely m Q) (hf : ∀ a, Q a → Safely (f a) R) : Safely (m >>= f) R := by
  intro w hw
  have hfirst := hm w hw
  change match EStateM.bind m f w with
    | .ok b w' => _
    | .error _ w' => _
  rw [EStateM.bind]
  cases hresult : m w with
  | ok a w₁ =>
    rw [hresult] at hfirst
    exact hf a hfirst.2 w₁ hfirst.1
  | error reason w₁ =>
    rw [hresult] at hfirst
    exact hfirst

theorem holds_after (h : Safely m Q) {w : World} (hw : Invariant.runnable.Holds w) :
    Invariant.runnable.Holds (w.after m) := by
  have hm := h w hw
  rw [World.after]
  cases hresult : m w with
  | ok a w' =>
    rw [hresult] at hm
    exact hm.1
  | error reason w' =>
    rw [hresult] at hm
    exact hm.1

end Safely

/-! ## The forms of the evaluator -/

namespace Evaluator

variable {eval : Evaluator} {scope : ScopeId} {node : Node} {nodes : List Node}

theorem lookUp_safely (table : BuiltinTable) (name : String) : Safely (lookUp table scope name) Value.IsAnswer := by
  intro w hw
  rw [lookUp_apply]
  refine ⟨hw, ?_⟩
  split
  · next hv => exact .held (hw.get? hv)
  · exact .held (.of_atom trivial rfl)
  · exact .failure trivial

section

variable (heval : ∀ node scope, node.Evaluable → Safely (eval node scope) Value.IsAnswer)
include heval

theorem withValue_safely {next : Value → EvalM Value} (hnode : node.isExpression = true)
    (hnext : ∀ v, Invariant.runnable.Held v → Safely (next v) Value.IsAnswer) :
    Safely (withValue eval scope node next) Value.IsAnswer := by
  refine (heval node scope (.expression hnode)).bind fun v hv => ?_
  cases hv with
  | failure h => exact .pure (.failure h)
  | held h =>
    cases v with
    | error e => exact absurd rfl ((holdsNoFailure_of_runnable h).ne_error e)
    | _ => exact hnext _ h

theorem withValues_safely {next : List Value → EvalM Value} (hnodes : ∀ node ∈ nodes, node.isExpression = true)
    (hnext : ∀ vs, (∀ v ∈ vs, Invariant.runnable.Held v) → Safely (next vs) Value.IsAnswer) (before : List Value)
    (hbefore : ∀ v ∈ before, Invariant.runnable.Held v) :
    Safely (withValues eval scope next before nodes) Value.IsAnswer := by
  induction nodes generalizing before with
  | nil => exact hnext _ fun v hv => hbefore v (List.mem_reverse.1 hv)
  | cons node nodes ih =>
    rw [List.forall_mem_cons] at hnodes
    exact withValue_safely heval hnodes.1 fun v hv =>
      ih hnodes.2 (v :: before) (List.forall_mem_cons.2 ⟨hv, hbefore⟩)

theorem entries_safely {pairs : List (Node × Node)}
    (hpairs : ∀ pair ∈ pairs, pair.1.isExpression = true ∧ pair.2.isExpression = true)
    (before : List (HashKey × Value))
    (hbefore : ∀ entry ∈ before, Invariant.runnable.Held entry.1.toValue ∧ Invariant.runnable.Held entry.2) :
    Safely (entries eval scope before pairs) Value.IsAnswer := by
  induction pairs generalizing before with
  | nil => exact .pure (.held (Invariant.held_hash fun entry hentry => hbefore entry (List.mem_reverse.1 hentry)))
  | cons pair pairs ih =>
    rw [List.forall_mem_cons] at hpairs
    refine withValue_safely heval hpairs.1.1 fun k hk => ?_
    cases hkey : k.hashKey? with
    | none => exact .pure (.failure trivial)
    | some key =>
      rw [← Value.toValue_of_hashKey? hkey] at hk
      exact withValue_safely heval hpairs.1.2 fun v hv =>
        ih hpairs.2 ((key, v) :: before) (List.forall_mem_cons.2 ⟨⟨hk, hv⟩, hbefore⟩)

theorem statements_safely (hnodes : allStatements nodes = true) {last : Value} (hlast : last.IsAnswer) :
    Safely (statements eval scope last nodes) Value.IsAnswer := by
  induction nodes generalizing last with
  | nil => exact .pure hlast
  | cons node nodes ih =>
    rw [allStatements, Bool.and_eq_true] at hnodes
    refine (heval node scope (.statement hnodes.1)).bind fun v hv => ?_
    cases v with
    | returned v => exact .pure hv
    | error e => exact .pure hv
    | _ => exact ih hnodes.2 hv

theorem call_safely {function : Value} (hfunction : Invariant.runnable.Held function) {arguments : List Value}
    (harguments : ∀ v ∈ arguments, Invariant.runnable.Held v) :
    Safely (call eval function arguments) Value.IsAnswer := by
  cases function with
  | function identity parameters body outer =>
    by_cases hlength : arguments.length = parameters.length
    · simp only [call, if_neg (not_not_intro hlength)]
      refine Safely.bind (Q := fun _ => True) (fun w hw => ⟨hw.addScope (fun binding hbinding => ?_) _, trivial⟩)
        fun scope _ => ?_
      · exact harguments _ (List.of_mem_zip (OrderedMap.mem_ofList hbinding)).2
      · exact (heval body scope (.block hfunction.self)).bind fun v hv => .pure hv.unwrap
    · simp only [call, if_pos hlength]
      exact .pure (.failure trivial)
  | builtin b =>
    exact Safely.bind (Q := fun _ => True) (fun w hw => ⟨hw, trivial⟩) fun _ _ =>
      .pure (isAnswer_apply b harguments)
  | _ => exact .pure (.failure trivial)

theorem expression_safely (table : BuiltinTable) (hnode : node.isExpression = true) :
    Safely (step eval table node scope) Value.IsAnswer := by
  cases node with
  | identifier name => exact lookUp_safely table name
  | integer n => exact .pure (.held (.of_atom trivial rfl))
  | boolean b => exact .pure (.held (.of_atom trivial rfl))
  | string s => exact .pure (.held (.of_atom trivial rfl))
  | unary operator e =>
    simp only [isExpression, Bool.and_eq_true, Bool.or_eq_true, beq_iff_eq] at hnode
    exact withValue_safely heval hnode.2 fun v _ => .pure (isAnswer_applyUnary hnode.1 v)
  | binary left operator right =>
    rw [isExpression, Bool.and_eq_true, Bool.and_eq_true] at hnode
    obtain ⟨level, hlevel⟩ := Option.isSome_iff_exists.1 hnode.1.1
    exact withValue_safely heval hnode.1.2 fun a ha => withValue_safely heval hnode.2 fun b hb =>
      .pure (isAnswer_applyBinary hlevel ha hb)
  | ifElse condition consequence alternative =>
    rw [isExpression, Bool.and_eq_true, Bool.and_eq_true] at hnode
    refine withValue_safely heval hnode.1.1 fun v _ => ?_
    by_cases hv : v.isTruthy = true
    · simp only [if_pos hv]
      exact heval consequence scope (.block hnode.1.2)
    · simp only [if_neg hv]
      cases alternative with
      | absent => exact .pure (.held Invariant.held_null)
      | block nodes => exact heval _ scope (.block hnode.2)
      | _ => cases hnode.2
  | function parameters body =>
    rw [isExpression, Bool.and_eq_true] at hnode
    exact Safely.bind (Q := fun _ => True) (fun w hw => ⟨hw, trivial⟩) fun _ _ =>
      .pure (.held (.of_atom hnode.2 rfl))
  | call callee arguments =>
    rw [isExpression, Bool.and_eq_true, allExpressions_eq_all, List.all_eq_true] at hnode
    exact withValue_safely heval hnode.1 fun f hf => withValues_safely heval hnode.2
      (fun vs hvs => call_safely heval hf hvs) [] (List.forall_mem_nil _)
  | array nodes =>
    rw [isExpression, allExpressions_eq_all, List.all_eq_true] at hnode
    exact withValues_safely heval hnode (fun vs hvs => .pure (.held (Invariant.held_array hvs))) []
      (List.forall_mem_nil _)
  | hash pairs =>
    simp only [isExpression, allPairs_eq_all, List.all_eq_true, Bool.and_eq_true] at hnode
    exact entries_safely heval hnode [] (List.forall_mem_nil _)
  | index left position =>
    rw [isExpression, Bool.and_eq_true] at hnode
    exact withValue_safely heval hnode.1 fun a ha => withValue_safely heval hnode.2 fun i _ =>
      .pure (isAnswer_applyIndex ha i)
  | _ => cases hnode

theorem statement_safely (table : BuiltinTable) (hnode : node.isStatement = true) :
    Safely (step eval table node scope) Value.IsAnswer := by
  cases node with
  | letStatement name e =>
    rw [isStatement, Bool.and_eq_true] at hnode
    refine withValue_safely heval hnode.2 fun v hv => ?_
    exact Safely.bind (Q := fun _ => True) (fun w hw => ⟨hw.set hv scope name, trivial⟩) fun _ _ =>
      .pure (.held Invariant.held_null)
  | returnStatement e =>
    refine withValue_safely heval hnode fun v hv => .pure (.held ⟨trivial, ?_⟩)
    exact List.forall_mem_singleton.2 hv
  | expressionStatement e => exact heval e scope (.expression hnode)
  | _ => cases hnode

theorem step_safely (table : BuiltinTable) (hnode : node.Evaluable) :
    Safely (step eval table node scope) Value.IsAnswer := by
  cases hnode with
  | expression h => exact expression_safely heval table h
  | statement h => exact statement_safely heval table h
  | block h =>
    cases node with
    | block nodes => exact statements_safely heval h (.held Invariant.held_null)
    | _ => cases h
  | program h =>
    exact (statements_safely heval h (.held Invariant.held_null)).bind fun v hv => .pure hv.unwrap

end

/-- A tree of the language is evaluated to a value that may be bound or fails with an error that is expected, unless
the depth does not suffice. -/
theorem safe_eval (table : BuiltinTable) (depth : Nat) (hnode : node.Evaluable) (scope : ScopeId) :
    Safely (MonkeyLanguage.eval table depth node scope) Value.IsAnswer := by
  induction depth generalizing node scope with
  | zero => exact .tooDeep
  | succ depth ih => exact step_safely (fun _ scope hnode => ih hnode scope) table hnode

end Evaluator

end MonkeyLanguage
