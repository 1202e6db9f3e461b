import MonkeyLanguage.Proofs.Eval.Frame

/-!
# Evaluation with more depth

A greater depth does not change what an evaluation with enough depth does, and an evaluation that is aborted for want
of depth has printed the beginning of what it prints with more (`more_depth_keeps_answers`).

`Deepens` compares a computation with one that has more depth.  It holds of a computation and itself if that only
prints, and it composes, so each form of the evaluator deepens if the evaluations of its parts do.
-/

namespace MonkeyLanguage

variable {α β : Type} {scope : ScopeId} {w w₁ w₂ : World} {depth depth' : Nat}

/-! ## Later output -/

def World.PrintsOn (w w' : World) : Prop :=
  ∃ text, w'.output = w.output ++ text

theorem World.PrintsOn.of_eq (h : w₁.output = w.output) : w.PrintsOn w₁ :=
  ⟨"", by rw [h, String.append_empty]⟩

theorem World.PrintsOn.refl : w.PrintsOn w :=
  .of_eq rfl

theorem World.PrintsOn.trans (h₁ : w.PrintsOn w₁) (h₂ : w₁.PrintsOn w₂) : w.PrintsOn w₂ := by
  obtain ⟨text₁, h₁⟩ := h₁
  obtain ⟨text₂, h₂⟩ := h₂
  exact ⟨text₁ ++ text₂, by rw [h₂, h₁, String.append_assoc]⟩

/-! ## Computations with more depth -/

/-- The second computation is the first with more depth: it ends in the same way, unless the first wants depth, and
then the second goes on from what is printed. -/
structure Deepens (m m' : EvalM α) : Prop where
  printsOn : ∀ w : World, w.PrintsOn (w.after m')
  same_or_further : ∀ w, m w = m' w ∨ ∃ w₁, m w = .error .tooDeep w₁ ∧ w₁.PrintsOn (w.after m')

namespace Deepens

variable {m m' : EvalM α} {f f' : α → EvalM β}

theorem self (h : ∀ w : World, w.PrintsOn (w.after m)) : Deepens m m :=
  ⟨h, fun _ => .inl rfl⟩

theorem pure (a : α) : Deepens (Pure.pure a : EvalM α) (Pure.pure a) :=
  self fun _ => .refl

theorem tooDeep (h : ∀ w : World, w.PrintsOn (w.after m)) : Deepens (throw .tooDeep) m :=
  ⟨h, fun w => .inr ⟨w, rfl, h w⟩⟩

theorem printsOn_bind (w : World) (hf : ∀ a (w : World), w.PrintsOn (w.after (f a))) :
    (w.after m).PrintsOn (w.after (m >>= f)) := by
  rw [World.after_bind, World.after]
  cases m w with
  | ok a w₁ => exact hf a w₁
  | error reason w₁ => exact .refl

theorem bind (hm : Deepens m m') (hf : ∀ a, Deepens (f a) (f' a)) : Deepens (m >>= f) (m' >>= f') := by
  have hon (w : World) : (w.after m').PrintsOn (w.after (m' >>= f')) :=
    printsOn_bind w fun a => (hf a).printsOn
  refine ⟨fun w => (hm.printsOn w).trans (hon w), fun w => ?_⟩
  change EStateM.bind m f w = EStateM.bind m' f' w ∨ ∃ w₁, EStateM.bind m f w = .error .tooDeep w₁ ∧ _
  obtain hsame | ⟨w₁, hfew, hfurther⟩ := hm.same_or_further w
  · rw [EStateM.bind, EStateM.bind, World.after_bind, hsame]
    cases m' w with
    | ok a w₁ => exact (hf a).same_or_further w₁
    | error reason w₁ => exact .inl rfl
  · exact .inr ⟨w₁, by rw [EStateM.bind, hfew], hfurther.trans (hon w)⟩

/-- What is printed before the depth does not suffice is printed with more depth too. -/
theorem further (h : Deepens m m') (hfew : m w = .error .tooDeep w₁) : w₁.PrintsOn (w.after m') := by
  obtain hsame | ⟨w₂, hfew', hfurther⟩ := h.same_or_further w
  · rw [World.after, ← hsame, hfew]
    exact .refl
  · rw [hfew] at hfew'
    cases hfew'
    exact hfurther

end Deepens

/-! ## The forms of the evaluator -/

namespace Evaluator

def DeepensTo (eval eval' : Evaluator) : Prop :=
  ∀ node scope, Deepens (eval node scope) (eval' node scope)

namespace DeepensTo

variable {eval eval' : Evaluator}

theorem withValue (h : eval.DeepensTo eval') (node : Node) {next next' : Value → EvalM Value}
    (hnext : ∀ v, Deepens (next v) (next' v)) :
    Deepens (eval.withValue scope node next) (eval'.withValue scope node next') := by
  refine (h node scope).bind fun v => ?_
  cases v with
  | error e => exact .pure _
  | _ => exact hnext _

theorem withValues (h : eval.DeepensTo eval') {next next' : List Value → EvalM Value}
    (hnext : ∀ vs, Deepens (next vs) (next' vs)) (before : List Value) (nodes : List Node) :
    Deepens (eval.withValues scope next before nodes) (eval'.withValues scope next' before nodes) := by
  induction nodes generalizing before with
  | nil => exact hnext _
  | cons node nodes ih => exact h.withValue node fun v => ih (v :: before)

theorem entries (h : eval.DeepensTo eval') (before : List (HashKey × Value)) (pairs : List (Node × Node)) :
    Deepens (eval.entries scope before pairs) (eval'.entries scope before pairs) := by
  induction pairs generalizing before with
  | nil => exact .pure _
  | cons pair pairs ih =>
    refine h.withValue pair.1 fun k => ?_
    cases k.hashKey? with
    | none => exact .pure _
    | some key => exact h.withValue pair.2 fun v => ih _

theorem statements (h : eval.DeepensTo eval') (last : Value) (nodes : List Node) :
    Deepens (eval.statements scope last nodes) (eval'.statements scope last nodes) := by
  induction nodes generalizing last with
  | nil => exact .pure _
  | cons node nodes ih =>
    refine (h node scope).bind fun v => ?_
    cases v with
    | returned v => exact .pure _
    | error e => exact .pure _
    | _ => exact ih _

theorem call (h : eval.DeepensTo eval') (function : Value) (arguments : List Value) :
    Deepens (eval.call function arguments) (eval'.call function arguments) := by
  cases function with
  | function identity parameters body outer =>
    by_cases hlength : arguments.length = parameters.length
    · simp only [Evaluator.call, if_neg (not_not_intro hlength)]
      exact .bind (.self fun _ => .of_eq rfl) fun inner => (h body inner).bind fun _ => .pure _
    · simp only [Evaluator.call, if_pos hlength]
      exact .pure _
  | builtin b => exact .self fun w => ⟨_, rfl⟩
  | _ => exact .pure _

theorem step (h : eval.DeepensTo eval') (table : BuiltinTable) :
    DeepensTo (Evaluator.step eval table) (Evaluator.step eval' table) := by
  intro node scope
  cases node with
  | absent => exact .self fun _ => .refl
  | program nodes => exact (h.statements _ _).bind fun _ => .pure _
  | block nodes => exact h.statements _ _
  | expressionStatement e => exact h e scope
  | returnStatement e => exact h.withValue e fun _ => .pure _
  | letStatement name e =>
    exact h.withValue e fun v => .bind (.self fun _ => .of_eq rfl) fun _ => .pure _
  | integer n => exact .pure _
  | string s => exact .pure _
  | boolean b => exact .pure _
  | array nodes => exact h.withValues (fun _ => .pure _) _ _
  | hash pairs => exact h.entries _ _
  | function parameters body => exact .bind (.self fun _ => .of_eq rfl) fun _ => .pure _
  | identifier name =>
    refine .self fun w => .of_eq ?_
    show (w.after (lookUp table scope name)).output = w.output
    rw [World.after, lookUp_apply]
  | unary operator e => exact h.withValue e fun _ => .pure _
  | binary left operator right => exact h.withValue left fun _ => h.withValue right fun _ => .pure _
  | ifElse condition consequence alternative =>
    refine h.withValue condition fun v => ?_
    by_cases hv : v.isTruthy = true
    · simp only [if_pos hv]
      exact h consequence scope
    · simp only [if_neg hv]
      split
      · exact .pure _
      · exact h alternative scope
  | call callee arguments => exact h.withValue callee fun f => h.withValues (h.call f) _ _
  | index left position => exact h.withValue left fun _ => h.withValue position fun _ => .pure _

end DeepensTo

end Evaluator

/-! ## Evaluation -/

theorem deepens_eval_self (table : BuiltinTable) (depth : Nat) : (eval table depth).DeepensTo (eval table depth) := by
  induction depth with
  | zero => exact fun _ _ => .self fun _ => .refl
  | succ depth ih => exact ih.step table

theorem deepens_eval (table : BuiltinTable) (hle : depth ≤ depth') :
    (eval table depth).DeepensTo (eval table depth') := by
  induction depth generalizing depth' with
  | zero => exact fun node scope => .tooDeep (deepens_eval_self table depth' node scope).printsOn
  | succ depth ih =>
    cases depth' with
    | zero => cases hle
    | succ depth' => exact (ih (Nat.le_of_succ_le_succ hle)).step table

/-- With more depth an evaluation that had enough ends in the same way, with the same value, bindings and output.  One
that wants depth has printed the beginning of what it prints with more. -/
theorem more_depth_keeps_answers (table : BuiltinTable) (hle : depth ≤ depth') (node : Node) (scope : ScopeId)
    (w : World) :
    (∀ v w', eval table depth node scope w = .ok v w' → eval table depth' node scope w = .ok v w') ∧
    (∀ reason w', eval table depth node scope w = .error reason w' → reason ≠ .tooDeep →
      eval table depth' node scope w = .error reason w') ∧
    ∀ w', eval table depth node scope w = .error .tooDeep w' → ∃ printed more,
      w'.output = w.output ++ printed ∧
      (w.after (eval table depth' node scope)).output = w.output ++ printed ++ more := by
  have hdeepens := deepens_eval table hle node scope
  refine ⟨fun v w' hv => ?_, fun reason w' hreason hdeep => ?_, fun w' hfew => ?_⟩
  · obtain hsame | ⟨w₁, hfew, -⟩ := hdeepens.same_or_further w
    · rw [← hsame, hv]
    · rw [hfew] at hv
      cases hv
  · obtain hsame | ⟨w₁, hfew, -⟩ := hdeepens.same_or_further w
    · rw [← hsame, hreason]
    · rw [hfew] at hreason
      cases hreason
      exact absurd rfl hdeep
  · have hprinted := (deepens_eval_self table depth node scope).printsOn w
    rw [World.after, hfew] at hprinted
    obtain ⟨printed, hprinted⟩ := hprinted
    obtain ⟨more, hmore⟩ := hdeepens.further hfew
    exact ⟨printed, more, hprinted, by rw [hmore, hprinted]⟩

/-- The program `puts(1); --2` has printed before it wants depth.  With one more it has its value, and keeps it. -/
theorem more_depth_of_printed :
    let program : Node := .program [.expressionStatement (.call (.identifier "puts") [.integer 1]),
      .expressionStatement (.unary "-" (.unary "-" (.integer 2)))]
    let w' : World := ⟨#[], 0, "1\n"⟩
    eval .default 4 program 0 .empty = .error .tooDeep w' ∧
      (∃ more, (World.empty.after (eval .default 5 program 0)).output = "1\n" ++ more) ∧
      eval .default 5 program 0 .empty = .ok (.integer 2) w' ∧
      eval .default 9 program 0 .empty = .ok (.integer 2) w' := by
  intro program w'
  have hfew : eval .default 4 program 0 .empty = .error .tooDeep w' := by with_unfolding_all rfl
  have henough : eval .default 5 program 0 .empty = .ok (.integer 2) w' := by with_unfolding_all rfl
  obtain ⟨printed, more, hprinted, hmore⟩ :=
    (more_depth_keeps_answers .default (Nat.le_succ 4) program 0 .empty).2.2 w' hfew
  refine ⟨hfew, ⟨more, ?_⟩, henough,
    (more_depth_keeps_answers .default (by decide : 5 ≤ 9) program 0 .empty).1 _ w' henough⟩
  rw [hmore, ← hprinted]

end MonkeyLanguage
