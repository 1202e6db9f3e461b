import MonkeyLanguage.Proofs.Eval.Access
import MonkeyLanguage.Proofs.Eval.Safety
import MonkeyLanguage.Proofs.Parser.Recovered

/-!
# What is left of a text does not get stuck

The statements that a front end gives for a text can be evaluated, also if the text is no program.  Whatever has been
evaluated before, each node that is needed is there, no access is impossible, and integers meet no operator that is not
theirs (`programs_do_not_get_stuck`).
-/

namespace MonkeyLanguage

variable {table : BuiltinTable} {w : World} {e : RuntimeError} {s t : String}

/-! ## Messages -/

/-- The texts differ, whatever follows them. -/
def Apart (s t : String) : Prop :=
  ∀ x y, s ++ x ≠ t ++ y

theorem Apart.foldl (h : Apart s t) (rest : List String) : Apart (rest.foldl (· ++ ·) s) t := by
  induction rest generalizing s with
  | nil => exact h
  | cons u rest ih =>
    refine ih fun x y => ?_
    rw [String.append_assoc]
    exact h _ _

theorem apart_of_take (n : Nat) (hs : n ≤ s.toList.length ∧ s.toList.take n ≠ t.toList.take n)
    (ht : n ≤ t.toList.length) : Apart s t := by
  intro x y hall
  have hfront := congrArg (fun text : String => text.toList.take n) hall
  simp only [String.toList_append, List.take_append_of_le_length hs.1, List.take_append_of_le_length ht] at hfront
  exact hs.2 hfront

theorem apart_message (h : e.IsExpected) : Apart e.message "unknown operator: INTEGER " := by
  -- all messages but those about operators differ in the third character
  have hother (s : String) (hs : 3 ≤ s.toList.length ∧ s.toList.take 3 ≠ "unk".toList) (rest : List String) :
      Apart (rest.foldl (· ++ ·) s) "unknown operator: INTEGER " :=
    (apart_of_take 3 hs (by decide)).foldl rest
  have hoperator (s : String) (hs : 19 ≤ s.toList.length ∧ s.toList.take 19 ≠ "unknown operator: I".toList)
      (rest : List String) : Apart (rest.foldl (· ++ ·) s) "unknown operator: INTEGER " :=
    (apart_of_take 19 hs (by decide)).foldl rest
  cases e with
  | unboundName name => exact hother "identifier not found: " (by decide) [name]
  | notAFunction found => exact hother "not a function: " (by decide) [found.name]
  | wrongArgumentCount want got =>
    exact hother "wrong number of arguments: want=" (by decide) [toString want, ", got=", toString got]
  | wrongBuiltinArgumentCount builtin want got =>
    exact hother "wrong number of arguments to `" (by decide)
      [builtin.name, "`: want=", toString want, ", got=", toString got]
  | notAnArray builtin found =>
    exact hother "argument to `" (by decide) [builtin.name, "` must be ARRAY, got ", found.name]
  | noLength found => exact hother "argument to `len` not supported, got " (by decide) [found.name]
  | unusableKey found => exact hother "unusable as hash key: " (by decide) [found.name]
  | notIndexable left index =>
    exact hother "index operator not supported: " (by decide) [left.name, "[", index.name, "]"]
  | unknownUnary operator operand =>
    rcases h with rfl | rfl <;> exact hoperator ("unknown operator: " ++ _) (by decide) [operand.name]
  | unknownBinary operator operands =>
    cases operands with
    | integer => exact absurd rfl h
    | _ => exact hoperator ("unknown operator: " ++ ValueType.name _) (by decide) [" ", operator, " ", ValueType.name _]
  | typeMismatch left operator right =>
    exact hother "type mismatch: " (by decide) [left.name, " ", operator, " ", right.name]
  | divisionByZero dividend => exact hother "division by zero: " (by decide) [toString dividend, " / 0"]

/-! ## Environments -/

/-- The worlds that runs make: environments are added, and what is left of any text is evaluated in one of them. -/
inductive World.Reached : World → Prop where
  | empty : Reached .empty
  | newEnvironment {w : World} (h : Reached w) : Reached (w.addScope none []).2
  | run {w : World} (h : Reached w) (output : String) (table : BuiltinTable) (frontEnd : FrontEnd) (source : String)
      (depth : Nat) (scope : ScopeId) :
    Reached (World.after { w with output } (eval table depth (.program (frontEnd.parse source).1) scope))

theorem evaluable_program (frontEnd : FrontEnd) (source : String) :
    (Node.program (frontEnd.parse source).1).Evaluable :=
  .program (allStatements_of_any_text frontEnd source)

/-- All that is bound after runs is of the language. -/
theorem World.Reached.holds (h : w.Reached) : Invariant.runnable.Holds w := by
  induction h with
  | empty => exact fun id scope hscope => by cases id <;> cases hscope
  | newEnvironment _ ih => exact ih.addScope (List.forall_mem_nil _) none
  | @run w _ output table frontEnd source depth scope ih =>
    exact (Evaluator.safe_eval table depth (evaluable_program frontEnd source) scope).holds_after ih

theorem World.Reached.session {s : Session} (h : s.world.Reached) (texts : List (FrontEnd × String)) :
    (s.after table texts).world.Reached := by
  induction texts generalizing s with
  | nil => exact h
  | cons text texts ih =>
    obtain ⟨frontEnd, source⟩ := text
    refine ih ?_
    by_cases hparse : (frontEnd.parse source).2 = []
    · have hrun := h.run "" table frontEnd source (s.limit + 1) s.scope
      rw [Session.run_of_parse (Prod.ext rfl hparse), Session.evaluate]
      rw [World.after] at hrun
      split at hrun <;> next hresult => rwa [hresult]
    · rwa [Session.run_of_messages hparse]

theorem reached_session (table : BuiltinTable) (limit : Nat) (texts : List (FrontEnd × String)) :
    ((Session.empty limit).after table texts).world.Reached :=
  World.Reached.session (.newEnvironment .empty) texts

/-! ## Programs -/

/-- What a front end gives for a text is a list of statements of the language, whether the text is a program or not.
Evaluated in any environment that such runs have built, it has the same value with checked accesses, whatever is done at
a fault; it is aborted only for want of depth, and if it fails the message is not that integers do not have an
operator. -/
theorem programs_do_not_get_stuck (table : BuiltinTable) (frontEnd : FrontEnd) (source : String) :
    Node.allStatements (frontEnd.parse source).1 = true ∧
    ∀ w : World, w.Reached → ∀ depth scope,
      (∀ onFault, checkedEval onFault table depth (.program (frontEnd.parse source).1) scope w =
        eval table depth (.program (frontEnd.parse source).1) scope w) ∧
      match eval table depth (.program (frontEnd.parse source).1) scope w with
      | .ok v _ => ∀ e, v = .error e → ∀ operator : String,
        e.message ≠ s!"unknown operator: INTEGER {operator} INTEGER"
      | .error reason _ => reason = .tooDeep := by
  refine ⟨allStatements_of_any_text frontEnd source, fun w hw depth scope => ⟨fun onFault => ?_, ?_⟩⟩
  · rw [checkedEval_eq]
  · have hsafe := Evaluator.safe_eval table depth (evaluable_program frontEnd source) scope w hw.holds
    cases hresult : eval table depth (.program (frontEnd.parse source).1) scope w with
    | error reason w' =>
      rw [hresult] at hsafe
      exact hsafe.2
    | ok v w' =>
      rw [hresult] at hsafe
      rintro e rfl operator hmessage
      refine apart_message hsafe.2.isExpected "" (operator ++ " INTEGER") ?_
      rw [String.append_empty, hmessage]
      exact String.append_assoc ..

/-- A text with a malformed statement is run where an earlier one has bound a name. -/
theorem programs_do_not_get_stuck_of_malformed :
    let source := "let x 5; a[0] + 2"
    let program := Node.program (FrontEnd.descent.parse source).1
    let w := ((Session.empty 1000).after .default [(.automaton, "let a = [7];")]).world
    (FrontEnd.descent.parse source).2 ≠ [] ∧ w.Reached ∧
      (∃ w', eval .default 9 program 0 w = .ok (.integer 9) w') ∧
      ∃ w', checkedEval (fun _ => throw .missingNode) .default 9 program 0 w = .ok (.integer 9) w' := by
  intro source program w
  have hlet : FrontEnd.automaton.parse "let a = [7];" = ([.letStatement "a" (.array [.integer 7])], []) := by
    decide +kernel
  have hsource : (FrontEnd.descent.parse source).1 =
      [.expressionStatement (.binary (.index (.identifier "a") (.integer 0)) "+" (.integer 2))] := by
    decide +kernel
  have hw : w.Reached := reached_session _ _ _
  have hvalue : ∃ w', eval .default 9 program 0 w = .ok (.integer 9) w' := by
    simp only [program, hsource, w, Session.after, Session.run_of_parse hlet]
    with_unfolding_all exact ⟨_, rfl⟩
  obtain ⟨w', hvalue'⟩ := hvalue
  have hchecked := ((programs_do_not_get_stuck .default .descent source).2 w hw 9 0).1 fun _ => throw .missingNode
  exact ⟨by decide +kernel, hw, ⟨w', hvalue'⟩, w', hchecked.trans hvalue'⟩

end MonkeyLanguage
