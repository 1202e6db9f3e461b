import MonkeyLanguage.Proofs.Eval.Renaming
import MonkeyLanguage.Proofs.Parser.Concatenation
import MonkeyLanguage.Proofs.Session.Sequence

/-!
# Sessions and concatenated programs

Two texts that are run one after the other do what their concatenation does (`run_concatenation`), unless the first
returns or fails: then the concatenation does what the first text does alone.

The second text starts with nothing printed where the concatenation has printed the output of the first, and what
an evaluation does does not depend on what has been printed before.
-/

namespace MonkeyLanguage

namespace Evaluator

variable {eval : Evaluator} {scope : ScopeId} {node : Node} {nodes nodes' : List Node} {v last : Value}
  {w w₁ w' : World}

/-- The statements are evaluated in a row up to the second world, and none returns or fails. -/
inductive Passes (eval : Evaluator) (scope : ScopeId) : World → List Node → World → Prop where
  | nil {w : World} : Passes eval scope w [] w
  | cons {node : Node} {nodes : List Node} {v : Value} {w w₁ w' : World} (hnode : eval node scope w = .ok v w₁)
    (hreturned : v.type ≠ .returned) (herror : v.type ≠ .error) (hnodes : Passes eval scope w₁ nodes w') :
    Passes eval scope w (node :: nodes) w'

/-- One of the statements returns or fails, and none before it does. -/
def Stops (eval : Evaluator) (scope : ScopeId) (w : World) (nodes : List Node) : Prop :=
  ∃ before node after v w₁ w', nodes = before ++ node :: after ∧ Passes eval scope w before w₁ ∧
    eval node scope w₁ = .ok v w' ∧ (v.type = .returned ∨ v.type = .error)

theorem statements_cons_apply (hnode : eval node scope w = .ok v w₁) :
    statements eval scope last (node :: nodes) w =
      if v.type = .returned ∨ v.type = .error then .ok v w₁ else statements eval scope v nodes w₁ := by
  change EStateM.bind (eval node scope) _ w = _
  rw [EStateM.bind, hnode]
  cases v <;> rfl

theorem Passes.statements_append (h : Passes eval scope w nodes w') (last : Value) :
    ∃ last', ∀ nodes', statements eval scope last (nodes ++ nodes') w = statements eval scope last' nodes' w' := by
  induction h generalizing last with
  | nil => exact ⟨last, fun _ => rfl⟩
  | @cons node nodes v w w₁ w' hnode hreturned herror _ ih =>
    obtain ⟨last', hnodes⟩ := ih v
    refine ⟨last', fun nodes' => ?_⟩
    rw [List.cons_append, statements_cons_apply hnode, if_neg (not_or.2 ⟨hreturned, herror⟩), hnodes]

theorem statements_last (hne : nodes ≠ []) (last last' : Value) :
    statements eval scope last nodes = statements eval scope last' nodes := by
  cases nodes with
  | nil => exact absurd rfl hne
  | cons node nodes => rfl

theorem Stops.statements_append (h : Stops eval scope w nodes) (last : Value) (nodes' : List Node) :
    statements eval scope last (nodes ++ nodes') w = statements eval scope last nodes w := by
  obtain ⟨before, node, after, v, w₁, w', rfl, hbefore, hnode, hv⟩ := h
  obtain ⟨last', hafter⟩ := hbefore.statements_append last
  rw [List.append_assoc, hafter, hafter, List.cons_append, statements_cons_apply hnode, statements_cons_apply hnode,
    if_pos hv, if_pos hv]

end Evaluator

/-! ## Worlds that differ in what has been printed -/

theorem Scope.rename_refl (s : Scope) : s.rename .refl = s :=
  Scope.rename_eq_self (fun _ _ => rfl) fun _ _ => Value.rename_refl _

variable {w w' : World} {before before' : String}

theorem World.copied_refl (h : w'.scopes = w.scopes) (h' : w'.functions = w.functions) :
    World.Copied .refl w.output w'.output w w' where
  scopes id := by
    show w'.scopes[id]? = w.scopes[id]?.map (Scope.rename .refl)
    rw [h, funext Scope.rename_refl, Option.map_id']
  newScope k := by rw [h]; rfl
  newFunction k := by rw [h']; rfl
  output := ⟨"", String.append_empty.symm, String.append_empty.symm⟩

theorem World.Copied.scopes_eq (h : World.Copied .refl before before' w w') : w'.scopes = w.scopes := by
  refine Array.ext_getElem? fun id => ?_
  have hid : w'.scopes[id]? = w.scopes[id]?.map (Scope.rename .refl) := h.scopes id
  rw [hid, funext Scope.rename_refl, Option.map_id']

theorem World.Copied.functions_eq (h : World.Copied .refl before before' w w') : w'.functions = w.functions :=
  (h.newFunction 0).symm

theorem World.Copied.output_eq (h : World.Copied .refl "" before w w') : w'.output = before ++ w.output := by
  obtain ⟨text, hw, hw'⟩ := h.output
  rw [hw, hw', String.empty_append]

/-! ## Runs -/

/-- The runs end in the same way: with the same value, or aborted for the same reason, and with the same scopes. -/
structure Run.EndsAs (r r' : Run) : Prop where
  outcome_eq : r.outcome = r'.outcome
  scope_eq : r.session.scope = r'.session.scope
  limit_eq : r.session.limit = r'.session.limit
  scopes_eq : r.session.world.scopes = r'.session.world.scopes
  functions_eq : r.session.world.functions = r'.session.world.functions
  names_eq : r.session.names = r'.session.names

/-- The run of a program whose statements were evaluated with this result. -/
def Run.ofEnd (s : Session) : EStateM.Result Abort World Value → Run
  | .ok v world => ⟨.finished v.unwrapReturned, world.output, { s with world }⟩
  | .error reason world => ⟨.aborted reason, world.output, { s with world }⟩

theorem World.Copied.endsAs (h : World.Copied .refl before before' w w') (s : Session) (outcome : Outcome)
    (printed printed' : String) :
    Run.EndsAs ⟨outcome, printed', { s with world := w' }⟩ ⟨outcome, printed, { s with world := w }⟩ :=
  ⟨rfl, rfl, rfl, h.scopes_eq, h.functions_eq, h.names_eq s.scope⟩

theorem EchoedEnd.run_ofEnd {r r' : EStateM.Result Abort World Value}
    (h : EchoedEnd (World.Copied .refl "" before) False (Value.Renamed .refl) r r') (s : Session) :
    (Run.ofEnd s r').EndsAs (.ofEnd s r) ∧ (Run.ofEnd s r').printed = before ++ (Run.ofEnd s r).printed := by
  cases h with
  | ok hv h =>
    rw [Value.renamed_iff, Value.rename_refl] at hv
    rw [hv]
    exact ⟨h.endsAs .., h.output_eq⟩
  | error reason h => exact ⟨h.endsAs .., h.output_eq⟩
  | tooDeep h => exact h.elim

namespace Session

variable {frontEnd : FrontEnd} {table : BuiltinTable} {s : Session} {nodes nodes' : List Node} {a b : String}

def statementEvaluator (s : Session) (table : BuiltinTable) : Evaluator :=
  eval table s.limit

/-- The world in which a run starts: nothing has been printed. -/
def fresh (s : Session) : World :=
  { s.world with output := "" }

theorem evaluate_program (s : Session) (table : BuiltinTable) (nodes : List Node) :
    s.evaluate table (.program nodes) =
      .ofEnd s (Evaluator.statements (s.statementEvaluator table) s.scope .null nodes s.fresh) := by
  have heval : eval table (s.limit + 1) (.program nodes) s.scope s.fresh =
      EStateM.bind (Evaluator.statements (s.statementEvaluator table) s.scope .null nodes)
        (fun v => pure v.unwrapReturned) s.fresh := rfl
  rw [evaluate, ← fresh, heval, EStateM.bind]
  cases Evaluator.statements (s.statementEvaluator table) s.scope .null nodes s.fresh <;> rfl

/-- What has been printed before does not change what statements do. -/
theorem statements_of_output (s : Session) (table : BuiltinTable) (nodes : List Node) :
    EchoedEnd (World.Copied .refl "" s.world.output) False (Value.Renamed .refl)
      (Evaluator.statements (s.statementEvaluator table) s.scope .null nodes s.fresh)
      (Evaluator.statements (s.statementEvaluator table) s.scope .null nodes s.world) :=
  have hcopied : World.Copied .refl s.fresh.output s.world.output s.fresh s.world := World.copied_refl rfl rfl
  hcopied.statements table s.limit s.scope .null nodes

/-- A program that ends in a semicolon, and then another, do in a session what their concatenation does.  If a
statement of the first returns or fails the concatenation does what the first does. -/
theorem run_concatenation (ha : frontEnd.parse a = (nodes, [])) (hb : frontEnd.parse b = (nodes', []))
    (hlast : ∀ t ∈ (tokensOf a).getLast?, t.kind = .semicolon) (hne : nodes' ≠ []) :
    (∀ w', (s.statementEvaluator table).Passes s.scope s.fresh nodes w' →
      let first := s.run frontEnd table a
      let second := first.session.run frontEnd table b
      let whole := s.run frontEnd table (a ++ b)
      whole.EndsAs second ∧ whole.printed = first.printed ++ second.printed) ∧
    ((s.statementEvaluator table).Stops s.scope s.fresh nodes →
      s.run frontEnd table (a ++ b) = s.run frontEnd table a) := by
  have hwhole := parse_concatenation ha hb hlast
  constructor
  · intro w' hpasses first second whole
    obtain ⟨last, hstatements⟩ := hpasses.statements_append .null
    have hfirst : first = .ofEnd s (.ok last w') := by
      have halone := hstatements []
      rw [List.append_nil] at halone
      rw [show first = s.run frontEnd table a from rfl, run_of_parse ha, evaluate_program, halone]
      rfl
    have hsecond : second = .ofEnd s
        (Evaluator.statements (s.statementEvaluator table) s.scope .null nodes' (fresh { s with world := w' })) := by
      rw [show second = first.session.run frontEnd table b from rfl, hfirst, run_of_parse hb]
      exact evaluate_program { s with world := w' } table nodes'
    have hboth : whole = .ofEnd s
        (Evaluator.statements (s.statementEvaluator table) s.scope .null nodes' w') := by
      rw [show whole = s.run frontEnd table (a ++ b) from rfl, run_of_parse hwhole, evaluate_program, hstatements,
        Evaluator.statements_last hne last .null]
    rw [hfirst, hsecond, hboth]
    exact (statements_of_output { s with world := w' } table nodes').run_ofEnd s
  · intro hstops
    rw [run_of_parse hwhole, run_of_parse ha, evaluate_program, evaluate_program, hstops.statements_append]

/-- A program that binds and prints, and one that returns. -/
theorem run_let_concatenation :
    (let first := (empty 1000).run .descent .default "let x = 1; puts(x);"
      let second := first.session.run .descent .default "x + 1"
      let whole := (empty 1000).run .descent .default ("let x = 1; puts(x);" ++ "x + 1")
      whole.EndsAs second ∧ whole.printed = first.printed ++ second.printed) ∧
    (empty 1000).run .automaton .default ("return 5;" ++ "x + 1") =
      (empty 1000).run .automaton .default "return 5;" := by
  have hlet : FrontEnd.descent.parse "let x = 1; puts(x);" = ([.letStatement "x" (.integer 1),
      .expressionStatement (.call (.identifier "puts") [.identifier "x"])], []) := by decide +kernel
  have hreturn : FrontEnd.automaton.parse "return 5;" = ([.returnStatement (.integer 5)], []) := by decide +kernel
  have hsum {frontEnd : FrontEnd} :
      frontEnd.parse "x + 1" = ([.expressionStatement (.binary (.identifier "x") "+" (.integer 1))], []) := by
    cases frontEnd <;> decide +kernel
  have hbinds : (empty 1000).statementEvaluator .default (.letStatement "x" (.integer 1)) 0 (empty 1000).fresh =
      .ok .null ⟨#[⟨none, [("x", .integer 1)]⟩], 0, ""⟩ := by with_unfolding_all rfl
  have hprints : (empty 1000).statementEvaluator .default
      (.expressionStatement (.call (.identifier "puts") [.identifier "x"])) 0
      ⟨#[⟨none, [("x", .integer 1)]⟩], 0, ""⟩ = .ok .null ⟨#[⟨none, [("x", .integer 1)]⟩], 0, "1\n"⟩ := by
    with_unfolding_all rfl
  have hreturns : (empty 1000).statementEvaluator .default (.returnStatement (.integer 5)) 0 (empty 1000).fresh =
      .ok (.returned (.integer 5)) (empty 1000).fresh := by with_unfolding_all rfl
  constructor
  · exact (run_concatenation hlet hsum (by decide +kernel) (List.cons_ne_nil _ _)).1 _
      (.cons hbinds ValueType.noConfusion ValueType.noConfusion
        (.cons hprints ValueType.noConfusion ValueType.noConfusion .nil))
  · refine (run_concatenation hreturn hsum (by decide +kernel) (List.cons_ne_nil _ _)).2 ?_
    exact ⟨[], _, [], _, _, _, rfl, .nil, hreturns, .inl rfl⟩

end Session

end MonkeyLanguage
