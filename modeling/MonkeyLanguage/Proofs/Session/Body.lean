import MonkeyLanguage.Proofs.Session.Concatenation

/-!
# Programs as function bodies

A program does the same when it is the body of a function that is called at once (`run_calledBody`).  The statements
of both are the same, and the brace behind the body ends the last of them as the end of the text does.

The scope of the call takes the place of the outermost scope of the program.  Around it there is one scope more, in
which nothing is bound, and one function more has been made (`World.Enclosed`).
-/

namespace MonkeyLanguage

variable {frontEnd : FrontEnd} {table : BuiltinTable} {source : String} {nodes : List Node} {w w' : World}

/-! ## Texts -/

/-- The text that calls a function whose body is the text. -/
def calledBody (source : String) : String :=
  "fn() \x7b" ++ source ++ "\x7d()"

def Node.calledBody (nodes : List Node) : Node :=
  .expressionStatement (.call (.function [] (.block nodes)) [])

theorem map_word_tokensOf_calledBody (hquotes : source.toList.count '"' % 2 = 0) :
    (tokensOf (calledBody source)).map Token.word =
      (["fn", "(", ")", "\x7b"].map Token.ofWord ++
        (tokensOf source ++ ["\x7d", "(", ")"].map Token.ofWord)).map Token.word := by
  have htext : (calledBody source).toList = "fn() ".toList ++ '\x7b' :: (source.toList ++ '\x7d' :: "()".toList) := by
    simp [calledBody, String.toList_append]
  have hwords : (tokensOf (calledBody source)).map Token.word =
      (Lexeme.split (calledBody source).toList).map Lexeme.word :=
    map_word_ofLexemes ..
  have hbody : (tokensOf source).map Token.word = (Lexeme.split source.toList).map Lexeme.word :=
    map_word_ofLexemes ..
  have hopening : (Lexeme.split "fn() ".toList).map Lexeme.word =
      (["fn", "(", ")"].map Token.ofWord).map Token.word := by
    decide +kernel
  have hclosing : (Lexeme.split "()".toList).map Lexeme.word = (["(", ")"].map Token.ofWord).map Token.word := by
    decide +kernel
  rw [hwords, htext, Lexeme.split_append_punctuation rfl (by decide), Lexeme.split_append_punctuation rfl hquotes]
  simp only [List.map_append, List.map_cons, hopening, hclosing, hbody]
  rfl

theorem parse_calledBody (h : frontEnd.parse source = (nodes, [])) :
    frontEnd.parse (calledBody source) = ([.calledBody nodes], []) := by
  have hquotes : source.toList.count '"' % 2 = 0 := by
    refine Lexeme.count_quote_of_split fun l hl => ?_
    have hkind : l.kind ∈ (tokensOf source).map Token.kind := map_kind_tokensOf source ▸ List.mem_map_of_mem hl
    obtain ⟨t, ht, hkind⟩ := List.mem_map.1 hkind
    exact hkind ▸ kind_ne_illegal_of_parse h t ht
  have hclosing : ∀ t ∈ (["\x7d", "(", ")"].map Token.ofWord).head?, t.kind.level = .expr := by
    decide +kernel
  have hbody : Derives (.statements nodes) (tokensOf source ++ ["\x7d", "(", ")"].map Token.ofWord)
      (["\x7d", "(", ")"].map Token.ofWord) :=
    (parse_eq_iff_derives.1 h).append hclosing
  have hfunction : Derives (.expression .suffix (.function [] (.block nodes)))
      (Token.ofWord "fn" :: Token.ofWord "(" :: Token.ofWord ")" :: Token.ofWord "\x7b" ::
        (tokensOf source ++ ["\x7d", "(", ")"].map Token.ofWord)) (["(", ")"].map Token.ofWord) :=
    .function (by decide +kernel) (by decide +kernel) .noParameters (by decide +kernel)
      (.block (by decide +kernel) hbody (by decide +kernel))
  have hcall := Derives.call hfunction (by decide +kernel) .noItems (by decide +kernel)
  exact parse_of_words (map_word_tokensOf_calledBody hquotes)
    (.moreStatements (.openExpression hcall.expr) .noStatements fun _ _ => nofun)

/-! ## Worlds with one scope more -/

/-- All scopes and functions have the next number. -/
def Renaming.next : Renaming :=
  ⟨(· + 1), (· + 1), Nat.succ_lt_succ_iff, Nat.succ_inj⟩

/-- The scope inside the first, if it was an outermost one, and with the next numbers. -/
def Scope.enclosed (s : Scope) : Scope :=
  ⟨some (s.outer.elim 0 (· + 1)), OrderedMap.mapValues (Value.rename .next) s.bindings⟩

/-- The second world is the first inside one scope more, and has seen one function more. -/
structure World.Enclosed (w w' : World) : Prop where
  outermost : w'.scopes[0]? = some ⟨none, []⟩
  scopes : ∀ id, w'.scopes[id + 1]? = w.scopes[id]?.map Scope.enclosed
  size_eq : w'.scopes.size = w.scopes.size + 1
  functions_eq : w'.functions = w.functions + 1
  output_eq : w'.output = w.output

namespace World.Enclosed

theorem get?_eq (h : Enclosed w w') (id : ScopeId) (name : String) :
    w'.get? (id + 1) name = (w.get? id name).map (Value.rename .next) := by
  have hbindings (s : Scope) : s.enclosed.bindings.get? name = (s.bindings.get? name).map (Value.rename .next) :=
    OrderedMap.get?_mapValues ..
  unfold get?
  fun_induction chain w id with
  | case1 id hnone =>
    rw [chain, h.scopes, hnone]
    rfl
  | case2 id scope hscope houter =>
    have houtermost : w'.chain 0 = [⟨none, []⟩] := by rw [chain, h.outermost]
    have hcopy : scope.enclosed.outer = some 0 := by rw [Scope.enclosed, houter]; rfl
    rw [chain, h.scopes, hscope, Option.map_some]
    simp only [hcopy, if_pos (Nat.zero_lt_succ id), houtermost, List.findSome?_cons, hbindings]
    cases scope.bindings.get? name <;> rfl
  | case3 id scope hscope outer houter hlt ih =>
    have hcopy : scope.enclosed.outer = some (outer + 1) := by rw [Scope.enclosed, houter]; rfl
    rw [chain, h.scopes, hscope, Option.map_some]
    simp only [hcopy, if_pos (Nat.succ_lt_succ hlt), List.findSome?_cons, hbindings]
    cases scope.bindings.get? name with
    | none => exact ih
    | some v => rfl
  | case4 id scope hscope outer houter hle =>
    have hcopy : scope.enclosed.outer = some (outer + 1) := by rw [Scope.enclosed, houter]; rfl
    rw [chain, h.scopes, hscope, Option.map_some]
    simp only [hcopy, if_neg fun hlt => hle (Nat.lt_of_succ_lt_succ hlt), List.findSome?_cons, hbindings]
    cases scope.bindings.get? name <;> rfl

theorem set (h : Enclosed w w') (id : ScopeId) (name : String) (v : Value) :
    Enclosed (w.set id name v) (w'.set (id + 1) name (v.rename .next)) where
  outermost := by
    simp only [World.set, Array.getElem?_modify, if_neg (Nat.succ_ne_zero id)]
    exact h.outermost
  scopes i := by
    simp only [World.set, Array.getElem?_modify, Nat.succ_inj, h.scopes]
    split
    · simp only [Option.map_map, Function.comp_def, Scope.enclosed, OrderedMap.mapValues_insert]
    · rfl
  size_eq := by
    simp only [World.set, Array.size_modify]
    exact h.size_eq
  functions_eq := h.functions_eq
  output_eq := h.output_eq

theorem addScope (h : Enclosed w w') (outer : ScopeId) (bindings : OrderedMap String Value) :
    Enclosed (w.addScope (some outer) bindings).2
      (w'.addScope (some (outer + 1)) (OrderedMap.mapValues (Value.rename .next) bindings)).2 where
  outermost := by
    simp only [World.addScope, Array.getElem?_push, h.size_eq, if_neg (Nat.succ_ne_zero _).symm]
    exact h.outermost
  scopes i := by
    simp only [World.addScope, Array.getElem?_push, h.size_eq, Nat.succ_inj, h.scopes]
    split <;> rfl
  size_eq := by
    simp only [World.addScope, Array.size_push, h.size_eq]
  functions_eq := h.functions_eq
  output_eq := h.output_eq

theorem simulates : Renaming.next.Simulates Enclosed where
  get?_eq h := h.get?_eq
  set h := h.set
  newScope h := h.size_eq.symm
  addScope h := h.addScope
  newFunction h := h.functions_eq.symm
  addFunction h := ⟨h.outermost, h.scopes, h.size_eq, congrArg (· + 1) h.functions_eq, h.output_eq⟩
  print h text := ⟨h.outermost, h.scopes, h.size_eq, h.functions_eq, congrArg (· ++ text) h.output_eq⟩

end World.Enclosed

/-! ## Runs -/

/-- The world in a call of the first function that a session makes, with the outermost scope around it. -/
def World.ofFirstCall : World :=
  ⟨#[⟨none, []⟩, ⟨some 0, []⟩], 1, ""⟩

theorem enclosed_ofFirstCall {limit : Nat} : (Session.empty limit).fresh.Enclosed .ofFirstCall where
  outermost := rfl
  scopes id := by cases id <;> rfl
  size_eq := rfl
  functions_eq := rfl
  output_eq := rfl

namespace Value

theorem unwrapReturned_of_type_ne {v : Value} (h : v.type ≠ .returned) : v.unwrapReturned = v := by
  cases v with
  | returned v => exact absurd rfl h
  | _ => rfl

end Value

theorem Evaluator.statements_singleton (eval : Evaluator) (scope : ScopeId) (last : Value) (node : Node) :
    statements eval scope last [node] = eval node scope := by
  funext w
  change EStateM.bind (eval node scope) _ w = _
  rw [EStateM.bind]
  cases eval node scope w with
  | ok v w => cases v <;> rfl
  | error e w => rfl

/-- The called body is evaluated in the scope of the call. -/
theorem eval_calledBody (table : BuiltinTable) (depth : Nat) (nodes : List Node) {limit : Nat} :
    eval table (depth + 3) (.calledBody nodes) 0 (Session.empty limit).fresh =
      EStateM.bind (Evaluator.statements (eval table depth) 1 .null nodes) (fun v => pure v.unwrapReturned)
        .ofFirstCall :=
  rfl

namespace Session

theorem exists_parse_of_finished {s : Session} {v : Value} (h : (s.run frontEnd table source).outcome = .finished v) :
    ∃ nodes, frontEnd.parse source = (nodes, []) := by
  by_cases hmessages : (frontEnd.parse source).2 = []
  · exact ⟨_, Prod.ext rfl hmessages⟩
  · rw [run_of_messages hmessages] at h
    cases h

theorem tooDeep_of_calledBody {limit : Nat} (h : limit < 3) (nodes : List Node) :
    ((empty limit).evaluate table (.program [.calledBody nodes])).outcome = .aborted .tooDeep := by
  match limit, h with
  | 0, _ | 1, _ | 2, _ => rfl

/-- A program that has a value has one of the same type and text as the body of a function, and prints the same. -/
theorem run_calledBody {limit : Nat} {v : Value}
    (h : ((empty limit).run frontEnd table source).outcome = .finished v) (hv : v.type ≠ .returned)
    (hdepth : ((empty limit).run frontEnd table (calledBody source)).outcome ≠ .aborted .tooDeep) :
    (frontEnd.parse (calledBody source)).2 = [] ∧
      ∃ v', ((empty limit).run frontEnd table (calledBody source)).outcome = .finished v' ∧ v'.type = v.type ∧
        v'.render = v.render ∧ (∀ e, v = .error e → v' = .error e) ∧
        ((empty limit).run frontEnd table (calledBody source)).printed =
          ((empty limit).run frontEnd table source).printed := by
  obtain ⟨nodes, hparse⟩ := exists_parse_of_finished h
  have hbody := parse_calledBody hparse
  obtain ⟨depth, rfl⟩ : ∃ depth, limit = depth + 3 := by
    refine ⟨limit - 3, (Nat.sub_add_cancel (Nat.not_lt.1 fun hlimit => hdepth ?_)).symm⟩
    rw [run_of_parse hbody]
    exact tooDeep_of_calledBody hlimit nodes
  have hcall : (empty (depth + 3)).statementEvaluator table (.calledBody nodes) (empty (depth + 3)).scope
        (empty (depth + 3)).fresh =
      EStateM.bind (Evaluator.statements (eval table depth) 1 .null nodes) (fun v => pure v.unwrapReturned)
        .ofFirstCall :=
    eval_calledBody table depth nodes
  have hend : EchoedEnd World.Enclosed True (Value.Renamed .next)
      (Evaluator.statements ((empty (depth + 3)).statementEvaluator table) (empty (depth + 3)).scope .null nodes
        (empty (depth + 3)).fresh)
      (Evaluator.statements (eval table depth) 1 .null nodes .ofFirstCall) :=
    (simulates_eval World.Enclosed.simulates.simulation table (Nat.le_add_right ..) fun _ => trivial).statements rfl
      (fun node _ => node.avoids_nothing) .null enclosed_ofFirstCall
  rw [run_of_parse hparse, evaluate_program] at h ⊢
  rw [run_of_parse hbody, evaluate_program, Evaluator.statements_singleton, hcall, EStateM.bind] at hdepth ⊢
  refine ⟨congrArg Prod.snd hbody, ?_⟩
  generalize Evaluator.statements ((empty (depth + 3)).statementEvaluator table) (empty (depth + 3)).scope .null nodes
      (empty (depth + 3)).fresh = result,
    Evaluator.statements (eval table depth) 1 .null nodes .ofFirstCall = result' at hend h hdepth
  cases hend with
  | @ok u _ _ _ hu hworld =>
    obtain rfl := Value.renamed_iff.1 hu
    obtain rfl : u.unwrapReturned = v := Outcome.finished.inj h
    have hvalue : (u.rename .next).unwrapReturned.unwrapReturned = u.unwrapReturned.rename .next := by
      rw [Value.unwrapReturned_rename, Value.unwrapReturned_rename, Value.unwrapReturned_of_type_ne hv]
    refine ⟨_, congrArg Outcome.finished hvalue, Value.type_rename _, Value.render_rename _, fun e he => ?_,
      hworld.output_eq⟩
    rw [he]
    rfl
  | error e hworld => cases h
  | tooDeep => exact absurd rfl hdepth

/-- A program that binds a name in its outermost scope, prints, and ends in a closure. -/
theorem run_calledBody_of_closure :
    ∃ v',
      ((empty 1000).run .descent .default (calledBody "let x = 7; puts(x); fn() \x7b x \x7d")).outcome = .finished v' ∧
      v'.type = .function ∧
      v'.render = (Value.function 0 [] (.block [.expressionStatement (.identifier "x")]) 0).render ∧
      ((empty 1000).run .descent .default (calledBody "let x = 7; puts(x); fn() \x7b x \x7d")).printed = "7\n" := by
  have hparse : FrontEnd.descent.parse "let x = 7; puts(x); fn() \x7b x \x7d" = ([.letStatement "x" (.integer 7),
      .expressionStatement (.call (.identifier "puts") [.identifier "x"]),
      .expressionStatement (.function [] (.block [.expressionStatement (.identifier "x")]))], []) := by
    decide +kernel
  have hrun : ((empty 1000).run .descent .default "let x = 7; puts(x); fn() \x7b x \x7d").outcome =
        .finished (.function 0 [] (.block [.expressionStatement (.identifier "x")]) 0) ∧
      ((empty 1000).run .descent .default "let x = 7; puts(x); fn() \x7b x \x7d").printed = "7\n" := by
    rw [run_of_parse hparse]
    with_unfolding_all exact ⟨rfl, rfl⟩
  have hcalled : ((empty 1000).run .descent .default (calledBody "let x = 7; puts(x); fn() \x7b x \x7d")).outcome =
      .finished (.function 1 [] (.block [.expressionStatement (.identifier "x")]) 1) := by
    rw [run_of_parse (parse_calledBody hparse)]
    with_unfolding_all rfl
  obtain ⟨-, v', hv', htype, hrender, -, hprinted⟩ :=
    run_calledBody hrun.1 ValueType.noConfusion (by rw [hcalled]; exact Outcome.noConfusion)
  exact ⟨v', hv', htype, hrender, hprinted.trans hrun.2⟩

end Session

end MonkeyLanguage
