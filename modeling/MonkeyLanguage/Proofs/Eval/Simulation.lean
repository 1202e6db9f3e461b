import MonkeyLanguage.Eval.Evaluator
import MonkeyLanguage.Proofs.Value.Pairing

/-!
# Evaluation in a world that is like another

A relation between worlds is a simulation for a pairing if names that are not hidden stand for paired values in paired
scopes, and if all changes that an evaluation makes to a world keep the relation (`Simulation`).  Then the evaluation
of a tree that avoids the hidden names goes on in both worlds in the same way (`simulates_eval`): the values are paired
and the worlds stay related.

The evaluation in the second world may be allowed less depth.  Then it may be aborted where the other goes on, and this
is excused.
-/

namespace MonkeyLanguage

/-- What names stand for is paired in the two worlds, and stays so when both change in the same way. -/
structure Simulation (P : Pairing) (hidden : String → Prop) (R : World → World → Prop) : Prop where
  get? {w w' : World} (h : R w w') {id id' : ScopeId} (hid : P.scope id id') {name : String} (hname : ¬hidden name) :
    Option.Rel (Value.Paired P hidden) (w.get? id name) (w'.get? id' name)
  set {w w' : World} (h : R w w') {id id' : ScopeId} (hid : P.scope id id') (name : String) {v v' : Value}
    (hv : v.Paired P hidden v') : R (w.set id name v) (w'.set id' name v')
  newScope {w w' : World} (h : R w w') : P.scope w.scopes.size w'.scopes.size
  addScope {w w' : World} (h : R w w') {outer outer' : ScopeId} (houter : P.scope outer outer')
    (parameters : List String) {vs vs' : List Value} (hvs : List.Forall₂ (Value.Paired P hidden) vs vs') :
    R (w.addScope (some outer) (.ofList (parameters.zip vs))).2
      (w'.addScope (some outer') (.ofList (parameters.zip vs'))).2
  newFunction {w w' : World} (h : R w w') : P.identity w.functions w'.functions
  addFunction {w w' : World} (h : R w w') : R w.addFunction.2 w'.addFunction.2
  print {w w' : World} (h : R w w') (text : String) : R (w.print text) (w'.print text)

variable {P : Pairing} {hidden : String → Prop} {R : World → World → Prop} {excused : Prop} {scope scope' : ScopeId}
  {v v' : Value} {vs vs' : List Value}

/-! ## Computations side by side -/

variable {α β : Type} {r : α → α → Prop} {q : β → β → Prop}

/-- The second end goes with the first: the results and the worlds are related, or both were aborted for the same
reason.  Or the second computation needs too much depth, and is excused. -/
inductive EchoedEnd (R : World → World → Prop) (excused : Prop) (r : α → α → Prop) :
    EStateM.Result Abort World α → EStateM.Result Abort World α → Prop where
  | ok {a a' : α} {w w' : World} (hresult : r a a') (hworld : R w w') : EchoedEnd R excused r (.ok a w) (.ok a' w')
  | error (e : Abort) {w w' : World} (hworld : R w w') : EchoedEnd R excused r (.error e w) (.error e w')
  | tooDeep {result : EStateM.Result Abort World α} {w' : World} (h : excused) :
    EchoedEnd R excused r result (.error .tooDeep w')

/-- The second computation does in a related world what the first does. -/
def Echoes (R : World → World → Prop) (excused : Prop) (r : α → α → Prop) (m m' : EvalM α) : Prop :=
  ∀ ⦃w w' : World⦄, R w w' → EchoedEnd R excused r (m w) (m' w')

namespace Echoes

variable {m m' : EvalM α} {next next' : α → EvalM β}

theorem pure {a a' : α} (h : r a a') : Echoes R excused r (Pure.pure a) (Pure.pure a') :=
  fun _ _ hworld => .ok h hworld

theorem abort (e : Abort) : Echoes R excused r (throw e : EvalM α) (throw e) :=
  fun _ _ hworld => .error e hworld

theorem bind (hm : Echoes R excused r m m') (hnext : ∀ a a', r a a' → Echoes R excused q (next a) (next' a')) :
    Echoes R excused q (m >>= next) (m' >>= next') := by
  intro w w' hworld
  change EchoedEnd R excused q (EStateM.bind m next w) (EStateM.bind m' next' w')
  rw [EStateM.bind, EStateM.bind]
  have hend := hm hworld
  generalize m w = result, m' w' = result' at hend
  cases hend with
  | ok h hworld => exact hnext _ _ h hworld
  | error e hworld => exact .error e hworld
  | tooDeep h => exact .tooDeep h

end Echoes

/-! ## The forms of the evaluator -/

namespace Evaluator

/-- Trees that avoid the hidden names are evaluated by the second in a paired scope as they are by the first. -/
def Simulates (P : Pairing) (hidden : String → Prop) (R : World → World → Prop) (excused : Prop)
    (eval eval' : Evaluator) : Prop :=
  ∀ node scope scope', node.Avoids hidden → P.scope scope scope' →
    Echoes R excused (Value.Paired P hidden) (eval node scope) (eval' node scope')

variable {eval eval' : Evaluator} {node : Node} {nodes : List Node} {name : String}

namespace Simulates

theorem withValue (heval : Simulates P hidden R excused eval eval') (hnode : node.Avoids hidden)
    (hscope : P.scope scope scope') {next next' : Value → EvalM Value}
    (hnext : ∀ v v', v.Paired P hidden v' → Echoes R excused (Value.Paired P hidden) (next v) (next' v')) :
    Echoes R excused (Value.Paired P hidden) (Evaluator.withValue eval scope node next)
      (Evaluator.withValue eval' scope' node next') := by
  refine (heval node scope scope' hnode hscope).bind fun v v' hv => ?_
  have hself := hv
  cases hv with
  | error e => exact .pure (.error e)
  | _ => exact hnext _ _ hself

theorem withValues (heval : Simulates P hidden R excused eval eval') (hscope : P.scope scope scope')
    {next next' : List Value → EvalM Value}
    (hnext : ∀ vs vs', List.Forall₂ (Value.Paired P hidden) vs vs' →
      Echoes R excused (Value.Paired P hidden) (next vs) (next' vs'))
    {done done' : List Value} (hdone : List.Forall₂ (Value.Paired P hidden) done done')
    (hnodes : ∀ node ∈ nodes, node.Avoids hidden) :
    Echoes R excused (Value.Paired P hidden) (Evaluator.withValues eval scope next done nodes)
      (Evaluator.withValues eval' scope' next' done' nodes) := by
  induction nodes generalizing done done' with
  | nil => exact hnext _ _ (List.rel_reverse hdone)
  | cons node nodes ih =>
    rw [List.forall_mem_cons] at hnodes
    exact heval.withValue hnodes.1 hscope fun v v' hv => ih (.cons hv hdone) hnodes.2

theorem entries (heval : Simulates P hidden R excused eval eval') (hscope : P.scope scope scope')
    {pairs : List (Node × Node)} (hpairs : ∀ pair ∈ pairs, pair.1.Avoids hidden ∧ pair.2.Avoids hidden)
    {done done' : List (HashKey × Value)} (hdone : List.Forall₂ (Prod.RProd Eq (Value.Paired P hidden)) done done') :
    Echoes R excused (Value.Paired P hidden) (Evaluator.entries eval scope done pairs)
      (Evaluator.entries eval' scope' done' pairs) := by
  induction pairs generalizing done done' with
  | nil => exact .pure (.hash (OrderedMap.rel_ofList (List.rel_reverse hdone)))
  | cons pair pairs ih =>
    rw [List.forall_mem_cons] at hpairs
    refine heval.withValue hpairs.1.1 hscope fun k k' hk => ?_
    rw [hk.hashKey?_eq, hk.type_eq]
    cases k'.hashKey? with
    | none => exact .pure (.error _)
    | some key =>
      exact heval.withValue hpairs.1.2 hscope fun v v' hv => ih hpairs.2 (.cons (.intro rfl hv) hdone)

theorem statements (heval : Simulates P hidden R excused eval eval') (hscope : P.scope scope scope')
    (hnodes : ∀ node ∈ nodes, node.Avoids hidden) (hv : v.Paired P hidden v') :
    Echoes R excused (Value.Paired P hidden) (Evaluator.statements eval scope v nodes)
      (Evaluator.statements eval' scope' v' nodes) := by
  induction nodes generalizing v v' with
  | nil => exact .pure hv
  | cons node nodes ih =>
    rw [List.forall_mem_cons] at hnodes
    refine (heval node scope scope' hnodes.1 hscope).bind fun u u' hu => ?_
    have hself := hu
    cases hu with
    | returned h => exact .pure (.returned h)
    | error e => exact .pure (.error e)
    | _ => exact ih hnodes.2 hself

theorem call (heval : Simulates P hidden R excused eval eval') (hR : Simulation P hidden R) {f f' : Value}
    (hf : f.Paired P hidden f') (hvs : List.Forall₂ (Value.Paired P hidden) vs vs') :
    Echoes R excused (Value.Paired P hidden) (Evaluator.call eval f vs) (Evaluator.call eval' f' vs') := by
  cases hf with
  | @function _ _ parameters body outer outer' hidentity hbody houter =>
    simp only [Evaluator.call, hvs.length_eq]
    by_cases hlength : vs'.length = parameters.length
    · simp only [if_neg (not_not_intro hlength)]
      refine .bind (r := P.scope) (fun w w' hworld => ?_) fun inner inner' hinner => ?_
      · exact .ok (hR.newScope hworld) (hR.addScope hworld houter parameters hvs)
      · exact (heval body inner inner' hbody hinner).bind fun v v' hv => .pure hv.unwrapReturned
    · simp only [if_pos hlength]
      exact .pure (.error _)
  | builtin b =>
    obtain ⟨hvalue, htext⟩ := b.apply_paired hvs
    intro w w' hworld
    have hprinted := hR.print hworld (b.apply vs).2
    rw [htext] at hprinted
    exact .ok hvalue (htext ▸ hprinted)
  | _ => exact .pure (.error _)

end Simulates

theorem lookUp_echoes (hR : Simulation P hidden R) (table : BuiltinTable) (hscope : P.scope scope scope')
    (hname : ¬hidden name) :
    Echoes R excused (Value.Paired P hidden) (lookUp table scope name) (lookUp table scope' name) := by
  intro w w' hworld
  have hvalue := hR.get? hworld hscope hname
  rw [lookUp_apply, lookUp_apply]
  generalize w.get? scope name = found, w'.get? scope' name = found' at hvalue
  cases hvalue with
  | some hv => exact .ok hv hworld
  | none =>
    cases table.get? name with
    | some b => exact .ok (.builtin b) hworld
    | none => exact .ok (.error _) hworld

theorem Simulates.step (heval : Simulates P hidden R excused eval eval') (hR : Simulation P hidden R)
    (table : BuiltinTable) :
    Simulates P hidden R excused (Evaluator.step eval table) (Evaluator.step eval' table) := by
  intro node scope scope' hnode hscope
  have hpart {part : Node} (h : part ∈ node.parts) : part.Avoids hidden := hnode.of_mem_parts h
  cases node with
  | absent => exact .abort _
  | program nodes =>
    exact (heval.statements hscope (fun _ => hpart) .null).bind fun v v' hv => .pure hv.unwrapReturned
  | block nodes => exact heval.statements hscope (fun _ => hpart) .null
  | expressionStatement e => exact heval e scope scope' (hpart (by simp [Node.parts])) hscope
  | returnStatement e =>
    exact heval.withValue (hpart (by simp [Node.parts])) hscope fun v v' hv => .pure (.returned hv)
  | letStatement name e =>
    refine heval.withValue (hpart (by simp [Node.parts])) hscope fun v v' hv => ?_
    refine .bind (r := fun _ _ => True) (fun w w' hworld => ?_) fun _ _ _ => .pure .null
    exact .ok trivial (hR.set hworld hscope name hv)
  | integer n => exact .pure (.integer n)
  | string s => exact .pure (.string s)
  | boolean b => exact .pure (.boolean b)
  | array nodes => exact heval.withValues hscope (fun vs vs' hvs => .pure (.array hvs)) .nil fun _ => hpart
  | hash pairs =>
    refine heval.entries hscope (fun pair hpair => ?_) .nil
    exact ⟨hpart (List.mem_flatMap.2 ⟨pair, hpair, by simp⟩), hpart (List.mem_flatMap.2 ⟨pair, hpair, by simp⟩)⟩
  | function parameters body =>
    refine .bind (r := P.identity) (fun w w' hworld => ?_) fun identity identity' hidentity => ?_
    · exact .ok (hR.newFunction hworld) (hR.addFunction hworld)
    · exact .pure (.function hidentity (hpart (by simp [Node.parts])) hscope)
  | identifier name => exact lookUp_echoes hR table hscope (hnode.self name rfl)
  | unary operator e =>
    exact heval.withValue (hpart (by simp [Node.parts])) hscope fun v v' hv => .pure (hv.applyUnary operator)
  | binary left operator right =>
    refine heval.withValue (hpart (by simp [Node.parts])) hscope fun a a' ha => ?_
    exact heval.withValue (hpart (by simp [Node.parts])) hscope fun b b' hb => .pure (ha.applyBinary operator hb)
  | ifElse condition consequence alternative =>
    refine heval.withValue (hpart (by simp [Node.parts])) hscope fun v v' hv => ?_
    rw [hv.isTruthy_eq]
    split
    · exact heval consequence scope scope' (hpart (by simp [Node.parts])) hscope
    · split
      · exact .pure .null
      · exact heval alternative scope scope' (hpart (by simp [Node.parts])) hscope
  | call callee arguments =>
    refine heval.withValue (hpart (by simp [Node.parts])) hscope fun f f' hf => ?_
    refine heval.withValues hscope (fun vs vs' hvs => heval.call hR hf hvs) .nil fun argument hargument => ?_
    exact hpart (List.mem_cons_of_mem callee hargument)
  | index left position =>
    refine heval.withValue (hpart (by simp [Node.parts])) hscope fun a a' ha => ?_
    exact heval.withValue (hpart (by simp [Node.parts])) hscope fun b b' hb => .pure (ha.applyIndex hb)

end Evaluator

/-- Evaluation in a related world echoes evaluation in the first, with less depth only if that is excused. -/
theorem simulates_eval (hR : Simulation P hidden R) (table : BuiltinTable) {depth depth' : Nat} (hle : depth' ≤ depth)
    (hexcused : depth' < depth → excused) :
    Evaluator.Simulates P hidden R excused (eval table depth) (eval table depth') := by
  induction depth' generalizing depth with
  | zero =>
    cases depth with
    | zero => exact fun _ _ _ _ _ => .abort _
    | succ depth => exact fun _ _ _ _ _ _ _ _ => .tooDeep (hexcused (Nat.zero_lt_succ depth))
  | succ depth' ih =>
    cases depth with
    | zero => exact absurd hle (Nat.not_succ_le_zero depth')
    | succ depth =>
      exact (ih (Nat.le_of_succ_le_succ hle) fun hlt => hexcused (Nat.succ_lt_succ hlt)).step hR table

theorem simulates_eval_self (hR : Simulation P hidden R) (table : BuiltinTable) (depth : Nat) :
    Evaluator.Simulates P hidden R False (eval table depth) (eval table depth) :=
  simulates_eval hR table (Nat.le_refl depth) (Nat.lt_irrefl depth)

end MonkeyLanguage
