import MonkeyLanguage.Proofs.Eval.Closed
import MonkeyLanguage.Proofs.Eval.Frame

/-!
# Evaluation with enough depth

A computation gives a value if it does so with every depth from some depth on (`Gives`).  A call that has a value with
one depth has it with all greater depths (`calls_of_ok`).  Each form of the evaluator has a rule here that says what it
gives by what its parts give, so that a run of a known program is put together from these rules and no depth is counted.
-/

namespace MonkeyLanguage

variable {α β : Type} {table : BuiltinTable} {scope : ScopeId} {node : Node} {name : String} {v a : Value}
  {f : Value} {arguments : List Value} {w w₁ w' : World}

/-- With enough depth, the computation gives the value and leaves the second world. -/
def Gives (m : Nat → EvalM α) (w : World) (a : α) (w' : World) : Prop :=
  ∃ enough, ∀ depth, enough ≤ depth → m depth w = .ok a w'

/-- With enough depth, the node has the value. -/
abbrev Evaluates (table : BuiltinTable) (node : Node) (scope : ScopeId) : World → Value → World → Prop :=
  Gives fun depth => eval table depth node scope

/-- With enough depth, the call has the value. -/
abbrev Calls (table : BuiltinTable) (f : Value) (arguments : List Value) : World → Value → World → Prop :=
  Gives fun depth => Evaluator.call (eval table depth) f arguments

/-! ## More depth -/

theorem simulates_eq : Renaming.refl.Simulates Eq where
  get?_eq h scope name := by
    subst h
    rw [funext Value.rename_refl, Option.map_id']
    rfl
  set h scope name v := by
    subst h
    rw [Value.rename_refl]
    rfl
  newScope h := congrArg (fun w => w.scopes.size) h
  addScope h outer bindings := by
    subst h
    rw [OrderedMap.mapValues_eq_self fun binding _ => Value.rename_refl binding.2]
    rfl
  newFunction h := congrArg World.functions h
  addFunction h := congrArg (fun w => w.addFunction.2) h
  print h text := congrArg (World.print · text) h

theorem calls_of_ok {depth : Nat} (h : Evaluator.call (eval table depth) f arguments w = .ok v w') :
    Calls table f arguments w v w' := by
  refine ⟨depth, fun more hmore => ?_⟩
  show Evaluator.call (eval table more) f arguments w = .ok v w'
  have hend : EchoedEnd Eq True (Value.Renamed .refl) (Evaluator.call (eval table more) f arguments w)
      (Evaluator.call (eval table depth) (f.rename .refl) (arguments.map (Value.rename .refl)) w) :=
    (simulates_eval simulates_eq.simulation table hmore fun _ => trivial).call simulates_eq.simulation
      f.renamed_rename (Value.forall₂_renamed_iff.2 rfl) rfl
  rw [Value.rename_refl, Value.map_rename_eq_self fun a _ => Value.rename_refl a, h] at hend
  generalize Evaluator.call (eval table more) f arguments w = result at hend ⊢
  cases hend with
  | ok ha hworld =>
    rw [Value.renamed_iff, Value.rename_refl] at ha
    rw [ha, hworld]

/-! ## The forms of the evaluator -/

namespace Gives

variable {m : Nat → EvalM α} {next : Nat → α → EvalM β} {b : β} {r : α}

theorem of_forall (h : ∀ depth, m depth w = .ok r w') : Gives m w r w' :=
  ⟨0, fun depth _ => h depth⟩

theorem exists_ok (h : Gives m w r w') : ∃ depth, m depth w = .ok r w' :=
  ⟨h.choose, h.choose_spec _ (Nat.le_refl _)⟩

theorem bind (hm : Gives m w r w₁) (hnext : Gives (next · r) w₁ b w') :
    Gives (fun depth => m depth >>= next depth) w b w' := by
  obtain ⟨enough, hm⟩ := hm
  obtain ⟨enough', hnext⟩ := hnext
  refine ⟨max enough enough', fun depth hdepth => ?_⟩
  change EStateM.bind (m depth) (next depth) w = _
  rw [EStateM.bind, hm depth (Nat.le_trans (Nat.le_max_left ..) hdepth)]
  exact hnext depth (Nat.le_trans (Nat.le_max_right ..) hdepth)

section

variable {next : Nat → Value → EvalM Value} {call : Nat → List Value → EvalM Value} {nodes : List Node}
  {done : List Value} {last : Value}

theorem withValue (hnode : Evaluates table node scope w a w₁) (ha : a.type ≠ .error)
    (hnext : Gives (next · a) w₁ v w') :
    Gives (fun depth => Evaluator.withValue (eval table depth) scope node (next depth)) w v w' := by
  refine hnode.bind ?_
  cases a with
  | error e => exact absurd rfl ha
  | _ => exact hnext

theorem noMoreValues (h : Gives (call · done.reverse) w v w') :
    Gives (fun depth => Evaluator.withValues (eval table depth) scope (call depth) done []) w v w' :=
  h

theorem moreValues (hnode : Evaluates table node scope w a w₁) (ha : a.type ≠ .error)
    (hrest : Gives (fun depth => Evaluator.withValues (eval table depth) scope (call depth) (a :: done) nodes) w₁ v
      w') :
    Gives (fun depth => Evaluator.withValues (eval table depth) scope (call depth) done (node :: nodes)) w v w' :=
  withValue hnode ha hrest

theorem lastStatement (hnode : Evaluates table node scope w v w') :
    Gives (fun depth => Evaluator.statements (eval table depth) scope last [node]) w v w' := by
  refine hnode.bind ?_
  cases v <;> exact .of_forall fun _ => rfl

theorem moreStatements (hnode : Evaluates table node scope w a w₁) (hreturned : a.type ≠ .returned)
    (herror : a.type ≠ .error)
    (hrest : Gives (fun depth => Evaluator.statements (eval table depth) scope a nodes) w₁ v w') :
    Gives (fun depth => Evaluator.statements (eval table depth) scope last (node :: nodes)) w v w' := by
  refine hnode.bind ?_
  cases a with
  | returned u => exact absurd rfl hreturned
  | error e => exact absurd rfl herror
  | _ => exact hrest

end

end Gives

namespace Evaluates

variable {left right condition yes no callee body : Node} {nodes arguments : List Node} {operator : String} {b : Value}
  {parameters : List String}

theorem of_step (h : Gives (fun depth => Evaluator.step (eval table depth) table node scope) w v w') :
    Evaluates table node scope w v w' := by
  obtain ⟨enough, h⟩ := h
  refine ⟨enough + 1, fun depth hdepth => ?_⟩
  cases depth with
  | zero => exact absurd hdepth (Nat.not_succ_le_zero enough)
  | succ depth => exact h depth (Nat.le_of_succ_le_succ hdepth)

theorem integer (n : Int) : Evaluates table (.integer n) scope w (.integer n) w :=
  of_step (.of_forall fun _ => rfl)

theorem emptyArray : Evaluates table (.array []) scope w (.array []) w :=
  of_step (.of_forall fun _ => rfl)

theorem function : Evaluates table (.function parameters body) scope w (.function w.functions parameters body scope)
    w.addFunction.2 :=
  of_step (.of_forall fun _ => rfl)

theorem identifier (h : w.get? scope name = some v) : Evaluates table (.identifier name) scope w v w := by
  refine of_step (.of_forall fun _ => (Evaluator.lookUp_apply ..).trans ?_)
  rw [h]

theorem builtin {b : Builtin} (h : w.get? scope name = none) (hbuiltin : table.get? name = some b) :
    Evaluates table (.identifier name) scope w (.builtin b) w := by
  refine of_step (.of_forall fun _ => (Evaluator.lookUp_apply ..).trans ?_)
  rw [h, hbuiltin]

theorem expressionStatement (h : Evaluates table node scope w v w') :
    Evaluates table (.expressionStatement node) scope w v w' :=
  of_step h

theorem letStatement (h : Evaluates table node scope w v w') (hv : v.type ≠ .error) :
    Evaluates table (.letStatement name node) scope w .null (w'.set scope name v) :=
  of_step (.withValue h hv (.of_forall fun _ => rfl))

theorem block (h : Gives (fun depth => Evaluator.statements (eval table depth) scope .null nodes) w v w') :
    Evaluates table (.block nodes) scope w v w' :=
  of_step h

theorem binary (hleft : Evaluates table left scope w a w₁) (ha : a.type ≠ .error)
    (hright : Evaluates table right scope w₁ b w') (hb : b.type ≠ .error) :
    Evaluates table (.binary left operator right) scope w (Value.applyBinary operator a b) w' :=
  of_step (.withValue hleft ha (.withValue hright hb (.of_forall fun _ => rfl)))

theorem consequence (hcondition : Evaluates table condition scope w (.boolean true) w₁)
    (h : Evaluates table yes scope w₁ v w') : Evaluates table (.ifElse condition yes no) scope w v w' :=
  of_step (.withValue hcondition ValueType.noConfusion h)

theorem alternative (hcondition : Evaluates table condition scope w (.boolean false) w₁) (hne : no ≠ .absent)
    (h : Evaluates table no scope w₁ v w') : Evaluates table (.ifElse condition yes no) scope w v w' := by
  refine of_step (.withValue hcondition ValueType.noConfusion ?_)
  cases no with
  | absent => exact absurd rfl hne
  | _ => exact h

theorem call (hcallee : Evaluates table callee scope w f w₁) (hf : f.type ≠ .error)
    (harguments : Gives (fun depth =>
      Evaluator.withValues (eval table depth) scope (Evaluator.call (eval table depth) f) [] arguments) w₁ v w') :
    Evaluates table (.call callee arguments) scope w v w' :=
  of_step (.withValue hcallee hf harguments)

end Evaluates

namespace Calls

variable {identity : Nat} {parameters : List String} {body : Node} {outer : ScopeId} {ρ : Renaming}
  {before before' : String} {u : World}

theorem exists_ok (h : Calls table f arguments w v w') :
    ∃ depth, Evaluator.call (eval table depth) f arguments w = .ok v w' :=
  Gives.exists_ok h

theorem function (hlength : arguments.length = parameters.length)
    (hbody : Evaluates table body w.scopes.size
      (w.addScope (some outer) (.ofList (parameters.zip arguments))).2 v w') :
    Calls table (.function identity parameters body outer) arguments w v.unwrapReturned w' := by
  simp only [Calls, Evaluator.call, if_neg (not_not_intro hlength)]
  exact .bind (.of_forall fun _ => rfl) (hbody.bind (.of_forall fun _ => rfl))

theorem builtin {b : Builtin} (happly : b.apply arguments = (v, "")) : Calls table (.builtin b) arguments w v w := by
  have hprint : w.print "" = w := by rw [World.print, String.append_empty]
  refine .of_forall fun depth => ?_
  show EStateM.Result.ok (b.apply arguments).1 (w.print (b.apply arguments).2) = _
  rw [happly, hprint]

theorem type_ne (h : Calls table f arguments w v w') (hv : v.type ≠ .error) : f.type ≠ .error := by
  obtain ⟨depth, hcall⟩ := h.exists_ok
  intro hf
  cases f with
  | error e =>
    injection hcall with hvalue
    exact hv (hvalue ▸ rfl)
  | _ => cases hf

theorem keeps (h : Calls table f arguments w v w') : w.Keeps w' := by
  obtain ⟨depth, hcall⟩ := h.exists_ok
  have hkeeps := Evaluator.call_keeps (framed_eval table depth) f arguments w
  rwa [World.after, hcall] at hkeeps

theorem closes (h : Calls table f arguments w v w') (hw : w.Closed) (hf : w.Knows f)
    (harguments : ∀ a ∈ arguments, w.Knows a) : w.Reaches w' ∧ w'.Knows v := by
  obtain ⟨depth, hcall⟩ := h.exists_ok
  have hend := Evaluator.call_closes (closes_eval table depth) hw hf harguments
  rw [hcall] at hend
  cases hend with
  | ok hreaches hv => exact ⟨hreaches, hv⟩

/-- A call has the same value in a copy of the world, up to the numbers. -/
theorem copied (h : Calls table f arguments w v w') (hcopied : World.Copied ρ before before' w u) :
    ∃ u', Calls table (f.rename ρ) (arguments.map (Value.rename ρ)) u (v.rename ρ) u' ∧
      World.Copied ρ before before' w' u' := by
  obtain ⟨depth, hcall⟩ := h.exists_ok
  have hend := hcopied.call table depth f arguments
  rw [hcall] at hend
  generalize hresult : Evaluator.call (eval table depth) (f.rename ρ) (arguments.map (Value.rename ρ)) u = result
    at hend
  cases hend with
  | @ok _ _ _ u' hv hcopied' =>
    rw [Value.renamed_iff] at hv
    exact ⟨u', calls_of_ok (hv ▸ hresult), hcopied'⟩
  | tooDeep h => exact h.elim

theorem copied_of_known {x : Value} (h : Calls table f [x] w v w') (hcopied : World.Copied ρ before before' w u)
    (hu : u.Closed) (hf : u.Knows f ∧ f.rename ρ = f) (hx : u.Knows x ∧ x.rename ρ = x) :
    ∃ u', Calls table f [x] u (v.rename ρ) u' ∧ World.Copied ρ before before' w' u' ∧ u.Reaches u' ∧
      u'.Knows (v.rename ρ) := by
  obtain ⟨u', hcall, hcopied'⟩ := h.copied hcopied
  rw [hf.2, List.map_singleton, hx.2] at hcall
  exact ⟨u', hcall, hcopied', hcall.closes hu hf.1 (List.forall_mem_singleton.2 hx.1)⟩

end Calls

theorem Evaluates.callBuiltin {b : Builtin} (hname : w.get? scope name = none) (hbuiltin : table.get? name = some b)
    (hargument : Evaluates table node scope w a w') (ha : a.type ≠ .error) (happly : b.apply [a] = (v, "")) :
    Evaluates table (.call (.identifier name) [node]) scope w v w' :=
  .call (.builtin hname hbuiltin) ValueType.noConfusion
    (.moreValues hargument ha (.noMoreValues (Calls.builtin happly)))

end MonkeyLanguage
