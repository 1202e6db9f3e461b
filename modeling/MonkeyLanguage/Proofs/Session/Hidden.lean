import MonkeyLanguage.Proofs.Eval.Hidden
import MonkeyLanguage.Proofs.Parser.Identifiers
import MonkeyLanguage.Proofs.Session.Sequence

/-!
# Bindings that a program does not mention

A program does not see what the names stand for that it does not mention, as long as no function that it can come by
looks one of them up (`run_ignores_hidden`).  It does the same in two sessions that differ in these names alone, and
leaves them as they were.

That the runs go together is `eval_agrees`, and that they leave the hidden names alone is the frame of evaluation.
-/

namespace MonkeyLanguage

/-- Both runs have paired values, of the same type and text, or they are aborted for the same reason. -/
def Outcome.Paired (P : Pairing) (hidden : String → Prop) (o o' : Outcome) : Prop :=
  (∃ v v', o = .finished v ∧ o' = .finished v' ∧ v.Paired P hidden v' ∧ v.type = v'.type ∧ v.render = v'.render) ∨
    ∃ reason, o = .aborted reason ∧ o' = .aborted reason

namespace Session

variable {frontEnd : FrontEnd} {table : BuiltinTable} {source : String} {s s' : Session} {P : Pairing}
  {hidden : String → Prop} {name : String}

theorem get?_run (hexists : s.scope < s.world.scopes.size) (hname : name ∉ identifierValues (tokensOf source)) :
    (s.run frontEnd table source).session.world.get? s.scope name = s.world.get? s.scope name := by
  by_cases hparse : (frontEnd.parse source).2 = []
  · have hprogram : frontEnd.parse source = ((frontEnd.parse source).1, []) := Prod.ext rfl hparse
    have hframe := framed_eval table (s.limit + 1) (.program (frontEnd.parse source).1) s.scope
      { s.world with output := "" }
    have hbound : name ∉ (Node.program (frontEnd.parse source).1).letNames := fun hmem =>
      hname (identifiers_of_parse hprogram ▸ (Node.letNames_sublist _).subset hmem)
    have hsame : Frame s.scope (Node.program (frontEnd.parse source).1).letNames s.world _ :=
      ⟨hframe.size_le, hframe.other, hframe.own⟩
    have hget := hsame.get?_eq hexists hbound
    rw [World.after] at hget
    rw [run_of_parse hprogram, evaluate]
    generalize eval table (s.limit + 1) _ _ _ = result at hget
    cases result <;> exact hget
  · rw [run_of_messages hparse]

/-- A program does the same in two sessions that agree but for hidden names, none of which is an identifier of its
text.  The sessions agree afterwards, and the hidden names stand for what they stood for. -/
theorem run_ignores_hidden (hparse : (frontEnd.parse source).2 = [])
    (hsource : ∀ t ∈ tokenize source, t.kind = .identifier → ¬hidden t.value)
    (hworld : s.world.Agrees P hidden s'.world) (hscope : P.scope s.scope s'.scope) (hlimit : s'.limit = s.limit)
    (hexists : s.scope < s.world.scopes.size) :
    (s.run frontEnd table source).outcome.Paired P hidden (s'.run frontEnd table source).outcome ∧
    (s.run frontEnd table source).printed = (s'.run frontEnd table source).printed ∧
    (s.run frontEnd table source).session.world.Agrees P hidden (s'.run frontEnd table source).session.world ∧
    P.scope (s.run frontEnd table source).session.scope (s'.run frontEnd table source).session.scope ∧
    ∀ name, hidden name →
      (s.run frontEnd table source).session.world.get? s.scope name = s.world.get? s.scope name ∧
      (s'.run frontEnd table source).session.world.get? s'.scope name = s'.world.get? s'.scope name := by
  have hprogram : frontEnd.parse source = ((frontEnd.parse source).1, []) := Prod.ext rfl hparse
  have hidentifiers : ∀ name ∈ identifierValues (tokensOf source), ¬hidden name := by
    intro name hname
    obtain ⟨t, ht, rfl⟩ := List.mem_map.1 hname
    obtain ⟨ht, hkind⟩ := List.mem_filter.1 ht
    exact hsource t (List.mem_append_left _ ht) (of_decide_eq_true hkind)
  have havoids : (Node.program (frontEnd.parse source).1).Avoids hidden :=
    Node.avoids_of_identifiers (identifiers_of_parse hprogram ▸ hidentifiers)
  have hfresh : World.Agrees P hidden { s.world with output := "" } { s'.world with output := "" } :=
    ⟨hworld.scopes, hworld.newScope, hworld.newFunction⟩
  have hend := eval_agrees P hidden table (s.limit + 1) _ s.scope s'.scope havoids hscope ⟨hfresh, rfl⟩
  have hkept : ∀ name, hidden name →
      (s.run frontEnd table source).session.world.get? s.scope name = s.world.get? s.scope name ∧
      (s'.run frontEnd table source).session.world.get? s'.scope name = s'.world.get? s'.scope name := fun name hname =>
    have hnew : name ∉ identifierValues (tokensOf source) := fun hmem => hidentifiers name hmem hname
    ⟨get?_run hexists hnew, get?_run ((hworld.isScope_iff hscope).1 hexists) hnew⟩
  rw [run_of_parse hprogram, run_of_parse hprogram, evaluate, evaluate, hlimit] at hkept ⊢
  generalize eval table (s.limit + 1) _ s.scope _ = result, eval table (s.limit + 1) _ s'.scope _ = result'
    at hend hkept
  cases hend with
  | ok hv hworld =>
    exact ⟨.inl ⟨_, _, rfl, rfl, hv, hv.type_eq, hv.render_eq⟩, hworld.2, hworld.1, hscope, hkept⟩
  | error reason hworld => exact ⟨.inr ⟨reason, rfl, rfl⟩, hworld.2, hworld.1, hscope, hkept⟩
  | tooDeep h => exact h.elim

end Session

/-! ## A secret -/

theorem later_eq_iff {a b k : Nat} : a = b ↔ (if a = 0 then 0 else a + k) = if b = 0 then 0 else b + k := by
  split <;> split <;> omega

/-- All scopes but the first have later numbers, and all functions. -/
def Pairing.later (scopes functions : Nat) : Pairing where
  scope a b := b = if a = 0 then 0 else a + scopes
  identity a b := b = a + functions
  scope_eq_iff h h' := h ▸ h' ▸ later_eq_iff
  identity_eq_iff h h' := h ▸ h' ▸ Nat.add_right_cancel_iff.symm

namespace Session

/-- A session in which a secret is bound, for which the scopes and functions given have been made, and a function that
looks up another name. -/
def keepingSecret (secret : Value) (scopes : List Scope) (functions : Nat) : Session where
  world := {
    scopes := ⟨⟨none, [("secret", secret), ("y", .integer 7),
      ("f", .function functions [] (.block [.expressionStatement (.identifier "y")]) 0)]⟩ :: scopes⟩
    functions := functions + 1
    output := "" }
  scope := 0
  limit := 1000

theorem agrees_keepingSecret (secret secret' : Value) (scopes : List Scope) (functions : Nat) :
    (keepingSecret secret [] 0).world.Agrees (.later scopes.length functions) (· = "secret")
      (keepingSecret secret' scopes functions).world where
  scopes {id id'} hid := by
    have hbody : (Node.block [.expressionStatement (.identifier "y")]).Avoids (· = "secret") :=
      Node.avoids_of_identifiers (by decide)
    subst hid
    cases id with
    | zero =>
      refine .some ⟨.none, fun name hname => ?_⟩
      show Option.Rel _ (OrderedMap.get? [("secret", _), ("y", _), ("f", _)] name)
        (OrderedMap.get? [("secret", _), ("y", _), ("f", _)] name)
      simp only [OrderedMap.get?, if_neg (Ne.symm hname)]
      split
      · exact .some (.integer 7)
      · split
        · exact .some (.function (Nat.zero_add functions).symm hbody rfl)
        · exact .none
    | succ id =>
      have hsize : (keepingSecret secret' scopes functions).world.scopes.size = scopes.length + 1 := rfl
      have hnone : (keepingSecret secret' scopes functions).world.scopes[id + 1 + scopes.length]? = none := by
        refine Array.getElem?_eq_none ?_
        omega
      rw [if_neg (Nat.succ_ne_zero id), hnone]
      exact .none
  newScope k := by
    show (scopes.length + 1 + k : Nat) = if 1 + k = 0 then 0 else 1 + k + scopes.length
    have hnew : 1 + k ≠ 0 := by omega
    rw [if_neg hnew]
    omega
  newFunction k := by
    show functions + 1 + k = 0 + 1 + k + functions
    omega

/-- A program that calls the function prints the same, whether the secret is a number or a closure, and leaves both
secrets alone. -/
theorem run_ignores_hidden_of_secret :
    let number := keepingSecret (.integer 1) [] 0
    let closure := keepingSecret (.function 1 [] (.block [.expressionStatement (.identifier "n")]) 1)
      [⟨some 0, [("n", .integer 3)]⟩] 2
    let run := number.run .descent .default "let z = f() + y; puts(z)"
    let run' := closure.run .descent .default "let z = f() + y; puts(z)"
    run.printed = run'.printed ∧
      run.session.world.get? 0 "secret" = number.world.get? 0 "secret" ∧
      run'.session.world.get? 0 "secret" = closure.world.get? 0 "secret" := by
  intro number closure run run'
  have hparse : (FrontEnd.descent.parse "let z = f() + y; puts(z)").2 = [] := by decide +kernel
  have hsource : ∀ t ∈ tokenize "let z = f() + y; puts(z)", t.kind = .identifier → ¬t.value = "secret" := by
    decide +kernel
  have hagrees : number.world.Agrees (.later 1 2) (· = "secret") closure.world := agrees_keepingSecret _ _ [_] 2
  have hrun : run.outcome.Paired (.later 1 2) (· = "secret") run'.outcome ∧ _ :=
    run_ignores_hidden hparse hsource hagrees rfl rfl Nat.one_pos
  exact ⟨hrun.2.1, hrun.2.2.2.2 "secret" rfl⟩

end Session

end MonkeyLanguage
