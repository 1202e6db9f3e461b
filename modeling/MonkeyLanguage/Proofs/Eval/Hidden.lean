import MonkeyLanguage.Proofs.Eval.Frame
import MonkeyLanguage.Proofs.Eval.Simulation

/-!
# Evaluation with hidden names

Two worlds agree but for some hidden names if paired scopes bind all other names to paired values
(`World.Agrees`).  A tree that avoids the hidden names is evaluated in the same way in both, and they agree
afterwards (`eval_agrees`): no function that the tree can come by looks a hidden name up.

Scopes and functions are made in both worlds at once, so those to come are paired in order from the beginning, and
one pairing holds for all of the evaluation.
-/

namespace MonkeyLanguage

/-! ## Worlds that agree -/

/-- The scopes stand inside paired ones, and names that are not hidden have paired values in them. -/
structure Scope.Agrees (P : Pairing) (hidden : String → Prop) (id id' : ScopeId) (s s' : Scope) : Prop where
  outer : Option.Rel (fun outer outer' => P.scope outer outer' ∧ (outer < id ↔ outer' < id')) s.outer s'.outer
  get? : ∀ name, ¬hidden name →
    Option.Rel (Value.Paired P hidden) (OrderedMap.get? s.bindings name) (OrderedMap.get? s'.bindings name)

/-- The worlds agree in all that is paired, and what is made next is paired. -/
structure World.Agrees (P : Pairing) (hidden : String → Prop) (w w' : World) : Prop where
  scopes : ∀ {id id'}, P.scope id id' → Option.Rel (Scope.Agrees P hidden id id') w.scopes[id]? w'.scopes[id']?
  newScope : ∀ k : Nat, P.scope (w.scopes.size + k) (w'.scopes.size + k)
  newFunction : ∀ k : Nat, P.identity (w.functions + k) (w'.functions + k)

variable {P : Pairing} {hidden : String → Prop} {w w' : World} {id id' : ScopeId} {name : String}
  {v v' : Value} {vs vs' : List Value}

namespace World.Agrees

theorem get? (h : w.Agrees P hidden w') (hid : P.scope id id') (hname : ¬hidden name) :
    Option.Rel (Value.Paired P hidden) (w.get? id name) (w'.get? id' name) := by
  induction id using Nat.strongRecOn generalizing id' with
  | ind id ih =>
    rw [get?_eq, get?_eq]
    have hscope := h.scopes hid
    generalize w.scopes[id]? = found, w'.scopes[id']? = found' at hscope
    cases hscope with
    | none => exact .none
    | @some s s' hs =>
      have hbinding := hs.get? name hname
      rw [Option.bind_some, Option.bind_some]
      generalize OrderedMap.get? s.bindings name = value, OrderedMap.get? s'.bindings name = value' at hbinding
      cases hbinding with
      | some hv => exact .some hv
      | none =>
        have houter := hs.outer
        rw [Option.none_or, Option.none_or]
        generalize s.outer = outer, s'.outer = outer' at houter
        cases houter with
        | none => exact .none
        | some houter =>
          rw [Option.bind_some, Option.bind_some]
          split
          · next hlt =>
            rw [if_pos (houter.2.1 hlt)]
            exact ih _ hlt houter.1
          · next hle =>
            rw [if_neg (mt houter.2.2 hle)]
            exact .none

theorem isScope_iff (h : w.Agrees P hidden w') (hid : P.scope id id') :
    id < w.scopes.size ↔ id' < w'.scopes.size := by
  have hscope := h.scopes hid
  rw [← not_iff_not, Nat.not_lt, Nat.not_lt, ← Array.getElem?_eq_none_iff, ← Array.getElem?_eq_none_iff]
  generalize w.scopes[id]? = found, w'.scopes[id']? = found' at hscope
  cases hscope with
  | none => exact ⟨fun _ => rfl, fun _ => rfl⟩
  | some _ => exact ⟨nofun, nofun⟩

theorem set (h : w.Agrees P hidden w') (hid : P.scope id id') (name : String) (hv : v.Paired P hidden v') :
    (w.set id name v).Agrees P hidden (w'.set id' name v') where
  scopes {i i'} hi := by
    have hscope := h.scopes hi
    simp only [World.set, Array.getElem?_modify, P.scope_eq_iff hid hi]
    split
    · next heq =>
      generalize w.scopes[i]? = found, w'.scopes[i']? = found' at hscope
      cases hscope with
      | none => exact .none
      | @some s s' hs =>
        refine .some ⟨hs.outer, fun other hother => ?_⟩
        by_cases hsame : name = other
        · subst hsame
          simp only [OrderedMap.get?_insert_self]
          exact .some hv
        · simp only [OrderedMap.get?_insert_of_ne _ _ hsame]
          exact hs.get? other hother
    · exact hscope
  newScope k := by
    simp only [World.set, Array.size_modify]
    exact h.newScope k
  newFunction := h.newFunction

theorem addScope (h : w.Agrees P hidden w') (hid : P.scope id id') (parameters : List String)
    (hvs : List.Forall₂ (Value.Paired P hidden) vs vs') :
    (w.addScope (some id) (.ofList (parameters.zip vs))).2.Agrees P hidden
      (w'.addScope (some id') (.ofList (parameters.zip vs'))).2 where
  scopes {i i'} hi := by
    have hnew : i = w.scopes.size ↔ i' = w'.scopes.size := P.scope_eq_iff hi (h.newScope 0)
    simp only [World.addScope, Array.getElem?_push, hnew]
    split
    · next heq =>
      obtain rfl := hnew.2 heq
      subst heq
      refine .some ⟨.some ⟨hid, h.isScope_iff hid⟩, fun other _ => ?_⟩
      exact OrderedMap.rel_get? (OrderedMap.rel_ofList (rel_zip parameters hvs)) other
    · exact h.scopes hi
  newScope k := by
    have hnext := h.newScope (1 + k)
    simp only [World.addScope, Array.size_push]
    rwa [← Nat.add_assoc, ← Nat.add_assoc] at hnext
  newFunction := h.newFunction

theorem addFunction (h : w.Agrees P hidden w') : w.addFunction.2.Agrees P hidden w'.addFunction.2 where
  scopes := h.scopes
  newScope := h.newScope
  newFunction k := by
    have hnext := h.newFunction (1 + k)
    rwa [← Nat.add_assoc, ← Nat.add_assoc] at hnext

theorem print (h : w.Agrees P hidden w') (text : String) : (w.print text).Agrees P hidden (w'.print text) :=
  ⟨h.scopes, h.newScope, h.newFunction⟩

theorem simulation (P : Pairing) (hidden : String → Prop) :
    Simulation P hidden fun w w' => w.Agrees P hidden w' ∧ w.output = w'.output where
  get? h _ _ hid _ hname := h.1.get? hid hname
  set h _ _ hid name _ _ hv := ⟨h.1.set hid name hv, h.2⟩
  newScope h := h.1.newScope 0
  addScope h _ _ houter parameters _ _ hvs := ⟨h.1.addScope houter parameters hvs, h.2⟩
  newFunction h := h.1.newFunction 0
  addFunction h := ⟨h.1.addFunction, h.2⟩
  print h text := ⟨h.1.print text, congrArg (· ++ text) h.2⟩

end World.Agrees

/-- Evaluation does not see what hidden names stand for. -/
theorem eval_agrees (P : Pairing) (hidden : String → Prop) (table : BuiltinTable) (depth : Nat) :
    Evaluator.Simulates P hidden (fun w w' => w.Agrees P hidden w' ∧ w.output = w'.output) False (eval table depth)
      (eval table depth) :=
  simulates_eval_self (World.Agrees.simulation P hidden) table depth

end MonkeyLanguage
