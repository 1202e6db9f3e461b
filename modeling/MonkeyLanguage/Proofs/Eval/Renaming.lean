import MonkeyLanguage.Proofs.Eval.Simulation
import MonkeyLanguage.Proofs.Value.Renaming

/-!
# Evaluation with other numbers

Two worlds are alike up to a renaming if each scope of the first has its copy in the second and if new scopes and
functions get numbers that the renaming takes to each other (`World.Copied`).  This is a simulation, so statements and
calls do the same in both (`World.Copied.statements`, `World.Copied.call`): they give values that the renaming takes to
each other, print the same text, and leave worlds that are alike, whether they end with a value or are aborted.  The
second world may hold more scopes, of which nothing in the first has a copy.
-/

namespace MonkeyLanguage

/-! ## Simulations by a renaming -/

/-- What names stand for differs in the two worlds by the renaming, and stays so when both change in the same way. -/
structure Renaming.Simulates (ρ : Renaming) (R : World → World → Prop) : Prop where
  get?_eq {w w' : World} (h : R w w') (id : ScopeId) (name : String) :
    w'.get? (ρ.scope id) name = (w.get? id name).map (Value.rename ρ)
  set {w w' : World} (h : R w w') (id : ScopeId) (name : String) (v : Value) :
    R (w.set id name v) (w'.set (ρ.scope id) name (v.rename ρ))
  newScope {w w' : World} (h : R w w') : ρ.scope w.scopes.size = w'.scopes.size
  addScope {w w' : World} (h : R w w') (outer : ScopeId) (bindings : OrderedMap String Value) :
    R (w.addScope (some outer) bindings).2
      (w'.addScope (some (ρ.scope outer)) (OrderedMap.mapValues (Value.rename ρ) bindings)).2
  newFunction {w w' : World} (h : R w w') : ρ.identity w.functions = w'.functions
  addFunction {w w' : World} (h : R w w') : R w.addFunction.2 w'.addFunction.2
  print {w w' : World} (h : R w w') (text : String) : R (w.print text) (w'.print text)

theorem Renaming.Simulates.simulation {ρ : Renaming} {R : World → World → Prop} (hR : ρ.Simulates R) :
    Simulation ρ.pairing (fun _ => False) R where
  get? {w w'} h id id' hid name _ := by
    obtain rfl : ρ.scope id = id' := hid
    rw [hR.get?_eq h]
    cases w.get? id name with
    | none => exact .none
    | some v => exact .some v.renamed_rename
  set {w w'} h id id' hid name v v' hv := by
    obtain rfl : ρ.scope id = id' := hid
    obtain rfl := Value.renamed_iff.1 hv
    exact hR.set h id name v
  newScope := hR.newScope
  addScope {w w'} h outer outer' houter parameters vs vs' hvs := by
    obtain rfl : ρ.scope outer = outer' := houter
    obtain rfl := Value.forall₂_renamed_iff.1 hvs
    have hadd := hR.addScope h outer (.ofList (parameters.zip vs))
    rw [OrderedMap.mapValues_ofList] at hadd
    rw [List.zip_map_right]
    exact hadd
  newFunction := hR.newFunction
  addFunction := hR.addFunction
  print := hR.print

/-! ## Worlds that are alike -/

def Scope.rename (ρ : Renaming) (s : Scope) : Scope :=
  ⟨s.outer.map ρ.scope, OrderedMap.mapValues (Value.rename ρ) s.bindings⟩

theorem Scope.rename_rename (ρ σ : Renaming) (s : Scope) : (s.rename ρ).rename σ = s.rename (ρ.trans σ) := by
  simp only [Scope.rename, OrderedMap.mapValues, Option.map_map, List.map_map, Function.comp_def,
    Value.rename_rename]
  rfl

theorem Scope.rename_eq_self {ρ : Renaming} {s : Scope} (houter : ∀ id ∈ s.outer, ρ.scope id = id)
    (hbindings : ∀ binding ∈ s.bindings, binding.2.rename ρ = binding.2) : s.rename ρ = s := by
  obtain ⟨outer, bindings⟩ := s
  rw [Scope.rename, OrderedMap.mapValues_eq_self hbindings]
  cases outer with
  | none => rfl
  | some outer => rw [Option.map_some, houter outer rfl]

/-- The second world holds a copy of the first under other numbers.  Both have printed the same text after the
texts given. -/
structure World.Copied (ρ : Renaming) (before before' : String) (w w' : World) : Prop where
  scopes : ∀ id, w'.scopes[ρ.scope id]? = w.scopes[id]?.map (Scope.rename ρ)
  newScope : ∀ k, ρ.scope (w.scopes.size + k) = w'.scopes.size + k
  newFunction : ∀ k, ρ.identity (w.functions + k) = w'.functions + k
  output : ∃ text, w.output = before ++ text ∧ w'.output = before' ++ text

variable {ρ : Renaming} {before before' : String} {w w' : World}

namespace World.Copied

theorem chain_eq (h : Copied ρ before before' w w') (id : ScopeId) :
    w'.chain (ρ.scope id) = (w.chain id).map (Scope.rename ρ) := by
  fun_induction chain w id with
  | case1 id hnone =>
    rw [chain, h.scopes, hnone]
    rfl
  | case2 id scope hscope houter =>
    have hcopy : (scope.rename ρ).outer = none := by rw [Scope.rename, houter, Option.map_none]
    rw [chain, h.scopes, hscope, Option.map_some]
    simp only [hcopy, List.map_cons, List.map_nil]
  | case3 id scope hscope outer houter hlt ih =>
    have hcopy : (scope.rename ρ).outer = some (ρ.scope outer) := by rw [Scope.rename, houter, Option.map_some]
    rw [chain, h.scopes, hscope, Option.map_some]
    simp only [hcopy, if_pos (ρ.scope_lt_scope.2 hlt), ih, List.map_cons]
  | case4 id scope hscope outer houter hle =>
    have hcopy : (scope.rename ρ).outer = some (ρ.scope outer) := by rw [Scope.rename, houter, Option.map_some]
    rw [chain, h.scopes, hscope, Option.map_some]
    simp only [hcopy, if_neg fun hlt => hle (ρ.scope_lt_scope.1 hlt), List.map_cons, List.map_nil]

theorem get?_eq (h : Copied ρ before before' w w') (id : ScopeId) (name : String) :
    w'.get? (ρ.scope id) name = (w.get? id name).map (Value.rename ρ) := by
  rw [get?, get?, h.chain_eq, List.findSome?_map, List.map_findSome?]
  simp only [Function.comp_def, Scope.rename, OrderedMap.get?_mapValues]

theorem names_eq (h : Copied ρ before before' w w') (id : ScopeId) : w'.names (ρ.scope id) = w.names id := by
  rw [names, names, h.chain_eq, List.flatMap_map]
  simp only [Scope.rename, OrderedMap.keys, OrderedMap.mapValues, List.map_map, Function.comp_def]

theorem set (h : Copied ρ before before' w w') (id : ScopeId) (name : String) (v : Value) :
    Copied ρ before before' (w.set id name v) (w'.set (ρ.scope id) name (v.rename ρ)) where
  scopes i := by
    simp only [World.set, Array.getElem?_modify, ρ.scope_inj, h.scopes]
    split
    · simp only [Option.map_map, Function.comp_def, Scope.rename, OrderedMap.mapValues_insert]
    · rfl
  newScope k := by
    simp only [World.set, Array.size_modify]
    exact h.newScope k
  newFunction := h.newFunction
  output := h.output

theorem addScope (h : Copied ρ before before' w w') (s : Scope) :
    Copied ρ before before' { w with scopes := w.scopes.push s }
      { w' with scopes := w'.scopes.push (s.rename ρ) } where
  scopes i := by
    have hnew : ρ.scope i = w'.scopes.size ↔ i = w.scopes.size := by
      rw [← Nat.add_zero w'.scopes.size, ← h.newScope, ρ.scope_inj, Nat.add_zero]
    simp only [Array.getElem?_push, hnew, h.scopes]
    split <;> rfl
  newScope k := by
    simp only [Array.size_push]
    rw [Nat.add_assoc, Nat.add_assoc]
    exact h.newScope (1 + k)
  newFunction := h.newFunction
  output := h.output

theorem addFunction (h : Copied ρ before before' w w') :
    Copied ρ before before' { w with functions := w.functions + 1 } { w' with functions := w'.functions + 1 } where
  scopes := h.scopes
  newScope := h.newScope
  newFunction k := by
    rw [Nat.add_assoc, Nat.add_assoc]
    exact h.newFunction (1 + k)
  output := h.output

theorem print (h : Copied ρ before before' w w') (text : String) :
    Copied ρ before before' (w.print text) (w'.print text) where
  scopes := h.scopes
  newScope := h.newScope
  newFunction := h.newFunction
  output := by
    obtain ⟨printed, hw, hw'⟩ := h.output
    refine ⟨printed ++ text, ?_, ?_⟩
    · rw [World.print, hw, String.append_assoc]
    · rw [World.print, hw', String.append_assoc]

/-- Copies of a world and a later one differ by as many scopes and functions as the worlds themselves. -/
theorem numbers_eq {u u' : World} (h : Copied ρ before before' w u) (h' : Copied ρ before before' w' u')
    (hscopes : u.scopes.size ≤ u'.scopes.size) (hfunctions : u.functions ≤ u'.functions) :
    u'.scopes.size + w.scopes.size = w'.scopes.size + u.scopes.size ∧
      u'.functions + w.functions = w'.functions + u.functions := by
  have hsize : w'.scopes.size = w.scopes.size + (u'.scopes.size - u.scopes.size) :=
    ρ.scope_inj.1 ((h'.newScope 0).trans ((Nat.add_sub_cancel' hscopes).symm.trans (h.newScope _).symm))
  have hcount : w'.functions = w.functions + (u'.functions - u.functions) :=
    ρ.identity_inj.1 ((h'.newFunction 0).trans ((Nat.add_sub_cancel' hfunctions).symm.trans (h.newFunction _).symm))
  omega

theorem simulates (ρ : Renaming) (before before' : String) : ρ.Simulates (Copied ρ before before') where
  get?_eq h := h.get?_eq
  set h := h.set
  newScope h := h.newScope 0
  addScope h outer bindings := h.addScope ⟨some outer, bindings⟩
  newFunction h := h.newFunction 0
  addFunction h := h.addFunction
  print h := h.print

/-! ## Computations in copies -/

theorem simulates_eval (ρ : Renaming) (before before' : String) (table : BuiltinTable) (depth : Nat) :
    Evaluator.Simulates ρ.pairing (fun _ => False) (Copied ρ before before') False (eval table depth)
      (eval table depth) :=
  simulates_eval_self (simulates ρ before before').simulation table depth

theorem statements (h : Copied ρ before before' w w') (table : BuiltinTable) (depth : Nat) (scope : ScopeId)
    (last : Value) (nodes : List Node) :
    EchoedEnd (Copied ρ before before') False (Value.Renamed ρ)
      (Evaluator.statements (eval table depth) scope last nodes w)
      (Evaluator.statements (eval table depth) (ρ.scope scope) (last.rename ρ) nodes w') :=
  (simulates_eval ρ before before' table depth).statements rfl (fun node _ => node.avoids_nothing)
    last.renamed_rename h

theorem call (h : Copied ρ before before' w w') (table : BuiltinTable) (depth : Nat) (function : Value)
    (arguments : List Value) :
    EchoedEnd (Copied ρ before before') False (Value.Renamed ρ)
      (Evaluator.call (eval table depth) function arguments w)
      (Evaluator.call (eval table depth) (function.rename ρ) (arguments.map (Value.rename ρ)) w') :=
  (simulates_eval ρ before before' table depth).call (simulates ρ before before').simulation
    function.renamed_rename (Value.forall₂_renamed_iff.2 rfl) h

end World.Copied

end MonkeyLanguage
