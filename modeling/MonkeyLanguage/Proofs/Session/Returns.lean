import MonkeyLanguage.Proofs.Session.Sequence

/-!
# Where the value of a `return` goes

The value of a `return` is wrapped up until it leaves the function or program around it.  Blocks, functions and
programs look for the wrapper; whatever else uses a value takes it as it is.  So no wrapper is bound or is a
result where no part whose value is used ends with a `return` (`returned_nowhere`).  An `if` that ends with a
`return` can be such a part, and then the wrapper gets out (`return_of_return_escapes`).
-/

namespace MonkeyLanguage

/-! ## Trees -/

namespace Node

/-- No part whose value is used ends with a `return`. -/
def keepsReturns (node : Node) : Bool :=
  node.operands.all fun part => !part.mayReturn

/-- In the tree and all trees in it, no part whose value is used ends with a `return`. -/
abbrev PlacesReturns (node : Node) : Prop :=
  node.Every fun node => node.keepsReturns = true

end Node

/-! ## Values -/

/-- What holds of each value where every `return` is in its place. -/
def Value.HoldsNoReturn : Value → Prop
  | .returned _ => False
  | .function _ _ body _ => body.PlacesReturns
  | _ => True

theorem Value.HoldsNoReturn.type_ne {v : Value} (h : v.HoldsNoReturn) : v.type ≠ .returned := by
  cases v with
  | returned v => exact h.elim
  | _ => exact ValueType.noConfusion

/-- Trees with every `return` in its place, and values without the value of a `return`. -/
def Invariant.noReturn : Invariant where
  tree := Node.PlacesReturns
  value := Value.HoldsNoReturn
  use _ _ := True
  part h hpart := h.of_mem_parts hpart
  returned h hpart hreturn _ := by
    have hkeeps := List.all_eq_true.1 h.self _ hpart
    rw [hreturn] at hkeeps
    cases hkeeps
  null := trivial
  boolean _ := trivial
  builtin _ := trivial
  array _ := trivial
  hash _ := trivial
  closure h _ _ := h.of_mem_parts (List.mem_singleton_self _)
  body h := h
  integer _ := trivial
  string _ := trivial
  wrap _ := trivial
  length _ _ := trivial
  append _ _ := trivial

/-- If every `return` in the programs of a session stands in its place, no binding and no result is the value of
a `return` or contains one. -/
theorem returned_nowhere {table : BuiltinTable} {limit : Nat} {texts : List (FrontEnd × String)}
    (hplaced : ∀ text ∈ texts, ∀ statements, text.1.parse text.2 = (statements, []) →
      (Node.program statements).PlacesReturns) :
    (∀ scope ∈ ((Session.empty limit).after table texts).world.scopes, ∀ binding ∈ scope.bindings,
      binding.2.Every fun v => v.type ≠ .returned) ∧
    ∀ v, .finished v ∈ (Session.empty limit).outcomes table texts → v.Every fun v => v.type ≠ .returned := by
  have hlog : ∀ entry ∈ (Session.empty limit).logs table texts, Invariant.noReturn.Admits entry.event := by
    intro entry _
    unfold Invariant.Admits
    split <;> trivial
  have hmono {v : Value} (h : Invariant.noReturn.Held v) : v.Every fun v => v.type ≠ .returned :=
    h.mono fun _ => Value.HoldsNoReturn.type_ne
  obtain ⟨hworld, hvalues⟩ := Invariant.noReturn.of_texts hplaced Invariant.noReturn.holds_empty hlog
  refine ⟨fun scope hscope binding hbinding => ?_, fun v hv => ?_⟩
  · obtain ⟨id, hid⟩ := Array.mem_iff_getElem?.1 hscope
    exact hmono (hworld id scope hid binding hbinding)
  · cases hvalues v hv with
    | held h => exact hmono h
    | failure e => exact .of_atom ValueType.noConfusion rfl
    | returned hreturn _ => cases hreturn

theorem returned_nowhere_after_call :
    (∀ scope ∈ ((Session.empty 1000).after .default [(.descent, "fn(x) \x7b return [x]; \x7d(true)")]).world.scopes,
      ∀ binding ∈ scope.bindings, binding.2.Every fun v => v.type ≠ .returned) ∧
    ∀ v, .finished v ∈ (Session.empty 1000).outcomes .default [(.descent, "fn(x) \x7b return [x]; \x7d(true)")] →
      v.Every fun v => v.type ≠ .returned := by
  let function : Node := .function ["x"] (.block [.returnStatement (.array [.identifier "x"])])
  have hparse : FrontEnd.descent.parse "fn(x) \x7b return [x]; \x7d(true)" =
      ([.expressionStatement (.call function [.boolean true])], []) := by
    decide +kernel
  have hfunction : function.PlacesReturns := by
    refine ⟨rfl, List.forall_mem_singleton.2 ⟨rfl, List.forall_mem_singleton.2 ⟨rfl, ?_⟩⟩⟩
    exact List.forall_mem_singleton.2 ⟨rfl, List.forall_mem_singleton.2 ⟨rfl, nofun⟩⟩
  refine returned_nowhere (List.forall_mem_singleton.2 fun statements h => ?_)
  obtain rfl := congrArg Prod.fst (hparse.symm.trans h)
  refine ⟨rfl, List.forall_mem_singleton.2 ⟨rfl, List.forall_mem_singleton.2 ⟨rfl, ?_⟩⟩⟩
  exact List.forall_mem_cons.2 ⟨hfunction, List.forall_mem_singleton.2 ⟨rfl, nofun⟩⟩

/-- The program takes one wrapper off, and the value below is that of another `return`. -/
theorem return_of_return_escapes :
    ((Session.empty 1000).run .descent .default "return if (true) \x7b return 5; \x7d;").outcome =
      .finished (.returned (.integer 5)) := by
  have hparse : FrontEnd.descent.parse "return if (true) \x7b return 5; \x7d;" =
      ([.returnStatement (.ifElse (.boolean true) (.block [.returnStatement (.integer 5)]) .absent)], []) := by
    decide +kernel
  rw [Session.run_of_parse hparse]
  rfl

end MonkeyLanguage
