import MonkeyLanguage.Value.Basic

/-!
# Scopes and output

Names are bound in scopes.  A scope encloses others, and a function keeps the number of the scope of
its definition, so scopes live in a `World` that only grows.  A scope is younger than the scope that
encloses it and has a greater number.
-/

namespace MonkeyLanguage

/-- The bindings of one scope, and the scope around it. -/
structure Scope where
  outer : Option ScopeId
  bindings : OrderedMap String Value
deriving Repr, Inhabited

/-- All that evaluation can change. -/
structure World where
  scopes : Array Scope
  /-- The number of functions that programs have made. -/
  functions : Nat
  /-- The text printed. -/
  output : String
deriving Repr

namespace World

def empty : World :=
  ⟨#[], 0, ""⟩

/-- The scope of the given number and those around it, from inside to outside. -/
def chain (w : World) (id : ScopeId) : List Scope :=
  match w.scopes[id]? with
  | none => []
  | some scope =>
    match scope.outer with
    | none => [scope]
    | some outer => if outer < id then scope :: w.chain outer else [scope]
termination_by id

/-- The value that a name has in a scope: that of the innermost binding. -/
def get? (w : World) (id : ScopeId) (name : String) : Option Value :=
  (w.chain id).findSome? fun scope => scope.bindings.get? name

def contains (w : World) (id : ScopeId) (name : String) : Bool :=
  (w.get? id name).isSome

/-- The names bound in a scope and around it, each once, those of inner scopes first. -/
def names (w : World) (id : ScopeId) : List String :=
  ((w.chain id).flatMap fun scope => scope.bindings.keys).eraseDups

/-- Binds a name in a scope.  Bindings in the scopes around it stay as they are. -/
def set (w : World) (id : ScopeId) (name : String) (value : Value) : World :=
  { w with
    scopes := w.scopes.modify id fun scope =>
      { scope with bindings := scope.bindings.insert name value } }

/-- Makes a scope with some bindings, and gives its number. -/
def addScope (w : World) (outer : Option ScopeId) (bindings : OrderedMap String Value) :
    ScopeId × World :=
  (w.scopes.size, { w with scopes := w.scopes.push ⟨outer, bindings⟩ })

/-- Counts a function more, and gives its identity. -/
def addFunction (w : World) : Nat × World :=
  (w.functions, { w with functions := w.functions + 1 })

def print (w : World) (text : String) : World :=
  { w with output := w.output ++ text }

end World

end MonkeyLanguage
