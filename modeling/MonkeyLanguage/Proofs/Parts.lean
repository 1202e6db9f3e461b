import MonkeyLanguage.Value.Basic

/-!
# Parts of trees and values

Trees consist of trees, and values of values.  `Node.Every` and `Value.Every` say that a property holds at any
depth.
-/

namespace MonkeyLanguage

/-! ## Trees -/

namespace Node

/-- The trees that a tree consists of. -/
def parts : Node → List Node
  | absent | identifier _ | integer _ | boolean _ | string _ => []
  | unary _ e | letStatement _ e | returnStatement e | expressionStatement e | function _ e => [e]
  | binary a _ b | index a b => [a, b]
  | ifElse condition consequence alternative => [condition, consequence, alternative]
  | call callee arguments => callee :: arguments
  | array nodes | block nodes | program nodes => nodes
  | hash pairs => pairs.flatMap fun pair => [pair.1, pair.2]

/-- The property holds of the tree and of all trees in it. -/
inductive Every (p : Node → Prop) : Node → Prop where
  | intro {node : Node} (self : p node) (parts : ∀ part ∈ node.parts, Every p part) : Every p node

variable {p : Node → Prop} {node part : Node}

mutual

/-- A property that passes from the parts of each tree to the tree holds of all trees. -/
theorem induction_on_parts (h : ∀ node : Node, (∀ part ∈ node.parts, p part) → p node) : (node : Node) → p node
  | absent | identifier _ | integer _ | boolean _ | string _ => h _ (by simp [parts])
  | unary _ e | letStatement _ e | returnStatement e | expressionStatement e | function _ e =>
    h _ (by simp [parts, induction_on_parts h e])
  | binary a _ b | index a b => h _ (by simp [parts, induction_on_parts h a, induction_on_parts h b])
  | ifElse c a b =>
    h _ (by simp [parts, induction_on_parts h c, induction_on_parts h a, induction_on_parts h b])
  | call f nodes => h _ (List.forall_mem_cons.2 ⟨induction_on_parts h f, induction_on_list h nodes⟩)
  | array nodes | block nodes | program nodes => h _ (induction_on_list h nodes)
  | hash pairs => h _ (induction_on_pairs h pairs)

theorem induction_on_list (h : ∀ node : Node, (∀ part ∈ node.parts, p part) → p node) :
    (nodes : List Node) → ∀ node ∈ nodes, p node
  | [] => List.forall_mem_nil _
  | node :: nodes => List.forall_mem_cons.2 ⟨induction_on_parts h node, induction_on_list h nodes⟩

theorem induction_on_pairs (h : ∀ node : Node, (∀ part ∈ node.parts, p part) → p node) :
    (pairs : List (Node × Node)) → ∀ part ∈ (hash pairs).parts, p part
  | [] => List.forall_mem_nil _
  | (key, value) :: pairs =>
    List.forall_mem_cons.2 ⟨induction_on_parts h key,
      List.forall_mem_cons.2 ⟨induction_on_parts h value, induction_on_pairs h pairs⟩⟩

end

theorem Every.self (h : node.Every p) : p node := by
  cases h with
  | intro self _ => exact self

theorem Every.of_mem_parts (h : node.Every p) (hpart : part ∈ node.parts) : part.Every p := by
  cases h with
  | intro _ parts => exact parts part hpart

end Node

/-! ## Values -/

namespace Value

/-- The values that a value consists of. -/
def parts : Value → List Value
  | array vs => vs
  | hash pairs => pairs.flatMap fun pair => [pair.1.toValue, pair.2]
  | returned v => [v]
  | _ => []

theorem toValue_of_hashKey? {v : Value} {key : HashKey} (h : v.hashKey? = some key) : key.toValue = v := by
  cases v <;> cases h <;> rfl

theorem hashKey?_toValue (key : HashKey) : key.toValue.hashKey? = some key := by
  cases key <;> rfl

theorem key_mem_parts {pairs : List (HashKey × Value)} {pair : HashKey × Value} (h : pair ∈ pairs) :
    pair.1.toValue ∈ (hash pairs).parts :=
  List.mem_flatMap.2 ⟨pair, h, List.mem_cons_self ..⟩

theorem value_mem_parts {pairs : List (HashKey × Value)} {pair : HashKey × Value} (h : pair ∈ pairs) :
    pair.2 ∈ (hash pairs).parts :=
  List.mem_flatMap.2 ⟨pair, h, List.mem_cons_of_mem _ (List.mem_singleton_self _)⟩

/-- The property holds of the value and of all values in it. -/
inductive Every (p : Value → Prop) : Value → Prop where
  | intro {v : Value} (self : p v) (parts : ∀ part ∈ v.parts, Every p part) : Every p v

variable {p q : Value → Prop} {v part : Value}

theorem Every.self (h : v.Every p) : p v := by
  cases h with
  | intro self _ => exact self

theorem Every.of_mem_parts (h : v.Every p) (hpart : part ∈ v.parts) : part.Every p := by
  cases h with
  | intro _ parts => exact parts part hpart

theorem Every.of_atom (h : p v) (hparts : v.parts = []) : v.Every p :=
  ⟨h, fun part hpart => by rw [hparts] at hpart; cases hpart⟩

theorem Every.mono (h : v.Every p) (himp : ∀ v, p v → q v) : v.Every q := by
  induction h with
  | intro self _ ih => exact ⟨himp _ self, ih⟩

theorem Every.and (h : v.Every p) (h' : v.Every q) : v.Every fun v => p v ∧ q v := by
  induction h with
  | intro self _ ih => exact ⟨⟨self, h'.self⟩, fun part hpart => ih part hpart (h'.of_mem_parts hpart)⟩

end Value

end MonkeyLanguage
