import MonkeyLanguage.Proofs.Eval.Frame
import MonkeyLanguage.Proofs.Value.Pairing
import MonkeyLanguage.Proofs.Parser.Language
import MonkeyLanguage.Proofs.Parts

/-!
# Identifiers of a program

The identifiers in the tree of a program are the values of the identifier tokens of its text, in their order
(`identifiers_of_parse`).  So a name that is no identifier of the text is neither looked up nor bound in the tree.
-/

namespace MonkeyLanguage

namespace Node

mutual

/-- The identifiers in a tree, in the order of the text: names that are looked up or bound, and parameters. -/
def identifiers : Node → List String
  | identifier name => [name]
  | letStatement name value => name :: identifiers value
  | function parameters body => parameters ++ identifiers body
  | unary _ e | returnStatement e | expressionStatement e => identifiers e
  | binary a _ b | index a b => identifiers a ++ identifiers b
  | ifElse condition consequence alternative =>
    identifiers condition ++ identifiers consequence ++ identifiers alternative
  | call callee arguments => identifiers callee ++ identifiersOf arguments
  | array nodes | block nodes | program nodes => identifiersOf nodes
  | hash pairs => identifiersOfPairs pairs
  | absent | integer _ | boolean _ | string _ => []

def identifiersOf : List Node → List String
  | [] => []
  | node :: nodes => identifiers node ++ identifiersOf nodes

def identifiersOfPairs : List (Node × Node) → List String
  | [] => []
  | (key, value) :: pairs => identifiers key ++ identifiers value ++ identifiersOfPairs pairs

end

mutual

theorem letNames_sublist : (node : Node) → node.letNames.Sublist node.identifiers
  | absent | identifier _ | integer _ | boolean _ | string _ | function .. => List.nil_sublist _
  | unary _ e | returnStatement e | expressionStatement e => letNames_sublist e
  | letStatement name e => (letNames_sublist e).cons_cons name
  | binary a _ b | index a b => (letNames_sublist a).append (letNames_sublist b)
  | ifElse c a b => ((letNames_sublist c).append (letNames_sublist a)).append (letNames_sublist b)
  | call f nodes => (letNames_sublist f).append (letNamesOf_sublist nodes)
  | array nodes | block nodes | program nodes => letNamesOf_sublist nodes
  | hash pairs => letNamesOfPairs_sublist pairs

theorem letNamesOf_sublist : (nodes : List Node) → (letNamesOf nodes).Sublist (identifiersOf nodes)
  | [] => .slnil
  | node :: nodes => (letNames_sublist node).append (letNamesOf_sublist nodes)

theorem letNamesOfPairs_sublist :
    (pairs : List (Node × Node)) → (letNamesOfPairs pairs).Sublist (identifiersOfPairs pairs)
  | [] => .slnil
  | (key, value) :: pairs =>
    ((letNames_sublist key).append (letNames_sublist value)).append (letNamesOfPairs_sublist pairs)

end

theorem identifiersOf_eq_flatMap (nodes : List Node) : identifiersOf nodes = nodes.flatMap identifiers := by
  induction nodes with
  | nil => rfl
  | cons node nodes ih => rw [identifiersOf, ih, List.flatMap_cons]

theorem identifiersOfPairs_eq_flatMap (pairs : List (Node × Node)) :
    identifiersOfPairs pairs = pairs.flatMap fun pair => identifiers pair.1 ++ identifiers pair.2 := by
  induction pairs with
  | nil => rfl
  | cons pair pairs ih => rw [identifiersOfPairs, ih, List.flatMap_cons]

theorem identifiers_subset_of_mem_parts {node part : Node} (h : part ∈ node.parts) :
    part.identifiers ⊆ node.identifiers := by
  intro name hname
  cases node <;>
    simp only [parts, identifiers, identifiersOf_eq_flatMap, identifiersOfPairs_eq_flatMap, List.mem_cons,
      List.mem_append, List.mem_flatMap, List.not_mem_nil, or_false] at h ⊢ <;>
    grind

end Node

variable {hidden : String → Prop} {frontEnd : FrontEnd} {source : String} {nodes : List Node} {ts us : List Token}

/-- A tree looks no name up that is no identifier in it. -/
theorem Node.avoids_of_identifiers {node : Node} (h : ∀ name ∈ node.identifiers, ¬hidden name) :
    node.Avoids hidden := by
  revert h
  refine induction_on_parts (p := fun node => (∀ name ∈ node.identifiers, ¬hidden name) → node.Avoids hidden)
    (fun node ih h => ⟨?_, fun part hpart => ?_⟩) node
  · rintro name rfl
    exact h name (List.mem_singleton_self name)
  · exact ih part hpart fun name hname => h name (identifiers_subset_of_mem_parts hpart hname)

/-! ## Identifiers of a text -/

/-- The values of the identifier tokens. -/
def identifierValues (ts : List Token) : List String :=
  (ts.filter (·.kind = .identifier)).map Token.value

def Category.identifiers : Category → List String
  | .expression _ node | .statement _ node => node.identifiers
  | .items nodes | .list nodes | .block nodes | .statements nodes => Node.identifiersOf nodes
  | .names xs | .parameters xs => xs
  | .entries pairs => Node.identifiersOfPairs pairs

theorem identifiers_of_derives {category : Category} (h : Derives category ts us) :
    identifierValues ts = category.identifiers ++ identifierValues us := by
  induction h with
  | @binary _ _ _ t _ us _ hlow _ _ _ _ ihleft ihright =>
    have ht : t.kind ≠ .identifier := by
      intro heq
      rw [heq] at hlow
      exact absurd hlow (by decide)
    have hoperator : identifierValues (t :: us) = identifierValues us := by simp [identifierValues, ht]
    rw [ihleft, hoperator, ihright]
    simp only [Category.identifiers, Node.identifiers, List.append_assoc]
  | @unary _ t ts _ ht _ ih =>
    have ht : t.kind ≠ .identifier := by rcases ht with ht | ht <;> simp [ht]
    have hoperator : identifierValues (t :: ts) = identifierValues ts := by simp [identifierValues, ht]
    rw [hoperator, ih]
    rfl
  | _ =>
    simp_all [Category.identifiers, Node.identifiers, Node.identifiersOf, Node.identifiersOfPairs, identifierValues]

theorem identifiers_of_parse (h : frontEnd.parse source = (nodes, [])) :
    (Node.program nodes).identifiers = identifierValues (tokensOf source) := by
  rw [identifiers_of_derives (parse_eq_iff_derives.1 h)]
  exact (List.append_nil _).symm

end MonkeyLanguage
