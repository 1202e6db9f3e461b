/-!
# Syntax trees

A program is a tree of nodes.  The parsers build a part of these trees only: statements stand in
programs and blocks, and expressions elsewhere.  Evaluation and rendering are defined for every
tree, so there is one type of nodes, and `absent` fills a place that holds no node.
-/

namespace MonkeyLanguage

inductive Node where
  /-- No node: the alternative of an `if` without `else`. -/
  | absent
  | identifier (name : String)
  | integer (value : Int)
  | boolean (value : Bool)
  | string (value : String)
  /-- An operator before its operand. -/
  | unary (operator : String) (right : Node)
  /-- An operator between its operands. -/
  | binary (left : Node) (operator : String) (right : Node)
  | ifElse (condition consequence alternative : Node)
  | function (parameters : List String) (body : Node)
  | call (function : Node) (arguments : List Node)
  | array (elements : List Node)
  | hash (pairs : List (Node × Node))
  | index (left index : Node)
  | letStatement (name : String) (value : Node)
  | returnStatement (value : Node)
  | expressionStatement (expression : Node)
  | block (statements : List Node)
  | program (statements : List Node)
deriving Repr, Inhabited

namespace Node

/-! ## Equality -/

mutual

/-- Structural equality. -/
def same : Node → Node → Bool
  | absent, absent => true
  | identifier a, identifier b => a == b
  | integer a, integer b => a == b
  | boolean a, boolean b => a == b
  | string a, string b => a == b
  | unary op a, unary op' a' => op == op' && same a a'
  | binary a op b, binary a' op' b' => same a a' && op == op' && same b b'
  | ifElse c a b, ifElse c' a' b' => same c c' && same a a' && same b b'
  | function ps b, function ps' b' => ps == ps' && same b b'
  | call f as, call f' as' => same f f' && sameList as as'
  | array as, array as' => sameList as as'
  | hash ps, hash ps' => samePairs ps ps'
  | index a b, index a' b' => same a a' && same b b'
  | letStatement x a, letStatement x' a' => x == x' && same a a'
  | returnStatement a, returnStatement a' => same a a'
  | expressionStatement a, expressionStatement a' => same a a'
  | block ss, block ss' => sameList ss ss'
  | program ss, program ss' => sameList ss ss'
  | _, _ => false

def sameList : List Node → List Node → Bool
  | [], [] => true
  | a :: as, b :: bs => same a b && sameList as bs
  | _, _ => false

def samePairs : List (Node × Node) → List (Node × Node) → Bool
  | [], [] => true
  | (k, v) :: ps, (k', v') :: ps' => same k k' && same v v' && samePairs ps ps'
  | _, _ => false

end

instance : BEq Node where
  beq := same

mutual

theorem same_iff : ∀ a b : Node, same a b = true ↔ a = b
  | absent, b | identifier _, b | integer _, b | boolean _, b | string _, b => by cases b <;> simp [same]
  | unary _ a, b => by cases b <;> simp [same, same_iff a]
  | binary a₁ _ a₂, b => by cases b <;> simp [same, same_iff a₁, same_iff a₂, and_assoc]
  | ifElse a₁ a₂ a₃, b => by cases b <;> simp [same, same_iff a₁, same_iff a₂, same_iff a₃, and_assoc]
  | function _ a, b => by cases b <;> simp [same, same_iff a]
  | call a as, b => by cases b <;> simp [same, same_iff a, sameList_iff as]
  | array as, b | block as, b | program as, b => by cases b <;> simp [same, sameList_iff as]
  | hash ps, b => by cases b <;> simp [same, samePairs_iff ps]
  | index a₁ a₂, b => by cases b <;> simp [same, same_iff a₁, same_iff a₂]
  | letStatement _ a, b | returnStatement a, b | expressionStatement a, b => by
    cases b <;> simp [same, same_iff a]

theorem sameList_iff : ∀ as bs : List Node, sameList as bs = true ↔ as = bs
  | [], bs => by cases bs <;> simp [sameList]
  | a :: as, bs => by cases bs <;> simp [sameList, same_iff a, sameList_iff as]

theorem samePairs_iff : ∀ ps qs : List (Node × Node), samePairs ps qs = true ↔ ps = qs
  | [], qs => by cases qs <;> simp [samePairs]
  | (k, v) :: ps, qs => by
    rcases qs with _ | ⟨⟨k', v'⟩, qs⟩ <;> simp [samePairs, same_iff k, same_iff v, samePairs_iff ps]

end

/-- Structural equality is equality. -/
instance : LawfulBEq Node where
  rfl := (same_iff _ _).2 rfl
  eq_of_beq := (same_iff _ _).1

instance : DecidableEq Node :=
  instDecidableEqOfLawfulBEq

end Node

end MonkeyLanguage
