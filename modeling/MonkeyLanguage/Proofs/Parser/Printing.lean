import Mathlib.Data.Nat.Digits.Defs
import MonkeyLanguage.Node.Basic
import MonkeyLanguage.Parser.Literal
import MonkeyLanguage.Parser.Level
import MonkeyLanguage.Token.Lexeme

/-!
# Printings of programs

A printing of a tree is a list of words.  `Prints` says which words print a tree: parentheses have to
stand around an operand where the operators would group in another way without them, and may stand
around every other expression, any number of times.  `Laid` puts words in a row with blanks between
them.
-/

namespace MonkeyLanguage

/-! ## Words -/

/-- Whether the text is a name and no keyword. -/
def isName (x : String) : Bool :=
  match x.toList with
  | [] => false
  | c :: cs => isNameStart c && cs.all isNameChar && wordKind (c :: cs) = .identifier

/-- The level of an operator between two operands. -/
def infixLevel? : String → Option Level
  | "==" | "!=" => some .equality
  | "<" | ">" => some .comparison
  | "+" | "-" => some .sum
  | "*" | "/" => some .product
  | _ => none

def Node.infixLevel? : Node → Option Level
  | .binary _ operator _ => MonkeyLanguage.infixLevel? operator
  | _ => none

/-- Whether the tree is an operator applied to operands. -/
def Node.isOperation : Node → Bool
  | .unary .. | .binary .. => true
  | _ => false

/-- The parts of programs that words can print. -/
inductive Phrase where
  /-- An expression, in parentheses or not. -/
  | expression (inParens : Bool) (node : Node)
  /-- One or more expressions. -/
  | items (nodes : List Node)
  /-- Any number of expressions. -/
  | list (nodes : List Node)
  /-- The entries of a hash. -/
  | entries (pairs : List (Node × Node))
  | statement (node : Node)
  | statements (nodes : List Node)

open Phrase

/-- Words that print a part of a program. -/
inductive Prints : Phrase → List String → Prop where
  | parens {b : Bool} {e : Node} {ws : List String} (he : Prints (expression b e) ws) :
    Prints (expression true e) ("(" :: ws ++ [")"])
  | identifier {x : String} (hx : isName x = true) : Prints (expression false (.identifier x)) [x]
  | integer {digits : String} (hne : digits.toList ≠ [])
    (hdigits : digits.toList.all Char.isDigit = true) (hmax : decimal digits.toList ≤ maxInteger)
    (hlength : digits.toList.length ≤ Text.maxDigits) :
    Prints (expression false (.integer (decimal digits.toList))) [digits]
  | boolean (b : Bool) : Prints (expression false (.boolean b)) [if b then "true" else "false"]
  | string {s : String} (hs : '"' ∉ s.toList) :
    Prints (expression false (.string s)) ["\"" ++ s ++ "\""]
  | unary {operator : String} {b : Bool} {e : Node} {ws : List String}
    (hoperator : operator = "!" ∨ operator = "-") (he : Prints (expression b e) ws)
    (hparens : e.infixLevel?.isSome = true → b = true) :
    Prints (expression false (.unary operator e)) (operator :: ws)
  | binary {operator : String} {level : Level} {b₁ b₂ : Bool} {left right : Node}
    {ws₁ ws₂ : List String} (hoperator : infixLevel? operator = some level)
    (hleft : Prints (expression b₁ left) ws₁) (hright : Prints (expression b₂ right) ws₂)
    (hparens₁ : ∀ own ∈ left.infixLevel?, own < level → b₁ = true)
    (hparens₂ : ∀ own ∈ right.infixLevel?, own ≤ level → b₂ = true) :
    Prints (expression false (.binary left operator right)) (ws₁ ++ operator :: ws₂)
  | ifThen {b : Bool} {condition : Node} {consequence : List Node} {ws ws₁ : List String}
    (hcondition : Prints (expression b condition) ws) (hconsequence : Prints (statements consequence) ws₁) :
    Prints (expression false (.ifElse condition (.block consequence) .absent))
      (["if", "("] ++ ws ++ [")", "\x7b"] ++ ws₁ ++ ["\x7d"])
  | ifElse {b : Bool} {condition : Node} {consequence alternative : List Node}
    {ws ws₁ ws₂ : List String} (hcondition : Prints (expression b condition) ws)
    (hconsequence : Prints (statements consequence) ws₁)
    (halternative : Prints (statements alternative) ws₂) :
    Prints (expression false (.ifElse condition (.block consequence) (.block alternative)))
      (["if", "("] ++ ws ++ [")", "\x7b"] ++ ws₁ ++ ["\x7d", "else", "\x7b"] ++ ws₂ ++ ["\x7d"])
  | function {parameters : List String} {body : List Node} {ws : List String}
    (hparameters : ∀ x ∈ parameters, isName x = true) (hbody : Prints (statements body) ws) :
    Prints (expression false (.function parameters (.block body)))
      (["fn", "("] ++ parameters.intersperse "," ++ [")", "\x7b"] ++ ws ++ ["\x7d"])
  | call {b : Bool} {callee : Node} {arguments : List Node} {ws ws₁ : List String}
    (hcallee : Prints (expression b callee) ws) (hparens : callee.isOperation = true → b = true)
    (harguments : Prints (list arguments) ws₁) :
    Prints (expression false (.call callee arguments)) (ws ++ ["("] ++ ws₁ ++ [")"])
  | array {elements : List Node} {ws : List String} (helements : Prints (list elements) ws) :
    Prints (expression false (.array elements)) (["["] ++ ws ++ ["]"])
  | hash {pairs : List (Node × Node)} {ws : List String} (hpairs : Prints (entries pairs) ws) :
    Prints (expression false (.hash pairs)) (["\x7b"] ++ ws ++ ["\x7d"])
  | index {b b₁ : Bool} {left position : Node} {ws ws₁ : List String}
    (hleft : Prints (expression b left) ws) (hparens : left.isOperation = true → b = true)
    (hposition : Prints (expression b₁ position) ws₁) :
    Prints (expression false (.index left position)) (ws ++ ["["] ++ ws₁ ++ ["]"])
  | item {b : Bool} {e : Node} {ws : List String} (he : Prints (expression b e) ws) :
    Prints (items [e]) ws
  | moreItems {b : Bool} {e : Node} {nodes : List Node} {ws ws₁ : List String}
    (he : Prints (expression b e) ws) (hnodes : Prints (items nodes) ws₁) :
    Prints (items (e :: nodes)) (ws ++ "," :: ws₁)
  | noItems : Prints (list []) []
  | someItems {nodes : List Node} {ws : List String} (hnodes : Prints (items nodes) ws) :
    Prints (list nodes) ws
  | noEntries : Prints (entries []) []
  | entry {b b₁ : Bool} {key value : Node} {ws ws₁ : List String} (hkey : Prints (expression b key) ws)
    (hvalue : Prints (expression b₁ value) ws₁) : Prints (entries [(key, value)]) (ws ++ ":" :: ws₁)
  | moreEntries {b b₁ : Bool} {key value : Node} {pair : Node × Node} {pairs : List (Node × Node)}
    {ws ws₁ ws₂ : List String} (hkey : Prints (expression b key) ws)
    (hvalue : Prints (expression b₁ value) ws₁) (hpairs : Prints (entries (pair :: pairs)) ws₂) :
    Prints (entries ((key, value) :: pair :: pairs)) (ws ++ ":" :: ws₁ ++ "," :: ws₂)
  | letStatement {name : String} {b : Bool} {value : Node} {ws : List String} (hname : isName name = true)
    (hvalue : Prints (expression b value) ws) :
    Prints (statement (.letStatement name value)) (["let", name, "="] ++ ws ++ [";"])
  | returnStatement {b : Bool} {value : Node} {ws : List String} (hvalue : Prints (expression b value) ws) :
    Prints (statement (.returnStatement value)) ("return" :: ws ++ [";"])
  | expressionStatement {b : Bool} {e : Node} {ws : List String} (he : Prints (expression b e) ws) :
    Prints (statement (.expressionStatement e)) (ws ++ [";"])
  | noStatements : Prints (statements []) []
  | moreStatements {node : Node} {nodes : List Node} {ws ws₁ : List String}
    (hnode : Prints (statement node) ws) (hnodes : Prints (statements nodes) ws₁) :
    Prints (statements (node :: nodes)) (ws ++ ws₁)

/-! ## What can be printed -/

namespace Node

mutual

/-- Whether the tree is an expression with names, numbers, texts and operators of the language. -/
def isExpression : Node → Bool
  | identifier x => isName x
  | integer n => 0 ≤ n && n ≤ maxInteger
  | boolean _ => true
  | string s => !s.toList.contains '"'
  | unary operator e => (operator == "!" || operator == "-") && isExpression e
  | binary left operator right =>
    (MonkeyLanguage.infixLevel? operator).isSome && isExpression left && isExpression right
  | ifElse condition consequence alternative =>
    isExpression condition && isBlock consequence && isAlternative alternative
  | function parameters body => parameters.all isName && isBlock body
  | call callee arguments => isExpression callee && allExpressions arguments
  | array elements => allExpressions elements
  | hash pairs => allPairs pairs
  | index left position => isExpression left && isExpression position
  | _ => false

def isBlock : Node → Bool
  | block nodes => allStatements nodes
  | _ => false

def isAlternative : Node → Bool
  | absent => true
  | block nodes => allStatements nodes
  | _ => false

/-- Whether the tree is a statement with such expressions. -/
def isStatement : Node → Bool
  | letStatement name value => isName name && isExpression value
  | returnStatement value => isExpression value
  | expressionStatement e => isExpression e
  | _ => false

def allExpressions : List Node → Bool
  | [] => true
  | e :: es => isExpression e && allExpressions es

def allPairs : List (Node × Node) → Bool
  | [] => true
  | (key, value) :: pairs => isExpression key && isExpression value && allPairs pairs

def allStatements : List Node → Bool
  | [] => true
  | node :: nodes => isStatement node && allStatements nodes

end

theorem allExpressions_eq_all (nodes : List Node) : allExpressions nodes = nodes.all isExpression := by
  induction nodes with
  | nil => rfl
  | cons node nodes ih => rw [allExpressions, ih, List.all_cons]

theorem allStatements_eq_all (nodes : List Node) : allStatements nodes = nodes.all isStatement := by
  induction nodes with
  | nil => rfl
  | cons node nodes ih => rw [allStatements, ih, List.all_cons]

theorem allPairs_eq_all (pairs : List (Node × Node)) :
    allPairs pairs = pairs.all fun pair => pair.1.isExpression && pair.2.isExpression := by
  induction pairs with
  | nil => rfl
  | cons pair pairs ih => rw [allPairs, ih, List.all_cons]

theorem isAlternative_of_isBlock {node : Node} (h : node.isBlock = true) : node.isAlternative = true := by
  cases node with
  | block nodes => exact h
  | _ => cases h

end Node

open Node

theorem toList_repr_ne_nil (n : Nat) : n.repr.toList ≠ [] := by
  rw [Nat.toList_repr]
  exact Nat.toDigits_ne_nil

theorem all_isDigit_repr (n : Nat) : n.repr.toList.all Char.isDigit = true := by
  rw [Nat.toList_repr, List.all_eq_true]
  exact fun c hc => Nat.isDigit_of_mem_toDigits (by decide) (by decide) hc

theorem length_repr_le {n : Nat} (hn : n ≤ maxInteger) : n.repr.toList.length ≤ Text.maxDigits := by
  rw [Nat.toList_repr]
  have hlength : (Nat.toDigits 10 n).length ≤ 19 :=
    Nat.toDigits_length 10 n 19 (by decide) (by simp only [maxInteger] at hn; omega)
  exact Nat.le_trans hlength (by decide)

theorem prints_natural {n : Nat} (hn : n ≤ maxInteger) : Prints (expression false (.integer n)) [n.repr] := by
  have hdecimal : decimal n.repr.toList = n := by
    rw [Nat.toList_repr]
    exact Nat.ofDigitChars_eq_foldl.symm.trans Nat.ofDigitChars_ten_toDigits
  have hprints := Prints.integer (toList_repr_ne_nil n) (all_isDigit_repr n) (by rw [hdecimal]; exact hn)
    (length_repr_le hn)
  rw [hdecimal] at hprints
  exact hprints

theorem exists_prints_integer {n : Int} (h₀ : 0 ≤ n) (hn : n ≤ maxInteger) :
    ∃ ws, Prints (expression false (.integer n)) ws := by
  obtain ⟨m, rfl⟩ := Int.eq_ofNat_of_zero_le h₀
  exact ⟨_, prints_natural hn⟩

mutual

theorem exists_prints_expression : (e : Node) → e.isExpression = true →
    ∃ ws, Prints (expression false e) ws
  | .identifier x, h => ⟨_, .identifier h⟩
  | .integer n, h => by
    simp only [isExpression, Bool.and_eq_true, decide_eq_true_eq] at h
    exact exists_prints_integer h.1 h.2
  | .boolean b, _ => ⟨_, .boolean b⟩
  | .string s, h => ⟨_, .string (by simpa [isExpression] using h)⟩
  | .unary operator e, h => by
    simp only [isExpression, Bool.and_eq_true, Bool.or_eq_true, beq_iff_eq] at h
    obtain ⟨ws, he⟩ := exists_prints_expression e h.2
    exact ⟨_, .unary h.1 he.parens fun _ => rfl⟩
  | .binary left operator right, h => by
    simp only [isExpression, Bool.and_eq_true] at h
    obtain ⟨level, hlevel⟩ := Option.isSome_iff_exists.1 h.1.1
    obtain ⟨ws₁, hleft⟩ := exists_prints_expression left h.1.2
    obtain ⟨ws₂, hright⟩ := exists_prints_expression right h.2
    exact ⟨_, .binary hlevel hleft.parens hright.parens (fun _ _ _ => rfl) fun _ _ _ => rfl⟩
  | .ifElse condition consequence alternative, h => by
    simp only [isExpression, Bool.and_eq_true] at h
    obtain ⟨ws, hcondition⟩ := exists_prints_expression condition h.1.1
    obtain ⟨nodes, ws₁, rfl, hconsequence⟩ := exists_prints_block consequence h.1.2
    rcases exists_prints_alternative alternative h.2 with rfl | ⟨nodes, ws₂, rfl, halternative⟩
    · exact ⟨_, .ifThen hcondition hconsequence⟩
    · exact ⟨_, .ifElse hcondition hconsequence halternative⟩
  | .function parameters body, h => by
    simp only [isExpression, Bool.and_eq_true, List.all_eq_true] at h
    obtain ⟨nodes, ws, rfl, hbody⟩ := exists_prints_block body h.2
    exact ⟨_, .function h.1 hbody⟩
  | .call callee arguments, h => by
    simp only [isExpression, Bool.and_eq_true] at h
    obtain ⟨ws, hcallee⟩ := exists_prints_expression callee h.1
    obtain ⟨ws₁, harguments⟩ := exists_prints_list arguments h.2
    exact ⟨_, .call hcallee.parens (fun _ => rfl) harguments⟩
  | .array elements, h => by
    obtain ⟨ws, helements⟩ := exists_prints_list elements h
    exact ⟨_, .array helements⟩
  | .hash pairs, h => by
    obtain ⟨ws, hpairs⟩ := exists_prints_entries pairs h
    exact ⟨_, .hash hpairs⟩
  | .index left position, h => by
    simp only [isExpression, Bool.and_eq_true] at h
    obtain ⟨ws, hleft⟩ := exists_prints_expression left h.1
    obtain ⟨ws₁, hposition⟩ := exists_prints_expression position h.2
    exact ⟨_, .index hleft.parens (fun _ => rfl) hposition⟩

theorem exists_prints_block : (e : Node) → e.isBlock = true →
    ∃ nodes ws, e = .block nodes ∧ Prints (statements nodes) ws
  | .block nodes, h => by
    obtain ⟨ws, hnodes⟩ := exists_prints_statements nodes h
    exact ⟨nodes, ws, rfl, hnodes⟩

theorem exists_prints_alternative : (e : Node) → e.isAlternative = true →
    e = .absent ∨ ∃ nodes ws, e = .block nodes ∧ Prints (statements nodes) ws
  | .absent, _ => .inl rfl
  | .block nodes, h => by
    obtain ⟨ws, hnodes⟩ := exists_prints_statements nodes h
    exact .inr ⟨nodes, ws, rfl, hnodes⟩

theorem exists_prints_list : (nodes : List Node) → allExpressions nodes = true →
    ∃ ws, Prints (list nodes) ws
  | [], _ => ⟨[], .noItems⟩
  | e :: nodes, h => by
    simp only [allExpressions, Bool.and_eq_true] at h
    obtain ⟨ws, he⟩ := exists_prints_expression e h.1
    obtain ⟨ws₁, hnodes⟩ := exists_prints_list nodes h.2
    cases hnodes with
    | noItems => exact ⟨_, .someItems (.item he)⟩
    | someItems hnodes => exact ⟨_, .someItems (.moreItems he hnodes)⟩

theorem exists_prints_entries : (pairs : List (Node × Node)) → allPairs pairs = true →
    ∃ ws, Prints (entries pairs) ws
  | [], _ => ⟨[], .noEntries⟩
  | (key, value) :: pairs, h => by
    simp only [allPairs, Bool.and_eq_true] at h
    obtain ⟨ws, hkey⟩ := exists_prints_expression key h.1.1
    obtain ⟨ws₁, hvalue⟩ := exists_prints_expression value h.1.2
    obtain ⟨ws₂, hpairs⟩ := exists_prints_entries pairs h.2
    cases pairs with
    | nil => exact ⟨_, .entry hkey hvalue⟩
    | cons pair pairs => exact ⟨_, .moreEntries hkey hvalue hpairs⟩

theorem exists_prints_statement : (node : Node) → node.isStatement = true →
    ∃ ws, Prints (statement node) ws
  | .letStatement name value, h => by
    simp only [isStatement, Bool.and_eq_true] at h
    obtain ⟨ws, hvalue⟩ := exists_prints_expression value h.2
    exact ⟨_, .letStatement h.1 hvalue⟩
  | .returnStatement value, h => by
    obtain ⟨ws, hvalue⟩ := exists_prints_expression value h
    exact ⟨_, .returnStatement hvalue⟩
  | .expressionStatement e, h => by
    obtain ⟨ws, he⟩ := exists_prints_expression e h
    exact ⟨_, .expressionStatement he⟩

theorem exists_prints_statements : (nodes : List Node) → allStatements nodes = true →
    ∃ ws, Prints (statements nodes) ws
  | [], _ => ⟨[], .noStatements⟩
  | node :: nodes, h => by
    simp only [allStatements, Bool.and_eq_true] at h
    obtain ⟨ws, hnode⟩ := exists_prints_statement node h.1
    obtain ⟨ws₁, hnodes⟩ := exists_prints_statements nodes h.2
    exact ⟨_, .moreStatements hnode hnodes⟩

end

end MonkeyLanguage
