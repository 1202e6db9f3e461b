import MonkeyLanguage.Token.Basic

/-!
# The levels of expressions

The grammar has a category of expressions for each level, and each contains the next.  The rules of a level add the
expressions in which an operator of that level stands behind its left operand, so an operand on the left is of the
level of the operator and one on the right is of the next.
-/

namespace MonkeyLanguage

/-- The categories of expressions, the widest first.  The last holds calls, index expressions and what needs no
parentheses anywhere. -/
inductive Level where
  | expr
  | equality
  | comparison
  | sum
  | product
  | unary
  | suffix
deriving DecidableEq, Repr

namespace Level

def all : List Level :=
  [expr, equality, comparison, sum, product, unary, suffix]

/-- The tokens behind the left operand in the rules of a level. -/
def operators : Level → List Token.Kind
  | equality => [.equal, .notEqual]
  | comparison => [.less, .greater]
  | sum => [.plus, .minus]
  | product => [.asterisk, .slash]
  | suffix => [.leftParen, .leftBracket]
  | expr | unary => []

def rank (level : Level) : Nat :=
  all.idxOf level

instance : LT Level where
  lt a b := a.rank < b.rank

instance : LE Level where
  le a b := a.rank ≤ b.rank

instance (a b : Level) : Decidable (a < b) :=
  inferInstanceAs (Decidable (a.rank < b.rank))

instance (a b : Level) : Decidable (a ≤ b) :=
  inferInstanceAs (Decidable (a.rank ≤ b.rank))

theorem not_lt {a b : Level} : ¬a < b ↔ b ≤ a :=
  Nat.not_lt

theorem not_le {a b : Level} : ¬a ≤ b ↔ b < a :=
  Nat.not_le

theorem lt_of_le_of_lt {a b c : Level} (hab : a ≤ b) (hbc : b < c) : a < c :=
  Nat.lt_of_le_of_lt hab hbc

theorem expr_le (level : Level) : expr ≤ level :=
  Nat.zero_le level.rank

theorem le_suffix (level : Level) : level ≤ suffix := by
  cases level <;> decide

theorem le_expr_iff {level : Level} : level ≤ expr ↔ level = expr := by
  cases level <;> decide

theorem expr_lt_iff {level : Level} : expr < level ↔ level ≠ expr := by
  cases level <;> decide

end Level

/-- The level in whose rules the token stands behind the left operand; that of all expressions if there is none. -/
def Token.Kind.level (kind : Token.Kind) : Level :=
  (Level.all.find? (kind ∈ ·.operators)).getD .expr

theorem Token.Kind.level_eq (kind : Token.Kind) :
    kind.level = match kind with
      | equal | notEqual => .equality
      | less | greater => .comparison
      | plus | minus => .sum
      | asterisk | slash => .product
      | leftParen | leftBracket => .suffix
      | _ => .expr := by
  cases kind <;> rfl

end MonkeyLanguage
