import MonkeyLanguage.Token.Basic

/-!
# How tightly operators bind

Seven levels, from the whole expression down to calls and indexing.  Parsing by descent reads the level of an operator
from the kind of its token; a kind that is no operator has the lowest level.
-/

namespace MonkeyLanguage

/-- The levels of binding, the loosest first. -/
inductive Precedence where
  | lowest
  | equality
  | comparison
  | sum
  | product
  | unary
  | call
deriving DecidableEq, Repr

namespace Precedence

def rank : Precedence → Nat
  | lowest => 0
  | equality => 1
  | comparison => 2
  | sum => 3
  | product => 4
  | unary => 5
  | call => 6

instance : LT Precedence where
  lt a b := a.rank < b.rank

instance (a b : Precedence) : Decidable (a < b) :=
  inferInstanceAs (Decidable (a.rank < b.rank))

end Precedence

/-- The level of an operator that stands behind its left operand. -/
def Token.Kind.precedence : Token.Kind → Precedence
  | equal | notEqual => .equality
  | less | greater => .comparison
  | plus | minus => .sum
  | asterisk | slash => .product
  | leftParen | leftBracket => .call
  | _ => .lowest

end MonkeyLanguage
