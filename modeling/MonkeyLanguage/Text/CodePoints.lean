/-!
# Sets of characters by ranges of code points

A set is a list of closed ranges.  The tables of the sibling modules are such sets.
-/

namespace MonkeyLanguage.Text

/-- A set of characters, as closed ranges of code points in rising order. -/
abbrev CodePoints := List (Nat × Nat)

/-- Whether the character lies in one of the ranges.  Ranges that start behind it are not looked at. -/
def CodePoints.contains (c : Char) : CodePoints → Bool
  | [] => false
  | (first, last) :: ranges => first ≤ c.toNat && (c.toNat ≤ last || contains c ranges)

end MonkeyLanguage.Text
