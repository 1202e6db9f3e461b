/-!
# Blank characters

The characters of bidirectional class WS, B or S, or of category Zs, in Unicode 14: besides space, tab
and the line ends they hold the four ASCII separators and the spaces of other scripts.  Slash commands
and settings are trimmed and split at them.  The source text of a program is not: its lexer skips
four characters only.
-/

namespace MonkeyLanguage.Text

def isBlank (c : Char) : Bool :=
  let n := c.toNat
  (0x09 ≤ n && n ≤ 0x0d) || (0x1c ≤ n && n ≤ 0x20) || n == 0x85 || n == 0xa0 || n == 0x1680 ||
    (0x2000 ≤ n && n ≤ 0x200a) || n == 0x2028 || n == 0x2029 || n == 0x202f || n == 0x205f ||
    n == 0x3000

/-- Drops the characters of `p` from the end. -/
def dropWhileEnd (p : Char → Bool) (cs : List Char) : List Char :=
  (cs.reverse.dropWhile p).reverse

def trimWhile (p : Char → Bool) (cs : List Char) : List Char :=
  dropWhileEnd p (cs.dropWhile p)

def trim (cs : List Char) : List Char :=
  trimWhile isBlank cs

/-- The first word, and what follows it and the blanks behind it. -/
def splitFirstWord (cs : List Char) : List Char × List Char :=
  let cs := cs.dropWhile isBlank
  (cs.takeWhile (!isBlank ·), (cs.dropWhile (!isBlank ·)).dropWhile isBlank)

end MonkeyLanguage.Text
