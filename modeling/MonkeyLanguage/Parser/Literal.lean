import MonkeyLanguage.Node.Basic
import MonkeyLanguage.Text.Numeral
import MonkeyLanguage.Token.Basic

/-!
# Integer literals

An integer token holds decimal digits.  Values above `maxInteger` are rejected by both parsers.  So are numerals that
cannot be converted, at which a parser breaks off (`FrontEnd.overlong?`).
-/

namespace MonkeyLanguage

/-- The greatest integer of the language, which has 63 bits. -/
def maxInteger : Int :=
  9223372036854775807

def decimal (digits : List Char) : Nat :=
  digits.foldl (fun n c => 10 * n + (c.toNat - '0'.toNat)) 0

def Token.integer (t : Token) : Int :=
  decimal t.value.toList

/-- Whether the token has more digits than are converted. -/
def Token.isOverlong (t : Token) : Bool :=
  Text.maxDigits < t.value.toList.length

/-- Whether the token is an integer above the greatest value, or one that cannot be converted. -/
def Token.isTooLarge (t : Token) : Bool :=
  t.kind = .integer && (maxInteger < t.integer || t.isOverlong)

end MonkeyLanguage
