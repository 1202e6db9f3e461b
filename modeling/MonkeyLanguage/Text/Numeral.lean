import MonkeyLanguage.Text.Blank

/-!
# Reading an integer numeral

A setting may hold an integer in the decimal digits of any script: blanks around it are ignored,
one sign may stand directly before the digits, and single underscores may separate digits.  A numeral of
more than `maxDigits` digits is not converted, whatever its value.
-/

namespace MonkeyLanguage.Text

/-- The code points of the digits zero of category Nd in Unicode 14; the digits one to nine follow each. -/
def digitZeros : List Nat :=
  [0x30, 0x660, 0x6f0, 0x7c0, 0x966, 0x9e6, 0xa66, 0xae6, 0xb66, 0xbe6, 0xc66, 0xce6, 0xd66, 0xde6,
   0xe50, 0xed0, 0xf20, 0x1040, 0x1090, 0x17e0, 0x1810, 0x1946, 0x19d0, 0x1a80, 0x1a90, 0x1b50,
   0x1bb0, 0x1c40, 0x1c50, 0xa620, 0xa8d0, 0xa900, 0xa9d0, 0xa9f0, 0xaa50, 0xabf0, 0xff10, 0x104a0,
   0x10d30, 0x11066, 0x110f0, 0x11136, 0x111d0, 0x112f0, 0x11450, 0x114d0, 0x11650, 0x116c0,
   0x11730, 0x118e0, 0x11950, 0x11c50, 0x11d50, 0x11da0, 0x16a60, 0x16ac0, 0x16b50, 0x1d7ce,
   0x1d7d8, 0x1d7e2, 0x1d7ec, 0x1d7f6, 0x1e140, 0x1e2f0, 0x1e950, 0x1fbf0]

/-- The value of a decimal digit of any script. -/
def digitValue? (c : Char) : Option Nat :=
  (digitZeros.find? fun first => first ≤ c.toNat && c.toNat < first + 10).map (c.toNat - ·)

/-- The blanks that may surround a numeral: all but the four ASCII separators. -/
def isNumeralBlank (c : Char) : Bool :=
  isBlank c && !(0x1c ≤ c.toNat && c.toNat ≤ 0x1f)

/-- Reads the digits behind `value`; an underscore has to stand between two digits. -/
def readDigits? (value : Nat) : List Char → Option Nat
  | [] => some value
  | '_' :: c :: cs => do readDigits? (10 * value + (← digitValue? c)) cs
  | c :: cs => do readDigits? (10 * value + (← digitValue? c)) cs

def readNatural? : List Char → Option Nat
  | [] => none
  | c :: cs => do readDigits? (← digitValue? c) cs

/-- Reads digits behind an optional sign. -/
def readSigned? : List Char → Option Int
  | '-' :: cs => (readNatural? cs).map fun n => -n
  | '+' :: cs => (readNatural? cs).map fun n => n
  | cs => (readNatural? cs).map fun n => n

/-- The most digits that a numeral is converted from. -/
def maxDigits : Nat :=
  4300

/-- Reads an integer numeral with blanks around it. -/
def readInteger? (cs : List Char) : Option Int :=
  if maxDigits < cs.countP fun c => (digitValue? c).isSome then none
  else readSigned? (trimWhile isNumeralBlank cs)

end MonkeyLanguage.Text
