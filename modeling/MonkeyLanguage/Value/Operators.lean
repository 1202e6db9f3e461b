import MonkeyLanguage.Value.Equality
import MonkeyLanguage.Value.Render

/-!
# Operators and builtins

What operators, indexing and builtins make of their operands.  Integers are signed 64-bit numbers, and
results outside that range wrap around.
-/

namespace MonkeyLanguage

/-- The number of integers of 64 bits. -/
def integerCount : Nat :=
  18446744073709551616

/-- The number in the signed 64-bit range that differs from `n` by a multiple of `integerCount`. -/
def wrap (n : Int) : Int :=
  n.bmod integerCount

theorem wrap_lt (n : Int) : wrap n < 9223372036854775808 := by
  have := Int.bmod_lt (x := n) (m := integerCount) (by decide)
  simp only [wrap, integerCount] at *
  omega

theorem le_wrap (n : Int) : -9223372036854775808 ≤ wrap n := by
  have := Int.le_bmod (x := n) (m := integerCount) (by decide)
  simp only [wrap, integerCount] at *
  omega

theorem wrap_of_mem_range {n : Int} (h₁ : -9223372036854775808 ≤ n)
    (h₂ : n < 9223372036854775808) : wrap n = n := by
  simp only [wrap, integerCount, Int.bmod_def]
  omega

namespace Value

/-! ## Operators -/

def applyUnary (operator : String) (right : Value) : Value :=
  match operator, right with
  | "!", v => boolean !v.isTruthy
  | "-", integer n => integer (wrap (-n))
  | op, v => error (.unknownUnary op v.type)

/-- Applies an operator to two integers.  Division drops the fraction. -/
def applyIntegers (operator : String) (a b : Int) : Value :=
  match operator with
  | "+" => integer (wrap (a + b))
  | "-" => integer (wrap (a - b))
  | "*" => integer (wrap (a * b))
  | "/" => if b = 0 then error (.divisionByZero a) else integer (wrap (a.tdiv b))
  | "<" => boolean (a < b)
  | ">" => boolean (a > b)
  | "==" => boolean (a == b)
  | "!=" => boolean (a != b)
  | op => error (.unknownBinary op .integer)

def applyStrings (operator : String) (a b : String) : Value :=
  match operator with
  | "+" => string (a ++ b)
  | "==" => boolean (a == b)
  | "!=" => boolean (a != b)
  | op => error (.unknownBinary op .string)

/-- Applies an operator to two values.  Values of all types can be compared for equality. -/
def applyBinary (operator : String) (left right : Value) : Value :=
  match left, right with
  | integer a, integer b => applyIntegers operator a b
  | string a, string b => applyStrings operator a b
  | a, b =>
    if operator = "==" then boolean (a == b)
    else if operator = "!=" then boolean !(a == b)
    else if a.type = b.type then error (.unknownBinary operator a.type)
    else error (.typeMismatch a.type operator b.type)

/-- The element at an index, or the value of a key; `null` if there is none. -/
def applyIndex (left index : Value) : Value :=
  match left, index with
  | array vs, integer i => if i < 0 then null else vs[i.toNat]?.getD null
  | hash ps, k =>
    match k.hashKey? with
    | some k => (OrderedMap.get? ps k).getD null
    | none => error (.unusableKey k.type)
  | a, b => error (.notIndexable a.type b.type)

def length : Value → Value
  | string s => integer s.length
  | array vs => integer vs.length
  | v => error (.noLength v.type)

end Value

/-! ## Builtins -/

namespace Builtin

def onArray (b : Builtin) (f : List Value → Value) : Value → Value
  | .array vs => f vs
  | v => .error (.notAnArray b v.type)

/-- The result of a builtin and the text it prints. -/
def apply (b : Builtin) (arguments : List Value) : Value × String :=
  match b, arguments with
  | len, [v] => (v.length, "")
  | first, [v] => (onArray first (fun vs => vs.head?.getD .null) v, "")
  | last, [v] => (onArray last (fun vs => vs.getLast?.getD .null) v, "")
  | rest, [v] => (onArray rest (fun vs => if vs.isEmpty then .null else .array vs.tail) v, "")
  | push, [a, v] => (onArray push (fun vs => .array (vs ++ [v])) a, "")
  | puts, vs => (.null, String.join (vs.map fun v => v.display ++ "\n"))
  | print, vs => (.null, " ".intercalate (vs.map Value.display) ++ "\n")
  | b, vs => (.error (.wrongBuiltinArgumentCount b (b.arity.getD 0) vs.length), "")

end Builtin

end MonkeyLanguage
