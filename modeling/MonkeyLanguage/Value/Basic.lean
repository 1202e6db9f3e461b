import MonkeyLanguage.Node.Basic
import MonkeyLanguage.OrderedMap

/-!
# Values

A program computes values.  Besides data there are functions, which remember the scope of their
definition, and two values that steer evaluation: `returned` carries the value of a `return` out of
blocks, and `error` is a failure, which every form passes on.
-/

namespace MonkeyLanguage

inductive ValueType where
  | null
  | integer
  | boolean
  | string
  | array
  | hash
  | function
  | builtin
  | returned
  | error
deriving DecidableEq, Repr

def ValueType.name : ValueType → String
  | null => "NULL"
  | integer => "INTEGER"
  | boolean => "BOOLEAN"
  | string => "STRING"
  | array => "ARRAY"
  | hash => "HASH"
  | function => "FUNCTION"
  | builtin => "BUILTIN"
  | returned => "RETURN_VALUE"
  | error => "ERROR"

/-- The functions that need no definition. -/
inductive Builtin where
  | len
  | first
  | last
  | rest
  | push
  | puts
  | print
deriving DecidableEq, Repr

namespace Builtin

/-- The name a builtin bears in messages and is found under by default. -/
def name : Builtin → String
  | len => "len"
  | first => "first"
  | last => "last"
  | rest => "rest"
  | push => "push"
  | puts => "puts"
  | print => "print"

/-- The number of arguments, if it is fixed. -/
def arity : Builtin → Option Nat
  | len | first | last | rest => some 1
  | push => some 2
  | puts | print => none

def all : List Builtin :=
  [len, first, last, rest, push, puts, print]

end Builtin

/-- The builtin that each name stands for. -/
abbrev BuiltinTable := OrderedMap String Builtin

def BuiltinTable.default : BuiltinTable :=
  Builtin.all.map fun b => (b.name, b)

/-- Why an evaluation failed. -/
inductive RuntimeError where
  | unboundName (name : String)
  | notAFunction (found : ValueType)
  | wrongArgumentCount (want got : Nat)
  | wrongBuiltinArgumentCount (builtin : Builtin) (want got : Nat)
  | notAnArray (builtin : Builtin) (found : ValueType)
  | noLength (found : ValueType)
  | unusableKey (found : ValueType)
  | notIndexable (left index : ValueType)
  | unknownUnary (operator : String) (operand : ValueType)
  | unknownBinary (operator : String) (operands : ValueType)
  | typeMismatch (left : ValueType) (operator : String) (right : ValueType)
  | divisionByZero (dividend : Int)
deriving DecidableEq, Repr

def RuntimeError.message : RuntimeError → String
  | unboundName name => "identifier not found: " ++ name
  | notAFunction found => "not a function: " ++ found.name
  | wrongArgumentCount want got => s!"wrong number of arguments: want={want}, got={got}"
  | wrongBuiltinArgumentCount builtin want got =>
    s!"wrong number of arguments to `{builtin.name}`: want={want}, got={got}"
  | notAnArray builtin found => s!"argument to `{builtin.name}` must be ARRAY, got {found.name}"
  | noLength found => "argument to `len` not supported, got " ++ found.name
  | unusableKey found => "unusable as hash key: " ++ found.name
  | notIndexable left index => s!"index operator not supported: {left.name}[{index.name}]"
  | unknownUnary operator operand => "unknown operator: " ++ operator ++ operand.name
  | unknownBinary operator operands =>
    s!"unknown operator: {operands.name} {operator} {operands.name}"
  | typeMismatch left operator right => s!"type mismatch: {left.name} {operator} {right.name}"
  | divisionByZero dividend => s!"division by zero: {dividend} / 0"

/-- The values that can be keys of a hash. -/
inductive HashKey where
  | integer (value : Int)
  | boolean (value : Bool)
  | string (value : String)
deriving DecidableEq, Repr

abbrev ScopeId := Nat

inductive Value where
  | null
  | integer (value : Int)
  | boolean (value : Bool)
  | string (value : String)
  | array (elements : List Value)
  | hash (pairs : List (HashKey × Value))
  /-- A function made by the program.  Each evaluation of a function literal gives another identity. -/
  | function (identity : Nat) (parameters : List String) (body : Node) (scope : ScopeId)
  | builtin (builtin : Builtin)
  | returned (value : Value)
  | error (error : RuntimeError)
deriving Repr, Inhabited

def HashKey.toValue : HashKey → Value
  | integer n => .integer n
  | boolean b => .boolean b
  | string s => .string s

namespace Value

def type : Value → ValueType
  | null => .null
  | integer _ => .integer
  | boolean _ => .boolean
  | string _ => .string
  | array _ => .array
  | hash _ => .hash
  | function .. => .function
  | builtin _ => .builtin
  | returned _ => .returned
  | error _ => .error

/-- The value as a key of a hash. -/
def hashKey? : Value → Option HashKey
  | integer n => some (.integer n)
  | boolean b => some (.boolean b)
  | string s => some (.string s)
  | _ => none

/-- Whether a condition holds of the value: all values but `false` and `null` do. -/
def isTruthy : Value → Bool
  | boolean b => b
  | null => false
  | _ => true

/-- The value itself, or the value that a `return` carries. -/
def unwrapReturned : Value → Value
  | returned v => v
  | v => v

end Value

end MonkeyLanguage
