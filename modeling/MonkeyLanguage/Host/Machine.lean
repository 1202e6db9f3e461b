import MonkeyLanguage.Parser.FrontEnd
import MonkeyLanguage.Value.Basic

/-!
# The machine under the hosts

The hosts run on a machine that nests calls only up to a limit, which a setting can change.  How many calls a text
or a value needs is a matter of the machine, so a `Machine` says what a limit suffices for.  Overflows are handled in
some places only; a `Crash` is a failure of the machine that nothing handles, and ends the process.
-/

namespace MonkeyLanguage

/-- What a limit on nested calls suffices for; `none` is the limit that the machine starts with. -/
structure Machine where
  /-- How many calls are open when the limit is set. -/
  openCalls : Nat
  /-- How many evaluations may stand inside each other. -/
  evaluations : Option Nat → Nat
  parses : Option Nat → FrontEnd → String → Bool
  showsTree : Option Nat → List Node → Bool
  showsValue : Option Nat → Value → Bool

/-- A failure of the machine that ends the process. -/
inductive Crash where
  /-- The limit on nested calls does not fit in a word. -/
  | limitTooLarge
  /-- More calls are open than the limit allows. -/
  | limitTooLow
  /-- The bytes of a file are no text. -/
  | undecodable
  /-- A front end reads a numeral that has too many digits to be converted. -/
  | overlong (frontEnd : FrontEnd) (numeral : Token)
  /-- A value nests too deep to be shown. -/
  | valueTooDeep
deriving DecidableEq, Repr

namespace Machine

/-- A machine on which only evaluations can nest too deep. -/
def roomy (evaluations : Option Nat → Nat) : Machine :=
  ⟨0, evaluations, fun _ _ _ => true, fun _ _ => true, fun _ _ => true⟩

/-- The greatest limit that can be set. -/
def maxLimit : Nat :=
  2147483647

/-- What comes of setting a limit that cannot be set. -/
def refusal? (machine : Machine) (limit : Option Nat) : Option Crash :=
  match limit with
  | none => none
  | some n =>
    if maxLimit < n then some .limitTooLarge
    else if n ≤ machine.openCalls then some .limitTooLow
    else none

end Machine

end MonkeyLanguage
