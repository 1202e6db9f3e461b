import MonkeyLanguage.Proofs.Eval.Arithmetic
import MonkeyLanguage.Proofs.Parser.WellFormed
import MonkeyLanguage.Proofs.Session.Sequence

/-!
# Sound values

The values that sessions make are in the range of the language: integers have 64 bits (`integers_have_64_bits`),
strings hold no double quote, and the keys of a hash are distinct (`sound_of_session`).  A length is an integer too,
so a session must not take the length of a string or an array that is longer than integers can tell
(`Session.measured`).  No memory holds one, but the lists here have no bound.
-/

namespace MonkeyLanguage

/-- The number of characters of a string or of elements of an array. -/
def Value.size : Value → Nat
  | .string s => s.length
  | .array vs => vs.length
  | _ => 0

/-- The values of which a builtin is to tell the length. -/
def Event.measured : Event → List Value
  | .begins (.builtin .len arguments) => arguments
  | _ => []

/-- The values of which a length is taken while texts are run. -/
def Session.measured (table : BuiltinTable) (s : Session) (texts : List (FrontEnd × String)) : List Value :=
  (s.logs table texts).flatMap fun entry => entry.event.measured

/-- The value is in the range of the language, apart from the values in it. -/
def Value.IsSound : Value → Prop
  | .integer n => IsInteger64 n
  | .string s => '"' ∉ s.toList
  | .hash pairs => (OrderedMap.keys pairs).Nodup
  | .function _ _ body _ => body.WellFormed
  | _ => True

theorem Value.isSound_length {v : Value} (h : v.size ≤ maxInteger) : v.length.IsSound := by
  have hnonneg (n : Nat) : (-9223372036854775808 : Int) ≤ n := by omega
  cases v with
  | string s => exact ⟨hnonneg _, h⟩
  | array vs => exact ⟨hnonneg _, h⟩
  | _ => trivial

/-- Programs of the language, and values in its range. -/
def Invariant.sound : Invariant where
  tree := Node.WellFormed
  value := Value.IsSound
  use b arguments := ∀ v ∈ (Event.begins (.builtin b arguments)).measured, v.size ≤ maxInteger
  part := Node.WellFormed.of_mem_parts
  returned _ _ _ _ := trivial
  null := trivial
  boolean _ := trivial
  builtin _ := trivial
  array _ := trivial
  hash h := h
  closure h _ _ := h.of_mem_parts (List.mem_singleton_self _)
  body h := h
  integer h := ⟨Int.le_trans (by decide) h.integer.1, h.integer.2⟩
  string h := h.string
  wrap n := isInteger64_wrap n
  length h hlength := hlength ▸ Value.isSound_length (h _ (List.mem_singleton_self _))
  append ha hb hmem := by
    rw [String.toList_append, List.mem_append] at hmem
    exact hmem.elim ha hb

theorem Invariant.sound_admits {event : Event} (h : ∀ v ∈ event.measured, v.size ≤ maxInteger) :
    Invariant.sound.Admits event := by
  cases event with
  | begins activity =>
    cases activity with
    | builtin b arguments => exact h
    | _ => trivial
  | ends activity v => trivial

variable {table : BuiltinTable} {limit : Nat} {texts : List (FrontEnd × String)}

theorem sound_of_session (hshort : ∀ v ∈ (Session.empty limit).measured table texts, v.size ≤ maxInteger) :
    Invariant.sound.Holds ((Session.empty limit).after table texts).world ∧
      ∀ v, .finished v ∈ (Session.empty limit).outcomes table texts → Invariant.sound.Gives false v :=
  Invariant.sound.of_texts (fun _ _ _ hparse => wellFormed_of_parse hparse)
    Invariant.sound.holds_empty fun entry hentry => Invariant.sound_admits fun v hv =>
      hshort v (List.mem_flatMap.2 ⟨entry, hentry, hv⟩)

/-! ## Integers -/

def Value.IsInt64 : Value → Prop
  | .integer n => IsInteger64 n
  | _ => True

theorem Value.isInt64_of_isSound {v : Value} (h : v.IsSound) : v.IsInt64 := by
  cases v with
  | integer n => exact h
  | _ => trivial

/-- Every integer that a session binds or gives has 64 bits, at any depth of the value: as an element of an array,
as a key or value of a hash, and in the value of a `return`. -/
theorem integers_have_64_bits (hshort : ∀ v ∈ (Session.empty limit).measured table texts, v.size ≤ maxInteger) :
    (∀ scope ∈ ((Session.empty limit).after table texts).world.scopes, ∀ binding ∈ scope.bindings,
      binding.2.Every Value.IsInt64) ∧
    ∀ v, .finished v ∈ (Session.empty limit).outcomes table texts → v.Every Value.IsInt64 := by
  obtain ⟨hworld, hvalues⟩ := sound_of_session hshort
  have hmono {v : Value} (h : Invariant.sound.Held v) : v.Every Value.IsInt64 :=
    h.mono fun _ => Value.isInt64_of_isSound
  refine ⟨fun scope hscope binding hbinding => ?_, fun v hv => ?_⟩
  · obtain ⟨id, hid⟩ := Array.mem_iff_getElem?.1 hscope
    exact hmono (hworld id scope hid binding hbinding)
  · cases hvalues v hv with
    | held h => exact hmono h
    | failure e => exact .of_atom trivial rfl
    | returned hreturn _ => cases hreturn

/-- The least integer, its opposite and its quotient by -1 stay in the range, and a closure holds it. -/
theorem least_integer_has_64_bits :
    let texts := [
      (FrontEnd.descent, "let min = -9223372036854775807 - 1; let f = fn(k) \x7b fn() \x7b k / -1; \x7d; \x7d;"),
      (.automaton, "[f(min)(), \x7b-min: len(\"xy\")\x7d]")]
    (∀ scope ∈ ((Session.empty 1000).after .default texts).world.scopes, ∀ binding ∈ scope.bindings,
      binding.2.Every Value.IsInt64) ∧
    ∀ v, .finished v ∈ (Session.empty 1000).outcomes .default texts → v.Every Value.IsInt64 :=
  integers_have_64_bits (by decide +kernel)

end MonkeyLanguage
