import MonkeyLanguage.Proofs.Session.Soundness
import MonkeyLanguage.Proofs.Value.Literal

/-!
# Data that is printed and read back

The text of data that a session has made is a program, and the program gives the data back
(`run_render_of_finished`).  This rests on what holds of all values: strings are printed without escapes and hold
no double quote, integers are no greater than a literal can be, and the keys of a hash are distinct.
-/

namespace MonkeyLanguage

/-- The value is data, apart from the values in it.  The least integer is left out: a sign would have to stand
before a number that is too large. -/
def Value.IsDatum : Value → Prop
  | .integer n => n ≠ -9223372036854775808
  | .boolean _ | .string _ | .array _ | .hash _ => True
  | _ => False

theorem Value.isLiteral_of_isDatum {v : Value} (h : v.IsDatum) (hsound : v.IsSound) : v.IsLiteral := by
  cases v with
  | integer n =>
    obtain ⟨hmin, hmax⟩ := hsound
    have hne : n ≠ -9223372036854775808 := h
    refine ⟨?_, hmax⟩
    rw [maxInteger]
    omega
  | boolean b => trivial
  | string s => exact hsound
  | array vs => trivial
  | hash pairs => exact hsound
  | _ => exact h.elim

variable {table : BuiltinTable} {limit : Nat} {texts : List (FrontEnd × String)} {v : Value}

theorem isLiteral_of_finished (hshort : ∀ v ∈ (Session.empty limit).measured table texts, v.size ≤ maxInteger)
    (hv : .finished v ∈ (Session.empty limit).outcomes table texts) (hdata : v.Every Value.IsDatum) :
    v.Every Value.IsLiteral := by
  cases (sound_of_session hshort).2 v hv with
  | held hsound => exact (hdata.and hsound).mono fun u hu => u.isLiteral_of_isDatum hu.1 hu.2
  | failure e => exact hdata.self.elim
  | returned hreturn _ => cases hreturn

/-- The text of data that a session gives is a program that gives the same data, in whatever session it is run,
unless the limit on evaluations inside each other cuts it off.  So the text of what it gives is the same too, with
the entries of hashes in the same order. -/
theorem run_render_of_finished
    (hshort : ∀ v ∈ (Session.empty limit).measured table texts, v.size ≤ maxInteger)
    (hv : .finished v ∈ (Session.empty limit).outcomes table texts) (hdata : v.Every Value.IsDatum)
    (s : Session) (frontEnd : FrontEnd) :
    (s.run frontEnd table v.render).outcome =
      (if v.depth + 1 ≤ s.limit then .finished v else .aborted .tooDeep) ∧ (v == v) = true := by
  have hliteral := isLiteral_of_finished hshort hv hdata
  refine ⟨?_, by rw [Value.beq_eq_same, Value.same_refl]⟩
  rw [Session.run_of_parse (parse_render hliteral), Session.evaluate, eval_program_literal hliteral]
  by_cases hdepth : v.depth + 1 ≤ s.limit
  · rw [if_pos (Nat.succ_le_succ hdepth), if_pos hdepth]
  · rw [if_neg (mt Nat.le_of_succ_le_succ hdepth), if_neg hdepth]

theorem run_render_of_hash :
    ((Session.empty 1000).run .automaton .default "\x7b\"k\": [-1, true], 3: \"xy\"\x7d").outcome =
      .finished (.hash [(.string "k", .array [.integer (-1), .boolean true]), (.integer 3, .string "xy")]) := by
  let v : Value := .hash [(.string "k", .array [.integer (-1), .boolean true]), (.integer 3, .string "xy")]
  have hrender : v.render = "\x7b\"k\": [-1, true], 3: \"xy\"\x7d" := by
    decide +kernel
  let source := "\x7b\"k\": [len(\"xy\") - 3, true], 3: \"x\" + \"y\"\x7d"
  have hparse : FrontEnd.descent.parse source = ([.expressionStatement (.hash
      [(.string "k", .array [.binary (.call (.identifier "len") [.string "xy"]) "-" (.integer 3), .boolean true]),
        (.integer 3, .binary (.string "x") "+" (.string "y"))])], []) := by
    decide +kernel
  have hrun : ((Session.empty 1000).run .descent .default source).outcome = .finished v := by
    rw [Session.run_of_parse hparse]
    with_unfolding_all rfl
  have hinteger {n : Int} (h : n ≠ -9223372036854775808) : (Value.integer n).Every Value.IsDatum := .of_atom h rfl
  have hstring (text : String) : (Value.string text).Every Value.IsDatum := .of_atom trivial rfl
  have harray : (Value.array [.integer (-1), .boolean true]).Every Value.IsDatum :=
    ⟨trivial, List.forall_mem_cons.2 ⟨hinteger (by decide), List.forall_mem_singleton.2 (.of_atom trivial rfl)⟩⟩
  have hdata : v.Every Value.IsDatum := by
    refine ⟨trivial, List.forall_mem_cons.2 ⟨hstring "k", List.forall_mem_cons.2 ⟨harray, ?_⟩⟩⟩
    exact List.forall_mem_cons.2 ⟨hinteger (by decide), List.forall_mem_singleton.2 (hstring "xy")⟩
  have hshort : ∀ u ∈ (Session.empty 1000).measured .default [(.descent, source)], u.size ≤ maxInteger := by
    decide +kernel
  rw [← hrender]
  exact (run_render_of_finished hshort (List.mem_singleton.2 hrun.symm) hdata (.empty 1000) .automaton).1

end MonkeyLanguage
