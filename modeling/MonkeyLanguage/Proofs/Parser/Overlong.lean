import MonkeyLanguage.Proofs.Parser.Blame
import MonkeyLanguage.Proofs.Token.Cutting

/-!
# Numerals at which front ends break off

A front end breaks off at an integer of the text with more than `Text.maxDigits` digits and nowhere else
(`overlong?_spec`).  On a text that is one such numeral both do (`overlong?_of_digits`).
-/

namespace MonkeyLanguage

open Automaton

variable {frontEnd : FrontEnd} {source : String} {t : Token} {ts : List Token} {finish : Position}
  {brackets : OpenBrackets} {parse : Parse}

theorem errors_eq_nil_iff : frontEnd.errors source = [] ↔ (frontEnd.parse source).2 = [] := by
  cases frontEnd with
  | descent =>
    rw [FrontEnd.errors, FrontEnd.parse, Parse.messages]
    exact List.map_eq_nil_iff.trans List.map_eq_nil_iff.symm
  | automaton =>
    rw [FrontEnd.errors, FrontEnd.parse]
    cases Automaton.parse source <;> simp

theorem isTooLarge_of_objection {σ : State} (h : σ.objection t = .integerTooLarge) : t.isTooLarge = true := by
  unfold State.objection at h
  split at h
  · split at h <;> cases h
  · split at h
    · assumption
    · split at h
      · cases h
      · split at h <;> cases h

theorem Parse.Run.isTooLarge (h : Run finish ts brackets parse) :
    ∀ failure ∈ parse.failures, failure.2.cause = .integerTooLarge → failure.2.token.isTooLarge = true := by
  induction h with
  | done => exact fun _ hfailure => absurd hfailure List.not_mem_nil
  | statement _ _ ih => exact ih
  | failure h _ _ ih =>
    obtain ⟨_, _, _, -, -, -, rfl, -⟩ := moves_of_scan_error (statementGives_error_iff.1 h)
    intro failure hfailure
    rcases List.mem_append.1 hfailure with hfailure | hfailure
    · obtain rfl := List.mem_singleton.1 hfailure
      exact isTooLarge_of_objection
    · exact ih failure hfailure

theorem tooLarge_of_mem_errors {e : ParseError} (he : e ∈ frontEnd.errors source)
    (hcause : e.cause = .integerTooLarge) : e.token ∈ tokenize source ∧ e.token.isTooLarge = true := by
  cases frontEnd with
  | descent =>
    obtain ⟨failure, hfailure, rfl⟩ := List.mem_map.1 he
    have hrun : Parse.Run (Cursor.ofString source).finish (tokensOf source) [] (Parse.ofString source) :=
      run_ofTokens [] (Nat.le_refl _) (Nat.le_refl _)
    refine ⟨?_, hrun.isTooLarge failure hfailure hcause⟩
    have hblamed : failure.2.token ∈ (Parse.ofString source).blamed := List.mem_map_of_mem hfailure
    have htwice := ((blamed_sublist_tokenize source).trans (twice_tokenize source)).subset hblamed
    obtain ⟨u, hu, htoken⟩ := List.mem_flatMap.1 htwice
    obtain rfl : failure.2.token = u := by simpa using htoken
    exact hu
  | automaton =>
    rw [FrontEnd.errors, parse_eq_parseTokens, parseTokens] at he
    split at he
    · cases he
    · next hparse =>
      obtain rfl := List.mem_singleton.1 he
      split at hparse
      · cases hparse
        rw [blame] at hcause
        split at hcause <;> cases hcause
      · split at hparse
        · cases hparse
          cases hcause
        · next hfind =>
          cases hparse
          exact ⟨List.mem_append_left _ (List.mem_of_find?_eq_some hfind), List.find?_some hfind⟩
        · cases hparse

theorem overlong?_spec (h : frontEnd.overlong? source = some t) :
    t ∈ tokenize source ∧ t.kind = .integer ∧ Text.maxDigits < t.value.toList.length := by
  obtain ⟨e, hfind, rfl⟩ := Option.map_eq_some_iff.1 h
  have hfound := List.find?_some hfind
  rw [Bool.and_eq_true, decide_eq_true_eq] at hfound
  obtain ⟨hmem, hlarge⟩ := tooLarge_of_mem_errors (List.mem_of_find?_eq_some hfind) hfound.1
  rw [Token.isTooLarge, Bool.and_eq_true] at hlarge
  exact ⟨hmem, of_decide_eq_true hlarge.1, of_decide_eq_true hfound.2⟩

theorem overlong?_eq_none
    (h : ∀ t ∈ tokenize source, t.kind = .integer → t.value.toList.length ≤ Text.maxDigits) :
    frontEnd.overlong? source = none := by
  rw [Option.eq_none_iff_forall_ne_some]
  intro t ht
  obtain ⟨hmem, hkind, hlength⟩ := overlong?_spec ht
  exact Nat.not_lt.2 (h t hmem hkind) hlength

/-! ## One numeral -/

theorem statement_of_tooLarge (r : Rules) (hkind : t.kind = .integer) (hlarge : t.isTooLarge = true) :
    r.statement ⟨[], t :: ts, finish⟩ = .error ⟨.integerTooLarge, t⟩ ⟨[t], ts, finish⟩ := by
  obtain ⟨kind, value, place⟩ := t
  obtain rfl := hkind
  have hoperand : r.operand ⟨[], ⟨.integer, value, place⟩ :: ts, finish⟩ =
      Rules.integerLiteral ⟨.integer, value, place⟩ ⟨[⟨.integer, value, place⟩], ts, finish⟩ := rfl
  rw [Rules.integerLiteral, if_pos hlarge] at hoperand
  have hstatement : r.statement ⟨[], ⟨.integer, value, place⟩ :: ts, finish⟩ =
      EStateM.bind (EStateM.bind r.operand (r.climb .lowest))
        (fun e => do ParserM.skip .semicolon; return .expressionStatement e)
        ⟨[], ⟨.integer, value, place⟩ :: ts, finish⟩ := rfl
  rw [hstatement, EStateM.bind, EStateM.bind, hoperand]
  rfl

theorem tokensOf_digits {cs : List Char} (hne : cs ≠ []) (hdigits : cs.all Char.isDigit = true) :
    tokensOf (String.ofList cs) = [⟨.integer, String.ofList cs, .start⟩] := by
  have hspells : Lexeme.Spells .integer cs := by
    cases cs with
    | nil => exact absurd rfl hne
    | cons c cs =>
      rw [List.all_cons, Bool.and_eq_true] at hdigits
      exact .integer hdigits.1 hdigits.2
  show Token.ofLexemes .start (Lexeme.split (String.ofList cs).toList) = _
  rw [String.toList_ofList, ← List.nil_append cs, Lexeme.split_of_spells hspells rfl]
  rfl

/-- A text that is a numeral with too many digits is broken off. -/
theorem errors_of_digits {cs : List Char} (hdigits : cs.all Char.isDigit = true)
    (hlength : Text.maxDigits < cs.length) :
    frontEnd.errors (String.ofList cs) = [⟨.integerTooLarge, ⟨.integer, String.ofList cs, .start⟩⟩] := by
  have hne : cs ≠ [] := List.ne_nil_of_length_pos (Nat.lt_of_le_of_lt (Nat.zero_le _) hlength)
  have htokens := tokensOf_digits hne hdigits
  have hlarge : (⟨.integer, String.ofList cs, .start⟩ : Token).isTooLarge = true := by
    rw [Token.isTooLarge, Token.isOverlong, String.toList_ofList, decide_eq_true hlength, Bool.or_true]
    rfl
  cases frontEnd with
  | descent =>
    have hparse : Parse.ofString (String.ofList cs) = Parse.ofTokens (rules (tokensOf (String.ofList cs)).length)
      (Cursor.ofString (String.ofList cs)).finish (tokensOf (String.ofList cs)).length (tokensOf (String.ofList cs))
      [] := rfl
    rw [FrontEnd.errors, hparse, htokens, List.length_singleton, Parse.ofTokens, statement_of_tooLarge _ rfl hlarge]
    rfl
  | automaton =>
    have hfind : [(⟨.integer, String.ofList cs, .start⟩ : Token)].find? Token.isTooLarge = some _ :=
      List.find?_cons_of_pos hlarge
    rw [FrontEnd.errors, parse_eq_parseTokens, htokens, parseTokens, hfind]
    rfl

theorem overlong?_of_digits {cs : List Char} (hdigits : cs.all Char.isDigit = true)
    (hlength : Text.maxDigits < cs.length) :
    frontEnd.overlong? (String.ofList cs) = some ⟨.integer, String.ofList cs, .start⟩ := by
  have hoverlong : (⟨.integer, String.ofList cs, .start⟩ : Token).isOverlong = true := by
    rw [Token.isOverlong, String.toList_ofList]
    exact decide_eq_true hlength
  rw [FrontEnd.overlong?, errors_of_digits hdigits hlength, List.find?_cons_of_pos (by simpa using hoverlong)]
  rfl

end MonkeyLanguage
