import Mathlib.Data.List.Forall2
import MonkeyLanguage.Proofs.Parser.Resumption
import MonkeyLanguage.Proofs.Parser.Terminals
import MonkeyLanguage.Proofs.Session.Sequence

/-!
# Layout

Where the tokens of a text stand makes no difference to what the text is parsed to, nor to what a run of it does.  It
only shows in the places of errors, and these blame the same tokens (`layout_irrelevant`).

Tokens with numbers in place of lines (`Token.numbered`) are what two texts of different layout have in common: each
text is parsed like its numbered tokens, moved to where its own tokens stand (`ofString_eq_moved`).
-/

namespace MonkeyLanguage

open Automaton

variable {t : Token} {ts : List Token} {finish : Position}

/-! ## Numbered tokens -/

/-- Tokens of these kinds and values, with their numbers in place of lines. -/
def Token.numbered (words : List (Token.Kind × String)) : List Token :=
  words.mapIdx fun number word => ⟨word.1, word.2, ⟨number, 0⟩⟩

/-- Where the token with this number stands. -/
def placeOf (ts : List Token) (number : Position) : Position :=
  (ts[number.line]?.map Token.position).getD .start

theorem getElem?_numbered (ts : List Token) (i : Nat) :
    (Token.numbered (ts.map Token.word))[i]? = ts[i]?.map fun t => ⟨t.kind, t.value, ⟨i, 0⟩⟩ := by
  rw [Token.numbered, List.getElem?_mapIdx, List.getElem?_map, Option.map_map]
  rfl

theorem getElem?_of_mem_numbered (h : t ∈ Token.numbered (ts.map Token.word)) :
    ts[t.position.line]? = some (t.moved (placeOf ts)) := by
  obtain ⟨i, hi⟩ := List.mem_iff_getElem?.1 h
  rw [getElem?_numbered] at hi
  obtain ⟨u, hu, rfl⟩ := Option.map_eq_some_iff.1 hi
  rw [hu, Token.moved, placeOf, hu]
  rfl

theorem map_moved_numbered (ts : List Token) :
    (Token.numbered (ts.map Token.word)).map (Token.moved (placeOf ts)) = ts := by
  refine List.ext_getElem? fun i => ?_
  rw [List.getElem?_map, getElem?_numbered]
  cases h : ts[i]? with
  | none => rfl
  | some t =>
    rw [Option.map_some, Option.map_some, Token.moved, placeOf, h]
    rfl

theorem numbered_append_end (ts : List Token) (finish : Position) :
    Token.numbered ((ts ++ [Token.endAt finish]).map Token.word) =
      Token.numbered (ts.map Token.word) ++ [Token.endAt ⟨ts.length, 0⟩] := by
  rw [List.map_append, Token.numbered, List.map_singleton, List.mapIdx_concat, List.length_map]
  rfl

theorem tokensOf_eq_moved (source : String) :
    tokensOf source =
        (Token.numbered ((tokensOf source).map Token.word)).map (Token.moved (placeOf (tokenize source))) ∧
      (Cursor.ofString source).finish = placeOf (tokenize source) ⟨(tokensOf source).length, 0⟩ := by
  have hmoved : (Token.numbered ((tokensOf source).map Token.word) ++
      [Token.endAt ⟨(tokensOf source).length, 0⟩]).map (Token.moved (placeOf (tokenize source))) =
        tokensOf source ++ [Token.endAt (Cursor.ofString source).finish] := by
    rw [← numbered_append_end _ (Cursor.ofString source).finish]
    exact map_moved_numbered (tokenize source)
  rw [List.map_append] at hmoved
  obtain ⟨htokens, hend⟩ := List.append_singleton_inj.1 hmoved
  exact ⟨htokens.symm, (congrArg Token.position hend).symm⟩

/-! ## Parsing with recovery -/

theorem peek_mem (s : TokenStream) : s.peek ∈ s.tokens ++ [.endAt s.finish] := by
  obtain ⟨read, _ | ⟨t, ts⟩, finish⟩ := s
  · exact List.mem_singleton_self _
  · exact List.mem_cons_self

theorem token_mem_of_mem_failures {m n : Nat} {brackets : OpenBrackets} (hm : ts.length ≤ m) :
    ∀ failure ∈ (Parse.ofTokens (rules m) finish n ts brackets).failures,
      failure.2.token ∈ ts ++ [Token.endAt finish] := by
  induction n generalizing ts brackets with
  | zero => simp [Parse.ofTokens]
  | succ n ih =>
    cases ts with
    | nil => simp [Parse.ofTokens]
    | cons t ts =>
      have hrest {left : List Token} (hleft : left <:+ t :: ts) (kept : OpenBrackets) :
          ∀ failure ∈ (Parse.ofTokens (rules m) finish n left kept).failures,
            failure.2.token ∈ t :: ts ++ [Token.endAt finish] := by
        intro failure hfailure
        rcases List.mem_append.1 (ih (Nat.le_trans hleft.length_le hm) failure hfailure) with hmem | hend
        · exact List.mem_append_left _ (hleft.subset hmem)
        · exact List.mem_append_right _ hend
      cases hstatement : (rules m).statement ⟨[], t :: ts, finish⟩ with
      | ok node s' =>
        obtain ⟨taken, σ', hmoves, -⟩ := moves_of_scan_ok ((statement_ok_iff hm).1 hstatement)
        rw [ofTokens_of_ok brackets n hstatement]
        exact hrest ⟨taken, hmoves.tokens_eq.symm⟩ _
      | error e s' =>
        have hscan := (statement_error_iff hm).1 hstatement
        have hleft : s'.tokens <:+ t :: ts := ⟨s'.read.reverse, read_append_tokens_of_error hscan⟩
        have he : e.token ∈ t :: ts ++ [Token.endAt finish] := by
          obtain ⟨taken, σ', s₁, hmoves, -, -, rfl, -⟩ := moves_of_scan_error hscan
          have hpeek := peek_mem s₁
          rw [hmoves.finish_eq] at hpeek
          have htokens : t :: ts = taken ++ s₁.tokens := hmoves.tokens_eq
          rw [htokens, List.append_assoc]
          exact List.mem_append_right taken hpeek
        rw [ofTokens_of_error n hstatement rfl]
        exact List.forall_mem_cons.2 ⟨he, hrest ((skipStatement_suffix ..).trans hleft) _⟩

/-- The parse of tokens of these kinds and values that are numbered. -/
def Parse.ofWords (words : List (Token.Kind × String)) : Parse :=
  ofList ⟨words.length, 0⟩ (Token.numbered words)

/-- A text is parsed like its numbered tokens, moved to where the tokens of the text stand. -/
theorem ofString_eq_moved (source : String) :
    Parse.ofString source =
      (Parse.ofWords ((tokensOf source).map Token.word)).moved (placeOf (tokenize source)) := by
  obtain ⟨htokens, hfinish⟩ := tokensOf_eq_moved source
  rw [Parse.ofWords, ← Parse.ofList_moved, List.length_map, ← hfinish, ← htokens]
  rfl

theorem getElem?_of_mem_failures {source : String} {failure : StatementForm × ParseError}
    (h : failure ∈ (Parse.ofWords ((tokensOf source).map Token.word)).failures) :
    (tokenize source)[failure.2.token.position.line]? =
      some (failure.2.moved (placeOf (tokenize source))).token := by
  have hmem := token_mem_of_mem_failures (Nat.le_refl _) failure h
  rw [List.length_map, ← numbered_append_end _ (Cursor.ofString source).finish] at hmem
  exact getElem?_of_mem_numbered hmem

/-! ## Parsing without recovery -/

theorem run_moved (f : Position → Position) (σ : State) (ts : List Token) :
    σ.run (ts.map (Token.moved f)) = (σ.run ts).mapError fun stuck => (stuck.1, stuck.2.moved f) := by
  induction ts generalizing σ with
  | nil => rfl
  | cons t ts ih =>
    have hshift : σ.shift (t.moved f) = σ.shift t := shift_congr rfl σ
    rw [List.map_cons, State.run, State.run, hshift]
    cases σ.shift t with
    | none => rfl
    | some next => exact ih next

theorem message_blame_moved (f : Position → Position) (t : Token) :
    (blame (t.moved f)).message = (blame t).message := by
  obtain ⟨kind, value, place⟩ := t
  cases kind <;> rfl

theorem parseTokens_moved (f : Position → Position) (ts : List Token) :
    (parseTokens (ts.map (Token.moved f))).mapError ParseError.message =
      (parseTokens ts).mapError ParseError.message := by
  have hfind : (ts.map (Token.moved f)).find? Token.isTooLarge = (ts.find? Token.isTooLarge).map (Token.moved f) :=
    List.find?_map
  rw [parseTokens, parseTokens, run_moved, hfind]
  cases State.initial.run ts with
  | error stuck => exact congrArg Except.error (message_blame_moved f stuck.2)
  | ok σ =>
    cases h : σ.statements? with
    | none => simp [Except.mapError, h]; rfl
    | some statements =>
      cases ts.find? Token.isTooLarge <;> simp [Except.mapError, h]; rfl

theorem mapError_message_parse (source : String) :
    (Automaton.parse source).mapError ParseError.message =
      (parseTokens (Token.numbered ((tokensOf source).map Token.word))).mapError ParseError.message := by
  rw [parse_eq_parseTokens]
  conv => lhs; rw [(tokensOf_eq_moved source).1]
  exact parseTokens_moved _ _

/-! ## Texts of the same tokens -/

/-- The front end finds the same statements in both texts, and as many errors. -/
def FrontEnd.FindsSame (frontEnd : FrontEnd) (a b : String) : Prop :=
  (frontEnd.parse a).1 = (frontEnd.parse b).1 ∧ (frontEnd.parse a).2.length = (frontEnd.parse b).2.length

theorem FrontEnd.FindsSame.run_eq {frontEnd : FrontEnd} {a b : String} (h : frontEnd.FindsSame a b) (s : Session)
    (table : BuiltinTable) :
    s.run frontEnd table a = s.run frontEnd table b ∨
      ∃ messages messages', messages.length = messages'.length ∧
        s.run frontEnd table a = ⟨.rejected messages, "", s⟩ ∧
        s.run frontEnd table b = ⟨.rejected messages', "", s⟩ := by
  obtain ⟨hstatements, hlength⟩ := h
  by_cases hmessages : (frontEnd.parse a).2 = []
  · have hmessages' : (frontEnd.parse b).2 = [] := by
      rwa [← List.length_eq_zero_iff, ← hlength, List.length_eq_zero_iff]
    have ha : frontEnd.parse a = ((frontEnd.parse a).1, []) := Prod.ext rfl hmessages
    have hb : frontEnd.parse b = ((frontEnd.parse a).1, []) := Prod.ext hstatements.symm hmessages'
    exact .inl (by rw [Session.run_of_parse ha, Session.run_of_parse hb])
  · have hmessages' : (frontEnd.parse b).2 ≠ [] := by
      rwa [← List.length_pos_iff, ← hlength, List.length_pos_iff]
    exact .inr ⟨_, _, hlength, Session.run_of_messages hmessages, Session.run_of_messages hmessages'⟩

theorem FrontEnd.FindsSame.of_mapError {a b : String}
    (h : (Automaton.parse a).mapError ParseError.message = (Automaton.parse b).mapError ParseError.message) :
    FrontEnd.automaton.FindsSame a b := by
  cases ha : Automaton.parse a with
  | error e =>
    cases hb : Automaton.parse b with
    | error e' => simp [FindsSame, FrontEnd.parse, ha, hb]
    | ok statements' =>
      rw [ha, hb] at h
      cases h
  | ok statements =>
    cases hb : Automaton.parse b with
    | error e' =>
      rw [ha, hb] at h
      cases h
    | ok statements' =>
      rw [ha, hb] at h
      simp [FindsSame, FrontEnd.parse, ha, hb, Except.ok.inj h]

/-- Texts with the same tokens but for their places have the same statements, and errors that say the same of the same
tokens.  Without recovery both are rejected, with the same complaint, or none is.  Runs of them do the same unless
both are rejected. -/
theorem layout_irrelevant {a b : String} (h : (tokenize a).map Token.word = (tokenize b).map Token.word) :
    (Parse.ofString a).statements = (Parse.ofString b).statements ∧
      (Parse.ofString a).failures.Forall₂ (fun failure failure' => failure.1 = failure'.1 ∧
          failure.2.message = failure'.2.message ∧
          ∃ i : Nat, (tokenize a)[i]? = some failure.2.token ∧ (tokenize b)[i]? = some failure'.2.token)
        (Parse.ofString b).failures ∧
      (Parse.ofString a).openAtEnd = (Parse.ofString b).openAtEnd ∧
      (Automaton.parse a).mapError ParseError.message = (Automaton.parse b).mapError ParseError.message ∧
      ∀ (s : Session) (frontEnd : FrontEnd) (table : BuiltinTable),
        s.run frontEnd table a = s.run frontEnd table b ∨
          ∃ messages messages', messages.length = messages'.length ∧
            s.run frontEnd table a = ⟨.rejected messages, "", s⟩ ∧
            s.run frontEnd table b = ⟨.rejected messages', "", s⟩ := by
  have hwords : (tokensOf a).map Token.word = (tokensOf b).map Token.word := by
    have htokenize (source : String) : (tokenize source).map Token.word =
        (tokensOf source).map Token.word ++ [(Token.endAt (Cursor.ofString source).finish).word] := List.map_append
    rw [htokenize, htokenize] at h
    exact (List.append_singleton_inj.1 h).1
  let parse := Parse.ofWords ((tokensOf a).map Token.word)
  have ha : Parse.ofString a = parse.moved (placeOf (tokenize a)) := ofString_eq_moved a
  have hb : Parse.ofString b = parse.moved (placeOf (tokenize b)) := by
    rw [ofString_eq_moved b, ← hwords]
  have hautomaton : (Automaton.parse a).mapError ParseError.message =
      (Automaton.parse b).mapError ParseError.message := by
    rw [mapError_message_parse, mapError_message_parse, hwords]
  refine ⟨?_, ?_, ?_, hautomaton, fun s frontEnd table => ?_⟩
  · rw [ha, hb]
    rfl
  · rw [ha, hb, Parse.moved, Parse.moved, List.forall₂_map_left_iff, List.forall₂_map_right_iff, List.forall₂_same]
    intro failure hfailure
    exact ⟨rfl, rfl, _, getElem?_of_mem_failures hfailure, getElem?_of_mem_failures (hwords ▸ hfailure)⟩
  · rw [ha, hb]
    rfl
  · refine FrontEnd.FindsSame.run_eq ?_ s table
    cases frontEnd with
    | descent =>
      constructor
      · rw [FrontEnd.parse, FrontEnd.parse, ha, hb]
        rfl
      · simp only [FrontEnd.parse, ha, hb, Parse.messages, Parse.moved, List.length_map]
    | automaton => exact .of_mapError hautomaton

theorem layout_irrelevant_of_lines :
    (Parse.ofString "let x 5; y").statements = (Parse.ofString "let\n\tx\r\n5 ;y").statements ∧
      (Automaton.parse "let x 5; y").mapError ParseError.message =
        (Automaton.parse "let\n\tx\r\n5 ;y").mapError ParseError.message := by
  have hwords : (tokenize "let x 5; y").map Token.word = (tokenize "let\n\tx\r\n5 ;y").map Token.word := by
    decide +kernel
  obtain ⟨hstatements, -, -, hautomaton, -⟩ := layout_irrelevant hwords
  exact ⟨hstatements, hautomaton⟩

end MonkeyLanguage
