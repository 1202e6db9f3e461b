import MonkeyLanguage.Proofs.Parser.Derivation
import MonkeyLanguage.Proofs.Parser.Reading
import MonkeyLanguage.Session

/-!
# The language of both front ends

The automaton accepts the sentences of the grammar and builds the tree that each stands for.  It accepts
nothing else: what it accepts is parsed by descent without a failure, and such a parse is a derivation.
So both front ends accept the programs of the grammar, and running a text does not depend on the front end.
-/

namespace MonkeyLanguage

open Automaton Category

variable {ts : List Token} {nodes nodes' : List Node}

theorem accepts_iff_derives : Accepts .initial ts nodes ↔ Derives (statements nodes) ts [] := by
  refine ⟨fun h => ?_, accepts_of_derives⟩
  have hreads := @ofTokens_reads ts.length ts.length .start ts [] [] (Nat.le_refl _) (Nat.le_refl _)
  cases hfailures : (Parse.ofTokens (rules ts.length) .start ts.length ts []).failures with
  | nil =>
    have hderives := derives_ofTokens [] (Nat.le_refl _) (Nat.le_refl _) hfailures
    simp only [hfailures] at hreads
    rw [h.unique hreads]
    exact hderives
  | cons failure failures =>
    simp only [hfailures] at hreads
    exact absurd h hreads.not_accepts

/-- The grammar is not ambiguous. -/
theorem derives_unique (h : Derives (statements nodes) ts []) (h' : Derives (statements nodes') ts []) :
    nodes = nodes' :=
  (accepts_of_derives h).unique (accepts_of_derives h')

/-- What each front end accepts are the programs of the grammar. -/
theorem parse_eq_iff_derives {frontEnd : FrontEnd} {source : String} :
    frontEnd.parse source = (nodes, []) ↔ Derives (statements nodes) (tokensOf source) [] := by
  rw [← accepts_iff_derives]
  cases frontEnd with
  | descent => exact descent_eq_iff
  | automaton =>
    rw [← automaton_eq_iff, FrontEnd.parse]
    cases Automaton.parse source with
    | ok nodes' => simp
    | error e => simp

theorem parse_of_words {frontEnd : FrontEnd} {source : String}
    (hwords : (tokensOf source).map Token.word = ts.map Token.word) (h : Derives (statements nodes) ts []) :
    frontEnd.parse source = (nodes, []) := by
  obtain ⟨σ', htakes, hend⟩ := accepts_of_derives h
  exact parse_eq_iff_derives.2 (accepts_iff_derives.1 ⟨σ', (takes_congr hwords _).trans htakes, hend⟩)

/-- Both front ends accept the same texts and build the same statements, those of the grammar, whether its own
terminals cut the text into tokens or the lexer does.  So a run does not depend on the front end but for the messages
of a text that is no program. -/
theorem frontEnds_agree (source : String) :
    ((FrontEnd.descent.parse source).2 = [] ↔ ∃ statements, Automaton.parse source = .ok statements) ∧
    (∀ statements, FrontEnd.descent.parse source = (statements, []) ↔
      Automaton.parse source = .ok statements) ∧
    (∀ statements, Automaton.parse source = .ok statements ↔
      Derives (.statements statements) (Automaton.tokens source) []) ∧
    (∀ statements, Automaton.parse source = .ok statements ↔
      Derives (.statements statements) (tokensOf source) []) ∧
    ∀ (session : Session) (table : BuiltinTable),
      (∃ statements, ∀ frontEnd,
        session.run frontEnd table source = session.evaluate table (.program statements)) ∨
      (∀ frontEnd, ∃ messages, messages ≠ [] ∧
        session.run frontEnd table source = ⟨.rejected messages, "", session⟩) := by
  have hiff (statements : List Node) : FrontEnd.descent.parse source = (statements, []) ↔
      Automaton.parse source = .ok statements := descent_eq_iff.trans automaton_eq_iff.symm
  have hgrammar (statements : List Node) := (@parseTokens_eq_ok_iff statements (Automaton.tokens source)).trans
    accepts_iff_derives
  have hlexer (statements : List Node) := (@automaton_eq_iff source statements).trans accepts_iff_derives
  refine ⟨⟨fun h => ⟨_, (hiff _).1 (Prod.ext rfl h)⟩, fun ⟨_, h⟩ => ?_⟩, hiff, hgrammar, hlexer,
    fun session table => ?_⟩
  · rw [(hiff _).2 h]
  · cases hautomaton : Automaton.parse source with
    | ok statements =>
      have hdescent := (hiff statements).2 hautomaton
      refine .inl ⟨statements, fun frontEnd => ?_⟩
      cases frontEnd with
      | descent => simp [Session.run, hdescent]
      | automaton => simp [Session.run, FrontEnd.parse, hautomaton]
    | error e =>
      refine .inr fun frontEnd => ?_
      cases frontEnd with
      | automaton => exact ⟨[e.text], by simp, by simp [Session.run, FrontEnd.parse, hautomaton]⟩
      | descent =>
        cases hdescent : FrontEnd.descent.parse source with
        | mk statements messages =>
          cases messages with
          | nil =>
            rw [(hiff statements).1 hdescent] at hautomaton
            cases hautomaton
          | cons message messages =>
            exact ⟨message :: messages, by simp, by simp [Session.run, hdescent]⟩

end MonkeyLanguage
