import MonkeyLanguage.Proofs.Parser.Blame
import MonkeyLanguage.Proofs.Parser.WellFormed

/-!
# Programs that are left of malformed texts

The statements that the parser keeps of a text are statements of the language, also where others beside them are
malformed (`allStatements_of_any_text`): each is a statement of the grammar, made of tokens of the text.
-/

namespace MonkeyLanguage

open Node

variable {ts : List Token} {finish : Position} {brackets : OpenBrackets} {parse : Parse} {node : Node} {e : ParseError}
  {s : TokenStream}

theorem StatementGives.wellFormed (h : StatementGives ts finish (.ok node s)) (hts : ∀ t ∈ ts, t.Spelt) :
    node.isStatement = true ∧ ∀ t ∈ s.tokens, t.Spelt := by
  have hyields := statement_yields (sound_rules ts.length) (Nat.le_succ _) node s (h ts.length (Nat.le_refl _))
  obtain ⟨-, -, ended, hderives, -⟩ := hyields
  exact wellFormed_of_derives hderives hts

theorem StatementGives.suffix_of_error (h : StatementGives ts finish (.error e s)) : s.tokens <:+ ts :=
  ⟨s.read.reverse, Automaton.read_append_tokens_of_error (statementGives_error_iff.1 h)⟩

theorem Parse.Run.allStatements (h : Parse.Run finish ts brackets parse) (hts : ∀ t ∈ ts, t.Spelt) :
    allStatements parse.statements = true := by
  induction h with
  | done => rfl
  | statement hgives _ ih =>
    obtain ⟨hnode, hrest⟩ := hgives.wellFormed hts
    exact Bool.and_eq_true_iff.2 ⟨hnode, ih hrest⟩
  | failure hgives hskip _ ih =>
    exact ih fun t ht => hts t (hgives.suffix_of_error.subset ((suffix_of_skipStatement hskip).subset ht))

/-- Whatever the text, a front end gives statements of the language. -/
theorem allStatements_of_any_text (frontEnd : FrontEnd) (source : String) :
    allStatements (frontEnd.parse source).1 = true := by
  cases frontEnd with
  | descent =>
    exact (run_ofTokens [] (Nat.le_refl _) (Nat.le_refl _)).allStatements fun t => spelt_of_mem_tokensOf
  | automaton =>
    cases hparse : Automaton.parse source with
    | ok statements =>
      have haccepted : FrontEnd.automaton.parse source = (statements, []) := by rw [FrontEnd.parse, hparse]
      rw [haccepted]
      exact allStatements_of_parse haccepted
    | error e =>
      have hrejected : FrontEnd.automaton.parse source = ([], [e.text]) := by rw [FrontEnd.parse, hparse]
      rw [hrejected]
      rfl

end MonkeyLanguage
