import MonkeyLanguage.Proofs.Parser.Language
import MonkeyLanguage.Proofs.Parser.Resumption
import MonkeyLanguage.Proofs.Parser.Viability
import MonkeyLanguage.Proofs.Token.Words

/-!
# Programs put together

Behind its last semicolon a program is at rest, so that the statements of another can follow.  A program that ends in
a semicolon and any other program are together the program of both statement lists (`parse_concatenation`).
-/

namespace MonkeyLanguage

open Automaton Category

variable {ts us : List Token} {nodes nodes' : List Node}

theorem takes_of_accepts (h : Accepts .initial ts nodes) (hlast : ∀ t ∈ ts.getLast?, t.kind = .semicolon) :
    State.initial.takes ts = some (.statement (.program nodes.reverse)) := by
  obtain ⟨σ', htakes, hend⟩ := h
  cases hgetLast : ts.getLast? with
  | none =>
    obtain rfl := List.getLast?_eq_none_iff.1 hgetLast
    obtain rfl := Option.some.inj htakes
    obtain rfl := Option.some.inj hend
    rfl
  | some t =>
    obtain ⟨before, rfl⟩ := List.getLast?_eq_some_iff.1 hgetLast
    have htakes' := htakes
    rw [takes_append] at htakes'
    obtain ⟨σ, -, hσ⟩ := Option.bind_eq_some_iff.1 htakes'
    rw [takes_cons] at hσ
    obtain ⟨τ, hτ, hnil⟩ := Option.bind_eq_some_iff.1 hσ
    obtain rfl := Option.some.inj hnil
    obtain ⟨hole, rfl⟩ := statement_of_take_semicolon (hlast t hgetLast) hτ
    cases hole with
    | program before' =>
      obtain rfl := Option.some.inj hend
      rw [List.reverse_reverse]
      exact htakes
    | _ => cases hend

/-- Another program can follow a program that is empty or ends in a semicolon. -/
theorem accepts_concatenation (h : Accepts .initial ts nodes) (hlast : ∀ t ∈ ts.getLast?, t.kind = .semicolon)
    (h' : Accepts .initial us nodes') : Accepts .initial (ts ++ us) (nodes ++ nodes') := by
  refine .prepend (takes_of_accepts h hlast) ?_
  have hread : (statements nodes').Read us [] := read_of_derives (accepts_iff_derives.1 h')
  refine @hread (.program nodes.reverse) _ ?_
  rw [foldl_add fun _ _ => rfl]
  exact ⟨_, rfl, by rw [State.statements?, List.reverse_append, List.reverse_reverse, List.reverse_reverse]⟩

theorem kind_ne_illegal_of_parse {frontEnd : FrontEnd} {source : String}
    (h : frontEnd.parse source = (nodes, [])) : ∀ t ∈ tokensOf source, t.kind ≠ .illegal := by
  obtain ⟨σ', htakes, -⟩ := accepts_iff_derives.2 (parse_eq_iff_derives.1 h)
  exact fun t ht => (isWord_of_run (takes_eq_some_iff.1 htakes).1 t ht).2

theorem parse_concatenation {frontEnd : FrontEnd} {a b : String} (ha : frontEnd.parse a = (nodes, []))
    (hb : frontEnd.parse b = (nodes', [])) (hlast : ∀ t ∈ (tokensOf a).getLast?, t.kind = .semicolon) :
    frontEnd.parse (a ++ b) = (nodes ++ nodes', []) := by
  have haccepts := accepts_iff_derives.2 (parse_eq_iff_derives.1 ha)
  have haccepts' := accepts_iff_derives.2 (parse_eq_iff_derives.1 hb)
  have hwords : (tokensOf (a ++ b)).map Token.word = (tokensOf a ++ tokensOf b).map Token.word := by
    rw [map_word_tokensOf_append b (kind_ne_illegal_of_parse ha) hlast, List.map_append]
  exact parse_of_words hwords (accepts_iff_derives.1 (accepts_concatenation haccepts hlast haccepts'))

end MonkeyLanguage
