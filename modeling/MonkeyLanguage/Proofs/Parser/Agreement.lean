import MonkeyLanguage.Parser.FrontEnd
import MonkeyLanguage.Proofs.Parser.Descent
import MonkeyLanguage.Proofs.Parser.Surroundings
import MonkeyLanguage.Proofs.Parser.Terminals

/-!
# The two front ends agree

Either the automaton takes all tokens of a text and the program may end behind them (`Accepts`), or there
is a first token that cannot be taken (`Rejects`).  Parsing by descent reports no failure in the first
case, and blames that token first in the second (`ofTokens_reads`).  So both front ends accept the same
texts with the same statements (`descent_eq_iff`, `automaton_eq_iff`).
-/

namespace MonkeyLanguage

open Automaton

namespace Automaton

/-- The automaton takes the tokens, and the program may end behind them with these statements. -/
def Accepts (σ : State) (tokens : List Token) (statements : List Node) : Prop :=
  ∃ σ', σ.takes tokens = some σ' ∧ σ'.statements? = some statements

/-- The error of a text that ends at `finish`: the state behind the tokens `taken` complains of the next token,
which is the end token if the text ends too early. -/
structure Blocks (σ : State) (finish : Position) (e : ParseError) (taken rest : List Token) (σ' : State) :
    Prop where
  takes_eq : σ.takes taken = some σ'
  token_eq : e.token = rest.headD (.endAt finish)
  take_eq : σ'.take e.token = none
  end_eq : rest = [] → σ'.statements? = none
  complaint_eq : e = (σ'.settle e.token.kind).complaint e.token

/-- The automaton does not take all tokens to the end of a program, which the error says. -/
def Rejects (σ : State) (tokens : List Token) (finish : Position) (e : ParseError) : Prop :=
  ∃ taken rest σ', tokens = taken ++ rest ∧ Blocks σ finish e taken rest σ'

variable {σ σ₁ σ' : State} {s : TokenStream} {taken rest : List Token} {statements : List Node}
  {finish : Position} {e : ParseError}

theorem Accepts.prepend (ht : σ.takes taken = some σ₁) (h : Accepts σ₁ rest statements) :
    Accepts σ (taken ++ rest) statements := by
  obtain ⟨σ', htakes, hend⟩ := h
  refine ⟨σ', ?_, hend⟩
  rw [takes_append, ht]
  exact htakes

theorem Rejects.prepend (ht : σ.takes taken = some σ₁) (h : Rejects σ₁ rest finish e) :
    Rejects σ (taken ++ rest) finish e := by
  obtain ⟨taken', rest', σ', rfl, hblocks⟩ := h
  refine ⟨taken ++ taken', rest', σ', by simp, { hblocks with takes_eq := ?_ }⟩
  rw [takes_append, ht]
  exact hblocks.takes_eq

theorem Accepts.of_settle (h : Accepts (σ.settle s.peek.kind) s.tokens statements) :
    Accepts σ s.tokens statements := by
  obtain ⟨read, _ | ⟨token, rest⟩, finish⟩ := s
  · obtain ⟨σ', htakes, hend⟩ := h
    cases htakes
    exact ⟨σ, rfl, (statements?_settle σ).symm.trans hend⟩
  · obtain ⟨σ', htakes, hend⟩ := h
    refine ⟨σ', ?_, hend⟩
    rw [takes_cons, ← take_settle]
    exact htakes

theorem Rejects.of_settle (h : Rejects (σ.settle s.peek.kind) s.tokens s.finish e) :
    Rejects σ s.tokens s.finish e := by
  obtain ⟨taken, rest, σ', htokens, hblocks⟩ := h
  cases taken with
  | nil =>
    obtain ⟨htakes, htoken, hnone, hend, hcomplaint⟩ := hblocks
    cases htakes
    have hpeek : e.token = s.peek := by rw [htoken, TokenStream.peek, htokens]; rfl
    refine ⟨[], rest, σ, htokens, rfl, htoken, ?_, fun hrest => ?_, ?_⟩
    · rw [← take_settle, hpeek]
      exact hpeek ▸ hnone
    · have hkind : s.peek.kind = .eof := by
        rw [TokenStream.peek, htokens, hrest]
        rfl
      rw [← statements?_settle, ← hkind]
      exact hend hrest
    · rw [hpeek, settle_settle] at hcomplaint
      rw [hpeek]
      exact hcomplaint
  | cons token taken =>
    have hpeek : s.peek = token := by rw [TokenStream.peek, htokens]; rfl
    refine ⟨token :: taken, rest, σ', htokens, { hblocks with takes_eq := ?_ }⟩
    have htakes := hblocks.takes_eq
    rw [takes_cons, ← hpeek] at htakes
    rw [takes_cons, ← take_settle, ← hpeek]
    exact htakes

theorem Accepts.unique {statements' : List Node} (h : Accepts σ rest statements)
    (h' : Accepts σ rest statements') : statements = statements' := by
  obtain ⟨σ₁, htakes, hend⟩ := h
  obtain ⟨σ₂, htakes', hend'⟩ := h'
  rw [htakes] at htakes'
  cases htakes'
  exact Option.some.inj (hend.symm.trans hend')

theorem Rejects.not_accepts (h : Rejects σ rest finish e) : ¬Accepts σ rest statements := by
  rintro ⟨σ₂, htakes₂, hend₂⟩
  obtain ⟨taken, rest, σ', rfl, hblocks⟩ := h
  rw [takes_append, hblocks.takes_eq] at htakes₂
  cases rest with
  | nil =>
    cases htakes₂
    rw [hblocks.end_eq rfl] at hend₂
    cases hend₂
  | cons token rest =>
    have hnone := hblocks.take_eq
    rw [hblocks.token_eq, List.headD_cons] at hnone
    simp [hnone] at htakes₂

/-- A program that may end behind a settled state ends at the end of a statement. -/
theorem statement_of_statements? (h : (σ.settle .eof).statements? = some statements) :
    ∃ before, σ.settle .eof = .statement (.program before) := by
  have hexpr (hole : ExpressionHole) (left : Node)
      (h : (hole.settle left .eof).statements? = some statements) :
      ∃ before, hole.settle left .eof = .statement (.program before) := by
    unfold ExpressionHole.settle at h ⊢
    cases happ : hole.apply Token.Kind.eof.level left with
    | mk whole outer =>
      rw [happ] at h
      have happ : hole.apply .expr left = (whole, outer) := happ
      cases outer with
      | returnValue outer =>
        cases outer <;> simp_all [State.statements?, StatementHole.add, Token.Kind.level_eq]
      | statement outer =>
        cases outer <;> simp_all [State.statements?, StatementHole.add, Token.Kind.level_eq]
      | _ => simp [State.statements?, ExpressionHole.statements?, apply_apply happ] at h
  cases σ with
  | operator left hole => exact hexpr hole left h
  | elseWord condition consequence hole => exact hexpr hole _ h
  | statement hole =>
    cases hole with
    | program before => exact ⟨before, rfl⟩
    | _ => cases h
  | _ => cases h

theorem rejects_of_scan_error {before : List Node} {s' : TokenStream} (hs : s.tokens ≠ [])
    (h : scan before.length (.statement (.program before)) s = .error e s') :
    Rejects (.statement (.program before)) s.tokens s.finish e := by
  obtain ⟨tokens, σ', s₁, hmoves, hstuck, hcompleted, rfl, -⟩ := moves_of_scan_error h
  refine ⟨tokens, s₁.tokens, σ', hmoves.tokens_eq, hmoves.takes_eq, ?_, hstuck, fun hrest => ?_, rfl⟩
  · rw [← hmoves.finish_eq]
    rfl
  · rw [TokenStream.peek_of_nil hrest] at hcompleted
    cases tokens with
    | nil => exact absurd (hmoves.tokens_eq.trans hrest) hs
    | cons token tokens =>
      have hbeyond : (σ'.settle .eof).Beyond before.length :=
        beyond_settle (beyond_takes (Nat.le_refl _) hmoves.takes_eq) _
      rw [← statements?_settle, Option.eq_none_iff_forall_ne_some]
      intro statements hend
      obtain ⟨after, hafter⟩ := statement_of_statements? hend
      rw [hafter] at hbeyond
      change (σ'.settle .eof).completed before.length = none at hcompleted
      have hlt : before.length < after.length := hbeyond
      simp [hafter, State.completed, hlt] at hcompleted

end Automaton

open Automaton

/-- Without a failure the parse is what the automaton builds; the first failure blames the token that the
automaton cannot take. -/
theorem ofTokens_reads {m n : Nat} {finish : Position} {ts : List Token} (brackets : OpenBrackets)
    (before : List Node) (hn : ts.length ≤ n) (hm : n ≤ m) :
    let parse := Parse.ofTokens (rules m) finish n ts brackets
    match parse.failures with
    | [] => Accepts (.statement (.program before)) ts (before.reverse ++ parse.statements)
    | failure :: _ => Rejects (.statement (.program before)) ts finish failure.2 := by
  induction n generalizing ts brackets before with
  | zero =>
    obtain rfl : ts = [] := List.length_eq_zero_iff.1 (Nat.le_zero.1 hn)
    exact ⟨_, rfl, by simp [Parse.ofTokens, State.statements?]⟩
  | succ n ih =>
    cases ts with
    | nil => exact ⟨_, rfl, by simp [Parse.ofTokens, State.statements?]⟩
    | cons first rest =>
      have hlen : (first :: rest).length ≤ m := Nat.le_trans hn hm
      have hscan := statement_eq_scan (s := ⟨[], first :: rest, finish⟩) before hlen
      rw [Parse.ofTokens]
      cases hstatement : (rules m).statement ⟨[], first :: rest, finish⟩ with
      | error e s' =>
        rw [hstatement] at hscan
        exact rejects_of_scan_error (List.cons_ne_nil _ _) hscan
      | ok node s' =>
        rw [hstatement] at hscan
        have hshorter : s'.tokens.length ≤ (first :: rest).length - 1 :=
          length_of_statement_ok hlen hstatement
        obtain ⟨tokens, σ', hmoves, hsettle⟩ := moves_of_scan_ok hscan
        have htokens : first :: rest = tokens ++ s'.tokens := hmoves.tokens_eq
        have hfinish : s'.finish = finish := hmoves.finish_eq
        have hlength : s'.tokens.length ≤ n := by
          simp only [List.length_cons] at hn hshorter
          omega
        have hrest := ih (brackets.readAll s'.read) (node :: before) hlength (by omega)
        rw [htokens]
        simp only at hrest ⊢
        split at hrest
        · rw [← hsettle] at hrest
          simpa using hrest.of_settle.prepend hmoves.takes_eq
        · rw [← hsettle] at hrest
          subst hfinish
          exact hrest.of_settle.prepend hmoves.takes_eq

/-! ## Whole texts -/

variable {source : String} {statements : List Node}

theorem parse_reads (source : String) :
    match (Parse.ofString source).failures with
    | [] => Accepts .initial (tokensOf source) (Parse.ofString source).statements
    | failure :: _ => Rejects .initial (tokensOf source) (Cursor.ofString source).finish failure.2 :=
  ofTokens_reads [] [] (Nat.le_refl _) (Nat.le_refl _)

theorem descent_eq_iff :
    FrontEnd.descent.parse source = (statements, []) ↔ Accepts .initial (tokensOf source) statements := by
  have hreads := parse_reads source
  rw [FrontEnd.parse, Prod.mk.injEq, Parse.messages, List.map_eq_nil_iff]
  split at hreads
  · next hf => exact ⟨fun h => h.1 ▸ hreads, fun h => ⟨hreads.unique h, hf⟩⟩
  · next hf => simp [hf, hreads.not_accepts]

theorem parseTokens_eq_ok_iff {ts : List Token} :
    Automaton.parseTokens ts = .ok statements ↔ Accepts .initial ts statements := by
  simp only [Accepts, takes_eq_some_iff, Automaton.parseTokens]
  cases hrun : State.initial.run ts with
  | error stuck => simp
  | ok σ =>
    have hlarge : ts.find? Token.isTooLarge = none ↔ ∀ t ∈ ts, t.isTooLarge = false := by
      simp [List.find?_eq_none]
    cases hend : σ.statements? with
    | none => simp [hend]
    | some nodes =>
      cases hfind : ts.find? Token.isTooLarge with
      | none =>
        have hall := hlarge.1 hfind
        simp only [hend, Except.ok.injEq]
        constructor
        · rintro rfl
          exact ⟨σ, ⟨rfl, hall⟩, hend⟩
        · rintro ⟨_, ⟨rfl, -⟩, hend'⟩
          exact Option.some.inj (hend.symm.trans hend')
      | some t =>
        have hnot := mt hlarge.2 (by simp [hfind])
        simp [hend, hnot]

theorem automaton_eq_iff :
    Automaton.parse source = .ok statements ↔ Accepts .initial (tokensOf source) statements := by
  rw [parse_eq_parseTokens]
  exact parseTokens_eq_ok_iff

end MonkeyLanguage
