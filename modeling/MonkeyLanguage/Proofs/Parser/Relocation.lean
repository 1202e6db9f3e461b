import MonkeyLanguage.Proofs.Parser.Descent
import MonkeyLanguage.Proofs.Parser.Skipping
import MonkeyLanguage.Proofs.Token.Splitting

/-!
# Parsing the same tokens elsewhere

A parse looks at the kinds and values of tokens and hands on their places.  If tokens are moved, the same
statements are found and the errors move along (`ofTokens_moved`).  The number of rounds and of rules
makes no difference as long as there are enough of them.
-/

namespace MonkeyLanguage

open Automaton

def TokenStream.moved (f : Position → Position) (s : TokenStream) : TokenStream :=
  ⟨s.read.map (Token.moved f), s.tokens.map (Token.moved f), f s.finish⟩

def ParseError.moved (f : Position → Position) (e : ParseError) : ParseError :=
  { e with token := e.token.moved f }

def Parse.moved (f : Position → Position) (p : Parse) : Parse :=
  { p with failures := p.failures.map fun failure => (failure.1, failure.2.moved f) }

variable {f : Position → Position} {s s' : TokenStream} {σ : State} {count n : Nat} {e : ParseError}
  {node : Node}

theorem moved_id (p : Parse) : p.moved id = p := by
  have hfailure : (fun failure : StatementForm × ParseError => (failure.1, failure.2.moved id)) = id := rfl
  rw [Parse.moved, hfailure, List.map_id]

theorem peek_moved (f : Position → Position) (s : TokenStream) : (s.moved f).peek = s.peek.moved f := by
  obtain ⟨read, _ | ⟨t, ts⟩, finish⟩ := s <;> rfl

theorem tail_moved (f : Position → Position) (s : TokenStream) : (s.moved f).tail = s.tail.moved f := by
  obtain ⟨read, _ | ⟨t, ts⟩, finish⟩ := s <;> rfl

theorem readAll_moved (f : Position → Position) (brackets : OpenBrackets) (ts : List Token) :
    brackets.readAll (ts.map (Token.moved f)) = brackets.readAll ts := by
  rw [OpenBrackets.readAll, OpenBrackets.readAll, List.foldr_map]
  rfl

theorem headD_moved (f : Position → Position) (ts : List Token) (t : Token) :
    (ts.map (Token.moved f)).headD (t.moved f) = (ts.headD t).moved f := by
  cases ts <;> rfl

/-! ## Statements -/

/-- The result of reading a stream whose tokens have been moved. -/
def movedResult (f : Position → Position) :
    EStateM.Result ParseError TokenStream (List Node) → EStateM.Result ParseError TokenStream (List Node)
  | .ok nodes s => .ok nodes (s.moved f)
  | .error e s => .error (e.moved f) (s.moved f)

theorem scan_moved (f : Position → Position) (count : Nat) (σ : State) (s : TokenStream) :
    scan count σ (s.moved f) = movedResult f (scan count σ s) := by
  have hpeek (s : TokenStream) (σ : State) : σ.settle (s.moved f).peek.kind = σ.settle s.peek.kind := by
    rw [peek_moved]
    rfl
  have htake (s : TokenStream) (σ : State) : σ.take (s.moved f).peek = σ.take s.peek := by
    rw [peek_moved]
    exact take_congr rfl σ
  fun_induction scan count σ s with
  | case1 σ s settled nodes hc => exact scan_of_completed ((congrArg _ (hpeek s σ)).trans hc)
  | case2 σ s settled hc next ht ih =>
    have hnext : σ.take s.peek = some next := (take_settle σ s.peek).symm.trans ht
    rw [scan_of_take ((congrArg _ (hpeek s σ)).trans hc) ((htake s σ).trans hnext), tail_moved]
    exact ih
  | case3 σ s settled hc ht =>
    have hstuck : σ.take s.peek = none := (take_settle σ s.peek).symm.trans ht
    rw [scan_of_stuck ((congrArg _ (hpeek s σ)).trans hc) ((htake s σ).trans hstuck), hpeek, movedResult,
      State.behind, State.behind, tail_moved, peek_moved]
    split <;> rfl

theorem statement_moved_ok {m : Nat} (f : Position → Position) (hs : s.tokens.length ≤ n)
    (hm : s.tokens.length ≤ m) (h : (rules n).statement s = .ok node s') :
    (rules m).statement (s.moved f) = .ok node (s'.moved f) := by
  have hscan := scan_moved f 0 (.statement (.program [])) s
  rw [(statement_ok_iff hs).1 h] at hscan
  refine (statement_ok_iff ?_).2 hscan
  rw [TokenStream.moved, List.length_map]
  exact hm

theorem statement_moved_error {m : Nat} (f : Position → Position) (hs : s.tokens.length ≤ n)
    (hm : s.tokens.length ≤ m) (h : (rules n).statement s = .error e s') :
    (rules m).statement (s.moved f) = .error (e.moved f) (s'.moved f) := by
  have hscan := scan_moved f 0 (.statement (.program [])) s
  rw [(statement_error_iff hs).1 h] at hscan
  refine (statement_error_iff ?_).2 hscan
  rw [TokenStream.moved, List.length_map]
  exact hm

/-! ## Programs -/

theorem skipStatement_moved (f : Position → Position) (depth : Nat) (last : Token) (brackets : OpenBrackets)
    (ts : List Token) :
    skipStatement depth (last.moved f) brackets (ts.map (Token.moved f)) =
      ((skipStatement depth last brackets ts).1.map (Token.moved f),
        (skipStatement depth last brackets ts).2) := by
  have hkind (t : Token) : (t.moved f).kind = t.kind := rfl
  induction ts generalizing last brackets with
  | nil => rfl
  | cons t ts ih =>
    simp only [List.map_cons, skipStatement, hkind, ih]
    repeat' split
    all_goals rfl

def Parse.append (p q : Parse) : Parse :=
  ⟨p.statements ++ q.statements, p.failures ++ q.failures, q.openAtEnd⟩

section
variable {r : Rules} {finish : Position} {t : Token} {ts left : List Token} {brackets kept : OpenBrackets}

theorem ofTokens_of_ok (brackets : OpenBrackets) (n : Nat)
    (h : r.statement ⟨[], t :: ts, finish⟩ = .ok node s') :
    Parse.ofTokens r finish (n + 1) (t :: ts) brackets =
      .append ⟨[node], [], []⟩ (.ofTokens r finish n s'.tokens (brackets.readAll s'.read)) := by
  rw [Parse.ofTokens, h]
  rfl

theorem ofTokens_of_error (n : Nat) (h : r.statement ⟨[], t :: ts, finish⟩ = .error e s')
    (hskip : skipStatement (brackets.depthAround t.kind) (s'.read.headD t) (brackets.readAll s'.read) s'.tokens =
      (left, kept)) :
    Parse.ofTokens r finish (n + 1) (t :: ts) brackets =
      .append ⟨[], [(.ofKind t.kind, e)], []⟩ (.ofTokens r finish n left kept) := by
  rw [Parse.ofTokens, h]
  simp only [hskip]
  rfl

end

/-- Where the tokens stand only matters to the places of errors. -/
theorem ofTokens_moved {m m' n' : Nat} {finish : Position} {ts : List Token} (f : Position → Position)
    (brackets : OpenBrackets) (hn : ts.length ≤ n) (hm : ts.length ≤ m) (hn' : ts.length ≤ n')
    (hm' : ts.length ≤ m') :
    Parse.ofTokens (rules m') (f finish) n' (ts.map (Token.moved f)) brackets =
      (Parse.ofTokens (rules m) finish n ts brackets).moved f := by
  induction n generalizing ts brackets n' with
  | zero =>
    obtain rfl : ts = [] := List.length_eq_zero_iff.1 (Nat.le_zero.1 hn)
    cases n' <;> rfl
  | succ n ih =>
    cases ts with
    | nil => cases n' <;> rfl
    | cons t ts =>
      cases n' with
      | zero => exact absurd hn' (Nat.not_succ_le_zero _)
      | succ n' =>
        have hs : (⟨[], t :: ts, finish⟩ : TokenStream).tokens.length ≤ m := hm
        rw [List.length_cons] at hn hn' hm hm'
        cases hstatement : (rules m).statement ⟨[], t :: ts, finish⟩ with
        | ok node s' =>
          have hlength : s'.tokens.length ≤ ts.length := length_of_statement_ok hs hstatement
          rw [List.map_cons, ofTokens_of_ok brackets n' (statement_moved_ok f hs hm' hstatement),
            ofTokens_of_ok brackets n hstatement]
          simp only [TokenStream.moved, readAll_moved]
          rw [ih (brackets.readAll s'.read) (by omega) (by omega) (by omega) (by omega)]
          rfl
        | error e s' =>
          have hshorter : s'.tokens.length < ts.length + 1 :=
            length_of_statement_error hs (List.cons_ne_nil _ _) hstatement
          cases hskip : skipStatement (brackets.depthAround t.kind) (s'.read.headD t)
            (brackets.readAll s'.read) s'.tokens with
          | mk left kept =>
            have hlength := length_skipStatement (brackets.depthAround t.kind) (s'.read.headD t)
              (brackets.readAll s'.read) s'.tokens
            have hskip' := skipStatement_moved f (brackets.depthAround t.kind) (s'.read.headD t)
              (brackets.readAll s'.read) s'.tokens
            rw [hskip] at hlength hskip'
            rw [← readAll_moved f, ← headD_moved] at hskip'
            rw [List.map_cons, ofTokens_of_error n' (statement_moved_error f hs hm' hstatement) hskip',
              ofTokens_of_error n hstatement hskip, ih kept (by omega) (by omega) (by omega) (by omega)]
            rfl

end MonkeyLanguage
