import MonkeyLanguage.Proofs.Parser.Starts

/-!
# Open brackets between statements

Between the statements of a program no bracket is open for the parser, however malformed the text is
(`no_bracket_open_between_statements`): a well-formed statement closes what it opens, and behind a malformed one the
parser forgets what is still open.  So the depth that it takes for that around a statement is zero each time.

At a semicolon the parser asks for the innermost bracket, and there need not be one.  `Parse.watch` is the parser as it
reads the brackets off a stack that it keeps, where asking in vain is a fault.  It does what `Parse.ofTokens` does.
-/

namespace MonkeyLanguage

open Automaton

variable {n m : Nat} {last : Token} {ts : List Token} {brackets : OpenBrackets} {finish : Position} {node : Node}
  {s s' : TokenStream}

/-! ## The innermost bracket -/

/-- Why an access to the stack is not possible. -/
inductive StackFault where
  /-- No bracket is open. -/
  | noneOpen
deriving DecidableEq, Repr

namespace OpenBrackets

def innermost : OpenBrackets → Except StackFault Token.Kind
  | [] => .error .noneOpen
  | kind :: _ => .ok kind

/-- Forgets brackets one by one, while more than `floor` are open and the innermost is no brace. -/
def popUnclosed (floor : Int) (brackets : OpenBrackets) : Except StackFault OpenBrackets :=
  if brackets.length ≤ floor then .ok brackets
  else
    match _h : brackets.innermost with
    | .error fault => .error fault
    | .ok kind => if kind = .leftBrace then .ok brackets else popUnclosed floor brackets.tail
termination_by brackets.length
decreasing_by
  cases brackets with
  | nil => cases _h
  | cons => exact Nat.lt_succ_self _

theorem popUnclosed_cons (floor : Int) (kind : Token.Kind) (outer : OpenBrackets) :
    popUnclosed floor (kind :: outer) =
      if (outer.length + 1 : Nat) ≤ floor ∨ kind = .leftBrace then .ok (kind :: outer)
      else popUnclosed floor outer := by
  rw [popUnclosed]
  simp only [innermost, List.length_cons, List.tail_cons]
  split
  · next h => rw [if_pos (.inl h)]
  · next h => simp only [h, false_or]

/-- Above a depth that there can be, the innermost bracket is never asked for in vain. -/
theorem popUnclosed_eq (depth : Nat) (brackets : OpenBrackets) :
    brackets.popUnclosed depth = .ok (brackets.dropUnclosed depth) := by
  induction brackets with
  | nil =>
    rw [popUnclosed]
    exact if_pos (Int.natCast_nonneg depth)
  | cons kind outer ih =>
    rw [popUnclosed_cons, dropUnclosed, ih]
    by_cases hpop : depth ≤ outer.length ∧ kind ≠ .leftBrace
    · rw [if_pos hpop, if_neg]
      exact not_or_intro (by omega) hpop.2
    · rw [if_neg hpop, if_pos]
      by_cases hkind : kind = .leftBrace
      · exact .inr hkind
      · have hdepth : ¬depth ≤ outer.length := fun hdepth => hpop ⟨hdepth, hkind⟩
        exact .inl (by omega)

theorem trim_dropUnclosed (depth : Nat) (brackets : OpenBrackets) :
    (brackets.dropUnclosed depth).trim depth = brackets.trim depth := by
  induction brackets with
  | nil => rfl
  | cons kind outer ih =>
    rw [dropUnclosed]
    split
    · next h =>
      rw [ih, trim, trim, List.length_cons, Nat.succ_sub h.1, List.drop_succ_cons]
    · rfl

end OpenBrackets

open OpenBrackets

/-! ## Skipping with a stack -/

/-- The brackets that are kept behind a token: at a semicolon unclosed ones are forgotten. -/
def keptBehind (floor : Int) (last : Token) (brackets : OpenBrackets) : Except StackFault OpenBrackets :=
  if last.kind = .semicolon then brackets.popUnclosed floor else .ok brackets

/-- Skips to the end of a malformed statement, as `skipStatement` does. -/
def skipWatched (floor : Int) (last : Token) (brackets : OpenBrackets) :
    List Token → Except StackFault (List Token × OpenBrackets)
  | [] => do
    let kept ← keptBehind floor last brackets
    return ([], kept.trim floor.toNat)
  | token :: rest => do
    let kept ← keptBehind floor last brackets
    if last.kind = .semicolon ∧ kept.length ≤ floor then return (token :: rest, kept)
    else if last.kind = .rightBrace ∧ kept.length ≤ floor ∧ token.kind ≠ .elseWord then
      return (if token.kind = .semicolon then rest else token :: rest, kept)
    else skipWatched floor token (kept.read token.kind) rest

theorem keptBehind_eq (depth : Nat) (last : Token) (brackets : OpenBrackets) :
    keptBehind depth last brackets =
      .ok (if last.kind = .semicolon then brackets.dropUnclosed depth else brackets) := by
  rw [keptBehind, popUnclosed_eq]
  split <;> rfl

theorem skipWatched_eq (depth : Nat) (last : Token) (brackets : OpenBrackets) (ts : List Token) :
    skipWatched depth last brackets ts = .ok (skipStatement depth last brackets ts) := by
  induction ts generalizing last brackets with
  | nil =>
    rw [skipWatched, keptBehind_eq, skipStatement]
    show Except.ok ([], OpenBrackets.trim (if _ then _ else _) depth) = _
    split
    · rw [trim_dropUnclosed]
    · rfl
  | cons t ts ih =>
    rw [skipWatched, keptBehind_eq, skipStatement]
    by_cases hsemicolon : last.kind = .semicolon
    · simp only [bind, Except.bind, pure, Except.pure, hsemicolon, ih, Int.ofNat_le, reduceCtorEq, false_and, if_true,
        if_false, true_and]
      split <;> rfl
    · simp only [bind, Except.bind, pure, Except.pure, hsemicolon, ih, Int.ofNat_le, false_and, if_false]
      split <;> rfl

theorem exists_skipWatched_zero (last : Token) (brackets : OpenBrackets) (ts : List Token) :
    ∃ left, left.length ≤ ts.length ∧ skipStatement 0 last brackets ts = (left, []) ∧
      skipWatched 0 last brackets ts = .ok (left, []) := by
  have hskip : skipStatement 0 last brackets ts = ((skipStatement 0 last brackets ts).1, []) :=
    Prod.ext rfl (skipStatement_zero last brackets ts)
  have hwatched := (skipWatched_eq 0 last brackets ts).trans (congrArg Except.ok hskip)
  exact ⟨_, length_skipStatement 0 last brackets ts, hskip, hwatched⟩

/-! ## Well-formed statements -/

theorem readAll_of_statement_ok (hn : s.tokens.length ≤ n) (h : (rules n).statement s = .ok node s')
    (brackets : OpenBrackets) : brackets.readAll s'.read = brackets.readAll s.read := by
  obtain ⟨taken, σ, hmoves, -⟩ := moves_of_scan_ok ((statement_ok_iff hn).1 h)
  obtain ⟨-, -, ended, hderives, -⟩ := statement_yields (sound_rules n) (Nat.le_succ_of_le hn) node s' h
  obtain ⟨front, hfront, hbalanced⟩ := balancedUpTo_of_derives hderives
  obtain rfl : taken = front := List.append_cancel_right (hmoves.tokens_eq.symm.trans hfront)
  rw [hmoves.read_eq, readAll, List.foldr_append]
  exact readAll_balanced hbalanced _

/-! ## Programs -/

/-- The parser at the start of a statement: the token it looks at, and the brackets open behind that token. -/
structure Round where
  first : Token
  brackets : OpenBrackets
deriving DecidableEq, Repr

/-- The depth that the parser takes for that around the statement. -/
def Round.floor (round : Round) : Int :=
  round.brackets.length - if round.first.kind.isOpener then 1 else 0

/-- No bracket is open at the start of a statement but the token that the parser looks at, if this opens one. -/
def Round.IsOutermost (round : Round) : Prop :=
  round.brackets = if round.first.kind.isOpener then [round.first.kind] else []

theorem Round.IsOutermost.floor_eq {round : Round} (h : round.IsOutermost) : round.floor = 0 := by
  rw [Round.floor, h]
  split <;> rfl

theorem Round.isOutermost_of_nil (first : Token) : Round.IsOutermost ⟨first, OpenBrackets.read [] first.kind⟩ := by
  unfold Round.IsOutermost OpenBrackets.read
  split
  · rfl
  · split <;> rfl

/-- Parses like `ofTokens`, with a stack of brackets, and tells where the parser is at the start of each statement. -/
def Parse.watch (r : Rules) (finish : Position) :
    Nat → List Token → OpenBrackets → Except StackFault (Parse × List Round)
  | 0, _, brackets => return (⟨[], [], brackets⟩, [])
  | _, [], brackets => return (⟨[], [], brackets⟩, [])
  | n + 1, first :: rest, brackets =>
    let round : Round := ⟨first, brackets.read first.kind⟩
    match r.statement ⟨[], first :: rest, finish⟩ with
    | .ok node stream => do
      let (parse, rounds) ← watch r finish n stream.tokens (brackets.readAll stream.read)
      return ({ parse with statements := node :: parse.statements }, round :: rounds)
    | .error error stream => do
      let (tokens, brackets) ←
        skipWatched round.floor (stream.read.headD first) (brackets.readAll stream.read) stream.tokens
      let (parse, rounds) ← watch r finish n tokens brackets
      return ({ parse with failures := (.ofKind first.kind, error) :: parse.failures }, round :: rounds)

/-- Parses a text and tells where the parser is at the start of each statement. -/
def Parse.watchString (source : String) : Except StackFault (Parse × List Round) :=
  watch (rules (tokensOf source).length) (Cursor.ofString source).finish (tokensOf source).length (tokensOf source) []

/-- The rounds of a parse, one for each statement, all of which start and end where no bracket is open. -/
structure Parse.IsOutermost (parse : Parse) (rounds : List Round) : Prop where
  rounds_outermost : ∀ round ∈ rounds, round.IsOutermost
  length_eq : rounds.length = parse.statements.length + parse.failures.length
  openAtEnd_eq : parse.openAtEnd = []

theorem Parse.IsOutermost.cons {first parse : Parse} {round : Round} {rounds : List Round}
    (h : parse.IsOutermost rounds) (hround : round.IsOutermost)
    (hfirst : first.statements.length + first.failures.length = 1) :
    (first.append parse).IsOutermost (round :: rounds) where
  rounds_outermost := List.forall_mem_cons.2 ⟨hround, h.rounds_outermost⟩
  length_eq := by
    rw [List.length_cons, h.length_eq, Parse.append, List.length_append, List.length_append]
    omega
  openAtEnd_eq := h.openAtEnd_eq

/-- The stack is never asked for a bracket in vain, and it is empty between statements. -/
theorem exists_watch_eq (hn : ts.length ≤ n) (hm : n ≤ m) :
    ∃ rounds, Parse.watch (rules m) finish n ts [] = .ok (.ofTokens (rules m) finish n ts [], rounds) ∧
      (Parse.ofTokens (rules m) finish n ts []).IsOutermost rounds := by
  induction n generalizing ts with
  | zero => exact ⟨[], rfl, nofun, rfl, rfl⟩
  | succ n ih =>
    cases ts with
    | nil => exact ⟨[], rfl, nofun, rfl, rfl⟩
    | cons t ts =>
      have hlength : (t :: ts).length ≤ m := Nat.le_trans hn hm
      have hround := Round.isOutermost_of_nil t
      cases hstatement : (rules m).statement ⟨[], t :: ts, finish⟩ with
      | ok node s' =>
        have hshorter : s'.tokens.length ≤ n :=
          Nat.le_trans (length_of_statement_ok hlength hstatement) (Nat.sub_le_of_le_add hn)
        have hclosed : OpenBrackets.readAll [] s'.read = [] := readAll_of_statement_ok hlength hstatement []
        obtain ⟨rounds, hwatch, hrounds⟩ := ih hshorter (Nat.le_of_succ_le hm)
        refine ⟨⟨t, OpenBrackets.read [] t.kind⟩ :: rounds, ?_, ?_⟩
        · simp only [Parse.watch, Parse.ofTokens, hstatement, hclosed, hwatch]
          rfl
        · rw [ofTokens_of_ok [] n hstatement, hclosed]
          exact hrounds.cons hround rfl
      | error e s' =>
        -- the floor is zero, and from there the parser skips to where nothing is open
        have hshorter : s'.tokens.length ≤ n :=
          Nat.le_of_lt_succ (Nat.lt_of_lt_of_le
            (length_of_statement_error hlength (List.cons_ne_nil t ts) hstatement) hn)
        obtain ⟨left, hleft, hskip, hwatched⟩ :=
          exists_skipWatched_zero (s'.read.headD t) (OpenBrackets.readAll [] s'.read) s'.tokens
        obtain ⟨rounds, hwatch, hrounds⟩ := ih (Nat.le_trans hleft hshorter) (Nat.le_of_succ_le hm)
        rw [← depthAround_nil t.kind] at hskip
        refine ⟨⟨t, OpenBrackets.read [] t.kind⟩ :: rounds, ?_, ?_⟩
        · simp only [Parse.watch, Parse.ofTokens, hstatement, hround.floor_eq, hskip, hwatched, bind, Except.bind,
            hwatch]
          rfl
        · rw [ofTokens_of_error n hstatement hskip]
          exact hrounds.cons hround rfl

/-- At the start of each statement of a text, well-formed or not, no bracket is open but the token that the parser
looks at, so the depth that it takes for that around the statement is zero.  A well-formed statement leaves the brackets
open that were open before it, wherever it stands, and skipping a malformed statement of the program leaves none open.
The parser never asks for the innermost bracket where none is open, and none is open at the end. -/
theorem no_bracket_open_between_statements (source : String) :
    (∃ rounds, Parse.watchString source = .ok (Parse.ofString source, rounds) ∧
      rounds.length = (Parse.ofString source).statements.length + (Parse.ofString source).failures.length ∧
      ∀ round ∈ rounds, round.floor = 0 ∧
        round.brackets = if round.first.kind.isOpener then [round.first.kind] else []) ∧
    (∀ (n : Nat) (s s' : TokenStream) (node : Node), s.tokens.length ≤ n →
      (rules n).statement s = .ok node s' →
      ∀ brackets : OpenBrackets, brackets.readAll s'.read = brackets.readAll s.read) ∧
    (∀ (last : Token) (brackets : OpenBrackets) (ts : List Token),
      ∃ left, skipWatched 0 last brackets ts = .ok (left, [])) ∧
    (Parse.ofString source).openAtEnd = [] := by
  obtain ⟨rounds, hwatch, hrounds⟩ := @exists_watch_eq (tokensOf source).length _ _ (Cursor.ofString source).finish
    (Nat.le_refl (tokensOf source).length) (Nat.le_refl _)
  refine ⟨⟨rounds, hwatch, hrounds.length_eq, fun round hround => ?_⟩, fun n s s' node hn h => ?_,
    fun last brackets ts => ?_, hrounds.openAtEnd_eq⟩
  · have houtermost := hrounds.rounds_outermost round hround
    exact ⟨houtermost.floor_eq, houtermost⟩
  · exact readAll_of_statement_ok hn h
  · obtain ⟨left, -, -, hwatched⟩ := exists_skipWatched_zero last brackets ts
    exact ⟨left, hwatched⟩

/-- A parenthesis that closes nothing, one that is not closed at the semicolon behind it, and a brace and a bracket that
are not closed at the end. -/
theorem no_bracket_open_between_malformed_statements :
    (Parse.ofString ") x; (1; fn() \x7b [y").failures.length = 3 ∧
      ∃ rounds, Parse.watchString ") x; (1; fn() \x7b [y" = .ok (Parse.ofString ") x; (1; fn() \x7b [y", rounds) ∧
        rounds.length = 3 ∧ ∀ round ∈ rounds, round.floor = 0 := by
  have hfailures : (Parse.ofString ") x; (1; fn() \x7b [y").failures.length = 3 := by decide +kernel
  have hstatements : (Parse.ofString ") x; (1; fn() \x7b [y").statements = [] := by decide +kernel
  obtain ⟨rounds, hwatch, hlength, hrounds⟩ := (no_bracket_open_between_statements ") x; (1; fn() \x7b [y").1
  rw [hstatements, hfailures] at hlength
  exact ⟨hfailures, rounds, hwatch, hlength, fun round hround => (hrounds round hround).1⟩

end MonkeyLanguage
