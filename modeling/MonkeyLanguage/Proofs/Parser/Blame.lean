import Mathlib.Data.List.Forall2
import Mathlib.Data.List.Nodup
import MonkeyLanguage.Proofs.Parser.Resumption
import MonkeyLanguage.Proofs.Token.Layout

/-!
# Which tokens errors blame

The parser goes through a text statement by statement (`Parse.Run`) and comes to the end of every text
(`run_ofTokens`), because each statement reads a token, well-formed or not.

The error of a statement blames the token read last or the next one (`blame_of_error`).  In the second case the
parser may come to rest in front of the token, and the statement that starts there may blame it again, but has read
it then.  So the tokens that errors blame stand in the order of the text, none more than twice, and the end of the
text at most once (`Parse.Run.blamed_sublist`).
-/

namespace MonkeyLanguage

open Automaton

/-! ## Runs of the parser -/

/-- Parsing a statement of tokens gives the result by the rules for as many tokens, and by those for more. -/
def StatementGives (ts : List Token) (finish : Position) (result : EStateM.Result ParseError TokenStream Node) : Prop :=
  ∀ n, ts.length ≤ n → (rules n).statement ⟨[], ts, finish⟩ = result

/-- The parser goes through the tokens, statement by statement, to the end of the text. -/
inductive Parse.Run (finish : Position) : List Token → OpenBrackets → Parse → Prop where
  | done (brackets : OpenBrackets) : Run finish [] brackets ⟨[], [], brackets⟩
  | statement {t : Token} {ts : List Token} {brackets : OpenBrackets} {node : Node} {s : TokenStream} {parse : Parse}
      (h : StatementGives (t :: ts) finish (.ok node s))
      (hrest : Run finish s.tokens (brackets.readAll s.read) parse) :
    Run finish (t :: ts) brackets (.append ⟨[node], [], []⟩ parse)
  | failure {t : Token} {ts left : List Token} {brackets kept : OpenBrackets} {e : ParseError} {s : TokenStream}
      {parse : Parse}
      (h : StatementGives (t :: ts) finish (.error e s))
      (hskip : skipStatement (brackets.depthAround t.kind) (s.read.headD t) (brackets.readAll s.read) s.tokens =
        (left, kept))
      (hrest : Run finish left kept parse) :
    Run finish (t :: ts) brackets (.append ⟨[], [(.ofKind t.kind, e)], []⟩ parse)

variable {t : Token} {ts us left : List Token} {m n : Nat} {finish : Position} {brackets : OpenBrackets}
  {parse : Parse} {node : Node} {e : ParseError} {s : TokenStream}

theorem suffix_of_skipStatement {depth : Nat} {last : Token} {kept : OpenBrackets}
    (h : skipStatement depth last brackets ts = (left, kept)) : left <:+ ts := by
  have hsuffix := skipStatement_suffix depth last brackets ts
  rwa [h] at hsuffix

/-! ## What one statement reads -/

theorem statementGives_ok_iff :
    StatementGives ts finish (.ok node s) ↔ scan 0 (.statement (.program [])) ⟨[], ts, finish⟩ = .ok [node] s :=
  ⟨fun h => (statement_ok_iff (Nat.le_refl _)).1 (h _ (Nat.le_refl _)), fun h _ hn => (statement_ok_iff hn).2 h⟩

theorem statementGives_error_iff :
    StatementGives ts finish (.error e s) ↔ scan 0 (.statement (.program [])) ⟨[], ts, finish⟩ = .error e s :=
  ⟨fun h => (statement_error_iff (Nat.le_refl _)).1 (h _ (Nat.le_refl _)), fun h _ hn => (statement_error_iff hn).2 h⟩

theorem StatementGives.suffix (h : StatementGives (t :: ts) finish (.ok node s)) : s.tokens <:+ ts := by
  obtain ⟨taken, σ, hmoves, -⟩ := moves_of_scan_ok (statementGives_ok_iff.1 h)
  have hlength : s.tokens.length ≤ ts.length := length_of_statement_ok (Nat.le_refl _) (h _ (Nat.le_refl _))
  exact List.suffix_of_suffix_length_le ⟨taken, hmoves.tokens_eq.symm⟩ (List.suffix_cons t ts) hlength

theorem StatementGives.length_lt (h : StatementGives (t :: ts) finish (.error e s)) :
    s.tokens.length < (t :: ts).length :=
  length_of_statement_error (Nat.le_refl _) (List.cons_ne_nil t ts) (h _ (Nat.le_refl _))

theorem blame_of_error (h : StatementGives (t :: ts) finish (.error e s)) :
    (∃ front, t :: ts = front ++ s.tokens ∧ front ≠ [] ∧ e.token = s.tokens.headD (.endAt finish)) ∨
      ∃ front, t :: ts = front ++ e.token :: s.tokens := by
  have hshorter := h.length_lt
  obtain ⟨taken, σ, s₁, hmoves, -, -, rfl, hs⟩ := moves_of_scan_error (statementGives_error_iff.1 h)
  have htokens : t :: ts = taken ++ s₁.tokens := hmoves.tokens_eq
  have hpeek : s₁.peek = s₁.tokens.headD (.endAt finish) := congrArg (s₁.tokens.headD <| .endAt ·) hmoves.finish_eq
  have hunread (heq : s = s₁) : ∃ front, t :: ts = front ++ s.tokens ∧ front ≠ [] ∧
      s₁.peek = s.tokens.headD (.endAt finish) := by
    subst heq
    refine ⟨taken, htokens, ?_, hpeek⟩
    rintro rfl
    rw [htokens] at hshorter
    exact absurd hshorter (Nat.lt_irrefl _)
  rw [State.behind] at hs
  split at hs
  · exact .inl (hunread hs)
  · cases hrest : s₁.tokens with
    | nil => exact .inl (hunread (hs.trans (TokenStream.tail_of_nil hrest)))
    | cons u us =>
      have htail : s.tokens = us := by rw [hs, TokenStream.tail, hrest]
      refine .inr ⟨taken, ?_⟩
      rw [htail, htokens, hrest]
      show _ = taken ++ s₁.peek :: us
      rw [hpeek, hrest, List.headD_cons]

/-! ## What runs do -/

/-- The parser comes to the end of all tokens. -/
theorem run_ofTokens (brackets : OpenBrackets) (hn : ts.length ≤ n) (hm : ts.length ≤ m) :
    Parse.Run finish ts brackets (.ofTokens (rules m) finish n ts brackets) := by
  induction n generalizing ts brackets with
  | zero =>
    obtain rfl : ts = [] := List.length_eq_zero_iff.1 (Nat.le_zero.1 hn)
    exact .done brackets
  | succ n ih =>
    cases ts with
    | nil => exact .done brackets
    | cons t ts =>
      cases hstatement : (rules m).statement ⟨[], t :: ts, finish⟩ with
      | ok node s =>
        have h : StatementGives (t :: ts) finish (.ok node s) :=
          statementGives_ok_iff.2 ((statement_ok_iff hm).1 hstatement)
        have hlength := h.suffix.length_le
        rw [ofTokens_of_ok brackets n hstatement]
        rw [List.length_cons] at hn hm
        exact .statement h (ih _ (by omega) (by omega))
      | error e s =>
        have h : StatementGives (t :: ts) finish (.error e s) :=
          statementGives_error_iff.2 ((statement_error_iff hm).1 hstatement)
        have hshorter := h.length_lt
        cases hskip : skipStatement (brackets.depthAround t.kind) (s.read.headD t) (brackets.readAll s.read)
          s.tokens with
        | mk left kept =>
          have hlength := (suffix_of_skipStatement hskip).length_le
          rw [ofTokens_of_error n hstatement hskip]
          rw [List.length_cons] at hn hm hshorter
          exact .failure h hskip (ih _ (by omega) (by omega))

def Parse.blamed (p : Parse) : List Token :=
  p.failures.map fun failure => failure.2.token

theorem Parse.blamed_append (p q : Parse) : (p.append q).blamed = p.blamed ++ q.blamed :=
  List.map_append

def twice (ts : List Token) : List Token :=
  ts.flatMap fun t => [t, t]

theorem twice_append (ts us : List Token) : twice (ts ++ us) = twice ts ++ twice us :=
  List.flatMap_append

theorem tail_twice_cons (t : Token) (ts : List Token) : (twice (t :: ts)).tail = t :: twice ts := rfl

theorem twice_suffix (h : ts <:+ us) : twice ts <:+ twice us := by
  obtain ⟨front, rfl⟩ := h
  exact ⟨twice front, (twice_append front ts).symm⟩

namespace Parse.Run

theorem length_le (h : Run finish ts brackets parse) :
    parse.statements.length + parse.failures.length ≤ ts.length := by
  induction h with
  | done brackets => exact Nat.le_refl 0
  | statement h hrest ih =>
    have hlength := h.suffix.length_le
    simp only [append, List.length_append, List.length_cons, List.length_nil]
    omega
  | failure h hskip hrest ih =>
    have hshorter := h.length_lt
    have hleft := (suffix_of_skipStatement hskip).length_le
    simp only [append, List.length_append, List.length_cons, List.length_nil] at hshorter ⊢
    omega

/-- The statement of the first token blames it once at most, and each other token is blamed twice at most. -/
theorem blamed_sublist (h : Run finish ts brackets parse) :
    parse.blamed.Sublist ((twice ts).tail ++ [.endAt finish]) := by
  induction h with
  | done brackets => exact List.nil_sublist _
  | @statement t ts brackets node s parse h hrest ih =>
    have hleft : (twice s.tokens).tail.Sublist (twice (t :: ts)).tail :=
      (twice_suffix (h.suffix.trans (List.suffix_cons t ts))).sublist.tail
    exact ih.trans (hleft.append_right _)
  | @failure t ts left brackets kept e s parse h hskip hrest ih =>
    have hleft := suffix_of_skipStatement hskip
    rw [blamed_append, tail_twice_cons]
    show (e.token :: parse.blamed).Sublist _
    rcases blame_of_error h with ⟨front, htokens, hfront, he⟩ | ⟨front, htokens⟩
    · obtain ⟨first, front, rfl⟩ := List.exists_cons_of_ne_nil hfront
      rw [List.cons_append] at htokens
      obtain ⟨-, rfl⟩ := List.cons.inj htokens
      -- the token may be blamed again, unless it is the end token
      have hagain : (e.token :: parse.blamed).Sublist (twice s.tokens ++ [.endAt finish]) := by
        cases hbehind : s.tokens with
        | nil =>
          rw [hbehind, List.suffix_nil] at hleft
          subst hleft
          cases hrest
          rw [he, hbehind]
          exact List.Sublist.refl _
        | cons u us =>
          rw [hbehind] at hleft
          rw [he, hbehind]
          exact (ih.trans ((twice_suffix hleft).sublist.tail.append_right _)).cons_cons u
      rw [twice_append, List.cons_append, List.append_assoc]
      exact (hagain.trans (List.sublist_append_right _ _)).cons t
    · have hread : (e.token :: twice s.tokens).Sublist (t :: twice ts) := by
        cases front with
        | nil =>
          obtain ⟨rfl, rfl⟩ := List.cons.inj htokens
          exact List.Sublist.refl _
        | cons first front =>
          rw [List.cons_append] at htokens
          obtain ⟨-, rfl⟩ := List.cons.inj htokens
          rw [twice_append]
          exact ((List.sublist_cons_self ..).trans (List.sublist_append_right _ _)).cons t
      have hbehind := (List.tail_sublist _).trans (twice_suffix hleft).sublist
      exact ((ih.trans (hbehind.append_right _)).cons_cons e.token).trans (hread.append_right _)

end Parse.Run

/-! ## Whole texts -/

namespace Position

/-- The position stands in front of the other in a text. -/
def Before (p q : Position) : Prop :=
  p.line < q.line ∨ p.line = q.line ∧ p.column < q.column

theorem Before.trans {p q r : Position} (h : p.Before q) (h' : q.Before r) : p.Before r := by
  unfold Before at *
  omega

theorem before_next (p : Position) (c : Char) : p.Before (p.next c) := by
  unfold next
  split
  · exact .inl (Nat.lt_succ_self _)
  · exact .inr ⟨rfl, Nat.lt_succ_self _⟩

theorem before_advance {text : List Char} (h : text ≠ []) (p : Position) : p.Before (p.advance text) := by
  induction text generalizing p with
  | nil => exact absurd rfl h
  | cons c text ih =>
    cases text with
    | nil => exact p.before_next c
    | cons d text => exact (p.before_next c).trans (ih (List.cons_ne_nil d text) _)

theorem before_ofOffset {text : List Char} {a b : Nat} (hab : a < b) (hb : b ≤ text.length) :
    (ofOffset text a).Before (ofOffset text b) := by
  have hadvance (k : Nat) : ofOffset text k = start.advance (text.take k) := (advance_start _).symm
  have htake : text.take b = text.take a ++ (text.take b).drop a := by
    have hboth := List.take_append_drop a (text.take b)
    rw [List.take_take, Nat.min_eq_left (Nat.le_of_lt hab)] at hboth
    exact hboth.symm
  have hne : (text.take b).drop a ≠ [] := by
    rw [Ne, List.drop_eq_nil_iff, List.length_take_of_le hb]
    exact Nat.not_le.2 hab
  rw [hadvance, hadvance, htake, advance_append]
  exact before_advance hne _

end Position

/-- The tokens of a text stand one in front of the other, so no two are equal. -/
theorem nodup_tokenize (source : String) : (tokenize source).Nodup := by
  obtain ⟨htokens, hkinds, htiles⟩ := layout_spec source
  rw [htokens, List.nodup_append]
  refine ⟨List.pairwise_map.2 (htiles.increasing.imp_of_mem fun {p q} hp hq hlt heq => ?_), ?_, ?_⟩
  · have hbefore : p.token.position.Before q.token.position := by
      rw [(htiles.stands p hp).position_eq, (htiles.stands q hq).position_eq]
      exact Position.before_ofOffset hlt
        (Nat.le_trans (Nat.le_of_lt (htiles.offset_lt_stop hq)) (htiles.stop_le hq))
    rw [heq, Position.Before] at hbefore
    omega
  · exact List.nodup_cons.2 ⟨List.not_mem_nil, .nil⟩
  · rintro t ht u hu rfl
    obtain ⟨p, hp, hpt⟩ := List.mem_map.1 ht
    rw [List.mem_singleton.1 hu] at hpt
    exact hkinds p hp (congrArg Token.kind hpt)

theorem blamed_sublist_tokenize (source : String) :
    (Parse.ofString source).blamed.Sublist (twice (tokensOf source) ++ [Token.endAt (Cursor.ofString source).finish]) :=
  (run_ofTokens [] (Nat.le_refl _) (Nat.le_refl _)).blamed_sublist.trans ((List.tail_sublist _).append_right _)

theorem twice_tokenize (source : String) :
    (twice (tokensOf source) ++ [Token.endAt (Cursor.ofString source).finish]).Sublist (twice (tokenize source)) := by
  rw [tokenize_eq, twice_append]
  exact (List.sublist_cons_self ..).append_left _

theorem count_twice (t : Token) (ts : List Token) : (twice ts).count t = 2 * ts.count t := by
  induction ts with
  | nil => rfl
  | cons u ts ih =>
    show (u :: u :: twice ts).count t = _
    rw [List.count_cons, List.count_cons, List.count_cons, ih]
    omega

theorem pairwise_idxOf (h : ts.Nodup) : ((twice ts).map fun t => ts.idxOf t).Pairwise (· ≤ ·) := by
  rw [List.pairwise_map, twice, List.pairwise_flatMap]
  refine ⟨fun t _ => by simp, List.pairwise_iff_getElem.2 fun i j hi hj hij => ?_⟩
  simp [h.idxOf_getElem, Nat.le_of_lt hij]

theorem mem_of_mem_dropLast {last : Token} (h : ts.Sublist (us ++ [last])) (ht : t ∈ ts.dropLast) : t ∈ us := by
  obtain ⟨front, back, rfl, hfront, hback⟩ := List.sublist_append_iff.1 h
  rcases List.sublist_singleton.1 hback with rfl | rfl
  · rw [List.append_nil] at ht
    exact hfront.subset (List.dropLast_subset _ ht)
  · rw [List.dropLast_concat] at ht
    exact hfront.subset ht

theorem filter_tokenize (source : String) : (tokenize source).filter (·.kind ≠ .eof) = tokensOf source := by
  have htokens : (tokensOf source).filter (·.kind ≠ .eof) = tokensOf source :=
    List.filter_eq_self.2 fun t ht => decide_eq_true (kind_ne_eof_of_mem_tokensOf source ht)
  show (tokensOf source ++ [_]).filter _ = _
  rw [List.filter_append, htokens]
  exact List.append_nil _

/-- Parsing finishes: it goes through every text to its end.  Each error blames a token of the text, not in front of
those that the errors before it blame, and no token is blamed by more than two errors; the end token is only blamed by
the last error.  There is a message for each error, and each statement and each error has a token of its own. -/
theorem errors_in_order (source : String) :
    Parse.Run (Cursor.ofString source).finish (tokensOf source) [] (Parse.ofString source) ∧
    (∀ t ∈ (Parse.ofString source).blamed, t ∈ tokenize source) ∧
    ((Parse.ofString source).blamed.map fun t => (tokenize source).idxOf t).Pairwise (· ≤ ·) ∧
    (∀ t, (Parse.ofString source).blamed.count t ≤ 2) ∧
    (∀ t ∈ (Parse.ofString source).blamed.dropLast, t.kind ≠ .eof) ∧
    List.Forall₂ (fun failure message => message = failure.1.name ++ ": " ++ failure.2.text)
      (Parse.ofString source).failures (FrontEnd.descent.parse source).2 ∧
    (FrontEnd.descent.parse source).1.length + (FrontEnd.descent.parse source).2.length ≤
      ((tokenize source).filter (·.kind ≠ .eof)).length := by
  have hrun : Parse.Run (Cursor.ofString source).finish (tokensOf source) [] (Parse.ofString source) :=
    run_ofTokens [] (Nat.le_refl _) (Nat.le_refl _)
  have hend := blamed_sublist_tokenize source
  have htwice := hend.trans (twice_tokenize source)
  have hnodup := nodup_tokenize source
  refine ⟨hrun, fun t ht => ?_, (pairwise_idxOf hnodup).sublist (htwice.map _), fun t => ?_, fun t ht => ?_, ?_, ?_⟩
  · obtain ⟨u, hu, ht⟩ := List.mem_flatMap.1 (htwice.subset ht)
    obtain rfl : t = u := by simpa using ht
    exact hu
  · have hle := htwice.count_le t
    have hone := List.nodup_iff_count_le_one.1 hnodup t
    rw [count_twice] at hle
    omega
  · obtain ⟨u, hu, htu⟩ := List.mem_flatMap.1 (mem_of_mem_dropLast hend ht)
    obtain rfl : t = u := by simpa using htu
    exact kind_ne_eof_of_mem_tokensOf source hu
  · exact List.forall₂_map_right_iff.2 (List.forall₂_same.2 fun _ _ => rfl)
  · rw [filter_tokenize]
    simpa [FrontEnd.parse, Parse.messages] using hrun.length_le

end MonkeyLanguage
