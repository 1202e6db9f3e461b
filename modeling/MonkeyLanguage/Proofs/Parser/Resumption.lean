import MonkeyLanguage.Node.Render
import MonkeyLanguage.Parser.FrontEnd
import MonkeyLanguage.Proofs.Parser.Relocation
import MonkeyLanguage.Proofs.Parser.Surroundings

/-!
# A semicolon outside all brackets parts a program

Where a semicolon stands outside all brackets the parser comes to rest, whether the statement before it is
well-formed (`scan_closed`) or skipped (`skipStatement_closed`).  It parses what follows as if that stood
alone (`ofList_append`), so a malformed statement hides nothing behind it.
-/

namespace MonkeyLanguage

open Automaton

variable {σ σ' : State} {t : Token} {ts : List Token} {m n : Nat} {finish : Position}

/-! ## The parser comes to rest -/

/-- The result of reading as far as `s`. -/
def resultAt (s : TokenStream) :
    Except ParseError (List Node) → EStateM.Result ParseError TokenStream (List Node)
  | .ok nodes => .ok nodes s
  | .error e => .error e s

theorem scan_cons (count : Nat) (σ : State) (t : Token) :
    (∃ taken left result, [t] = taken ++ left ∧ ∀ read ts finish,
      scan count σ ⟨read, t :: ts, finish⟩ =
        resultAt ⟨taken.reverse ++ read, left ++ ts, finish⟩ result) ∨
    ∃ σ', σ.take t = some σ' ∧ ∀ read ts finish,
      scan count σ ⟨read, t :: ts, finish⟩ = scan count σ' ⟨t :: read, ts, finish⟩ := by
  cases hc : (σ.settle t.kind).completed count with
  | some nodes => exact .inl ⟨[], [t], .ok nodes, rfl, fun _ _ _ => scan_of_completed hc⟩
  | none =>
    cases ht : σ.take t with
    | some σ' => exact .inr ⟨σ', rfl, fun _ _ _ => scan_of_take hc ht⟩
    | none =>
      by_cases hwanted : (σ.settle t.kind).wanted.isSome = true
      · exact .inl ⟨[], [t], .error ((σ.settle t.kind).complaint t), rfl, fun _ _ _ =>
          (scan_of_stuck hc ht).trans (congrArg _ (if_pos hwanted))⟩
      · exact .inl ⟨[t], [], .error ((σ.settle t.kind).complaint t), rfl, fun _ _ _ =>
          (scan_of_stuck hc ht).trans (congrArg _ (if_neg hwanted))⟩

theorem statement_of_take_semicolon (ht : t.kind = .semicolon) (h : σ.take t = some σ') :
    ∃ hole, σ' = .statement hole := by
  have hstart (hole : ExpressionHole) : hole.start t = none := by simp [ExpressionHole.start, ht]
  have hfinish {hole : ExpressionHole} {whole : Node} (h : hole.finish whole t = some σ') :
      ∃ hole, σ' = .statement hole := by
    cases hole <;> simp [ExpressionHole.finish, ht] at h
    all_goals exact ⟨_, h.symm⟩
  have hproceed {hole : ExpressionHole} {left : Node} (h : hole.proceed left t = some σ') :
      ∃ hole, σ' = .statement hole := by
    rw [proceed_of_no_operator (by rw [ht]; rfl) rfl] at h
    exact hfinish h
  replace h := shift_of_take h
  cases σ with
  | statement hole =>
    rw [State.shift, StatementHole.start, ht] at h
    rw [hstart] at h
    cases h
  | operand hole =>
    rw [State.shift, hstart] at h
    cases h
  | operator left hole => exact hproceed h
  | elseWord condition consequence hole =>
    rw [State.shift, if_neg (by simp [ht])] at h
    exact hproceed h
  | arguments function hole | elements hole | entries before hole =>
    simp [State.shift, ht, hstart] at h
  | _ => simp [State.shift, shiftKind, ht] at h

theorem completed_of_take_semicolon {count : Nat} (hc : count ≤ σ.root.length) (ht : t.kind = .semicolon)
    (h : σ.take t = some σ') (hbrackets : σ'.brackets = []) :
    ∃ nodes, ∀ kind, (σ'.settle kind).completed count = some nodes := by
  have hbeyond := beyond_take hc h
  obtain ⟨hole, rfl⟩ := statement_of_take_semicolon ht h
  cases hole with
  | program before => exact ⟨before, fun _ => if_pos hbeyond⟩
  | _ => cases hbrackets

/-- Reading a statement stops at the semicolon or before it, whatever stands behind. -/
theorem scan_closed {count : Nat} (hc : count ≤ σ.root.length) (hne : ts ≠ [])
    (h : Closed σ.brackets.length ts) :
    ∃ taken left result, ts = taken ++ left ∧ ∀ read rest finish,
      scan count σ ⟨read, ts ++ rest, finish⟩ =
        resultAt ⟨taken.reverse ++ read, left ++ rest, finish⟩ result := by
  induction ts generalizing σ with
  | nil => exact absurd rfl hne
  | cons t ts ih =>
    rcases scan_cons count σ t with ⟨taken, left, result, htokens, hscan⟩ | ⟨σ', ht, hscan⟩
    · refine ⟨taken, left ++ ts, result, ?_, fun read rest finish => ?_⟩
      · rw [← List.append_assoc, ← htokens]
        rfl
      · rw [List.cons_append, hscan, List.append_assoc]
    · have hclosed : Closed σ'.brackets.length ts := by
        rw [brackets_take ht, length_read]
        exact h.tail
      cases ts with
      | nil =>
        obtain ⟨nodes, hcompleted⟩ := completed_of_take_semicolon hc (h.last_eq t rfl) ht
          (brackets_eq_nil_of_closed hclosed)
        refine ⟨[t], [], .ok nodes, rfl, fun read rest finish => ?_⟩
        rw [List.cons_append, hscan]
        exact scan_of_completed (hcompleted _)
      | cons u ts =>
        obtain ⟨taken, left, result, htokens, hrest⟩ :=
          ih (le_root_of_beyond (beyond_take hc ht)) (List.cons_ne_nil u ts) hclosed
        refine ⟨t :: taken, left, result, congrArg (t :: ·) htokens, fun read rest finish => ?_⟩
        rw [List.cons_append, hscan, hrest, List.reverse_cons, List.append_assoc]
        rfl

/-! ## Programs -/

theorem OpenBrackets.depthAround_nil (kind : Token.Kind) : OpenBrackets.depthAround [] kind = 0 := by
  rw [OpenBrackets.depthAround]
  split <;> rfl

namespace Parse

/-- Parses the tokens of a text that ends at `finish`. -/
def ofList (finish : Position) (ts : List Token) : Parse :=
  ofTokens (rules ts.length) finish ts.length ts []

theorem messages_append (p q : Parse) : (p.append q).messages = p.messages ++ q.messages :=
  List.map_append

theorem ofList_of_ofTokens (f : Position → Position) (hm : ts.length ≤ m) (hn : ts.length ≤ n) :
    ofList (f finish) (ts.map (Token.moved f)) = (ofTokens (rules m) finish n ts []).moved f := by
  rw [ofList, List.length_map]
  exact ofTokens_moved f [] hn hm (Nat.le_refl _) (Nat.le_refl _)

theorem ofTokens_eq_ofList (hm : ts.length ≤ m) (hn : ts.length ≤ n) :
    ofTokens (rules m) finish n ts [] = ofList finish ts := by
  have hmoved : ofList finish (ts.map (Token.moved id)) = (ofTokens (rules m) finish n ts []).moved id :=
    ofList_of_ofTokens id hm hn
  have hid : Token.moved id = id := rfl
  rw [moved_id, hid, List.map_id] at hmoved
  exact hmoved.symm

theorem ofList_moved (f : Position → Position) (finish : Position) (ts : List Token) :
    ofList (f finish) (ts.map (Token.moved f)) = (ofList finish ts).moved f :=
  ofList_of_ofTokens f (Nat.le_refl _) (Nat.le_refl _)

variable {s' : TokenStream} {nodes : List Node} {e : ParseError} {rest : List Token}

theorem readAll_of_scan_ok {count : Nat} {s : TokenStream} (hs : s.read = []) (hσ : σ.brackets = [])
    (h : scan count σ s = .ok nodes s') : OpenBrackets.readAll [] s'.read = [] := by
  obtain ⟨tokens, σ', hmoves, hsettle⟩ := moves_of_scan_ok h
  have hbrackets := brackets_takes hmoves.takes_eq
  rw [← brackets_settle s'.peek.kind, hsettle, hσ] at hbrackets
  rw [hmoves.read_eq, hs, List.append_nil]
  exact hbrackets.symm

theorem ofList_of_ok (h : scan 0 (.statement (.program [])) ⟨[], t :: ts, finish⟩ = .ok nodes s') :
    s'.tokens.length ≤ ts.length ∧
      ofList finish (t :: ts) = append ⟨nodes, [], []⟩ (ofList finish s'.tokens) := by
  have hs : (t :: ts).length ≤ ts.length + 1 := Nat.le_refl _
  have hscan := statement_eq_scan (s := ⟨[], t :: ts, finish⟩) [] hs
  rw [List.length_nil, h] at hscan
  cases hstatement : (rules (ts.length + 1)).statement ⟨[], t :: ts, finish⟩ with
  | error e s'' =>
    rw [hstatement] at hscan
    cases hscan
  | ok node s'' =>
    rw [hstatement] at hscan
    cases hscan
    have hlength : s'.tokens.length ≤ ts.length := length_of_statement_ok hs hstatement
    refine ⟨hlength, ?_⟩
    have hcons := ofTokens_of_ok [] ts.length hstatement
    rw [readAll_of_scan_ok rfl rfl h, ofTokens_eq_ofList (Nat.le_succ_of_le hlength) hlength] at hcons
    exact hcons

theorem ofList_of_error (h : scan 0 (.statement (.program [])) ⟨[], t :: ts, finish⟩ = .error e s')
    (hskip : skipStatement 0 (s'.read.headD t) (OpenBrackets.readAll [] s'.read) s'.tokens = (rest, [])) :
    rest.length ≤ ts.length ∧
      ofList finish (t :: ts) = append ⟨[], [(.ofKind t.kind, e)], []⟩ (ofList finish rest) := by
  have hs : (t :: ts).length ≤ ts.length + 1 := Nat.le_refl _
  have hstatement := (statement_error_iff hs).2 h
  have hshorter : s'.tokens.length ≤ ts.length :=
    Nat.le_of_lt_succ (length_of_statement_error hs (List.cons_ne_nil t ts) hstatement)
  have hlength : rest.length ≤ ts.length := by
    have hskipped := length_skipStatement 0 (s'.read.headD t) (OpenBrackets.readAll [] s'.read) s'.tokens
    rw [hskip] at hskipped
    exact Nat.le_trans hskipped hshorter
  refine ⟨hlength, ?_⟩
  rw [← OpenBrackets.depthAround_nil t.kind] at hskip
  have hcons := ofTokens_of_error ts.length hstatement hskip
  rw [ofTokens_eq_ofList (Nat.le_succ_of_le hlength) hlength] at hcons
  exact hcons

theorem append_assoc (p q r : Parse) : (p.append q).append r = p.append (q.append r) := by
  simp only [append, List.append_assoc]

/-- Tokens that end outside all brackets at a semicolon are parsed on their own. -/
theorem ofList_append (start finish : Position) (h : Closed 0 ts) (rest : List Token) :
    ofList finish (ts ++ rest) = (ofList start ts).append (ofList finish rest) := by
  induction hn : ts.length using Nat.strongRecOn generalizing ts with
  | _ n ih =>
    cases ts with
    | nil => rfl
    | cons t ts =>
      obtain ⟨taken, left, result, htokens, hscan⟩ :=
        scan_closed (σ := .statement (.program [])) (Nat.zero_le 0) (List.cons_ne_nil t ts) h
      have hwhole := hscan [] rest finish
      have halone := hscan [] [] start
      rw [List.append_nil, List.cons_append] at hwhole
      rw [List.append_nil, List.append_nil, List.append_nil] at halone
      have hleft : Closed (countBrackets 0 taken) left := (htokens ▸ h).right
      cases result with
      | ok nodes =>
        have hwhole : ofList finish (t :: (ts ++ rest)) =
            append ⟨nodes, [], []⟩ (ofList finish (left ++ rest)) := (ofList_of_ok hwhole).2
        have halone : left.length ≤ ts.length ∧
            ofList start (t :: ts) = append ⟨nodes, [], []⟩ (ofList start left) := ofList_of_ok halone
        have hshorter : left.length < n := hn ▸ Nat.lt_succ_of_le halone.1
        rw [List.cons_append, hwhole, halone.2, append_assoc,
          ← ih left.length hshorter (hleft.mono (Nat.zero_le _)) rfl]
      | error e =>
        have hlast : left = [] → (taken.reverse.headD t).kind = .semicolon := by
          intro hnil
          rw [hnil, List.append_nil] at htokens
          rw [List.headD_eq_head?_getD, List.head?_reverse, ← htokens, List.getLast?_cons]
          exact h.last_eq _ List.getLast?_cons
        have hclosed : Closed (OpenBrackets.readAll [] taken.reverse).length left := by
          rw [length_readAll]
          exact hleft
        obtain ⟨dropped, left', hdropped, hskip⟩ := skipStatement_closed hlast hclosed
        have hskipAlone := hskip []
        rw [List.append_nil, List.append_nil] at hskipAlone
        obtain ⟨hlength, halone⟩ := ofList_of_error halone hskipAlone
        have hshorter : left'.length < n := hn ▸ Nat.lt_succ_of_le hlength
        have hclosed' : Closed 0 left' := ((hdropped ▸ hleft).right).mono (Nat.zero_le _)
        have hwhole := (ofList_of_error hwhole (hskip rest)).2
        rw [List.cons_append, hwhole, halone, append_assoc,
          ← ih left'.length hshorter hclosed' rfl]

end Parse

/-! ## Whole texts -/

/-- A text in which no string and no bracket is left open, and a semicolon behind it, are parsed on their own,
however malformed they are.  What follows is parsed as if it stood alone, and its errors are found where it
stands. -/
theorem parse_append_semicolon (b c : String) (hquotes : b.toList.count '"' % 2 = 0)
    (hbrackets : countBrackets 0 (tokensOf b) = 0) :
    FrontEnd.descent.parse (b ++ ";" ++ c) =
      ((FrontEnd.descent.parse (b ++ ";")).1 ++ (FrontEnd.descent.parse c).1,
        (FrontEnd.descent.parse (b ++ ";")).2 ++
          ((Parse.ofString c).moved (Position.start.advance (b ++ ";").toList).relocate).messages) := by
  let origin := Position.start.advance (b ++ ";").toList
  obtain ⟨t, ht, halone, hwhole⟩ := tokensOf_append_semicolon c hquotes
  have hclosed : Closed 0 (tokensOf b ++ [t]) := by
    refine ⟨?_, fun u hu => ?_⟩
    · have hcount : t.kind.count 0 = 0 := by rw [ht]; rfl
      rw [countBrackets, List.foldl_append]
      show t.kind.count (countBrackets 0 (tokensOf b)) = 0
      rw [hbrackets, hcount]
    · rw [List.getLast?_concat] at hu
      rw [← Option.some.inj hu]
      exact ht
  have hfinish : (Cursor.ofString (b ++ ";" ++ c)).finish = origin.relocate (Cursor.ofString c).finish := by
    show Position.start.advance (b ++ ";" ++ c).toList = origin.relocate (Position.start.advance c.toList)
    rw [String.toList_append, Position.advance_append, Position.advance_eq_relocate]
  have hparse : Parse.ofString (b ++ ";" ++ c) =
      (Parse.ofString (b ++ ";")).append ((Parse.ofString c).moved origin.relocate) := by
    show Parse.ofList (Cursor.ofString (b ++ ";" ++ c)).finish (tokensOf (b ++ ";" ++ c)) =
      (Parse.ofList (Cursor.ofString (b ++ ";")).finish (tokensOf (b ++ ";"))).append
        ((Parse.ofList (Cursor.ofString c).finish (tokensOf c)).moved origin.relocate)
    rw [hwhole, hfinish, ← Parse.ofList_moved, halone, ← Parse.ofList_append _ _ hclosed, List.append_assoc]
    rfl
  simp only [FrontEnd.parse, hparse, Parse.messages_append]
  rfl

theorem parse_append_malformed_let :
    (FrontEnd.descent.parse ("let f(1;2)" ++ ";" ++ "\nlet y 3; x")).1.map Node.render = ["2", "x"] ∧
      (FrontEnd.descent.parse ("let f(1;2)" ++ ";" ++ "\nlet y 3; x")).2 =
        ["let statement: expected token ASSIGN, got LPAREN '(' at line 1, col 6",
          "expression statement: no prefix parse rule for RPAREN ')' at line 1, col 10",
          "let statement: expected token ASSIGN, got INT '3' at line 2, col 7"] := by
  rw [parse_append_semicolon _ _ (by decide +kernel) (by decide +kernel)]
  decide +kernel

end MonkeyLanguage
