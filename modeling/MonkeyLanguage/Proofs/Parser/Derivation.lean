import MonkeyLanguage.Parser.Recovery
import MonkeyLanguage.Proofs.Parser.Descent
import MonkeyLanguage.Proofs.Parser.Grammar

/-!
# Parsing by descent finds derivations

`Yields s m Q` says that `Q` holds of what the parser `m` gives for the stream `s`, if it gives anything.
Every form of the parser yields a sentence of its category (`Sound`), and this passes from the rules to
`Rules.step`.  The operators behind a left operand are taken in a row; the operand so far is always an
expression of the level of the next operator or tighter.
-/

namespace MonkeyLanguage

open Category ParserM

/-! ## Parsers that yield -/

/-- What the parser gives for the stream, if it gives anything. -/
def Yields {α : Type} (s : TokenStream) (m : ParserM α) (Q : α → TokenStream → Prop) : Prop :=
  ∀ a s', m s = .ok a s' → s'.tokens.length ≤ s.tokens.length ∧ Q a s'

variable {α β : Type} {s s' : TokenStream} {m : ParserM α} {Q Q' : α → TokenStream → Prop}
  {R : β → TokenStream → Prop}

theorem tokens_eq_of_peek (h : s.peek.kind ≠ .eof) : s.tokens = s.peek :: s.tail.tokens := by
  obtain ⟨read, _ | ⟨t, ts⟩, finish⟩ := s
  · exact absurd rfl h
  · rfl

namespace Yields

theorem bind {f : α → ParserM β} (hm : Yields s m Q)
    (hf : ∀ a s', s'.tokens.length ≤ s.tokens.length → Q a s' → Yields s' (f a) R) :
    Yields s (m >>= f) R := by
  intro b s₂ h
  change EStateM.bind m f s = _ at h
  rw [EStateM.bind] at h
  cases hms : m s with
  | error e s₁ =>
    rw [hms] at h
    cases h
  | ok a s₁ =>
    rw [hms] at h
    obtain ⟨hlength, hQ⟩ := hm a s₁ hms
    obtain ⟨hlength', hR⟩ := hf a s₁ hlength hQ b s₂ h
    exact ⟨Nat.le_trans hlength' hlength, hR⟩

theorem pure {a : α} (hQ : Q a s) : Yields s (Pure.pure a) Q := by
  intro b s₁ h
  cases h
  exact ⟨Nat.le_refl _, hQ⟩

theorem mono (hm : Yields s m Q) (h : ∀ a s', Q a s' → Q' a s') : Yields s m Q' :=
  fun a s' ha => ⟨(hm a s' ha).1, h a s' (hm a s' ha).2⟩

theorem throw {e : ParseError} : Yields s (MonadExcept.throw e : ParserM α) Q := by
  intro a s₁ h
  cases h

theorem peek {f : Token.Kind → ParserM α} (h : Yields s (f s.peek.kind) Q) :
    Yields s (peekKind >>= f) Q :=
  h

theorem next {f : Token → ParserM α} (h : Yields s.tail (f s.peek) Q) : Yields s (ParserM.next >>= f) Q := by
  intro a s₁ ha
  obtain ⟨hlength, hQ⟩ := h a s₁ ha
  refine ⟨Nat.le_trans hlength ?_, hQ⟩
  rw [s.length_tail]
  exact Nat.sub_le _ _

theorem expect {kind : Token.Kind} {f : Token → ParserM α} (hk : kind ≠ .eof)
    (h : s.peek.kind = kind → s.tokens = s.peek :: s.tail.tokens → Yields s.tail (f s.peek) Q) :
    Yields s (ParserM.expect kind >>= f) Q := by
  intro a s₁ ha
  change EStateM.bind (ParserM.expect kind) f s = _ at ha
  rw [EStateM.bind, expect_apply] at ha
  by_cases hkind : s.peek.kind = kind
  · rw [if_pos hkind] at ha
    exact next (h hkind (tokens_eq_of_peek (by rw [hkind]; exact hk))) a s₁ ha
  · rw [if_neg hkind] at ha
    cases ha

theorem skip {kind : Token.Kind} {f : Unit → ParserM α} (hk : kind ≠ .eof)
    (h : s.peek.kind = kind → s.tokens = s.peek :: s.tail.tokens → Yields s.tail (f ()) Q)
    (h' : s.peek.kind ≠ kind → Yields s (f ()) Q) : Yields s (ParserM.skip kind >>= f) Q := by
  unfold ParserM.skip
  by_cases hkind : s.peek.kind = kind
  · refine bind (.peek (Q := fun _ s' => s' = s.tail) ?_) fun _ s' _ hs' => ?_
    · rw [if_pos hkind]
      exact .next (.pure rfl)
    · rw [hs']
      exact h hkind (tokens_eq_of_peek (by rw [hkind]; exact hk))
  · refine bind (.peek (Q := fun _ s' => s' = s) ?_) fun _ s' _ hs' => ?_
    · rw [if_neg hkind]
      exact .pure rfl
    · rw [hs']
      exact h' hkind

theorem within {b : Nat} (hm : Yields s m Q) (hs : s.tokens.length ≤ b) :
    Yields s m fun a s' => s'.tokens.length ≤ b ∧ Q a s' :=
  fun a s' ha => ⟨(hm a s' ha).1, Nat.le_trans (hm a s' ha).1 hs, (hm a s' ha).2⟩

end Yields

/-! ## Sound rules -/

/-- What an expression up to an operator of level `p` or looser is, which starts with the tokens `ts`. -/
def Operation (p : Level) (ts : List Token) (e : Node) (s : TokenStream) : Prop :=
  (∃ q, p < q.grip ∧ Derives (.expression q e) ts s.tokens) ∧ s.peek.kind.level ≤ p

/-- What a statement is, which starts with the tokens `ts`.  No operator follows it without a semicolon. -/
def IsStatement (ts : List Token) (node : Node) (s : TokenStream) : Prop :=
  ∃ ended, Derives (.statement ended node) ts s.tokens ∧
    (ended = false → s.peek.kind.level = .expr)

theorem IsStatement.cons {node : Node} {nodes : List Node} {ts us : List Token} (h : IsStatement ts node s)
    (hnodes : Derives (statements nodes) s.tokens us) : Derives (statements (node :: nodes)) ts us := by
  obtain ⟨ended, hnode, hlow⟩ := h
  refine .moreStatements hnode hnodes fun hopen t ht => ?_
  have hpeek : s.peek = t := by
    rw [TokenStream.peek, List.headD_eq_head?_getD, ht]
    rfl
  exact hpeek ▸ hlow hopen

/-- The rules yield sentences of their categories, on streams of at most `n` tokens. -/
structure Sound (r : Rules) (n : Nat) : Prop where
  expression : ∀ {p s}, s.tokens.length ≤ n → p < .call → Yields s (r.expression p) (Operation p.level s.tokens)
  operators : ∀ {p q left ts s}, s.tokens.length ≤ n → p.level < q.grip → s.peek.kind.level ≤ q →
    Derives (.expression q left) ts s.tokens → Yields s (r.operators p left) (Operation p.level ts)
  items : ∀ {close e ts s}, s.tokens.length ≤ n → close ≠ .eof → Derives (.expression .expr e) ts s.tokens →
    Yields s (r.items close) fun nodes s' =>
      ∃ c : Token, c.kind = close ∧ Derives (.items (e :: nodes)) ts (c :: s'.tokens)
  parameters : ∀ {t : Token} {s}, s.tokens.length ≤ n → t.kind = .identifier →
    Yields s r.parameters fun xs s' =>
      ∃ c : Token, c.kind = .rightParen ∧ Derives (.names (t.value :: xs)) (t :: s.tokens) (c :: s'.tokens)
  entries : ∀ {s}, s.tokens.length ≤ n → Yields s r.entries fun pairs s' =>
    ∃ c : Token, c.kind = .rightBrace ∧ Derives (.entries pairs) s.tokens (c :: s'.tokens) ∧
      (s.peek.kind = .rightBrace → pairs = [] ∧ s.tokens = c :: s'.tokens)
  statements : ∀ {s}, s.tokens.length ≤ n → Yields s r.statements fun nodes s' =>
    ∃ c : Token, c.kind = .rightBrace ∧ Derives (.statements nodes) s.tokens (c :: s'.tokens)

section
variable {r : Rules} {n : Nat} (hr : Sound r n)
include hr

theorem expression_yields (hs : s.tokens.length ≤ n) : Yields s (r.expression .lowest) fun e s' =>
    Derives (expression .expr e) s.tokens s'.tokens ∧ s'.peek.kind.level = .expr :=
  (hr.expression hs (by decide)).mono fun _ _ ⟨⟨_, _, he⟩, hlow⟩ =>
    ⟨he.expr, Level.le_expr_iff.1 hlow⟩

theorem list_yields {close : Token.Kind} (hs : s.tokens.length ≤ n) (hclose : close ≠ .eof) :
    Yields s (r.list close) fun nodes s' =>
      ∃ c : Token, c.kind = close ∧ Derives (list nodes) s.tokens (c :: s'.tokens) := by
  unfold Rules.list
  refine .peek ?_
  split
  · next hk =>
    refine .next (.pure ⟨s.peek, hk, ?_⟩)
    rw [tokens_eq_of_peek (by rw [hk]; exact hclose)]
    exact .noItems
  · refine (expression_yields hr hs).bind fun e s₁ h₁ he => ?_
    refine (hr.items (Nat.le_trans h₁ hs) hclose he.1).bind fun nodes s₂ h₂ hnodes => ?_
    obtain ⟨c, hc, hnodes⟩ := hnodes
    exact .pure ⟨c, hc, .someItems hnodes⟩

theorem block_yields (hs : s.tokens.length ≤ n) : Yields s r.block fun node s' =>
    ∃ nodes, node = .block nodes ∧ Derives (block nodes) s.tokens s'.tokens := by
  unfold Rules.block
  refine .expect (by decide) fun hl htokens => ?_
  rw [htokens] at hs
  refine (hr.statements (Nat.le_of_succ_le hs)).bind fun nodes s₁ h₁ hnodes => ?_
  obtain ⟨c, hc, hnodes⟩ := hnodes
  refine .pure ⟨nodes, rfl, ?_⟩
  rw [htokens]
  exact .block hl hnodes hc

/-! ## Operands -/

theorem ifElse_yields {t : Token} (ht : t.kind = .ifWord) (hs : s.tokens.length ≤ n) :
    Yields s r.ifElse fun e s' => Derives (expression .suffix e) (t :: s.tokens) s'.tokens := by
  unfold Rules.ifElse
  refine .expect (by decide) fun hl htokens => ?_
  rw [htokens] at hs ⊢
  refine (expression_yields hr (Nat.le_of_succ_le hs)).bind fun condition s₁ h₁ hcondition => ?_
  refine .expect (by decide) fun hr' htokens₁ => ?_
  have hcondition := htokens₁ ▸ hcondition.1
  have htail₁ := s₁.length_tail
  rw [List.length_cons] at hs
  refine (block_yields hr (by omega)).bind fun consequence s₂ h₂ hconsequence => ?_
  obtain ⟨nodes, rfl, hconsequence⟩ := hconsequence
  refine .peek ?_
  split
  · next helse =>
    have htail₂ := s₂.length_tail
    have htokens₂ : s₂.tokens = s₂.peek :: s₂.tail.tokens := tokens_eq_of_peek (by simp [helse])
    rw [htokens₂] at hconsequence
    refine .next ((block_yields hr (by omega)).bind fun alternative s₃ h₃ halternative => ?_)
    obtain ⟨nodes', rfl, halternative⟩ := halternative
    exact .pure (.ifElse ht hl hcondition hr' hconsequence helse halternative)
  · exact .pure (.ifThen ht hl hcondition hr' hconsequence)

theorem parameterList_yields (hs : s.tokens.length ≤ n) : Yields s r.parameterList fun xs s' =>
    ∃ c : Token, c.kind = .rightParen ∧ Derives (parameters xs) s.tokens (c :: s'.tokens) := by
  unfold Rules.parameterList
  refine .peek ?_
  split
  · next hk =>
    refine .next (.pure ⟨s.peek, hk, ?_⟩)
    rw [tokens_eq_of_peek (by simp [hk])]
    exact .noParameters
  · refine .expect (by decide) fun hk htokens => ?_
    rw [htokens] at hs ⊢
    refine (hr.parameters (Nat.le_of_succ_le hs) hk).bind fun xs s₁ h₁ hxs => ?_
    obtain ⟨c, hc, hxs⟩ := hxs
    exact .pure ⟨c, hc, .someParameters hxs⟩

theorem function_yields {t : Token} (ht : t.kind = .fnWord) (hs : s.tokens.length ≤ n) :
    Yields s r.function fun e s' => Derives (expression .suffix e) (t :: s.tokens) s'.tokens := by
  unfold Rules.function
  refine .expect (by decide) fun hl htokens => ?_
  rw [htokens] at hs ⊢
  rw [List.length_cons] at hs
  refine (parameterList_yields hr (by omega)).bind fun xs s₁ h₁ hxs => ?_
  obtain ⟨c, hc, hxs⟩ := hxs
  refine (block_yields hr (by omega)).bind fun body s₂ h₂ hbody => ?_
  obtain ⟨nodes, rfl, hbody⟩ := hbody
  exact .pure (.function ht hl hxs hc hbody)

/-- An operand is an expression of the level `suffix`, or of the level `unary` and no call follows. -/
theorem operand_yields (hs : s.tokens.length ≤ n + 1) : Yields s r.operand fun e s' =>
    s'.tokens.length ≤ n ∧ ∃ q : Level, .unary ≤ q ∧ s'.peek.kind.level ≤ q ∧
      Derives (expression q e) s.tokens s'.tokens := by
  have htail : s.tail.tokens.length ≤ n := by
    rw [s.length_tail]
    omega
  have hcall {m : ParserM Node} (hk : s.peek.kind ≠ .eof) (hm : Yields s.tail m fun e s' =>
      Derives (expression .suffix e) (s.peek :: s.tail.tokens) s'.tokens) :
      Yields s.tail m fun e s' => s'.tokens.length ≤ n ∧ ∃ q : Level, .unary ≤ q ∧
        s'.peek.kind.level ≤ q ∧ Derives (expression q e) s.tokens s'.tokens := by
    rw [tokens_eq_of_peek hk]
    exact (hm.within htail).mono fun e s' h => ⟨h.1, .suffix, by decide, Level.le_suffix _, h.2⟩
  unfold Rules.operand
  refine .next ?_
  cases hk : s.peek.kind with
  | identifier => exact hcall (by simp [hk]) (.pure (.identifier hk))
  | string => exact hcall (by simp [hk]) (.pure (.string hk))
  | trueWord => exact hcall (by simp [hk]) (.pure (.trueWord hk))
  | falseWord => exact hcall (by simp [hk]) (.pure (.falseWord hk))
  | integer =>
    refine hcall (by simp [hk]) ?_
    change Yields s.tail (Rules.integerLiteral s.peek) _
    unfold Rules.integerLiteral
    split
    · exact .throw
    · next hsmall => exact .pure (.integer hk (by simpa using hsmall))
  | bang | minus =>
    rw [tokens_eq_of_peek (by simp [hk])]
    refine ((hr.expression htail (by decide)).within htail).bind fun e s₁ h₁ he => ?_
    obtain ⟨hn, ⟨q, hq, he⟩, hstop⟩ := he
    exact .pure ⟨hn, .unary, by decide, hstop, .unary (by simp [hk]) (.raise (le_of_lt_grip hq) he)⟩
  | leftParen =>
    refine hcall (by simp [hk]) ?_
    refine (expression_yields hr htail).bind fun e s₁ h₁ he => ?_
    refine .expect (by decide) fun hclose htokens => .pure (.group hk ?_ hclose)
    rw [← htokens]
    exact he.1
  | ifWord => exact hcall (by simp [hk]) (ifElse_yields hr hk htail)
  | fnWord => exact hcall (by simp [hk]) (function_yields hr hk htail)
  | leftBracket =>
    refine hcall (by simp [hk]) ?_
    refine (list_yields hr htail (by decide)).bind fun elements s₁ h₁ helements => ?_
    obtain ⟨c, hc, helements⟩ := helements
    exact .pure (.array hk helements hc)
  | leftBrace =>
    refine hcall (by simp [hk]) ?_
    refine (hr.entries htail).bind fun pairs s₁ h₁ hpairs => ?_
    obtain ⟨c, hc, hpairs, -⟩ := hpairs
    exact .pure (.hash hk hpairs hc)
  | _ => exact .throw

/-! ## Operators -/

theorem binary_yields {p q : Level} {left : Node} {ts : List Token}
    (hs : s.tail.tokens.length ≤ n) (hlow : .expr < s.peek.kind.level)
    (hhigh : s.peek.kind.level < .unary) (hq : s.peek.kind.level ≤ q)
    (hp : p < s.peek.kind.level) (hleft : Derives (expression q left) ts (s.peek :: s.tail.tokens)) :
    Yields s.tail
      (r.expression s.peek.kind.precedence >>= fun right => Pure.pure (.binary left s.peek.value right))
      fun e s' => ∃ q : Level, p < q.grip ∧ s'.peek.kind.level ≤ q ∧
        Derives (expression q e) ts s'.tokens := by
  have hlevel := s.peek.kind.level_precedence
  refine (hr.expression hs ?_).bind fun right s₁ h₁ hright => ?_
  · exact Precedence.level_lt_level.1 (hlevel ▸ Nat.lt_trans hhigh (by decide))
  rw [hlevel] at hright
  obtain ⟨⟨q', hq', hright⟩, hstop⟩ := hright
  refine .pure ⟨s.peek.kind.level, ?_, hstop, ?_⟩
  · rw [grip_eq_self hlow hhigh]
    exact hp
  · exact .binary hlow hhigh (lt_of_lt_grip hlow hhigh hq') (.raise hq hleft) hright

theorem operator_yields {p q : Level} {left : Node} {ts : List Token} (hs : s.tail.tokens.length ≤ n)
    (hp : p < s.peek.kind.level) (hq : s.peek.kind.level ≤ q)
    (hleft : Derives (expression q left) ts s.tokens) :
    Yields s.tail (r.operator left s.peek) fun e s' => ∃ q : Level, p < q.grip ∧
      s'.peek.kind.level ≤ q ∧ Derives (expression q e) ts s'.tokens := by
  have hlow : .expr < s.peek.kind.level := Level.lt_of_le_of_lt (Level.expr_le p) hp
  have hne : s.peek.kind ≠ .eof := by
    intro h
    simp [h, Token.Kind.level_eq, Level.expr_lt_iff] at hlow
  rw [tokens_eq_of_peek hne] at hleft
  unfold Rules.operator
  cases hk : s.peek.kind with
  | leftParen =>
    rw [hk] at hp hq
    refine (list_yields hr hs (by decide)).bind fun arguments s₁ h₁ harguments => ?_
    obtain ⟨c, hc, harguments⟩ := harguments
    exact .pure ⟨.suffix, hp, Level.le_suffix _, .call (.raise hq hleft) hk harguments hc⟩
  | leftBracket =>
    rw [hk] at hp hq
    refine (expression_yields hr hs).bind fun position s₁ h₁ hposition => ?_
    refine .expect (by decide) fun hclose htokens => .pure ⟨.suffix, hp, Level.le_suffix _, ?_⟩
    exact .index (.raise hq hleft) hk (htokens ▸ hposition.1) hclose
  | equal | notEqual | less | greater | plus | minus | asterisk | slash =>
    have hyields := binary_yields hr hs hlow (by rw [hk]; decide) hq hp hleft
    rw [hk] at hyields
    exact hyields
  | _ => simp [hk, Token.Kind.level_eq, Level.expr_lt_iff] at hlow

theorem climb_yields {p : Precedence} {q : Level} {left : Node} {ts : List Token} (hs : s.tokens.length ≤ n + 1)
    (hp : p.level < q.grip) (hq : s.peek.kind.level ≤ q) (hleft : Derives (expression q left) ts s.tokens) :
    Yields s (r.climb p left) (Operation p.level ts) := by
  have htail := s.length_tail
  unfold Rules.climb
  refine .peek ?_
  split
  · next hlt =>
    have hlt := Precedence.level_lt_iff.2 hlt
    refine .next ((operator_yields hr (by omega) hlt hq hleft).bind fun e s₁ h₁ he => ?_)
    obtain ⟨q', hp', hq', he⟩ := he
    exact hr.operators (by omega) hp' hq' he
  · next hlt => exact .pure ⟨⟨q, hp, hleft⟩, Level.not_lt.1 (mt Precedence.level_lt_iff.1 hlt)⟩

theorem operation_yields {p : Precedence} (hs : s.tokens.length ≤ n + 1) (hp : p < .call) :
    Yields s (r.operation p) fun e s' => s'.tokens.length ≤ n ∧ Operation p.level s.tokens e s' := by
  unfold Rules.operation
  refine (operand_yields hr hs).bind fun e s₁ _ he => ?_
  obtain ⟨hn, q, hq, hstop, he⟩ := he
  have hgrip : p.level < q.grip := by
    revert hq hp
    cases p <;> cases q <;> decide
  exact (climb_yields hr (Nat.le_succ_of_le hn) hgrip hstop he).within hn

/-! ## Statements -/

theorem statement_yields (hs : s.tokens.length ≤ n + 1) :
    Yields s r.statement fun node s' => s'.tokens.length ≤ n ∧ IsStatement s.tokens node s' := by
  have htail : s.tail.tokens.length ≤ n := by
    rw [s.length_tail]
    omega
  unfold Rules.statement
  refine .peek ?_
  split
  · next hk =>
    rw [tokens_eq_of_peek (by simp [hk])]
    refine .next (Yields.within ?_ htail)
    refine .expect (by decide) fun hname hname' => .expect (by decide) fun hassign hassign' => ?_
    rw [hname', hassign'] at htail ⊢
    simp only [List.length_cons] at htail
    refine (expression_yields hr (by omega)).bind fun value s₁ h₁ hvalue => ?_
    refine .expect (by decide) fun hend hend' => .pure ⟨true, ?_, nofun⟩
    exact .letStatement hk hname hassign (hend' ▸ hvalue.1) hend
  · next hk =>
    rw [tokens_eq_of_peek (by simp [hk])]
    refine .next (Yields.within ?_ htail)
    refine (expression_yields hr htail).bind fun value s₁ h₁ hvalue => ?_
    refine .skip (by decide) (fun hend hend' => .pure ⟨true, ?_, nofun⟩) fun _ => ?_
    · exact .returnStatement hk (hend' ▸ hvalue.1) hend
    · exact .pure ⟨false, .openReturn hk hvalue.1, fun _ => hvalue.2⟩
  · refine (operation_yields hr hs (by decide)).bind fun e s₁ h₁ he => ?_
    obtain ⟨hn, ⟨_, _, he⟩, hlow⟩ := he
    have he := he.expr
    refine Yields.within (.skip (by decide) (fun hend hend' => ?_) fun _ => ?_) hn
    · exact .pure ⟨true, .expressionStatement (hend' ▸ he) hend, nofun⟩
    · exact .pure ⟨false, .openExpression he, fun _ => Level.le_expr_iff.1 hlow⟩

/-! ## Lists and blocks -/

theorem items_yields {close : Token.Kind} {e : Node} {ts : List Token} (hs : s.tokens.length ≤ n + 1)
    (hclose : close ≠ .eof) (he : Derives (expression .expr e) ts s.tokens) :
    Yields s (r.step.items close) fun nodes s' =>
      ∃ c : Token, c.kind = close ∧ Derives (items (e :: nodes)) ts (c :: s'.tokens) := by
  have htail := s.length_tail
  refine .peek ?_
  split
  · next hcomma =>
    rw [tokens_eq_of_peek (by simp [hcomma])] at he
    refine .next ((expression_yields hr (by omega)).bind fun e' s₁ h₁ he' => ?_)
    refine (hr.items (by omega) hclose he'.1).bind fun nodes s₂ h₂ hnodes => ?_
    obtain ⟨c, hc, hnodes⟩ := hnodes
    exact .pure ⟨c, hc, .moreItems he hcomma hnodes⟩
  · exact .expect hclose fun hk htokens => .pure ⟨s.peek, hk, .item (htokens ▸ he)⟩

theorem parameters_yields {t : Token} (hs : s.tokens.length ≤ n + 1) (ht : t.kind = .identifier) :
    Yields s r.step.parameters fun xs s' =>
      ∃ c : Token, c.kind = .rightParen ∧ Derives (names (t.value :: xs)) (t :: s.tokens) (c :: s'.tokens) := by
  have htail := s.length_tail
  refine .peek ?_
  split
  · next hcomma =>
    rw [tokens_eq_of_peek (by simp [hcomma])]
    refine .next (.expect (by decide) fun hname hname' => ?_)
    rw [hname'] at htail ⊢
    rw [List.length_cons] at htail
    refine (hr.parameters (by omega) hname).bind fun xs s₁ h₁ hxs => ?_
    obtain ⟨c, hc, hxs⟩ := hxs
    exact .pure ⟨c, hc, .moreNames ht hcomma hxs⟩
  · exact .expect (by decide) fun hk htokens => .pure ⟨s.peek, hk, htokens ▸ .name ht⟩

theorem entries_yields (hs : s.tokens.length ≤ n + 1) : Yields s r.step.entries fun pairs s' =>
    ∃ c : Token, c.kind = .rightBrace ∧ Derives (entries pairs) s.tokens (c :: s'.tokens) ∧
      (s.peek.kind = .rightBrace → pairs = [] ∧ s.tokens = c :: s'.tokens) := by
  refine .peek ?_
  split
  · next hk =>
    have htokens : s.tokens = s.peek :: s.tail.tokens := tokens_eq_of_peek (by simp [hk])
    exact .next (.pure ⟨s.peek, hk, htokens ▸ .noEntries, fun _ => ⟨rfl, htokens⟩⟩)
  · next hne =>
    refine (operation_yields hr hs (by decide)).bind fun key s₁ h₁ hkey => ?_
    obtain ⟨hn, ⟨_, _, hkey⟩, -⟩ := hkey
    refine .expect (by decide) fun hcolon hcolon' => ?_
    rw [hcolon'] at hkey hn
    have hkey := hkey.expr
    refine (expression_yields hr (Nat.le_of_succ_le hn)).bind fun value s₂ h₂ hvalue => ?_
    have hs₂ := Nat.le_trans h₂ (Nat.le_of_succ_le hn)
    refine .peek ?_
    split
    · refine .expect (by decide) fun hcomma hcomma' => ?_
      have htail := s₂.length_tail
      refine (hr.entries (by omega)).bind fun pairs s₃ h₃ hpairs => ?_
      obtain ⟨c, hc, hpairs, -⟩ := hpairs
      refine .pure ⟨c, hc, ?_, fun h => absurd h hne⟩
      exact .moreEntries hkey hcolon (hcomma' ▸ hvalue.1) hcomma hpairs
    · next hk =>
      refine (hr.entries hs₂).bind fun pairs s₃ h₃ hpairs => ?_
      obtain ⟨c, hc, -, hclose⟩ := hpairs
      obtain ⟨rfl, htokens⟩ := hclose (by simpa using hk)
      exact .pure ⟨c, hc, .entry hkey hcolon (htokens ▸ hvalue.1), fun h => absurd h hne⟩

theorem statements_yields (hs : s.tokens.length ≤ n + 1) : Yields s r.step.statements fun nodes s' =>
    ∃ c : Token, c.kind = .rightBrace ∧ Derives (statements nodes) s.tokens (c :: s'.tokens) := by
  refine .peek ?_
  split
  · next hk =>
    have htokens : s.tokens = s.peek :: s.tail.tokens := tokens_eq_of_peek (by simp [hk])
    exact .next (.pure ⟨s.peek, hk, htokens ▸ .noStatements⟩)
  · exact .next .throw
  · refine (statement_yields hr hs).bind fun first s₁ _ hfirst => ?_
    refine (hr.statements hfirst.1).bind fun nodes s₂ h₂ hnodes => ?_
    obtain ⟨c, hc, hnodes⟩ := hnodes
    exact .pure ⟨c, hc, hfirst.2.cons hnodes⟩

end

/-! ## All rules -/

theorem sound_atEnd : Sound .atEnd 0 where
  expression _ _ := .next .throw
  operators hs hp _ hleft := by
    refine .pure ⟨⟨_, hp, hleft⟩, ?_⟩
    rw [kind_of_length_le_zero hs]
    exact Level.expr_le _
  items _ _ _ := .next .throw
  parameters _ _ := .next .throw
  entries _ := .next .throw
  statements _ := .next .throw

theorem Sound.step {r : Rules} {n : Nat} (hr : Sound r n) : Sound r.step (n + 1) where
  expression hs hp := (operation_yields hr hs hp).mono fun _ _ h => h.2
  operators hs hp hq hleft := climb_yields hr hs hp hq hleft
  items hs hclose he := items_yields hr hs hclose he
  parameters hs ht := parameters_yields hr hs ht
  entries hs := entries_yields hr hs
  statements hs := statements_yields hr hs

theorem sound_rules (n : Nat) : Sound (rules n) n := by
  induction n with
  | zero => exact sound_atEnd
  | succ n ih => exact ih.step

/-! ## Whole programs -/

theorem derives_ofTokens {m n : Nat} {finish : Position} {ts : List Token} (brackets : OpenBrackets)
    (hn : ts.length ≤ n) (hm : n ≤ m) (h : (Parse.ofTokens (rules m) finish n ts brackets).failures = []) :
    Derives (statements (Parse.ofTokens (rules m) finish n ts brackets).statements) ts [] := by
  induction n generalizing ts brackets with
  | zero =>
    obtain rfl : ts = [] := List.length_eq_zero_iff.1 (Nat.le_zero.1 hn)
    exact .noStatements
  | succ n ih =>
    cases ts with
    | nil => exact .noStatements
    | cons first rest =>
      rw [Parse.ofTokens] at h ⊢
      cases hstatement : (rules m).statement ⟨[], first :: rest, finish⟩ with
      | error e s' => simp [hstatement] at h
      | ok node s' =>
        rw [hstatement] at h
        have hlen : (first :: rest).length ≤ m := Nat.le_trans hn hm
        have hshorter : s'.tokens.length ≤ (first :: rest).length - 1 :=
          length_of_statement_ok hlen hstatement
        have hlength : s'.tokens.length ≤ n := by
          simp only [List.length_cons] at hn hshorter
          omega
        have hnode := statement_yields (sound_rules m) (Nat.le_succ_of_le hlen) node s' hstatement
        exact hnode.2.2.cons (ih (brackets.readAll s'.read) hlength (by omega) h)

end MonkeyLanguage
