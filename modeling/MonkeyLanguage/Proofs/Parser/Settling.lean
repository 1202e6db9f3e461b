import MonkeyLanguage.Parser.Strict
import MonkeyLanguage.Proofs.Token.Spelling

/-!
# What a state of the automaton makes of the next token

A statement may be complete before its last token is known to be the last.  `State.settle` moves such
a state to the end of the statement once the kind of the next token is known, and taking the token
does not depend on it (`take_settle`).

`State.take` takes a token unless it is an integer above the greatest value, `State.takes` takes tokens
in turn, and `State.complaint` is the error of a token that cannot be taken.  The complaint depends on
whether the state wants one kind of token (`State.wanted`) or some expression.
-/

namespace MonkeyLanguage

namespace Automaton

/-! ## Settling -/

/-- The state behind the expression `left` if a token of the given kind follows. -/
def ExpressionHole.settle (hole : ExpressionHole) (left : Node) (kind : Token.Kind) : State :=
  match hole.apply kind.level left with
  | (whole, .returnValue outer) =>
    if kind.level = .expr ∧ kind ≠ .semicolon then
      .statement (outer.add (.returnStatement whole))
    else .operator whole (.returnValue outer)
  | (whole, .statement outer) =>
    if kind.level = .expr ∧ kind ≠ .semicolon then
      .statement (outer.add (.expressionStatement whole))
    else .operator whole (.statement outer)
  | (whole, outer) => .operator whole outer

/-- Ends the statement that a token of the given kind does not go on with. -/
def State.settle (kind : Token.Kind) : State → State
  | .operator left hole => hole.settle left kind
  | .elseWord condition consequence hole =>
    if kind = .elseWord then .elseWord condition consequence hole
    else hole.settle (.ifElse condition consequence .absent) kind
  | state => state

/-- Takes a token, unless it is an integer above the greatest value. -/
def State.take (state : State) (token : Token) : Option State :=
  if token.isTooLarge then none else state.shift token

def State.takes (state : State) (tokens : List Token) : Option State :=
  tokens.foldlM State.take state

@[simp] theorem takes_nil (σ : State) : σ.takes [] = some σ := rfl

@[simp] theorem takes_cons (σ : State) (t : Token) (ts : List Token) :
    σ.takes (t :: ts) = (σ.take t).bind (·.takes ts) := rfl

theorem takes_append (σ : State) (ts us : List Token) :
    σ.takes (ts ++ us) = (σ.takes ts).bind (·.takes us) := by
  simp only [State.takes, List.foldlM_append]
  rfl

theorem take_of_kind_ne {σ : State} {t : Token} (h : t.kind ≠ .integer) : σ.take t = σ.shift t := by
  simp [State.take, Token.isTooLarge, h]

theorem takes_eq_some_iff {σ σ' : State} {ts : List Token} :
    σ.takes ts = some σ' ↔ σ.run ts = .ok σ' ∧ ∀ t ∈ ts, t.isTooLarge = false := by
  induction ts generalizing σ with
  | nil => simp [State.run]
  | cons t ts ih =>
    rw [takes_cons, State.run, State.take]
    by_cases hl : t.isTooLarge = true
    · simp [hl]
    · simp only [hl, Bool.false_eq_true, if_false, List.forall_mem_cons]
      cases σ.shift t with
      | none => simp
      | some next => simpa using ih

/-! ## Settling changes no reading -/

theorem apply_apply {level : Level} {hole outer : ExpressionHole} {left whole : Node}
    (h : hole.apply level left = (whole, outer)) : outer.apply level whole = (whole, outer) := by
  fun_induction ExpressionHole.apply level left hole with
  | case1 right operator outer' hle ih => exact ih h
  | case2 right operator outer' hle =>
    cases h
    rw [ExpressionHole.apply, if_neg hle]
  | case3 right left operator own outer' hle ih => exact ih h
  | case4 right left operator own outer' hle =>
    cases h
    rw [ExpressionHole.apply, if_neg hle]
  | case5 right hole hunary hbinary =>
    cases h
    simp [ExpressionHole.apply]

theorem proceed_congr {hole hole' : ExpressionHole} {left left' : Node} {t : Token}
    (h : hole.apply t.kind.level left = hole'.apply t.kind.level left') :
    hole.proceed left t = hole'.proceed left' t := by
  rw [ExpressionHole.proceed, ExpressionHole.proceed, h]

theorem proceed_of_no_operator {hole outer : ExpressionHole} {left whole : Node} {t : Token}
    (ht : t.kind.level = .expr) (happ : hole.apply .expr left = (whole, outer)) :
    hole.proceed left t = outer.finish whole t := by
  rw [ExpressionHole.proceed, ht, happ]
  revert ht
  cases t.kind <;> simp [Token.Kind.level_eq]

/-- An operator that does not apply those before it leaves the state as it is. -/
theorem settle_of_apply {kind : Token.Kind} {hole : ExpressionHole} {left : Node}
    (happ : hole.apply kind.level left = (left, hole)) (hk : kind.level ≠ .expr) :
    hole.settle left kind = .operator left hole := by
  rw [ExpressionHole.settle, happ]
  cases hole <;> simp [hk]

theorem shift_settle_expression (hole : ExpressionHole) (left : Node) (t : Token) :
    (hole.settle left t.kind).shift t = hole.proceed left t := by
  unfold ExpressionHole.settle
  cases happ : hole.apply t.kind.level left with
  | mk whole outer =>
    have hself : outer.proceed whole t = hole.proceed left t :=
      proceed_congr ((apply_apply happ).trans happ.symm)
    cases outer with
    | returnValue outer =>
      by_cases h : t.kind.level = .expr ∧ t.kind ≠ .semicolon
      · simp [proceed_of_no_operator h.1 (h.1 ▸ happ), State.shift, ExpressionHole.finish, h]
      · simp only [if_neg h]
        exact hself
    | statement outer =>
      by_cases h : t.kind.level = .expr ∧ t.kind ≠ .semicolon
      · simp [proceed_of_no_operator h.1 (h.1 ▸ happ), State.shift, ExpressionHole.finish, h]
      · simp only [if_neg h]
        exact hself
    | _ => exact hself

theorem shift_settle (σ : State) (t : Token) : (σ.settle t.kind).shift t = σ.shift t := by
  cases σ with
  | operator left hole => exact shift_settle_expression hole left t
  | elseWord condition consequence hole =>
    simp only [State.settle]
    by_cases h : t.kind = .elseWord
    · rw [if_pos h]
    · rw [if_neg h, shift_settle_expression]
      simp [State.shift, h]
  | _ => rfl

theorem take_settle (σ : State) (t : Token) : (σ.settle t.kind).take t = σ.take t := by
  simp only [State.take, shift_settle]

theorem settle_settle (kind : Token.Kind) (σ : State) :
    (σ.settle kind).settle kind = σ.settle kind := by
  have hexpr (hole : ExpressionHole) (left : Node) :
      (hole.settle left kind).settle kind = hole.settle left kind := by
    unfold ExpressionHole.settle
    cases happ : hole.apply kind.level left with
    | mk whole outer =>
      have hself := apply_apply happ
      cases outer with
      | returnValue outer | statement outer =>
        by_cases h : kind.level = .expr ∧ kind ≠ .semicolon
        · simp [h, State.settle]
        · simp [h, State.settle, ExpressionHole.settle, hself]
      | _ => simp [State.settle, ExpressionHole.settle, hself]
  cases σ with
  | operator left hole => exact hexpr hole left
  | elseWord condition consequence hole =>
    by_cases h : kind = .elseWord
    · simp [State.settle, h]
    · have hone : (State.elseWord condition consequence hole).settle kind =
          hole.settle (.ifElse condition consequence .absent) kind := by rw [State.settle, if_neg h]
      rw [hone]
      exact hexpr hole _
  | _ => rfl

/-! ## The end of a text -/

/-- No state goes on with the end token or an illegal one. -/
theorem shift_of_no_word {t : Token} (h : t.kind = .eof ∨ t.kind = .illegal) (σ : State) :
    σ.shift t = none := by
  have hstart (hole : ExpressionHole) : hole.start t = none := by
    rcases h with h | h <;> simp [ExpressionHole.start, h]
  have hstatement (hole : StatementHole) : hole.start t = none := by
    rw [← hstart (.statement hole)]
    rcases h with h | h <;> simp [StatementHole.start, h]
  have hproceed (hole : ExpressionHole) (left : Node) : hole.proceed left t = none := by
    rw [proceed_of_no_operator (by rcases h with h | h <;> rw [h] <;> rfl) rfl]
    cases (hole.apply .expr left).2 <;> rcases h with h | h <;>
      simp [ExpressionHole.finish, h, hstatement]
  cases σ <;> rcases h with h | h <;>
    simp [State.shift, shiftKind, hstart, hproceed, hstatement, h]

theorem take_of_eof {t : Token} (h : t.kind = .eof) (σ : State) : σ.take t = none := by
  rw [take_of_kind_ne (by simp [h]), shift_of_no_word (.inl h)]

theorem statements?_settle (σ : State) : (σ.settle .eof).statements? = σ.statements? := by
  have hexpr (hole : ExpressionHole) (left : Node) :
      (hole.settle left .eof).statements? = hole.statements? left := by
    unfold ExpressionHole.settle
    cases happ : hole.apply Token.Kind.eof.level left with
    | mk whole outer =>
      have happ : hole.apply .expr left = (whole, outer) := happ
      cases outer with
      | returnValue outer =>
        cases outer <;> simp [State.statements?, ExpressionHole.statements?, StatementHole.add, happ,
          Token.Kind.level_eq]
      | statement outer =>
        cases outer <;> simp [State.statements?, ExpressionHole.statements?, StatementHole.add, happ,
          Token.Kind.level_eq]
      | _ => simp [State.statements?, ExpressionHole.statements?, happ, apply_apply happ]
  cases σ with
  | operator left hole => exact hexpr hole left
  | elseWord condition consequence hole => exact hexpr hole _
  | _ => rfl

/-! ## The place of a token -/

theorem shift_congr {t u : Token} (h : t.word = u.word) (σ : State) : σ.shift t = σ.shift u := by
  obtain ⟨hkind, hvalue⟩ := Prod.mk.inj h
  have hinteger : t.integer = u.integer := by rw [Token.integer, Token.integer, hvalue]
  have hstart (hole : ExpressionHole) : hole.start t = hole.start u := by
    simp only [ExpressionHole.start, hkind, hvalue, hinteger]
  have hstatement (hole : StatementHole) : hole.start t = hole.start u := by
    simp only [StatementHole.start, hkind, hstart]
  have hfinish (hole : ExpressionHole) (whole : Node) : hole.finish whole t = hole.finish whole u := by
    cases hole <;> simp only [ExpressionHole.finish, hkind, hstatement]
  have hproceed (hole : ExpressionHole) (left : Node) : hole.proceed left t = hole.proceed left u := by
    simp only [ExpressionHole.proceed, hkind, hvalue, hfinish]
  cases σ <;> simp only [State.shift, shiftKind, hkind, hvalue, hstart, hstatement, hproceed]

theorem isTooLarge_congr {t u : Token} (h : t.word = u.word) : t.isTooLarge = u.isTooLarge := by
  obtain ⟨hkind, hvalue⟩ := Prod.mk.inj h
  rw [Token.isTooLarge, Token.isTooLarge, Token.integer, Token.integer, Token.isOverlong, Token.isOverlong, hkind,
    hvalue]

theorem take_congr {t u : Token} (h : t.word = u.word) (σ : State) : σ.take t = σ.take u := by
  rw [State.take, State.take, isTooLarge_congr h, shift_congr h]

theorem takes_congr {ts us : List Token} (h : ts.map Token.word = us.map Token.word) (σ : State) :
    σ.takes ts = σ.takes us := by
  induction ts generalizing σ us with
  | nil =>
    cases us with
    | nil => rfl
    | cons u us => cases h
  | cons t ts ih =>
    cases us with
    | nil => cases h
    | cons u us =>
      obtain ⟨hword, hwords⟩ := List.cons.inj h
      rw [takes_cons, takes_cons, take_congr hword]
      exact congrArg _ (funext fun σ₁ => ih hwords σ₁)

/-! ## Complaints -/

/-- The kind that ends what the hole stands in, if no operator goes on with the expression. -/
def ExpressionHole.closer : ExpressionHole → Option Token.Kind
  | .letValue .. => some .semicolon
  | .group _ | .condition _ | .argument .. => some .rightParen
  | .element .. | .index .. => some .rightBracket
  | .entryKey .. => some .colon
  | .entryValue .. => some .comma
  | .returnValue _ | .statement _ | .unary .. | .binary .. => none

/-- The kind of token that a settled state has to read.  There is none where an expression may start. -/
def State.wanted : State → Option Token.Kind
  | .operator _ hole => hole.closer
  | .letName _ | .nextParameter .. | .parameterList _ => some .identifier
  | .letAssign .. => some .assign
  | .ifParen _ | .fnParen _ => some .leftParen
  | .thenBrace .. | .elseBrace .. | .bodyBrace .. => some .leftBrace
  | .parameterEnd .. => some .rightParen
  | .statement _ | .operand _ | .arguments .. | .elements _ | .entries .. | .elseWord .. => none

/-- Whether the state is inside a block, where the text must not end. -/
def State.inBlock : State → Bool
  | .statement hole => hole.close.isSome
  | _ => false

/-- What is wrong with a token that cannot be taken. -/
def State.objection (state : State) (token : Token) : ParseError.Cause :=
  match state.wanted with
  | some kind => if token.kind = .illegal then .illegal else .expected kind
  | none =>
    if token.isTooLarge then .integerTooLarge
    else if token.kind = .illegal then .illegal
    else if token.kind = .eof ∧ state.inBlock then .expected .rightBrace
    else .noExpression

/-- The error of a token that cannot be taken. -/
def State.complaint (state : State) (token : Token) : ParseError :=
  ⟨state.objection token, token⟩

end Automaton

end MonkeyLanguage
