import MonkeyLanguage.Parser.Recovery
import MonkeyLanguage.Proofs.Parser.Settling

/-!
# What surrounds the place that a state has reached

`State.brackets` are the brackets open around the next token and `State.root` the complete statements of
the program, the last first.  A token changes the brackets as reading it does (`brackets_take`), and the
statements only grow (`beyond_takes`).
-/

namespace MonkeyLanguage.Automaton

mutual

def StatementHole.brackets : StatementHole → OpenBrackets
  | .program _ => []
  | .functionBody _ _ outer | .thenBlock _ _ outer | .elseBlock _ _ _ outer =>
    .leftBrace :: outer.brackets

def ExpressionHole.brackets : ExpressionHole → OpenBrackets
  | .letValue _ outer | .returnValue outer | .statement outer => outer.brackets
  | .unary _ outer | .binary _ _ _ outer => outer.brackets
  | .group outer | .condition outer | .argument _ _ outer => .leftParen :: outer.brackets
  | .element _ outer | .index _ outer => .leftBracket :: outer.brackets
  | .entryKey _ outer | .entryValue _ _ outer => .leftBrace :: outer.brackets

end

mutual

/-- The statements of the program before the one that the next statement is part of. -/
def StatementHole.root : StatementHole → List Node
  | .program before => before
  | .functionBody _ _ outer | .thenBlock _ _ outer | .elseBlock _ _ _ outer => outer.root

def ExpressionHole.root : ExpressionHole → List Node
  | .letValue _ outer | .returnValue outer | .statement outer => outer.root
  | .unary _ outer | .binary _ _ _ outer | .group outer | .condition outer | .argument _ _ outer
  | .element _ outer | .index _ outer | .entryKey _ outer | .entryValue _ _ outer => outer.root

end

/-- The brackets open around the next token. -/
def State.brackets : State → OpenBrackets
  | .statement hole | .letName hole | .letAssign _ hole => hole.brackets
  | .operand hole | .operator _ hole | .ifParen hole | .thenBrace _ hole | .elseWord _ _ hole
  | .elseBrace _ _ hole | .fnParen hole | .bodyBrace _ hole => hole.brackets
  | .arguments _ hole | .parameterList hole | .nextParameter _ hole | .parameterEnd _ hole =>
    .leftParen :: hole.brackets
  | .elements hole => .leftBracket :: hole.brackets
  | .entries _ hole => .leftBrace :: hole.brackets

/-- The complete statements of the program, the last first. -/
def State.root : State → List Node
  | .statement hole | .letName hole | .letAssign _ hole => hole.root
  | .operand hole | .operator _ hole | .ifParen hole | .thenBrace _ hole | .elseWord _ _ hole
  | .elseBrace _ _ hole | .fnParen hole | .bodyBrace _ hole | .arguments _ hole
  | .parameterList hole | .nextParameter _ hole | .parameterEnd _ hole | .elements hole
  | .entries _ hole => hole.root

variable {σ σ' : State} {t : Token}

/-! ## Brackets -/

theorem brackets_start {hole : ExpressionHole} (h : hole.start t = some σ') :
    σ'.brackets = hole.brackets.read t.kind := by
  unfold ExpressionHole.start at h
  split at h <;> cases h
  all_goals
    next hk =>
      rw [hk]
      rfl

theorem brackets_add (hole : StatementHole) (node : Node) : (hole.add node).brackets = hole.brackets := by
  cases hole <;> rfl

theorem brackets_close {hole : StatementHole} (h : hole.close = some σ') :
    σ'.brackets = hole.brackets.tail := by
  cases hole <;> cases h <;> rfl

theorem brackets_startStatement {hole : StatementHole} (h : hole.start t = some σ') :
    σ'.brackets = hole.brackets.read t.kind := by
  unfold StatementHole.start at h
  split at h
  · next hk => cases h; rw [hk]; rfl
  · next hk => cases h; rw [hk]; rfl
  · next hk => rw [brackets_close h, hk]; rfl
  · exact brackets_start h

theorem brackets_apply (level : Level) (left : Node) (hole : ExpressionHole) :
    (hole.apply level left).2.brackets = hole.brackets := by
  fun_induction ExpressionHole.apply level left hole <;> simp_all [ExpressionHole.brackets]

theorem brackets_finish {hole : ExpressionHole} {whole : Node}
    (h : hole.finish whole t = some σ') : σ'.brackets = hole.brackets.read t.kind := by
  have hstatement {outer : StatementHole} {node : Node}
      (h : (if t.kind = .semicolon then some (.statement (outer.add node))
        else (outer.add node).start t) = some σ') :
      σ'.brackets = outer.brackets.read t.kind := by
    split at h
    · next hk =>
      cases h
      rw [hk, State.brackets, brackets_add]
      rfl
    · rw [brackets_startStatement h, brackets_add]
  cases hole with
  | letValue name outer =>
    simp only [ExpressionHole.finish, Option.ite_none_right_eq_some] at h
    exact hstatement (by rw [if_pos h.1]; exact h.2)
  | returnValue outer => exact hstatement h
  | statement outer => exact hstatement h
  | unary operator outer => cases h
  | binary left operator level outer => cases h
  | _ =>
    simp only [ExpressionHole.finish] at h
    split at h <;> cases h
    all_goals
      next hk =>
        rw [hk]
        rfl

theorem brackets_proceed {hole : ExpressionHole} {left : Node} (h : hole.proceed left t = some σ') :
    σ'.brackets = hole.brackets.read t.kind := by
  rw [← brackets_apply t.kind.level left hole]
  simp only [ExpressionHole.proceed] at h
  split at h
  case h_11 => exact brackets_finish h
  all_goals
    next hk =>
      cases h
      rw [hk]
      rfl

theorem brackets_shift (h : σ.shift t = some σ') : σ'.brackets = σ.brackets.read t.kind := by
  cases σ with
  | statement hole => exact brackets_startStatement h
  | operand hole => exact brackets_start h
  | operator left hole => exact brackets_proceed h
  | arguments function hole | elements hole | entries before hole =>
    simp only [State.shift] at h
    split at h
    · next hk => cases h; rw [hk]; rfl
    · exact brackets_start h
  | elseWord condition consequence hole =>
    simp only [State.shift] at h
    split at h
    · next hk => cases h; rw [hk]; rfl
    · exact brackets_proceed h
  | _ =>
    simp only [State.shift, shiftKind] at h
    repeat' split at h
    all_goals cases h
    all_goals
      next hk =>
        rw [hk]
        rfl

theorem shift_of_take (h : σ.take t = some σ') : σ.shift t = some σ' := by
  rw [State.take] at h
  split at h
  · cases h
  · exact h

/-- Taking a token changes the open brackets as reading it does. -/
theorem brackets_take (h : σ.take t = some σ') : σ'.brackets = σ.brackets.read t.kind :=
  brackets_shift (shift_of_take h)

theorem brackets_takes {ts : List Token} (h : σ.takes ts = some σ') :
    σ'.brackets = σ.brackets.readAll ts.reverse := by
  rw [OpenBrackets.readAll, List.foldr_reverse]
  induction ts generalizing σ with
  | nil =>
    cases h
    rfl
  | cons t ts ih =>
    obtain ⟨σ₁, ht, hrest⟩ := Option.bind_eq_some_iff.1 h
    rw [List.foldl_cons, ← brackets_take ht]
    exact ih hrest

theorem brackets_settleExpression (hole : ExpressionHole) (left : Node) (kind : Token.Kind) :
    (hole.settle left kind).brackets = hole.brackets := by
  rw [← brackets_apply kind.level left hole, ExpressionHole.settle]
  split
  case h_3 happ => rw [happ]; rfl
  all_goals
    next happ =>
    rw [happ]
    split
    · exact brackets_add _ _
    · rfl

theorem brackets_settle (kind : Token.Kind) (σ : State) :
    (σ.settle kind).brackets = σ.brackets := by
  cases σ with
  | operator left hole => exact brackets_settleExpression hole left kind
  | elseWord condition consequence hole =>
    rw [State.settle]
    split
    · rfl
    · exact brackets_settleExpression hole _ kind
  | _ => rfl

/-! ## Complete statements -/

/-- The state lies behind the first `count` statements of the program, and not at their end. -/
def State.Beyond (count : Nat) : State → Prop
  | .statement (.program before) => count < before.length
  | state => count ≤ state.root.length

variable {count : Nat}

theorem beyond_start {hole : ExpressionHole} (hc : count ≤ hole.root.length)
    (h : hole.start t = some σ') : σ'.Beyond count := by
  unfold ExpressionHole.start at h
  split at h <;> cases h <;> exact hc

theorem beyond_close {hole : StatementHole} (hc : count ≤ hole.root.length)
    (h : hole.close = some σ') : σ'.Beyond count := by
  cases hole <;> cases h <;> exact hc

theorem beyond_startStatement {hole : StatementHole} (hc : count ≤ hole.root.length)
    (h : hole.start t = some σ') : σ'.Beyond count := by
  unfold StatementHole.start at h
  split at h
  · cases h; exact hc
  · cases h; exact hc
  · exact beyond_close hc h
  · refine beyond_start ?_ h
    exact hc

theorem beyond_add {hole : StatementHole} (hc : count ≤ hole.root.length) (node : Node) :
    (State.statement (hole.add node)).Beyond count := by
  cases hole with
  | program before => exact Nat.lt_succ_of_le hc
  | _ => exact hc

theorem le_root_add {hole : StatementHole} (hc : count ≤ hole.root.length) (node : Node) :
    count ≤ (hole.add node).root.length := by
  cases hole with
  | program before => exact Nat.le_succ_of_le hc
  | _ => exact hc

theorem root_apply (level : Level) (left : Node) (hole : ExpressionHole) :
    (hole.apply level left).2.root = hole.root := by
  fun_induction ExpressionHole.apply level left hole <;> simp_all [ExpressionHole.root]

theorem beyond_finish {hole : ExpressionHole} {whole : Node} (hc : count ≤ hole.root.length)
    (h : hole.finish whole t = some σ') : σ'.Beyond count := by
  have hstatement {outer : StatementHole} {node : Node} (hc : count ≤ outer.root.length)
      (h : (if t.kind = .semicolon then some (.statement (outer.add node))
        else (outer.add node).start t) = some σ') : σ'.Beyond count := by
    split at h
    · cases h
      exact beyond_add hc node
    · exact beyond_startStatement (le_root_add hc node) h
  cases hole with
  | letValue name outer =>
    simp only [ExpressionHole.finish, Option.ite_none_right_eq_some] at h
    exact hstatement hc (by rw [if_pos h.1]; exact h.2)
  | returnValue outer => exact hstatement hc h
  | statement outer => exact hstatement hc h
  | unary operator outer => cases h
  | binary left operator level outer => cases h
  | _ =>
    simp only [ExpressionHole.finish] at h
    split at h <;> cases h <;> exact hc

theorem beyond_proceed {hole : ExpressionHole} {left : Node} (hc : count ≤ hole.root.length)
    (h : hole.proceed left t = some σ') : σ'.Beyond count := by
  rw [← root_apply t.kind.level left hole] at hc
  simp only [ExpressionHole.proceed] at h
  split at h
  case h_11 => exact beyond_finish hc h
  all_goals
    cases h
    exact hc

theorem beyond_take (hc : count ≤ σ.root.length) (h : σ.take t = some σ') : σ'.Beyond count := by
  replace h := shift_of_take h
  cases σ with
  | statement hole => exact beyond_startStatement hc h
  | operand hole => exact beyond_start hc h
  | operator left hole => exact beyond_proceed hc h
  | arguments function hole | elements hole | entries before hole =>
    simp only [State.shift] at h
    split at h
    · cases h
      exact hc
    · refine beyond_start ?_ h
      exact hc
  | elseWord condition consequence hole =>
    simp only [State.shift] at h
    split at h
    · cases h
      exact hc
    · exact beyond_proceed hc h
  | _ =>
    simp only [State.shift, shiftKind] at h
    repeat' split at h
    all_goals cases h
    all_goals exact hc

theorem beyond_settleExpression {hole : ExpressionHole} (hc : count ≤ hole.root.length) (left : Node)
    (kind : Token.Kind) : (hole.settle left kind).Beyond count := by
  rw [← root_apply kind.level left hole] at hc
  rw [ExpressionHole.settle]
  split
  case h_3 happ => rw [happ] at hc; exact hc
  all_goals
    next happ =>
    rw [happ] at hc
    split
    · exact beyond_add hc _
    · exact hc

theorem le_root_of_beyond (h : σ.Beyond count) : count ≤ σ.root.length := by
  unfold State.Beyond at h
  split at h
  · exact Nat.le_of_lt h
  · exact h

/-- Behind its first token, reading never comes back to the start of the statement. -/
theorem beyond_takes {ts : List Token} (hc : count ≤ σ.root.length)
    (h : σ.takes (t :: ts) = some σ') : σ'.Beyond count := by
  induction ts generalizing σ t with
  | nil =>
    obtain ⟨σ₁, ht, hrest⟩ := Option.bind_eq_some_iff.1 h
    cases hrest
    exact beyond_take hc ht
  | cons t' ts ih =>
    obtain ⟨σ₁, ht, hrest⟩ := Option.bind_eq_some_iff.1 h
    exact ih (le_root_of_beyond (beyond_take hc ht)) hrest

theorem beyond_settle (h : σ.Beyond count) (kind : Token.Kind) : (σ.settle kind).Beyond count := by
  cases σ with
  | operator left hole => exact beyond_settleExpression h left kind
  | elseWord condition consequence hole =>
    rw [State.settle]
    split
    · exact h
    · exact beyond_settleExpression h _ kind
  | _ => exact h

end MonkeyLanguage.Automaton
