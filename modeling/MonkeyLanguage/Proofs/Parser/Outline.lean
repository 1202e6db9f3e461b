import MonkeyLanguage.Proofs.Parser.Settling

/-!
# The outline of a state

Which kinds of token a state takes is a matter of its constructors.  `outline` forgets the values in
between, and taking a token commutes with it (`shift_outline`), so a run goes on as far as another whose
tokens have the same kinds (`run_congr`).
-/

namespace MonkeyLanguage

def Token.Kind.bare (kind : Token.Kind) : Token :=
  ⟨kind, "", .start⟩

/-- The token without its value and position. -/
def Token.outline (t : Token) : Token :=
  t.kind.bare

@[simp] theorem Token.Kind.kind_bare (kind : Token.Kind) : kind.bare.kind = kind := rfl

@[simp] theorem Token.kind_outline (t : Token) : t.outline.kind = t.kind := rfl

namespace Automaton

mutual

def StatementHole.outline : StatementHole → StatementHole
  | .program _ => .program []
  | .functionBody _ _ outer => .functionBody [] [] outer.outline
  | .thenBlock _ _ outer => .thenBlock .absent [] outer.outline
  | .elseBlock _ _ _ outer => .elseBlock .absent .absent [] outer.outline

def ExpressionHole.outline : ExpressionHole → ExpressionHole
  | .letValue _ outer => .letValue "" outer.outline
  | .returnValue outer => .returnValue outer.outline
  | .statement outer => .statement outer.outline
  | .unary _ outer => .unary "" outer.outline
  | .binary _ _ level outer => .binary .absent "" level outer.outline
  | .group outer => .group outer.outline
  | .condition outer => .condition outer.outline
  | .argument _ _ outer => .argument .absent [] outer.outline
  | .element _ outer => .element [] outer.outline
  | .index _ outer => .index .absent outer.outline
  | .entryKey _ outer => .entryKey [] outer.outline
  | .entryValue _ _ outer => .entryValue [] .absent outer.outline

end

/-- The state without the values in it. -/
def State.outline : State → State
  | .statement hole => .statement hole.outline
  | .operand hole => .operand hole.outline
  | .operator _ hole => .operator .absent hole.outline
  | .letName hole => .letName hole.outline
  | .letAssign _ hole => .letAssign "" hole.outline
  | .arguments _ hole => .arguments .absent hole.outline
  | .elements hole => .elements hole.outline
  | .entries _ hole => .entries [] hole.outline
  | .ifParen hole => .ifParen hole.outline
  | .thenBrace _ hole => .thenBrace .absent hole.outline
  | .elseWord _ _ hole => .elseWord .absent .absent hole.outline
  | .elseBrace _ _ hole => .elseBrace .absent .absent hole.outline
  | .fnParen hole => .fnParen hole.outline
  | .parameterList hole => .parameterList hole.outline
  | .nextParameter _ hole => .nextParameter [] hole.outline
  | .parameterEnd _ hole => .parameterEnd [] hole.outline
  | .bodyBrace _ hole => .bodyBrace [] hole.outline

mutual

@[simp] theorem outline_outlineStatement : (hole : StatementHole) → hole.outline.outline = hole.outline
  | .program _ => rfl
  | .functionBody _ _ outer | .thenBlock _ _ outer | .elseBlock _ _ _ outer => by
    simp [StatementHole.outline, outline_outlineExpression outer]

@[simp] theorem outline_outlineExpression :
    (hole : ExpressionHole) → hole.outline.outline = hole.outline
  | .letValue _ outer | .returnValue outer | .statement outer => by
    simp [ExpressionHole.outline, outline_outlineStatement outer]
  | .unary _ outer | .binary _ _ _ outer | .group outer | .condition outer | .argument _ _ outer
  | .element _ outer | .index _ outer | .entryKey _ outer | .entryValue _ _ outer => by
    simp [ExpressionHole.outline, outline_outlineExpression outer]

end

@[simp] theorem outline_add (hole : StatementHole) (node : Node) :
    (hole.add node).outline = hole.outline := by
  cases hole <;> rfl

theorem start_outline (hole : ExpressionHole) (t : Token) :
    (hole.outline.start t.outline).map State.outline = (hole.start t).map State.outline := by
  unfold ExpressionHole.start
  cases hk : t.kind <;> simp [Token.outline, hk, State.outline, ExpressionHole.outline]

theorem close_outline (hole : StatementHole) :
    hole.outline.close.map State.outline = hole.close.map State.outline := by
  cases hole <;> simp [StatementHole.outline, StatementHole.close, State.outline]

theorem startStatement_outline (hole : StatementHole) (t : Token) :
    (hole.outline.start t.outline).map State.outline = (hole.start t).map State.outline := by
  have hstart := start_outline (.statement hole) t
  have hclose := close_outline hole
  unfold StatementHole.start
  cases hk : t.kind <;>
    simp_all [Token.outline, State.outline, ExpressionHole.outline]

theorem apply_outline (level : Level) (left left' : Node) (hole : ExpressionHole) :
    (hole.outline.apply level left').2 = (hole.apply level left).2.outline := by
  fun_induction ExpressionHole.apply level left hole generalizing left' with
  | case1 _ _ outer hle ih =>
    rw [ExpressionHole.outline, ExpressionHole.apply, if_pos hle, ih]
  | case2 _ _ outer hle => rw [ExpressionHole.outline, ExpressionHole.apply, if_neg hle]
  | case3 _ _ _ _ outer hle ih =>
    rw [ExpressionHole.outline, ExpressionHole.apply, if_pos hle, ih]
  | case4 _ _ _ _ outer hle => rw [ExpressionHole.outline, ExpressionHole.apply, if_neg hle]
  | case5 _ hole hunary hbinary =>
    cases hole with
    | unary operator outer => exact absurd rfl (hunary operator outer)
    | binary left operator own outer => exact absurd rfl (hbinary left operator own outer)
    | _ => rfl

theorem finish_outline (hole : ExpressionHole) (whole whole' : Node) (t : Token) :
    (hole.outline.finish whole' t.outline).map State.outline =
      (hole.finish whole t).map State.outline := by
  have hadd (outer : StatementHole) (node node' : Node) :
      ((outer.outline.add node').start t.outline).map State.outline =
        ((outer.add node).start t).map State.outline := by
    rw [← startStatement_outline (outer.add node), ← startStatement_outline (outer.outline.add node')]
    simp [Token.outline, Token.Kind.bare]
  cases hole with
  | returnValue outer | statement outer =>
    by_cases h : t.kind = .semicolon
    · simp [ExpressionHole.outline, ExpressionHole.finish, State.outline, h]
    · simpa [ExpressionHole.outline, ExpressionHole.finish, h] using hadd outer _ _
  | _ =>
    simp only [ExpressionHole.outline, ExpressionHole.finish, Token.kind_outline]
    repeat' split
    all_goals simp_all [State.outline, ExpressionHole.outline]

theorem proceed_outline (hole : ExpressionHole) (left left' : Node) (t : Token) :
    (hole.outline.proceed left' t.outline).map State.outline =
      (hole.proceed left t).map State.outline := by
  have happ := apply_outline t.kind.level left left' hole
  have hfinish := finish_outline (hole.apply t.kind.level left).2
    (hole.apply t.kind.level left).1 (hole.outline.apply t.kind.level left').1 t
  unfold ExpressionHole.proceed
  cases hk : t.kind <;>
    simp_all [Token.outline, State.outline, ExpressionHole.outline]

theorem shift_outline (σ : State) (t : Token) :
    (σ.outline.shift t.outline).map State.outline = (σ.shift t).map State.outline := by
  cases σ with
  | statement hole => exact startStatement_outline hole t
  | operand hole => exact start_outline hole t
  | operator left hole => exact proceed_outline hole left _ t
  | arguments function hole =>
    by_cases h : t.kind = .rightParen
    · simp [State.outline, State.shift, h]
    · simpa [State.outline, State.shift, h, ExpressionHole.outline] using
        start_outline (.argument function [] hole) t
  | elements hole =>
    by_cases h : t.kind = .rightBracket
    · simp [State.outline, State.shift, h]
    · simpa [State.outline, State.shift, h, ExpressionHole.outline] using start_outline (.element [] hole) t
  | entries before hole =>
    by_cases h : t.kind = .rightBrace
    · simp [State.outline, State.shift, h]
    · simpa [State.outline, State.shift, h, ExpressionHole.outline] using start_outline (.entryKey before hole) t
  | elseWord condition consequence hole =>
    by_cases h : t.kind = .elseWord
    · simp [State.outline, State.shift, h]
    · simpa [State.outline, State.shift, h] using proceed_outline hole _ _ t
  | parameterList hole =>
    by_cases h : t.kind = .rightParen
    · simp [State.outline, State.shift, h]
    · by_cases hname : t.kind = .identifier <;> simp [State.outline, State.shift, shiftKind, h, hname]
  | _ =>
    simp only [State.outline, State.shift, shiftKind, Token.kind_outline]
    repeat' split
    all_goals simp_all [State.outline, ExpressionHole.outline, StatementHole.outline]

theorem statements?_outline (σ : State) : σ.outline.statements?.isSome = σ.statements?.isSome := by
  have hexpr (hole : ExpressionHole) (left left' : Node) :
      (hole.outline.statements? left').isSome = (hole.statements? left).isSome := by
    have happ := apply_outline .expr left left' hole
    unfold ExpressionHole.statements?
    cases h : hole.apply .expr left with
    | mk whole outer =>
      cases h' : hole.outline.apply .expr left' with
      | mk whole' outer' =>
        rw [h, h'] at happ
        simp only at happ
        subst happ
        cases outer with
        | returnValue outer | statement outer => cases outer <;> rfl
        | _ => rfl
  cases σ with
  | statement hole => cases hole <;> rfl
  | operator left hole => exact hexpr hole left _
  | elseWord condition consequence hole => exact hexpr hole _ _
  | _ => rfl

/-- Runs over tokens of the same kinds stay in states of the same outline. -/
theorem run_congr {σ τ σ' : State} {ts us : List Token} (h : σ.outline = τ.outline)
    (hkinds : ts.map Token.kind = us.map Token.kind) (hrun : σ.run ts = .ok σ') :
    ∃ τ', τ.run us = .ok τ' ∧ σ'.outline = τ'.outline := by
  induction ts generalizing σ τ us with
  | nil =>
    cases us with
    | cons u us => cases hkinds
    | nil =>
      cases hrun
      exact ⟨τ, rfl, h⟩
  | cons t ts ih =>
    cases us with
    | nil => cases hkinds
    | cons u us =>
      obtain ⟨hkind, hkinds⟩ := List.cons.inj hkinds
      have hshift : (σ.shift t).map State.outline = (τ.shift u).map State.outline := by
        rw [← shift_outline σ, ← shift_outline τ, h, Token.outline, hkind]
        rfl
      cases ht : σ.shift t with
      | none => simp [State.run, ht] at hrun
      | some σ₁ =>
        rw [ht] at hshift
        obtain ⟨τ₁, hu, h₁⟩ := Option.map_eq_some_iff.1 hshift.symm
        simp only [State.run, ht, hu] at hrun ⊢
        exact ih h₁.symm hkinds hrun

end Automaton

end MonkeyLanguage
