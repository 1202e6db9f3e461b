import MonkeyLanguage.Proofs.Parser.Agreement
import MonkeyLanguage.Proofs.Parser.Outline
import MonkeyLanguage.Proofs.Token.Spelling

/-!
# Every state leads to a program

`State.completion` are kinds of tokens that bring a state to the end of a program: each hole is closed,
from inside to outside, as early as it can be.  Tokens of these kinds are accepted (`completes`).
-/

namespace MonkeyLanguage

def Token.Kind.sample : Token.Kind → String
  | illegal | eof => ""
  | identifier => "x"
  | integer => "0"
  | string => "\"\""
  | assign => "="
  | plus => "+"
  | minus => "-"
  | bang => "!"
  | asterisk => "*"
  | slash => "/"
  | less => "<"
  | greater => ">"
  | equal => "=="
  | notEqual => "!="
  | comma => ","
  | semicolon => ";"
  | colon => ":"
  | leftParen => "("
  | rightParen => ")"
  | leftBrace => "\x7b"
  | rightBrace => "\x7d"
  | leftBracket => "["
  | rightBracket => "]"
  | fnWord => "fn"
  | letWord => "let"
  | trueWord => "true"
  | falseWord => "false"
  | ifWord => "if"
  | elseWord => "else"
  | returnWord => "return"

theorem isWord_sample {kind : Token.Kind} (he : kind ≠ .eof) (hi : kind ≠ .illegal) :
    isWord kind.sample = true ∧ (Token.ofWord kind.sample).kind = kind ∧
      (Token.ofWord kind.sample).isTooLarge = false := by
  cases kind with
  | eof => exact absurd rfl he
  | illegal => exact absurd rfl hi
  | _ => decide

namespace Automaton

mutual

/-- Kinds of tokens that lead from the end of a statement to the end of the program. -/
def StatementHole.completion : StatementHole → List Token.Kind
  | .program _ => []
  | .functionBody _ _ outer | .thenBlock _ _ outer | .elseBlock _ _ _ outer =>
    .rightBrace :: outer.completion

/-- Kinds of tokens that lead from the end of an expression to the end of the program. -/
def ExpressionHole.completion : ExpressionHole → List Token.Kind
  | .letValue _ outer | .returnValue outer | .statement outer => .semicolon :: outer.completion
  | .unary _ outer | .binary _ _ _ outer => outer.completion
  | .group outer | .argument _ _ outer => .rightParen :: outer.completion
  | .condition outer => .rightParen :: .leftBrace :: .rightBrace :: outer.completion
  | .element _ outer | .index _ outer => .rightBracket :: outer.completion
  | .entryKey _ outer => .colon :: .integer :: .rightBrace :: outer.completion
  | .entryValue _ _ outer => .rightBrace :: outer.completion

end

/-- Kinds of tokens that lead to the end of the program. -/
def State.completion : State → List Token.Kind
  | .statement hole => hole.completion
  | .operand hole => .integer :: hole.completion
  | .operator _ hole | .elseWord _ _ hole => hole.completion
  | .letName hole => .identifier :: .assign :: .integer :: .semicolon :: hole.completion
  | .letAssign _ hole => .assign :: .integer :: .semicolon :: hole.completion
  | .arguments _ hole => .rightParen :: hole.completion
  | .elements hole => .rightBracket :: hole.completion
  | .entries _ hole => .rightBrace :: hole.completion
  | .ifParen hole =>
    .leftParen :: .integer :: .rightParen :: .leftBrace :: .rightBrace :: hole.completion
  | .thenBrace _ hole | .elseBrace _ _ hole | .bodyBrace _ hole =>
    .leftBrace :: .rightBrace :: hole.completion
  | .fnParen hole => .leftParen :: .rightParen :: .leftBrace :: .rightBrace :: hole.completion
  | .parameterList hole | .parameterEnd _ hole =>
    .rightParen :: .leftBrace :: .rightBrace :: hole.completion
  | .nextParameter _ hole =>
    .identifier :: .rightParen :: .leftBrace :: .rightBrace :: hole.completion

variable {σ τ : State} {ts us : List Token} {kind : Token.Kind} {kinds : List Token.Kind}
  {statements : List Node}

/-- Tokens of the same kinds are accepted, unless an integer is too large. -/
theorem Accepts.of_kinds (h : Accepts σ ts statements) (houtline : σ.outline = τ.outline)
    (hkinds : ts.map Token.kind = us.map Token.kind) (hsmall : ∀ u ∈ us, u.isTooLarge = false) :
    ∃ statements', Accepts τ us statements' := by
  obtain ⟨σ', htakes, hend⟩ := h
  obtain ⟨τ', hrun, houtline'⟩ := run_congr houtline hkinds (takes_eq_some_iff.1 htakes).1
  have hsome : τ'.statements?.isSome = true := by
    rw [← statements?_outline, ← houtline', statements?_outline, hend]
    rfl
  obtain ⟨statements', hend'⟩ := Option.isSome_iff_exists.1 hsome
  exact ⟨statements', τ', takes_eq_some_iff.2 ⟨hrun, hsmall⟩, hend'⟩

/-- Tokens of the kinds given are accepted, unless an integer is too large. -/
def Completes (σ : State) (kinds : List Token.Kind) : Prop :=
  ∀ ts : List Token, ts.map Token.kind = kinds → (∀ t ∈ ts, t.isTooLarge = false) →
    ∃ statements, Accepts σ ts statements

theorem Completes.of_outline (hτ : Completes τ kinds) (h : τ.outline = σ.outline) :
    Completes σ kinds := by
  intro ts hts hsmall
  obtain ⟨statements, haccepts⟩ := hτ ts hts hsmall
  exact haccepts.of_kinds h rfl hsmall

theorem Completes.cons
    (h : ∀ t : Token, t.kind = kind → ∃ σ', σ.shift t = some σ' ∧ Completes σ' kinds) :
    Completes σ (kind :: kinds) := by
  intro ts hts hsmall
  cases ts with
  | nil => cases hts
  | cons t ts =>
    obtain ⟨ht, hts⟩ := List.cons.inj hts
    rw [List.forall_mem_cons] at hsmall
    obtain ⟨σ₁, hshift, hcompletes⟩ := h t ht
    obtain ⟨statements, σ', htakes, hend⟩ := hcompletes ts hts hsmall.2
    refine ⟨statements, σ', ?_, hend⟩
    rw [takes_cons, State.take, hsmall.1, hshift]
    exact htakes

theorem Completes.of_shift_eq (hτ : Completes τ (kind :: kinds))
    (h : ∀ t : Token, t.kind = kind → σ.shift t = τ.shift t) : Completes σ (kind :: kinds) := by
  intro ts hts hsmall
  obtain ⟨statements, σ', htakes, hend⟩ := hτ ts hts hsmall
  refine ⟨statements, σ', ?_, hend⟩
  cases ts with
  | nil => cases hts
  | cons t ts =>
    rw [takes_cons, State.take, h t (List.cons.inj hts).1]
    exact htakes

theorem completion_eq_cons : (hole : ExpressionHole) → ∃ kind kinds,
    hole.completion = kind :: kinds ∧ kind.level = .expr ∧ kind ≠ .elseWord
  | .letValue _ outer | .returnValue outer | .statement outer =>
    ⟨.semicolon, outer.completion, rfl, rfl, by decide⟩
  | .unary _ outer | .binary _ _ _ outer => completion_eq_cons outer
  | .group outer | .argument _ _ outer => ⟨.rightParen, outer.completion, rfl, rfl, by decide⟩
  | .condition outer =>
    ⟨.rightParen, .leftBrace :: .rightBrace :: outer.completion, rfl, rfl, by decide⟩
  | .element _ outer | .index _ outer => ⟨.rightBracket, outer.completion, rfl, rfl, by decide⟩
  | .entryKey _ outer => ⟨.colon, .integer :: .rightBrace :: outer.completion, rfl, rfl, by decide⟩
  | .entryValue _ _ outer => ⟨.rightBrace, outer.completion, rfl, rfl, by decide⟩

section
variable {hole : ExpressionHole} (h : ∀ left, Completes (.operator left hole) hole.completion)
include h

theorem completes_elseWord (condition consequence : Node) :
    Completes (.elseWord condition consequence hole) hole.completion := by
  obtain ⟨kind, kinds, hcompletion, -, hkind⟩ := completion_eq_cons hole
  have hoperator := h (.ifElse condition consequence .absent)
  rw [hcompletion] at hoperator ⊢
  refine hoperator.of_shift_eq fun t ht => ?_
  simp [State.shift, ht, hkind]

theorem completes_apply {outer : ExpressionHole} {left whole : Node}
    (hcompletion : outer.completion = hole.completion)
    (happ : outer.apply .expr left = hole.apply .expr whole) :
    Completes (.operator left outer) outer.completion := by
  obtain ⟨kind, kinds, hcons, hlow, -⟩ := completion_eq_cons hole
  have hwhole := h whole
  rw [hcompletion]
  rw [hcons] at hwhole ⊢
  refine hwhole.of_shift_eq fun t ht => proceed_congr ?_
  rw [ht, hlow]
  exact happ

theorem completes_thenBrace (condition : Node) :
    Completes (.thenBrace condition hole) (.leftBrace :: .rightBrace :: hole.completion) := by
  refine .cons fun t ht => ⟨.statement (.thenBlock condition [] hole), ?_, ?_⟩
  · simp [State.shift, shiftKind, ht]
  · refine .cons fun t ht => ⟨.elseWord condition (.block []) hole, ?_, completes_elseWord h _ _⟩
    simp [State.shift, StatementHole.start, StatementHole.close, ht]

theorem completes_entryValue (before : List (Node × Node)) (key left : Node) :
    Completes (.operator left (.entryValue before key hole)) (.rightBrace :: hole.completion) := by
  refine .cons fun t ht => ⟨.operator (.hash ((key, left) :: before).reverse) hole, ?_, h _⟩
  rw [State.shift, proceed_of_no_operator (by rw [ht]; rfl) rfl]
  simp [ExpressionHole.finish, ExpressionHole.apply, ht]

theorem completes_operand : Completes (.operand hole) (.integer :: hole.completion) :=
  .cons fun t ht => ⟨.operator (.integer t.integer) hole,
    by simp [State.shift, ExpressionHole.start, ht], h _⟩

end

theorem Completes.close {hole : ExpressionHole} {left : Node} {next : State}
    (hnext : Completes next kinds) (happ : hole.apply .expr left = (left, hole))
    (hlow : kind.level = .expr)
    (hfinish : ∀ t : Token, t.kind = kind → hole.finish left t = some next) :
    Completes (.operator left hole) (kind :: kinds) := by
  refine .cons fun t ht => ⟨next, ?_, hnext⟩
  rw [State.shift, proceed_of_no_operator (by rw [ht, hlow]) happ]
  exact hfinish t ht

theorem completes_block {hole : StatementHole} {next : State} (hclose : hole.close = some next)
    (hnext : Completes next kinds) : Completes (.statement hole) (.rightBrace :: kinds) :=
  .cons fun t ht => ⟨next, by simp [State.shift, StatementHole.start, ht, hclose], hnext⟩

theorem Completes.add {hole : StatementHole} (h : Completes (.statement hole) kinds) (node : Node) :
    Completes (.statement (hole.add node)) kinds :=
  h.of_outline (by simp [State.outline])

mutual

theorem completes_statement : (hole : StatementHole) → Completes (.statement hole) hole.completion
  | .program before => by
    intro ts hts _
    obtain rfl := List.map_eq_nil_iff.1 hts
    exact ⟨before.reverse, _, rfl, rfl⟩
  | .functionBody _ _ outer | .elseBlock _ _ _ outer =>
    completes_block rfl (completes_operator outer _)
  | .thenBlock _ _ outer => completes_block rfl (completes_elseWord (completes_operator outer) _ _)

theorem completes_operator : (hole : ExpressionHole) → (left : Node) →
    Completes (.operator left hole) hole.completion
  | .letValue _ outer, left =>
    .close ((completes_statement outer).add _) rfl rfl fun t ht => by
      rw [ExpressionHole.finish, if_pos ht]
  | .returnValue outer, left =>
    .close ((completes_statement outer).add (.returnStatement left)) rfl rfl fun t ht => by
      simp [ExpressionHole.finish, ht]
  | .statement outer, left =>
    .close ((completes_statement outer).add (.expressionStatement left)) rfl rfl fun t ht => by
      simp [ExpressionHole.finish, ht]
  | .unary _ outer, left | .binary _ _ _ outer, left =>
    completes_apply (completes_operator outer) rfl rfl
  | .group outer, left =>
    .close (completes_operator outer left) rfl rfl fun t ht => by rw [ExpressionHole.finish, if_pos ht]
  | .argument function before outer, left =>
    .close (completes_operator outer (.call function (left :: before).reverse)) rfl rfl fun t ht => by
      simp [ExpressionHole.finish, ht]
  | .condition outer, left =>
    .close (completes_thenBrace (completes_operator outer) left) rfl rfl fun t ht => by
      rw [ExpressionHole.finish, if_pos ht]
  | .element before outer, left =>
    .close (completes_operator outer (.array (left :: before).reverse)) rfl rfl fun t ht => by
      simp [ExpressionHole.finish, ht]
  | .index _ outer, left =>
    .close (completes_operator outer _) rfl rfl fun t ht => by rw [ExpressionHole.finish, if_pos ht]
  | .entryKey _ outer, left =>
    .close (completes_operand fun _ => completes_entryValue (completes_operator outer) _ left _) rfl rfl
      fun t ht => by rw [ExpressionHole.finish, if_pos ht]
  | .entryValue _ _ outer, left => completes_entryValue (completes_operator outer) _ _ left

end

theorem completes_bodyBrace (hole : ExpressionHole) (parameters : List String) :
    Completes (.bodyBrace parameters hole) (.leftBrace :: .rightBrace :: hole.completion) :=
  .cons fun _ ht => ⟨_, if_pos ht, completes_statement (.functionBody parameters [] hole)⟩

theorem completes_parameterEnd (hole : ExpressionHole) (before : List String) :
    Completes (.parameterEnd before hole)
      (.rightParen :: .leftBrace :: .rightBrace :: hole.completion) :=
  .cons fun t ht => ⟨.bodyBrace before.reverse hole, by simp [State.shift, ht],
    completes_bodyBrace hole _⟩

/-- Every state leads to the end of a program. -/
theorem completes (σ : State) : Completes σ σ.completion := by
  cases σ with
  | statement hole => exact completes_statement hole
  | operand hole => exact completes_operand (completes_operator hole)
  | operator left hole => exact completes_operator hole left
  | elseWord condition consequence hole => exact completes_elseWord (completes_operator hole) _ _
  | arguments function hole =>
    exact .cons fun t ht => ⟨_, if_pos ht, completes_operator hole _⟩
  | elements hole => exact .cons fun t ht => ⟨_, if_pos ht, completes_operator hole _⟩
  | entries before hole => exact .cons fun t ht => ⟨_, if_pos ht, completes_operator hole _⟩
  | ifParen hole =>
    exact .cons fun t ht => ⟨_, if_pos ht, completes_operand (completes_operator (.condition hole))⟩
  | thenBrace condition hole => exact completes_thenBrace (completes_operator hole) _
  | elseBrace condition consequence hole =>
    exact .cons fun t ht => ⟨_, if_pos ht, completes_statement (.elseBlock _ _ _ hole)⟩
  | bodyBrace parameters hole => exact completes_bodyBrace hole parameters
  | fnParen hole =>
    exact .cons fun t ht => ⟨_, if_pos ht, .cons fun t ht => ⟨_, if_pos ht, completes_bodyBrace hole _⟩⟩
  | parameterList hole => exact .cons fun t ht => ⟨_, if_pos ht, completes_bodyBrace hole _⟩
  | parameterEnd before hole => exact completes_parameterEnd hole before
  | nextParameter before hole =>
    exact .cons fun t ht => ⟨_, if_pos ht, completes_parameterEnd hole _⟩
  | letAssign name hole =>
    exact .cons fun t ht => ⟨_, if_pos ht, completes_operand (completes_operator (.letValue name hole))⟩
  | letName hole =>
    exact .cons fun t ht => ⟨_, if_pos ht, .cons fun t ht =>
      ⟨_, if_pos ht, completes_operand (completes_operator (.letValue _ hole))⟩⟩

end Automaton

end MonkeyLanguage
