import MonkeyLanguage.Parser.Rules
import MonkeyLanguage.Proofs.Parser.Scan

/-!
# Parsing by descent follows the automaton

The parser of a form and the automaton read the same tokens.  `Reads σ s m next Q` says so of a parser
`m` and a stream `s`: reading on from the state `σ` is reading on from `next a` where `m` gives `a`, and
ends in the error of `m` where `m` fails; `Q` holds of the stream that is left.  The hole of the form
stays open in `σ` and `next a`, so the statements compose along `>>=` (`Reads.bind`).

`Follows r n` says this of all the rules `r` for the streams of at most `n` tokens.  It passes from `r`
to `r.step` (`Follows.step`), one lemma for each form, hence holds of `rules n` (`follows_rules`), and
a statement is what `scan` reads (`statement_eq_scan`).
-/

namespace MonkeyLanguage

open Automaton ParserM

/-! ## Levels -/

def Precedence.level : Precedence → Level
  | lowest => .expr
  | equality => .equality
  | comparison => .comparison
  | sum => .sum
  | product => .product
  | unary => .unary
  | call => .suffix

theorem Token.Kind.level_precedence (kind : Token.Kind) : kind.precedence.level = kind.level := by
  cases kind <;> rfl

theorem Precedence.level_lt_level {p q : Precedence} : p.level < q.level ↔ p < q := by
  cases p <;> cases q <;> decide

theorem Precedence.level_lt_iff {p : Precedence} {kind : Token.Kind} : p.level < kind.level ↔ p < kind.precedence := by
  rw [← kind.level_precedence, level_lt_level]

/-! ## Parsers that read on -/

def Reads (count : Nat) (σ : State) (s : TokenStream) {α : Type} (m : ParserM α) (next : α → State)
    (Q : TokenStream → Prop) : Prop :=
  match m s with
  | .ok a s' => Q s' ∧ scan count σ s = scan count (next a) s'
  | .error e s' => scan count σ s = .error e s'

abbrev Within (b : Nat) (s : TokenStream) : Prop :=
  s.tokens.length ≤ b

/-- At most `b` tokens are left, and the next binds no tighter than `p`. -/
abbrev StopsAt (p : Level) (b : Nat) (s : TokenStream) : Prop :=
  s.tokens.length ≤ b ∧ s.peek.kind.level ≤ p

variable {count : Nat} {σ σ' : State} {s : TokenStream} {α β : Type} {m : ParserM α}
  {next : α → State} {next' : β → State} {Q Q' : TokenStream → Prop}

theorem TokenStream.within_tail {b : Nat} (h : s.tokens.length - 1 ≤ b) : Within b s.tail := by
  rw [Within, s.length_tail]
  exact h

theorem expect_apply (kind : Token.Kind) (s : TokenStream) :
    ParserM.expect kind s =
      if s.peek.kind = kind then .ok s.peek s.tail
      else .error ⟨if s.peek.kind = .illegal then .illegal else .expected kind, s.peek⟩ s := by
  change (if s.peek.kind = kind then ParserM.next else throw _ : ParserM Token) s = _
  split <;> rfl

namespace Reads

theorem bind {f : α → ParserM β} (hm : Reads count σ s m next Q)
    (hf : ∀ a s', Q s' → Reads count (next a) s' (f a) next' Q') :
    Reads count σ s (m >>= f) next' Q' := by
  unfold Reads at hm ⊢
  change match EStateM.bind m f s with | .ok a s' => _ | .error e s' => _
  rw [EStateM.bind]
  cases h : m s with
  | ok a s' =>
    rw [h] at hm
    rw [hm.2]
    exact hf a s' hm.1
  | error e s' =>
    rw [h] at hm
    exact hm

theorem pure {a : α} (hQ : Q s) (h : scan count σ s = scan count (next a) s) :
    Reads count σ s (Pure.pure a) next Q :=
  ⟨hQ, h⟩

theorem mono (h : Reads count σ s m next Q) (hQ : ∀ s', Q s' → Q' s') :
    Reads count σ s m next Q' := by
  unfold Reads at h ⊢
  split at h
  · exact ⟨hQ _ h.1, h.2⟩
  · exact h

theorem of_scan_eq (σ' : State) (h : scan count σ s = scan count σ' s) (hr : Reads count σ' s m next Q) :
    Reads count σ s m next Q := by
  unfold Reads at hr ⊢
  rw [h]
  exact hr

theorem peek {f : Token.Kind → ParserM α} (h : Reads count σ s (f s.peek.kind) next Q) :
    Reads count σ s (peekKind >>= f) next Q :=
  h

theorem read {f : Token → ParserM α} (σ' : State) (h : scan count σ s = scan count σ' s.tail)
    (hf : Reads count σ' s.tail (f s.peek) next Q) :
    Reads count σ s (ParserM.next >>= f) next Q := by
  unfold Reads at hf ⊢
  rw [h]
  exact hf

theorem read_throw {e : ParseError} {f : Token → ParserM α} (hf : f s.peek = throw e)
    (h : scan count σ s = .error e s.tail) : Reads count σ s (ParserM.next >>= f) next Q := by
  have hrun : (ParserM.next >>= f) s = f s.peek s.tail := rfl
  unfold Reads
  rw [hrun, hf]
  exact h

theorem expect {kind : Token.Kind} (next : Token → State)
    (hsettle : σ.settle s.peek.kind = σ) (hc : σ.completed count = none)
    (hw : σ.wanted = some kind)
    (ht : σ.take s.peek = if s.peek.kind = kind then some (next s.peek) else none) :
    Reads count σ s (ParserM.expect kind) next (Within (s.tokens.length - 1)) := by
  unfold Reads
  rw [expect_apply]
  by_cases h : s.peek.kind = kind
  · rw [if_pos h] at ht ⊢
    exact ⟨s.within_tail (Nat.le_refl _), scan_of_take (by rw [hsettle, hc]) ht⟩
  · rw [if_neg h] at ht ⊢
    rw [scan_of_stuck (by rw [hsettle, hc]) ht, hsettle, State.complaint, State.objection,
      State.behind, hw]
    rfl

end Reads

/-! ## Rules that follow the automaton -/

/-- The operators that apply before the next operator do not reach out of the hole, if that binds tighter
than `p`. -/
def Automaton.ExpressionHole.Stays (p : Level) : ExpressionHole → Prop
  | .unary .. => .unary ≤ p
  | .binary _ _ level _ => level ≤ p
  | _ => True

/-- Lists of expressions up to `close`: `hole before` is the hole of the item behind the items `before`, and
`whole` the state behind the list. -/
structure ListHole (close : Token.Kind) (hole : List Node → ExpressionHole) (whole : List Node → State) :
    Prop where
  ne_integer : close ≠ .integer
  stays : ∀ before, (hole before).Stays .expr
  apply_eq : ∀ before level item, (hole before).apply level item = (item, hole before)
  finish_eq : ∀ before item token, (hole before).finish item token =
    if token.kind = .comma then some (.operand (hole (item :: before)))
    else if token.kind = close then some (whole (item :: before).reverse)
    else none
  closer_eq : ∀ before, (hole before).closer = some close

/-- Blocks: `hole before` is the hole of the statement behind the statements `before`, and `whole` the state
behind the block. -/
structure BlockHole (hole : List Node → StatementHole) (whole : Node → State) : Prop where
  add_eq : ∀ before node, (hole before).add node = hole (node :: before)
  close_eq : ∀ before, (hole before).close = some (whole (.block before.reverse))

/-- The rules read as the automaton does, on streams of at most `n` tokens. -/
structure Follows (count : Nat) (r : Rules) (n : Nat) : Prop where
  expression : ∀ {p hole s}, s.tokens.length ≤ n → hole.Stays p.level →
    Reads count (.operand hole) s (r.expression p) (.operator · hole) (StopsAt p.level s.tokens.length)
  operators : ∀ {p hole left s}, s.tokens.length ≤ n → hole.Stays p.level →
    Reads count (.operator left hole) s (r.operators p left) (.operator · hole)
      (StopsAt p.level s.tokens.length)
  items : ∀ {close hole whole item before s}, s.tokens.length ≤ n → ListHole close hole whole →
    s.peek.kind.level ≤ .expr →
    Reads count (.operator item (hole before)) s (r.items close)
      (fun items => whole ((item :: before).reverse ++ items)) (Within s.tokens.length)
  parameters : ∀ {before hole s}, s.tokens.length ≤ n →
    Reads count (.parameterEnd before hole) s r.parameters
      (fun names => .bodyBrace (before.reverse ++ names) hole) (Within s.tokens.length)
  entries : ∀ {before hole s}, s.tokens.length ≤ n →
    Reads count (.entries before hole) s r.entries
      (fun pairs => .operator (.hash (before.reverse ++ pairs)) hole) (Within s.tokens.length)
  statements : ∀ {hole whole before s}, s.tokens.length ≤ n → BlockHole hole whole →
    Reads count (.statement (hole before)) s r.statements
      (fun nodes => whole (.block (before.reverse ++ nodes))) (Within s.tokens.length)

/-! ## Steps of the automaton -/

theorem apply_of_stays {p level : Level} {hole : ExpressionHole} (hh : hole.Stays p)
    (hp : p < level) (left : Node) : hole.apply level left = (left, hole) := by
  cases hole with
  | unary operator outer =>
    rw [ExpressionHole.apply, if_neg (Level.not_le.2 (Level.lt_of_le_of_lt hh hp))]
  | binary a operator own outer =>
    rw [ExpressionHole.apply, if_neg (Level.not_le.2 (Level.lt_of_le_of_lt hh hp))]
  | _ => rfl

theorem scan_operand {hole : ExpressionHole} (hl : s.peek.isTooLarge = false)
    (h : hole.start s.peek = some σ') : scan count (.operand hole) s = scan count σ' s.tail :=
  scan_of_take rfl (by simp [State.take, hl, State.shift, h])

theorem scan_operand_stuck {hole : ExpressionHole}
    (h : s.peek.isTooLarge = true ∨ hole.start s.peek = none) :
    scan count (.operand hole) s = .error ((State.operand hole).complaint s.peek) s.tail := by
  refine scan_of_stuck rfl ?_
  simp only [State.take, State.shift]
  split
  · rfl
  · next hl => exact h.resolve_left hl

theorem scan_of_start {hole : ExpressionHole} (hsettle : σ.settle s.peek.kind = σ)
    (hc : σ.completed count = none) (hw : σ.wanted = none)
    (hb : s.peek.kind = .eof → σ.inBlock = false)
    (ht : σ.take s.peek = (State.operand hole).take s.peek) :
    scan count σ s = scan count (.operand hole) s := by
  cases h : (State.operand hole).take s.peek with
  | some next => rw [scan_of_take (by rw [hsettle, hc]) (ht.trans h), scan_of_take rfl h]
  | none =>
    rw [scan_of_stuck (by rw [hsettle, hc]) (ht.trans h), scan_of_stuck rfl h, hsettle]
    have hw' : (State.operand hole).wanted = none := rfl
    have hb' : (State.operand hole).inBlock = false := rfl
    have heof : (s.peek.kind = .eof ∧ σ.inBlock = true) = False :=
      eq_false fun h => by simp [hb h.1] at h
    simp only [State.complaint, State.objection, State.behind, State.settle, hw, hw', heof, hb',
      and_false, Bool.false_eq_true]

theorem not_tooLarge_of_kind {t : Token} (h : t.kind ≠ .integer) : t.isTooLarge = false := by
  simp [Token.isTooLarge, h]

theorem take_shiftKind {kind : Token.Kind} {t : Token} {next : State} (hk : kind ≠ .integer)
    (hσ : σ.shift t = shiftKind kind t next) :
    σ.take t = if t.kind = kind then some next else none := by
  rw [← shiftKind, ← hσ, State.take]
  split
  · next hl =>
    rw [hσ, shiftKind, if_neg]
    rintro rfl
    simp [Token.isTooLarge, hk] at hl
  · rfl

theorem settle_of_closer {a : Node} {hole : ExpressionHole} {kind kind' : Token.Kind}
    (hlow : kind'.level ≤ .expr) (happ : hole.apply .expr a = (a, hole))
    (hcloser : hole.closer = some kind) : (State.operator a hole).settle kind' = .operator a hole := by
  rw [State.settle, ExpressionHole.settle, Level.le_expr_iff.1 hlow, happ]
  cases hole <;> simp_all [ExpressionHole.closer]

theorem take_operator {a : Node} {hole : ExpressionHole} {t : Token}
    (hlow : t.kind.level ≤ .expr) (happ : hole.apply .expr a = (a, hole)) :
    (State.operator a hole).take t = if t.isTooLarge then none else hole.finish a t := by
  rw [State.take, State.shift, proceed_of_no_operator (Level.le_expr_iff.1 hlow) happ]

theorem operator_expect {a : Node} {hole : ExpressionHole} {kind : Token.Kind} (next : Token → State)
    (hlow : s.peek.kind.level ≤ .expr) (happ : hole.apply .expr a = (a, hole))
    (hcloser : hole.closer = some kind) (hk : kind ≠ .integer)
    (hfinish : hole.finish a s.peek = if s.peek.kind = kind then some (next s.peek) else none) :
    Reads count (.operator a hole) s (ParserM.expect kind) next (Within (s.tokens.length - 1)) := by
  refine .expect next (settle_of_closer hlow happ hcloser) rfl hcloser ?_
  rw [take_operator hlow happ, ← hfinish]
  split
  · next hl =>
    rw [hfinish, if_neg]
    rintro rfl
    simp [Token.isTooLarge, hk] at hl
  · rfl

theorem listHole_array (hole : ExpressionHole) :
    ListHole .rightBracket (.element · hole) (fun elements => .operator (.array elements) hole) where
  ne_integer := by decide
  stays _ := trivial
  apply_eq _ _ _ := rfl
  finish_eq before item token := by
    cases hk : token.kind <;> simp [ExpressionHole.finish, hk]
  closer_eq _ := rfl

theorem listHole_call (function : Node) (hole : ExpressionHole) :
    ListHole .rightParen (.argument function · hole)
      (fun arguments => .operator (.call function arguments) hole) where
  ne_integer := by decide
  stays _ := trivial
  apply_eq _ _ _ := rfl
  finish_eq before item token := by
    cases hk : token.kind <;> simp [ExpressionHole.finish, hk]
  closer_eq _ := rfl

/-- States behind an expression read the same if the next operator makes the same of both. -/
theorem scan_operator_congr {left left' : Node} {hole hole' : ExpressionHole}
    (h : hole.apply s.peek.kind.level left = hole'.apply s.peek.kind.level left') :
    scan count (.operator left hole) s = scan count (.operator left' hole') s := by
  refine scan_congr ?_
  rw [State.settle, State.settle, ExpressionHole.settle, ExpressionHole.settle, h]

theorem blockHole_then (condition : Node) (hole : ExpressionHole) :
    BlockHole (.thenBlock condition · hole) (.elseWord condition · hole) :=
  ⟨fun _ _ => rfl, fun _ => rfl⟩

theorem blockHole_else (condition consequence : Node) (hole : ExpressionHole) :
    BlockHole (.elseBlock condition consequence · hole)
      (fun alternative => .operator (.ifElse condition consequence alternative) hole) :=
  ⟨fun _ _ => rfl, fun _ => rfl⟩

theorem blockHole_function (parameters : List String) (hole : ExpressionHole) :
    BlockHole (.functionBody parameters · hole) (fun body => .operator (.function parameters body) hole) :=
  ⟨fun _ _ => rfl, fun _ => rfl⟩

theorem completed_of_close {hole : StatementHole} (h : hole.close = some σ) :
    (State.statement hole).completed count = none := by
  cases hole with
  | program before => cases h
  | _ => rfl

/-! ## Operands -/

section
variable {r : Rules} {n : Nat} (hr : Follows count r n)
include hr

theorem list_reads {close : Token.Kind} {hole : List Node → ExpressionHole}
    {whole : List Node → State} (hh : ListHole close hole whole) (hs : s.tokens.length ≤ n)
    (hclose : s.peek.kind = close → scan count σ s = scan count (whole []) s.tail)
    (hitem : s.peek.kind ≠ close → scan count σ s = scan count (.operand (hole [])) s) :
    Reads count σ s (r.list close) whole (Within s.tokens.length) := by
  unfold Rules.list
  refine .peek ?_
  by_cases h : s.peek.kind = close
  · rw [if_pos h]
    exact .read _ (hclose h) (.pure (s.within_tail (by omega)) rfl)
  · rw [if_neg h]
    refine .of_scan_eq _ (hitem h) ?_
    refine (hr.expression (p := .lowest) hs (hh.stays [])).bind fun item s₁ h₁ => ?_
    refine (hr.items (by omega) hh h₁.2).bind fun items s₂ h₂ => ?_
    exact .pure (by omega) rfl

theorem block_reads {hole : List Node → StatementHole} {whole : Node → State}
    (hh : BlockHole hole whole) (hs : s.tokens.length ≤ n)
    (hsettle : σ.settle s.peek.kind = σ) (hc : σ.completed count = none)
    (hw : σ.wanted = some .leftBrace)
    (ht : σ.take s.peek = if s.peek.kind = .leftBrace then some (.statement (hole [])) else none) :
    Reads count σ s r.block whole (Within s.tokens.length) := by
  unfold Rules.block
  refine (Reads.expect (fun _ => .statement (hole [])) hsettle hc hw ht).bind fun _ s₁ h₁ => ?_
  refine (hr.statements (by omega) hh).bind fun nodes s₂ h₂ => ?_
  exact .pure (by omega) rfl

theorem ifElse_reads {hole : ExpressionHole} (hs : s.tokens.length ≤ n) :
    Reads count (.ifParen hole) s r.ifElse (.operator · hole) (Within s.tokens.length) := by
  unfold Rules.ifElse
  refine (Reads.expect (fun _ => .operand (.condition hole)) rfl rfl rfl
    (take_shiftKind (by decide) rfl)).bind fun _ s₁ h₁ => ?_
  refine (hr.expression (by omega) (by exact trivial)).bind fun condition s₂ h₂ => ?_
  refine (operator_expect (fun _ => .thenBrace condition hole) h₂.2 rfl rfl (by decide)
    rfl).bind fun _ s₃ h₃ => ?_
  refine (block_reads hr (blockHole_then condition hole) (by omega) rfl rfl rfl
    (take_shiftKind (by decide) rfl)).bind fun consequence s₄ h₄ => ?_
  refine .peek ?_
  by_cases h : s₄.peek.kind = .elseWord
  · rw [if_pos h]
    have htail := s₄.length_tail
    refine .read (.elseBrace condition consequence hole) (scan_of_take ?_ ?_) ?_
    · simp [State.settle, h, State.completed]
    · rw [take_of_kind_ne (by simp [h]), State.shift, if_pos h]
    · refine (block_reads hr (blockHole_else condition consequence hole) (by omega) rfl rfl rfl
        (take_shiftKind (by decide) rfl)).bind fun alternative s₅ h₅ => ?_
      exact .pure (by omega) rfl
  · rw [if_neg h]
    exact .pure (by omega) (scan_congr (by simp [State.settle, h]))

theorem parameterList_reads {hole : ExpressionHole} (hs : s.tokens.length ≤ n) :
    Reads count (.parameterList hole) s r.parameterList (.bodyBrace · hole)
      (Within s.tokens.length) := by
  unfold Rules.parameterList
  refine .peek ?_
  by_cases h : s.peek.kind = .rightParen
  · rw [if_pos h]
    refine .read (.bodyBrace [] hole) (scan_of_take rfl ?_) (.pure (s.within_tail (by omega)) rfl)
    rw [take_of_kind_ne (by simp [h]), State.shift, if_pos h]
  · rw [if_neg h]
    refine (Reads.expect (fun name => .parameterEnd [name.value] hole) rfl rfl rfl
      (take_shiftKind (by decide) (by rw [State.shift, if_neg h]))).bind fun name s₁ h₁ => ?_
    refine (hr.parameters (by omega)).bind fun names s₂ h₂ => ?_
    exact .pure (by omega) rfl

theorem function_reads {hole : ExpressionHole} (hs : s.tokens.length ≤ n) :
    Reads count (.fnParen hole) s r.function (.operator · hole) (Within s.tokens.length) := by
  unfold Rules.function
  refine (Reads.expect (fun _ => .parameterList hole) rfl rfl rfl
    (take_shiftKind (by decide) rfl)).bind fun _ s₁ h₁ => ?_
  refine (parameterList_reads hr (by omega)).bind fun parameters s₂ h₂ => ?_
  refine (block_reads hr (blockHole_function parameters hole) (by omega) rfl rfl rfl
    (take_shiftKind (by decide) rfl)).bind fun body s₃ h₃ => ?_
  exact .pure (by omega) rfl

theorem unary_reads {operator : String} {hole : ExpressionHole} {b : Nat}
    (hs : s.tokens.length ≤ n) (hb : s.tokens.length ≤ b) :
    Reads count (.operand (.unary operator hole)) s
      (r.expression .unary >>= fun right => Pure.pure (.unary operator right)) (.operator · hole)
      (Within b) := by
  refine (hr.expression (p := .unary) hs (Nat.le_refl _)).bind fun right s₁ h₁ => ?_
  refine .pure (by omega) (scan_operator_congr ?_)
  exact if_pos h₁.2

theorem operand_reads {hole : ExpressionHole} (hs : s.tokens.length ≤ n + 1) :
    Reads count (.operand hole) s r.operand (.operator · hole) (Within (s.tokens.length - 1)) := by
  have htail := s.length_tail
  have hn : s.tail.tokens.length ≤ n := by omega
  have hread {σ' : State} {f : Token → ParserM Node} (hi : s.peek.kind ≠ .integer)
      (hstart : hole.start s.peek = some σ')
      (hf : Reads count σ' s.tail (f s.peek) (.operator · hole) (Within (s.tokens.length - 1))) :
      Reads count (.operand hole) s (ParserM.next >>= f) (.operator · hole)
        (Within (s.tokens.length - 1)) :=
    .read _ (scan_operand (not_tooLarge_of_kind hi) hstart) hf
  have hthrow {f : Token → ParserM Node} (e : ParseError) (hf : f s.peek = throw e)
      (hstuck : s.peek.isTooLarge = true ∨ hole.start s.peek = none)
      (he : (State.operand hole).complaint s.peek = e) :
      Reads count (.operand hole) s (ParserM.next >>= f) (.operator · hole)
        (Within (s.tokens.length - 1)) :=
    .read_throw hf (he ▸ scan_operand_stuck hstuck)
  unfold Rules.operand
  cases hk : s.peek.kind with
  | identifier | string | trueWord | falseWord =>
    refine hread (by simp [hk]) (by simp [ExpressionHole.start, hk]; rfl) ?_
    simp only [hk]
    exact .pure (by omega) rfl
  | integer =>
    by_cases hl : s.peek.isTooLarge = true
    · refine hthrow ⟨.integerTooLarge, s.peek⟩ ?_ (.inl hl) ?_
      · simp [hk, Rules.integerLiteral, hl]
      · simp [State.complaint, State.objection, State.wanted, hl]
    · refine .read _ (scan_operand (by simpa using hl) (by simp [ExpressionHole.start, hk]; rfl)) ?_
      simp only [hk, Rules.integerLiteral, hl]
      exact .pure (by omega) rfl
  | bang | minus =>
    refine hread (by simp [hk]) (by simp [ExpressionHole.start, hk]; rfl) ?_
    simp only [hk]
    exact unary_reads hr hn (by omega)
  | leftParen =>
    refine hread (by simp [hk]) (by simp [ExpressionHole.start, hk]; rfl) ?_
    simp only [hk]
    refine (hr.expression hn (by exact trivial)).bind fun inner s₁ h₁ => ?_
    refine (operator_expect (fun _ => .operator inner hole) h₁.2 rfl rfl (by decide)
      rfl).bind fun _ s₂ h₂ => ?_
    exact .pure (by omega) rfl
  | ifWord =>
    refine hread (by simp [hk]) (by simp [ExpressionHole.start, hk]; rfl) ?_
    simp only [hk]
    exact (ifElse_reads hr hn).mono fun s₁ h₁ => by omega
  | fnWord =>
    refine hread (by simp [hk]) (by simp [ExpressionHole.start, hk]; rfl) ?_
    simp only [hk]
    exact (function_reads hr hn).mono fun s₁ h₁ => by omega
  | leftBracket =>
    refine hread (by simp [hk]) (by simp [ExpressionHole.start, hk]; rfl) ?_
    simp only [hk]
    refine (list_reads hr (listHole_array hole) hn ?_ ?_).bind fun elements s₁ h₁ => ?_
    · intro h
      exact scan_of_take rfl (by simp [take_of_kind_ne, State.shift, h])
    · intro h
      exact scan_of_start rfl rfl rfl (fun _ => rfl) (by simp [State.take, State.shift, h])
    · exact .pure (by omega) rfl
  | leftBrace =>
    refine hread (by simp [hk]) (by simp [ExpressionHole.start, hk]; rfl) ?_
    simp only [hk]
    refine (hr.entries hn).bind fun pairs s₁ h₁ => ?_
    exact .pure (by omega) rfl
  | illegal =>
    refine hthrow ⟨.illegal, s.peek⟩ (by simp [hk]) (.inr ?_) ?_
    · simp [ExpressionHole.start, hk]
    · simp [State.complaint, State.objection, State.wanted, Token.isTooLarge, hk]
  | _ =>
    refine hthrow ⟨.noExpression, s.peek⟩ (by simp [hk]) (.inr ?_) ?_
    · simp [ExpressionHole.start, hk]
    · simp [State.complaint, State.objection, State.wanted, Token.isTooLarge, hk, State.inBlock]

/-! ## Operators -/

theorem binary_reads {left : Node} {hole : ExpressionHole} {f : Token → ParserM Node} {b : Nat}
    (hscan : scan count (.operator left hole) s =
      scan count (.operand (.binary left s.peek.value s.peek.kind.level hole)) s.tail)
    (hf : f s.peek = r.expression s.peek.kind.precedence >>= fun right =>
      Pure.pure (.binary left s.peek.value right))
    (hn : s.tail.tokens.length ≤ n) (hb : s.tail.tokens.length ≤ b) :
    Reads count (.operator left hole) s (ParserM.next >>= f) (.operator · hole) (Within b) := by
  refine .read _ hscan ?_
  have hlevel := s.peek.kind.level_precedence
  rw [hf]
  have hstays : (ExpressionHole.binary left s.peek.value s.peek.kind.level hole).Stays
      s.peek.kind.precedence.level := Nat.le_of_eq (congrArg Level.rank hlevel.symm)
  refine (hr.expression hn hstays).bind fun right s₁ h₁ => ?_
  refine .pure (by omega) (scan_operator_congr ?_)
  rw [ExpressionHole.apply, if_pos (hlevel ▸ h₁.2)]

theorem operator_reads {p : Level} {left : Node} {hole : ExpressionHole}
    (hp : p < s.peek.kind.level) (hh : hole.Stays p) (hs : s.tokens.length ≤ n + 1) :
    Reads count (.operator left hole) s (ParserM.next >>= r.operator left) (.operator · hole)
      (Within (s.tokens.length - 1)) := by
  have htail := s.length_tail
  have hn : s.tail.tokens.length ≤ n := by omega
  have happ := apply_of_stays hh hp left
  have hlt := Level.lt_of_le_of_lt (Level.expr_le p) hp
  have hi : s.peek.kind ≠ .integer := by
    intro h
    simp [h, Token.Kind.level_eq, Level.expr_lt_iff] at hlt
  have hscan {σ' : State} (hσ : hole.proceed left s.peek = some σ') :
      scan count (.operator left hole) s = scan count σ' s.tail := by
    refine scan_of_take ?_ (by rw [take_of_kind_ne hi, State.shift, hσ])
    rw [State.settle, settle_of_apply happ (Level.expr_lt_iff.1 hlt)]
    rfl
  cases hk : s.peek.kind with
  | leftParen =>
    refine .read _ (hscan (by rw [ExpressionHole.proceed, happ, hk])) ?_
    simp only [Rules.operator, hk]
    refine (list_reads hr (listHole_call left hole) hn ?_ ?_).bind fun arguments s₁ h₁ => ?_
    · intro h
      exact scan_of_take rfl (by simp [take_of_kind_ne, State.shift, h])
    · intro h
      exact scan_of_start rfl rfl rfl (fun _ => rfl) (by simp [State.take, State.shift, h])
    · exact .pure (by omega) rfl
  | leftBracket =>
    refine .read _ (hscan (by rw [ExpressionHole.proceed, happ, hk])) ?_
    simp only [Rules.operator, hk]
    refine (hr.expression hn (by exact trivial)).bind fun index s₁ h₁ => ?_
    refine (operator_expect (fun _ => .operator (.index left index) hole) h₁.2 rfl rfl
      (by decide) rfl).bind fun _ s₂ h₂ => ?_
    exact .pure (by omega) rfl
  | equal | notEqual | less | greater | plus | minus | asterisk | slash =>
    refine binary_reads hr (hscan ?_) (by simp [Rules.operator, hk]) hn (by omega)
    rw [ExpressionHole.proceed, happ, hk]
  | _ => simp [hk, Token.Kind.level_eq, Level.expr_lt_iff] at hlt

theorem climb_reads {p : Precedence} {left : Node} {hole : ExpressionHole}
    (hs : s.tokens.length ≤ n + 1) (hh : hole.Stays p.level) :
    Reads count (.operator left hole) s (r.climb p left) (.operator · hole)
      (StopsAt p.level s.tokens.length) := by
  unfold Rules.climb
  refine .peek ?_
  by_cases hp : p < s.peek.kind.precedence
  · rw [if_pos hp, ← bind_assoc]
    refine (operator_reads hr (Precedence.level_lt_iff.2 hp) hh hs).bind fun a s₁ h₁ => ?_
    exact (hr.operators (by omega) hh).mono fun s₂ h₂ => ⟨by omega, h₂.2⟩
  · rw [if_neg hp]
    exact .pure ⟨Nat.le_refl _, Level.not_lt.1 (mt Precedence.level_lt_iff.1 hp)⟩ rfl

theorem operation_reads {p : Precedence} {hole : ExpressionHole} (hs : s.tokens.length ≤ n + 1)
    (hh : hole.Stays p.level) :
    Reads count (.operand hole) s (r.operation p) (.operator · hole)
      (StopsAt p.level (s.tokens.length - 1)) := by
  unfold Rules.operation
  refine (operand_reads hr hs).bind fun left s₁ h₁ => ?_
  exact (climb_reads hr (by omega) hh).mono fun s₂ h₂ => ⟨by omega, h₂.2⟩

/-! ## Statements -/

omit hr in
theorem skip_reads {a : Node} {hole : ExpressionHole} (outer : StatementHole)
    (hlow : s.peek.kind.level ≤ .expr) (happ : hole.apply .expr a = (a, hole))
    (hsettle : hole.settle a s.peek.kind =
      if s.peek.kind = .semicolon then .operator a hole else .statement outer)
    (hfinish : s.peek.kind = .semicolon → hole.finish a s.peek = some (.statement outer)) :
    Reads count (.operator a hole) s (ParserM.skip .semicolon) (fun _ => .statement outer)
      (Within s.tokens.length) := by
  unfold ParserM.skip
  refine .peek ?_
  by_cases h : s.peek.kind = .semicolon
  · rw [if_pos h]
    refine .read (.statement outer) (scan_of_take ?_ ?_) (.pure (s.within_tail (by omega)) rfl)
    · rw [State.settle, hsettle, if_pos h]
      rfl
    · rw [take_operator hlow happ, not_tooLarge_of_kind (by simp [h]), hfinish h]
      rfl
  · rw [if_neg h]
    refine .pure (Nat.le_refl _) (scan_congr ?_)
    rw [State.settle, hsettle, if_neg h]
    rfl

theorem expressionStatement_reads {hole : StatementHole} (hs : s.tokens.length ≤ n + 1)
    (hc : (State.statement hole).completed count = none)
    (hend : s.peek.kind = .rightBrace ∨ s.peek.kind = .eof → hole.close = none)
    (hlet : s.peek.kind ≠ .letWord) (hreturn : s.peek.kind ≠ .returnWord) :
    Reads count (.statement hole) s
      (r.operation .lowest >>= fun expression => ParserM.skip .semicolon >>= fun _ =>
        Pure.pure (.expressionStatement expression))
      (fun node => .statement (hole.add node)) (Within (s.tokens.length - 1)) := by
  have hstart : hole.start s.peek = (ExpressionHole.statement hole).start s.peek := by
    by_cases h : s.peek.kind = .rightBrace
    · simp [StatementHole.start, ExpressionHole.start, h, hend (.inl h)]
    · rw [StatementHole.start]
      split <;> simp_all
  refine .of_scan_eq (.operand (.statement hole)) (scan_of_start rfl hc rfl (fun h => ?_) ?_) ?_
  · simp [State.inBlock, hend (.inr h)]
  · rw [State.take, State.take, State.shift, State.shift, hstart]
  refine (operation_reads hr hs (by exact trivial)).bind fun expression s₁ h₁ => ?_
  refine (skip_reads (hole.add (.expressionStatement expression)) h₁.2 rfl ?_ ?_).bind
    fun _ s₂ h₂ => ?_
  · rw [ExpressionHole.settle, Level.le_expr_iff.1 h₁.2]
    by_cases h : s₁.peek.kind = .semicolon <;> simp [ExpressionHole.apply, h]
  · intro h
    simp [ExpressionHole.finish, h]
  · exact .pure (by omega) rfl

theorem statement_reads {hole : StatementHole} (hs : s.tokens.length ≤ n + 1)
    (hc : (State.statement hole).completed count = none)
    (hend : s.peek.kind = .rightBrace ∨ s.peek.kind = .eof → hole.close = none) :
    Reads count (.statement hole) s r.statement (fun node => .statement (hole.add node))
      (Within (s.tokens.length - 1)) := by
  have htail := s.length_tail
  unfold Rules.statement
  refine .peek ?_
  cases hk : s.peek.kind with
  | letWord =>
    refine .read (.letName hole) (scan_of_take hc ?_) ?_
    · simp [take_of_kind_ne, State.shift, StatementHole.start, hk]
    refine (Reads.expect (fun name => .letAssign name.value hole) rfl rfl rfl
      (take_shiftKind (by decide) rfl)).bind fun name s₁ h₁ => ?_
    refine (Reads.expect (fun _ => .operand (.letValue name.value hole)) rfl rfl rfl
      (take_shiftKind (by decide) rfl)).bind fun _ s₂ h₂ => ?_
    refine (hr.expression (by omega) (by exact trivial)).bind fun value s₃ h₃ => ?_
    refine (operator_expect (fun _ => .statement (hole.add (.letStatement name.value value))) h₃.2
      rfl rfl (by decide) rfl).bind fun _ s₄ h₄ => ?_
    exact .pure (by omega) rfl
  | returnWord =>
    refine .read (.operand (.returnValue hole)) (scan_of_take hc ?_) ?_
    · simp [take_of_kind_ne, State.shift, StatementHole.start, hk]
    refine (hr.expression (by omega) (by exact trivial)).bind fun value s₁ h₁ => ?_
    refine (skip_reads (hole.add (.returnStatement value)) h₁.2 rfl ?_ ?_).bind fun _ s₂ h₂ => ?_
    · rw [ExpressionHole.settle, Level.le_expr_iff.1 h₁.2]
      by_cases h : s₁.peek.kind = .semicolon <;> simp [ExpressionHole.apply, h]
    · intro h
      simp [ExpressionHole.finish, h]
    · exact .pure (by omega) rfl
  | _ => exact expressionStatement_reads hr hs hc hend (by simp [hk]) (by simp [hk])

/-! ## Lists and blocks -/

theorem items_reads {close : Token.Kind} {hole : List Node → ExpressionHole}
    {whole : List Node → State} {item : Node} {before : List Node} (hs : s.tokens.length ≤ n + 1)
    (hh : ListHole close hole whole) (hlow : s.peek.kind.level ≤ .expr) :
    Reads count (.operator item (hole before)) s (r.step.items close)
      (fun items => whole ((item :: before).reverse ++ items)) (Within s.tokens.length) := by
  have htail := s.length_tail
  have happ := hh.apply_eq before .expr item
  refine .peek ?_
  by_cases h : s.peek.kind = .comma
  · rw [if_pos h]
    refine .read (.operand (hole (item :: before))) (scan_of_take ?_ ?_) ?_
    · rw [settle_of_closer hlow happ (hh.closer_eq before)]
      rfl
    · rw [take_operator hlow happ, hh.finish_eq, if_pos h, not_tooLarge_of_kind (by simp [h])]
      rfl
    refine (hr.expression (p := .lowest) (by omega) (hh.stays _)).bind fun item' s₁ h₁ => ?_
    refine (hr.items (by omega) hh h₁.2).bind fun items s₂ h₂ => ?_
    exact .pure (by omega) (by simp)
  · rw [if_neg h]
    refine (operator_expect (fun _ => whole (item :: before).reverse) hlow happ (hh.closer_eq before)
      hh.ne_integer ?_).bind fun _ s₁ h₁ => ?_
    · rw [hh.finish_eq, if_neg h]
    · exact .pure (by omega) (by simp)

theorem parameters_reads {before : List String} {hole : ExpressionHole}
    (hs : s.tokens.length ≤ n + 1) :
    Reads count (.parameterEnd before hole) s r.step.parameters
      (fun names => .bodyBrace (before.reverse ++ names) hole) (Within s.tokens.length) := by
  have htail := s.length_tail
  refine .peek ?_
  by_cases h : s.peek.kind = .comma
  · rw [if_pos h]
    refine .read (.nextParameter before hole) (scan_of_take rfl ?_) ?_
    · simp [take_of_kind_ne, State.shift, h]
    refine (Reads.expect (fun name => .parameterEnd (name.value :: before) hole) rfl rfl rfl
      (take_shiftKind (by decide) rfl)).bind fun name s₁ h₁ => ?_
    refine (hr.parameters (by omega)).bind fun names s₂ h₂ => ?_
    exact .pure (by omega) (by simp)
  · rw [if_neg h]
    refine (Reads.expect (fun _ => .bodyBrace before.reverse hole) rfl rfl rfl
      (take_shiftKind (by decide) ?_)).bind fun _ s₁ h₁ => ?_
    · rw [State.shift, shiftKind]
      split <;> simp_all
    · exact .pure (by omega) (by simp)

theorem entries_reads {before : List (Node × Node)} {hole : ExpressionHole}
    (hs : s.tokens.length ≤ n + 1) :
    Reads count (.entries before hole) s r.step.entries
      (fun pairs => .operator (.hash (before.reverse ++ pairs)) hole) (Within s.tokens.length) := by
  have htail := s.length_tail
  refine .peek ?_
  by_cases h : s.peek.kind = .rightBrace
  · rw [if_pos h]
    refine .read (.operator (.hash before.reverse) hole) (scan_of_take rfl ?_)
      (.pure (s.within_tail (by omega)) (by simp))
    simp [take_of_kind_ne, State.shift, h]
  · rw [if_neg h]
    refine .of_scan_eq (.operand (.entryKey before hole)) ?_ ?_
    · exact scan_of_start rfl rfl rfl (fun _ => rfl) (by simp [State.take, State.shift, h])
    refine (operation_reads hr hs (by exact trivial)).bind fun key s₁ h₁ => ?_
    refine (operator_expect (fun _ => .operand (.entryValue before key hole)) h₁.2 rfl rfl
      (by decide) rfl).bind fun _ s₂ h₂ => ?_
    refine (hr.expression (by omega) (by exact trivial)).bind fun value s₃ h₃ => ?_
    refine .peek ?_
    have hrest {s₄ : TokenStream} (h₄ : s₄.tokens.length ≤ s₃.tokens.length) :
        Reads count (.entries ((key, value) :: before) hole) s₄
          (r.entries >>= fun pairs => Pure.pure ((key, value) :: pairs))
          (fun pairs => .operator (.hash (before.reverse ++ pairs)) hole)
          (Within s.tokens.length) :=
      (hr.entries (by omega)).bind fun pairs s₅ h₅ => .pure (by omega) (by simp)
    by_cases hclose : s₃.peek.kind = .rightBrace
    · rw [if_neg (not_not_intro hclose)]
      refine .of_scan_eq (.entries ((key, value) :: before) hole) ?_ (hrest (Nat.le_refl _))
      have hentries : scan count (.entries ((key, value) :: before) hole) s₃ =
          scan count (.operator (.hash ((key, value) :: before).reverse) hole) s₃.tail :=
        scan_of_take rfl (by simp [take_of_kind_ne, State.shift, hclose])
      rw [hentries]
      refine scan_of_take ?_ ?_
      · rw [settle_of_closer h₃.2 rfl rfl]
        rfl
      · rw [take_operator h₃.2 rfl, not_tooLarge_of_kind (by simp [hclose])]
        simp [ExpressionHole.finish, hclose]
    · rw [if_pos hclose]
      refine (operator_expect (fun _ => .entries ((key, value) :: before) hole) h₃.2 rfl rfl
        (by decide) ?_).bind fun _ s₄ h₄ => hrest (by omega)
      rw [ExpressionHole.finish]
      split <;> simp_all

theorem moreStatements_reads {hole : List Node → StatementHole} {whole : Node → State}
    {before : List Node} (hs : s.tokens.length ≤ n + 1) (hh : BlockHole hole whole)
    (hclose : s.peek.kind ≠ .rightBrace) (heof : s.peek.kind ≠ .eof) :
    Reads count (.statement (hole before)) s
      (r.statement >>= fun first => r.statements >>= fun nodes => Pure.pure (first :: nodes))
      (fun nodes => whole (.block (before.reverse ++ nodes))) (Within s.tokens.length) := by
  refine (statement_reads hr hs (completed_of_close (hh.close_eq before)) fun h => ?_).bind
    fun first s₁ h₁ => ?_
  · exact absurd h (not_or.2 ⟨hclose, heof⟩)
  rw [hh.add_eq]
  refine (hr.statements (by omega) hh).bind fun nodes s₂ h₂ => ?_
  exact .pure (by omega) (by simp)

theorem statements_reads {hole : List Node → StatementHole} {whole : Node → State}
    {before : List Node} (hs : s.tokens.length ≤ n + 1) (hh : BlockHole hole whole) :
    Reads count (.statement (hole before)) s r.step.statements
      (fun nodes => whole (.block (before.reverse ++ nodes))) (Within s.tokens.length) := by
  have htail := s.length_tail
  have hc : (State.statement (hole before)).completed count = none :=
    completed_of_close (hh.close_eq before)
  refine .peek ?_
  cases hk : s.peek.kind with
  | rightBrace =>
    refine .read (whole (.block before.reverse)) (scan_of_take hc ?_)
      (.pure (s.within_tail (by omega)) (by simp))
    simp [take_of_kind_ne, State.shift, StatementHole.start, hk, hh.close_eq]
  | eof =>
    refine .read_throw rfl ?_
    rw [scan_of_stuck hc (take_of_eof hk _)]
    simp [State.settle, State.complaint, State.objection, State.behind, State.wanted, State.inBlock,
      Token.isTooLarge, hk, hh.close_eq]
  | _ => exact moreStatements_reads hr hs hh (by simp [hk]) (by simp [hk])

end

/-! ## All rules -/

theorem kind_of_length_le_zero (hs : s.tokens.length ≤ 0) : s.peek.kind = .eof := by
  rw [TokenStream.peek_of_nil (List.length_eq_zero_iff.1 (Nat.le_zero.1 hs))]
  rfl

/-- At the end of a stream a state that is no end of a statement complains of the end token. -/
theorem throw_reads {cause : ParseError.Cause} (hs : s.tokens.length ≤ 0)
    (hsettle : σ.settle s.peek.kind = σ) (hc : σ.completed count = none)
    (hobj : σ.objection s.peek = cause) :
    Reads count σ s (ParserM.next >>= fun token => throw ⟨cause, token⟩) next Q := by
  have heof := kind_of_length_le_zero hs
  have htail := s.tail_of_nil (List.length_eq_zero_iff.1 (Nat.le_zero.1 hs))
  refine .read_throw rfl ?_
  rw [scan_of_stuck (by rw [hsettle, hc]) (take_of_eof heof σ), hsettle, State.complaint, hobj,
    State.behind, htail, ite_self]

theorem follows_atEnd : Follows count .atEnd 0 where
  expression hs _ :=
    throw_reads hs rfl rfl (by
      simp [State.objection, State.wanted, State.inBlock, Token.isTooLarge, kind_of_length_le_zero hs])
  operators {p _ _ _} hs _ := by
    refine .pure ⟨Nat.le_refl _, ?_⟩ rfl
    rw [kind_of_length_le_zero hs]
    exact Level.expr_le p.level
  items {_ hole _ item before _} hs hh hlow := by
    refine throw_reads hs (settle_of_closer hlow (hh.apply_eq before _ item) (hh.closer_eq before)) rfl ?_
    simp [State.objection, State.wanted, hh.closer_eq, kind_of_length_le_zero hs]
  parameters hs :=
    throw_reads hs rfl rfl (by simp [State.objection, State.wanted, kind_of_length_le_zero hs])
  entries hs :=
    throw_reads hs rfl rfl (by
      simp [State.objection, State.wanted, State.inBlock, Token.isTooLarge, kind_of_length_le_zero hs])
  statements {_ _ before _} hs hh :=
    throw_reads hs rfl (completed_of_close (hh.close_eq before)) (by
      simp [State.objection, State.wanted, State.inBlock, Token.isTooLarge, hh.close_eq,
        kind_of_length_le_zero hs])

theorem Follows.step {r : Rules} {n : Nat} (hr : Follows count r n) : Follows count r.step (n + 1) where
  expression hs hh := (operation_reads hr hs hh).mono fun s' h => ⟨by omega, h.2⟩
  operators hs hh := climb_reads hr hs hh
  items hs hh hlow := items_reads hr hs hh hlow
  parameters hs := parameters_reads hr hs
  entries hs := entries_reads hr hs
  statements hs hh := statements_reads hr hs hh

theorem follows_rules (n : Nat) : Follows count (rules n) n := by
  induction n with
  | zero => exact follows_atEnd
  | succ n ih => exact ih.step

theorem programStatement_reads {n : Nat} (before : List Node) (hs : s.tokens.length ≤ n) :
    Reads before.length (.statement (.program before)) s (rules n).statement
      (fun node => .statement (.program (node :: before))) (Within (s.tokens.length - 1)) :=
  statement_reads (follows_rules n) (by omega) (by simp [State.completed]) (fun _ => rfl)

theorem statement_eq_scan {n : Nat} (before : List Node) (hs : s.tokens.length ≤ n) :
    scan before.length (.statement (.program before)) s =
      match (rules n).statement s with
      | .ok node s' => .ok (node :: before) s'
      | .error e s' => .error e s' := by
  have hreads := programStatement_reads before hs
  unfold Reads at hreads
  cases h : (rules n).statement s with
  | ok node s' =>
    rw [h] at hreads
    rw [hreads.2]
    exact scan_of_completed (by simp [State.settle, State.completed])
  | error e s' =>
    rw [h] at hreads
    exact hreads

variable {n : Nat} {node : Node} {s' : TokenStream} {e : ParseError}

theorem length_of_statement_ok (hs : s.tokens.length ≤ n)
    (h : (rules n).statement s = .ok node s') : s'.tokens.length ≤ s.tokens.length - 1 := by
  have hreads := programStatement_reads [] hs
  unfold Reads at hreads
  rw [h] at hreads
  exact hreads.1

theorem statement_ok_iff (hs : s.tokens.length ≤ n) :
    (rules n).statement s = .ok node s' ↔ scan 0 (.statement (.program [])) s = .ok [node] s' := by
  rw [← List.length_nil (α := Node), statement_eq_scan [] hs]
  cases (rules n).statement s <;> simp

theorem statement_error_iff (hs : s.tokens.length ≤ n) :
    (rules n).statement s = .error e s' ↔ scan 0 (.statement (.program [])) s = .error e s' := by
  rw [← List.length_nil (α := Node), statement_eq_scan [] hs]
  cases (rules n).statement s <;> simp

theorem length_of_statement_error (hs : s.tokens.length ≤ n) (hne : s.tokens ≠ [])
    (h : (rules n).statement s = .error e s') : s'.tokens.length < s.tokens.length := by
  have hpos := List.length_pos_iff.2 hne
  obtain ⟨tokens, σ', s₁, hmoves, -, -, -, rfl⟩ := moves_of_scan_error ((statement_error_iff hs).1 h)
  have hlength := congrArg List.length hmoves.tokens_eq
  rw [List.length_append] at hlength
  cases tokens with
  | nil =>
    cases hmoves.takes_eq
    have hbehind : (State.statement (.program [])).behind s₁ = s₁.tail := rfl
    show ((State.statement (.program [])).behind s₁).tokens.length < s.tokens.length
    rw [hbehind, s₁.length_tail]
    rw [List.length_nil] at hlength
    omega
  | cons t tokens =>
    rw [List.length_cons] at hlength
    rw [State.behind]
    split
    · omega
    · rw [s₁.length_tail]
      omega

end MonkeyLanguage
