import MonkeyLanguage.Parser.Literal
import MonkeyLanguage.Node.Basic
import MonkeyLanguage.Proofs.Parser.Settling

/-!
# The grammar

`Derives` is the grammar of programs, with the tree that each sentence stands for.  Read as a grammar alone
it is ambiguous where a statement lacks its semicolon: `a -b` could be one statement or two.  A parser that
shifts when it can goes on with the statement, so the grammar asks that no operator follows such a
statement (`moreStatements`).
-/

namespace MonkeyLanguage

inductive Category where
  /-- An expression whose outermost operator binds at least as tightly as `level`. -/
  | expression (level : Level) (node : Node)
  /-- One or more expressions. -/
  | items (nodes : List Node)
  /-- Any number of expressions. -/
  | list (nodes : List Node)
  /-- One or more names. -/
  | names (parameters : List String)
  /-- Any number of names. -/
  | parameters (parameters : List String)
  /-- The entries of a hash. -/
  | entries (pairs : List (Node × Node))
  /-- Statements in braces. -/
  | block (nodes : List Node)
  /-- A statement, which ends in a semicolon if `ended`. -/
  | statement (ended : Bool) (node : Node)
  | statements (nodes : List Node)

open Category

/-- The first tokens up to the second are a sentence of the category. -/
inductive Derives : Category → List Token → List Token → Prop where
  | raise {p q : Level} {e : Node} {ts us : List Token} (hle : p ≤ q)
    (he : Derives (expression q e) ts us) : Derives (expression p e) ts us
  | binary {q : Level} {left right : Node} {t : Token} {ts us vs : List Token}
    (hlow : .expr < t.kind.level) (hhigh : t.kind.level < .unary)
    (htight : t.kind.level < q) (hleft : Derives (expression t.kind.level left) ts (t :: us))
    (hright : Derives (expression q right) us vs) :
    Derives (expression t.kind.level (.binary left t.value right)) ts vs
  | unary {e : Node} {t : Token} {ts us : List Token} (ht : t.kind = .bang ∨ t.kind = .minus)
    (he : Derives (expression .unary e) ts us) :
    Derives (expression .unary (.unary t.value e)) (t :: ts) us
  | call {callee : Node} {arguments : List Node} {l r : Token} {ts us vs : List Token}
    (hcallee : Derives (expression .suffix callee) ts (l :: us)) (hl : l.kind = .leftParen)
    (harguments : Derives (list arguments) us (r :: vs)) (hr : r.kind = .rightParen) :
    Derives (expression .suffix (.call callee arguments)) ts vs
  | index {left position : Node} {l r : Token} {ts us vs : List Token}
    (hleft : Derives (expression .suffix left) ts (l :: us)) (hl : l.kind = .leftBracket)
    (hposition : Derives (expression .expr position) us (r :: vs)) (hr : r.kind = .rightBracket) :
    Derives (expression .suffix (.index left position)) ts vs
  | identifier {t : Token} {ts : List Token} (ht : t.kind = .identifier) :
    Derives (expression .suffix (.identifier t.value)) (t :: ts) ts
  | integer {t : Token} {ts : List Token} (ht : t.kind = .integer) (hsmall : t.isTooLarge = false) :
    Derives (expression .suffix (.integer t.integer)) (t :: ts) ts
  | string {t : Token} {ts : List Token} (ht : t.kind = .string) :
    Derives (expression .suffix (.string t.value)) (t :: ts) ts
  | trueWord {t : Token} {ts : List Token} (ht : t.kind = .trueWord) :
    Derives (expression .suffix (.boolean true)) (t :: ts) ts
  | falseWord {t : Token} {ts : List Token} (ht : t.kind = .falseWord) :
    Derives (expression .suffix (.boolean false)) (t :: ts) ts
  | group {e : Node} {l r : Token} {ts us : List Token} (hl : l.kind = .leftParen)
    (he : Derives (expression .expr e) ts (r :: us)) (hr : r.kind = .rightParen) :
    Derives (expression .suffix e) (l :: ts) us
  | ifThen {condition : Node} {consequence : List Node} {t l r : Token} {ts us vs : List Token}
    (ht : t.kind = .ifWord) (hl : l.kind = .leftParen)
    (hcondition : Derives (expression .expr condition) ts (r :: us)) (hr : r.kind = .rightParen)
    (hconsequence : Derives (block consequence) us vs) :
    Derives (expression .suffix (.ifElse condition (.block consequence) .absent)) (t :: l :: ts) vs
  | ifElse {condition : Node} {consequence alternative : List Node} {t l r u : Token}
    {ts us vs ws : List Token} (ht : t.kind = .ifWord) (hl : l.kind = .leftParen)
    (hcondition : Derives (expression .expr condition) ts (r :: us)) (hr : r.kind = .rightParen)
    (hconsequence : Derives (block consequence) us (u :: vs)) (hu : u.kind = .elseWord)
    (halternative : Derives (block alternative) vs ws) :
    Derives (expression .suffix (.ifElse condition (.block consequence) (.block alternative)))
      (t :: l :: ts) ws
  | function {xs : List String} {body : List Node} {t l r : Token} {ts us vs : List Token}
    (ht : t.kind = .fnWord) (hl : l.kind = .leftParen) (hparameters : Derives (parameters xs) ts (r :: us))
    (hr : r.kind = .rightParen) (hbody : Derives (block body) us vs) :
    Derives (expression .suffix (.function xs (.block body))) (t :: l :: ts) vs
  | array {elements : List Node} {l r : Token} {ts us : List Token} (hl : l.kind = .leftBracket)
    (helements : Derives (list elements) ts (r :: us)) (hr : r.kind = .rightBracket) :
    Derives (expression .suffix (.array elements)) (l :: ts) us
  | hash {pairs : List (Node × Node)} {l r : Token} {ts us : List Token} (hl : l.kind = .leftBrace)
    (hpairs : Derives (entries pairs) ts (r :: us)) (hr : r.kind = .rightBrace) :
    Derives (expression .suffix (.hash pairs)) (l :: ts) us
  | item {e : Node} {ts us : List Token} (he : Derives (expression .expr e) ts us) :
    Derives (items [e]) ts us
  | moreItems {e : Node} {nodes : List Node} {t : Token} {ts us vs : List Token}
    (he : Derives (expression .expr e) ts (t :: us)) (ht : t.kind = .comma)
    (hnodes : Derives (items nodes) us vs) : Derives (items (e :: nodes)) ts vs
  | noItems {ts : List Token} : Derives (list []) ts ts
  | someItems {nodes : List Node} {ts us : List Token} (hnodes : Derives (items nodes) ts us) :
    Derives (list nodes) ts us
  | name {t : Token} {ts : List Token} (ht : t.kind = .identifier) : Derives (names [t.value]) (t :: ts) ts
  | moreNames {xs : List String} {t u : Token} {ts us : List Token} (ht : t.kind = .identifier)
    (hu : u.kind = .comma) (hxs : Derives (names xs) ts us) :
    Derives (names (t.value :: xs)) (t :: u :: ts) us
  | noParameters {ts : List Token} : Derives (parameters []) ts ts
  | someParameters {xs : List String} {ts us : List Token} (hxs : Derives (names xs) ts us) :
    Derives (parameters xs) ts us
  | noEntries {ts : List Token} : Derives (entries []) ts ts
  | entry {key value : Node} {t : Token} {ts us vs : List Token}
    (hkey : Derives (expression .expr key) ts (t :: us)) (ht : t.kind = .colon)
    (hvalue : Derives (expression .expr value) us vs) : Derives (entries [(key, value)]) ts vs
  | moreEntries {key value : Node} {pairs : List (Node × Node)} {t u : Token} {ts us vs ws : List Token}
    (hkey : Derives (expression .expr key) ts (t :: us)) (ht : t.kind = .colon)
    (hvalue : Derives (expression .expr value) us (u :: vs)) (hu : u.kind = .comma)
    (hpairs : Derives (entries pairs) vs ws) : Derives (entries ((key, value) :: pairs)) ts ws
  | block {nodes : List Node} {l r : Token} {ts us : List Token} (hl : l.kind = .leftBrace)
    (hnodes : Derives (statements nodes) ts (r :: us)) (hr : r.kind = .rightBrace) :
    Derives (block nodes) (l :: ts) us
  | letStatement {value : Node} {t u v w : Token} {ts us : List Token} (ht : t.kind = .letWord)
    (hu : u.kind = .identifier) (hv : v.kind = .assign)
    (hvalue : Derives (expression .expr value) ts (w :: us)) (hw : w.kind = .semicolon) :
    Derives (statement true (.letStatement u.value value)) (t :: u :: v :: ts) us
  | returnStatement {value : Node} {t u : Token} {ts us : List Token} (ht : t.kind = .returnWord)
    (hvalue : Derives (expression .expr value) ts (u :: us)) (hu : u.kind = .semicolon) :
    Derives (statement true (.returnStatement value)) (t :: ts) us
  | openReturn {value : Node} {t : Token} {ts us : List Token} (ht : t.kind = .returnWord)
    (hvalue : Derives (expression .expr value) ts us) :
    Derives (statement false (.returnStatement value)) (t :: ts) us
  | expressionStatement {e : Node} {t : Token} {ts us : List Token}
    (he : Derives (expression .expr e) ts (t :: us)) (ht : t.kind = .semicolon) :
    Derives (statement true (.expressionStatement e)) ts us
  | openExpression {e : Node} {ts us : List Token} (he : Derives (expression .expr e) ts us) :
    Derives (statement false (.expressionStatement e)) ts us
  | noStatements {ts : List Token} : Derives (statements []) ts ts
  | moreStatements {ended : Bool} {node : Node} {nodes : List Node} {ts us vs : List Token}
    (hnode : Derives (statement ended node) ts us) (hnodes : Derives (statements nodes) us vs)
    (hshift : ended = false → ∀ t ∈ us.head?, t.kind.level = .expr) :
    Derives (statements (node :: nodes)) ts vs

/-- A sentence is one with more tokens behind it, unless these start with an operator. -/
theorem Derives.append {category : Category} {ts us vs : List Token} (h : Derives category ts us)
    (hvs : ∀ t ∈ vs.head?, t.kind.level = .expr) : Derives category (ts ++ vs) (us ++ vs) := by
  induction h with
  | raise hle _ he => exact .raise hle he
  | binary hlow hhigh htight _ _ hleft hright => exact .binary hlow hhigh htight hleft hright
  | unary ht _ he => exact .unary ht he
  | call _ hl _ hr hcallee harguments => exact .call hcallee hl harguments hr
  | index _ hl _ hr hleft hposition => exact .index hleft hl hposition hr
  | identifier ht => exact .identifier ht
  | integer ht hsmall => exact .integer ht hsmall
  | string ht => exact .string ht
  | trueWord ht => exact .trueWord ht
  | falseWord ht => exact .falseWord ht
  | group hl _ hr he => exact .group hl he hr
  | ifThen ht hl _ hr _ hcondition hconsequence => exact .ifThen ht hl hcondition hr hconsequence
  | ifElse ht hl _ hr _ hu _ hcondition hconsequence halternative =>
    exact .ifElse ht hl hcondition hr hconsequence hu halternative
  | function ht hl _ hr _ hparameters hbody => exact .function ht hl hparameters hr hbody
  | array hl _ hr helements => exact .array hl helements hr
  | hash hl _ hr hpairs => exact .hash hl hpairs hr
  | item _ he => exact .item he
  | moreItems _ ht _ he hnodes => exact .moreItems he ht hnodes
  | noItems => exact .noItems
  | someItems _ hnodes => exact .someItems hnodes
  | name ht => exact .name ht
  | moreNames ht hu _ hxs => exact .moreNames ht hu hxs
  | noParameters => exact .noParameters
  | someParameters _ hxs => exact .someParameters hxs
  | noEntries => exact .noEntries
  | entry _ ht _ hkey hvalue => exact .entry hkey ht hvalue
  | moreEntries _ ht _ hu _ hkey hvalue hpairs => exact .moreEntries hkey ht hvalue hu hpairs
  | block hl _ hr hnodes => exact .block hl hnodes hr
  | letStatement ht hu hv _ hw hvalue => exact .letStatement ht hu hv hvalue hw
  | returnStatement ht _ hu hvalue => exact .returnStatement ht hvalue hu
  | openReturn ht _ hvalue => exact .openReturn ht hvalue
  | expressionStatement _ ht he => exact .expressionStatement he ht
  | openExpression _ he => exact .openExpression he
  | noStatements => exact .noStatements
  | @moreStatements ended node nodes ts us ws _ _ hshift hnode hnodes =>
    refine .moreStatements hnode hnodes fun hopen t ht => ?_
    cases us with
    | nil => exact hvs t ht
    | cons u us => exact hshift hopen t ht

/-! ## Levels -/

theorem Derives.expr {level : Level} {e : Node} {ts us : List Token}
    (h : Derives (expression level e) ts us) : Derives (expression .expr e) ts us :=
  .raise (Level.expr_le level) h

/-- An operator that binds looser than this level does not take the first operand of an expression of the level
given.  Behind a prefix operator there is no operand to take. -/
def Level.grip : Level → Level
  | expr => equality
  | unary => suffix
  | level => level

variable {p q : Level}

theorem expr_lt_grip (p : Level) : .expr < p.grip := by
  cases p <;> decide

theorem le_grip (p : Level) : p ≤ p.grip := by
  cases p <;> decide

theorem grip_mono (h : p ≤ q) : p.grip ≤ q.grip := by
  revert h
  cases p <;> cases q <;> decide

theorem grip_eq_self (hlow : .expr < p) (hhigh : p < .unary) : p.grip = p := by
  revert hlow hhigh
  cases p <;> decide

theorem le_of_lt_grip (h : p < q.grip) : p ≤ q := by
  revert h
  cases p <;> cases q <;> decide

theorem lt_of_lt_grip (hlow : .expr < p) (hhigh : p < .unary) (h : p < q.grip) : p < q := by
  revert hlow hhigh h
  cases p <;> cases q <;> decide

end MonkeyLanguage
