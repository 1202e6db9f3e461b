import MonkeyLanguage.Proofs.Parser.Language
import MonkeyLanguage.Proofs.Parser.Printing
import MonkeyLanguage.Proofs.Parts

/-!
# Programs are well formed

The tokens of a text have the values of texts of their kinds (`spelt_of_mem_tokensOf`).  So names, numbers, texts
and operators in the tree of a sentence are those of the language, and what a front end accepts is a list of
statements that can be printed (`allStatements_of_parse`).
-/

namespace MonkeyLanguage

open Node

variable {t : Token} {ts us : List Token} {source : String} {nodes : List Node} {frontEnd : FrontEnd}

/-! ## Tokens -/

/-- The value of the token is that of a text of its kind, unless the token is illegal. -/
def Token.Spelt (t : Token) : Prop :=
  t.kind ≠ .illegal → ∃ text, Lexeme.Spells t.kind text ∧ t.value = (⟨[], t.kind, text⟩ : Lexeme).value

theorem spelt_of_mem_tokensOf (h : t ∈ tokensOf source) : t.Spelt := by
  intro hkind
  have hword : t.word ∈ (Token.ofLexemes .start (Lexeme.split source.toList)).map Token.word :=
    List.mem_map_of_mem h
  rw [map_word_ofLexemes] at hword
  obtain ⟨l, hl, hword⟩ := List.mem_map.1 hword
  obtain ⟨hk, hvalue⟩ := Prod.mk.inj hword
  rw [← hk] at hkind ⊢
  exact ⟨l.text, Lexeme.spells_of_mem_split hl hkind, hvalue.symm⟩

def Token.Kind.operator? : Token.Kind → Option String
  | plus => some "+"
  | minus => some "-"
  | bang => some "!"
  | asterisk => some "*"
  | slash => some "/"
  | less => some "<"
  | greater => some ">"
  | equal => some "=="
  | notEqual => some "!="
  | _ => none

namespace Token.Spelt

theorem isName_value (h : t.Spelt) (hkind : t.kind = .identifier) : isName t.value = true := by
  obtain ⟨text, hspells, hvalue⟩ := h (by simp [hkind])
  rw [hvalue, Lexeme.value, hkind, if_neg Kind.noConfusion, isName, String.toList_ofList]
  generalize t.kind = kind at hkind hspells
  cases hspells with
  | punctuation hc =>
    subst hkind
    unfold punctuation? at hc
    split at hc <;> cases hc
  | word hword hc hcs => simp [hword, hkind, hc, hcs]
  | _ => cases hkind

theorem quote_not_mem_value (h : t.Spelt) (hkind : t.kind = .string) : '"' ∉ t.value.toList := by
  obtain ⟨text, hspells, hvalue⟩ := h (by simp [hkind])
  rw [hkind] at hspells
  obtain ⟨inner, hquote, rfl⟩ := Lexeme.text_of_string hspells
  rw [hvalue, Lexeme.value, hkind, if_pos rfl, String.toList_ofList]
  simpa using hquote

theorem value_of_operator? (h : t.Spelt) {operator : String} (hoperator : t.kind.operator? = some operator) :
    t.value = operator := by
  have hkind : t.kind ≠ .illegal := by
    intro hkind
    rw [hkind] at hoperator
    cases hoperator
  obtain ⟨text, hspells, hvalue⟩ := h hkind
  have hstring : t.kind ≠ .string := by
    intro hkind
    rw [hkind] at hoperator
    cases hoperator
  rw [hvalue, Lexeme.value, if_neg hstring]
  generalize t.kind = kind at hoperator hspells
  cases hspells with
  | punctuation hc =>
    unfold punctuation? at hc
    split at hc <;> cases hc <;> cases hoperator <;> rfl
  | word hword =>
    subst hword
    unfold wordKind at hoperator
    split at hoperator <;> cases hoperator
  | _ => cases hoperator <;> rfl

theorem value_of_unary (h : t.Spelt) (hkind : t.kind = .bang ∨ t.kind = .minus) :
    t.value = "!" ∨ t.value = "-" :=
  hkind.imp (fun hkind => h.value_of_operator? (by rw [hkind]; rfl)) fun hkind =>
    h.value_of_operator? (by rw [hkind]; rfl)

theorem infixLevel?_value (h : t.Spelt) (hlow : .expr < t.kind.level)
    (hhigh : t.kind.level < .unary) : infixLevel? t.value = some t.kind.level := by
  have hoperator := @h.value_of_operator?
  generalize t.kind = kind at hlow hhigh hoperator
  cases kind with
  | equal | notEqual | less | greater | plus | minus | asterisk | slash => rw [hoperator rfl]; rfl
  | leftParen | leftBracket => exact absurd hhigh (by decide)
  | _ => exact absurd hlow (by decide)

end Token.Spelt

theorem integer_nonneg (t : Token) : 0 ≤ t.integer :=
  Int.natCast_nonneg _

theorem le_of_isTooLarge (ht : t.kind = .integer) (h : t.isTooLarge = false) : t.integer ≤ maxInteger := by
  rw [Token.isTooLarge, decide_eq_true ht, Bool.true_and, Bool.or_eq_false_iff] at h
  exact Int.not_lt.1 (of_decide_eq_false h.1)

/-! ## Sentences -/

/-- The tree of the category is made of names, numbers, texts and operators of the language. -/
def Category.WellFormed : Category → Prop
  | .expression _ e => e.isExpression = true
  | .items nodes | .list nodes => allExpressions nodes = true
  | .names xs | .parameters xs => xs.all isName = true
  | .entries pairs => allPairs pairs = true
  | .statement _ node => node.isStatement = true
  | .block nodes | .statements nodes => allStatements nodes = true

theorem wellFormed_of_derives {category : Category} (h : Derives category ts us) (hts : ∀ t ∈ ts, t.Spelt) :
    category.WellFormed ∧ ∀ t ∈ us, t.Spelt := by
  induction h with
  | binary hlow hhigh _ _ _ ihleft ihright =>
    obtain ⟨hleft, hrest⟩ := ihleft hts
    obtain ⟨ht, hus⟩ := List.forall_mem_cons.1 hrest
    obtain ⟨hright, hvs⟩ := ihright hus
    have hlevel := ht.infixLevel?_value hlow hhigh
    simp_all [Category.WellFormed, isExpression]
  | unary ht _ ihe =>
    have hvalue := (hts _ (List.mem_cons_self ..)).value_of_unary ht
    simp_all [Category.WellFormed, isExpression]
  | identifier ht =>
    have hvalue := (hts _ (List.mem_cons_self ..)).isName_value ht
    simp_all [Category.WellFormed, isExpression]
  | integer ht hsmall =>
    have hle := le_of_isTooLarge ht hsmall
    simp_all [Category.WellFormed, isExpression, integer_nonneg]
  | string ht =>
    have hvalue := (hts _ (List.mem_cons_self ..)).quote_not_mem_value ht
    simp_all [Category.WellFormed, isExpression]
  | name ht =>
    have hvalue := (hts _ (List.mem_cons_self ..)).isName_value ht
    simp_all [Category.WellFormed]
  | moreNames ht _ _ ihxs =>
    have hvalue := (hts _ (List.mem_cons_self ..)).isName_value ht
    simp_all [Category.WellFormed]
  | letStatement _ hu _ _ _ ihvalue =>
    have hname := (hts _ (List.mem_cons_of_mem _ (List.mem_cons_self ..))).isName_value hu
    simp_all [Category.WellFormed, isStatement]
  | _ =>
    simp_all [Category.WellFormed, isExpression, allExpressions, allPairs, isBlock, isAlternative, isStatement,
      allStatements]

/-! ## Programs -/

theorem allStatements_of_parse (h : frontEnd.parse source = (nodes, [])) : allStatements nodes = true :=
  (wellFormed_of_derives (parse_eq_iff_derives.1 h) fun _ => spelt_of_mem_tokensOf).1

/-! ## Parts of programs -/

namespace Node

/-- The tree is a program or can be a part of one. -/
inductive WellFormed : Node → Prop where
  | expression {e : Node} (h : e.isExpression = true) : WellFormed e
  | branch {node : Node} (h : node.isAlternative = true) : WellFormed node
  | statement {node : Node} (h : node.isStatement = true) : WellFormed node
  | program {nodes : List Node} (h : allStatements nodes = true) : WellFormed (program nodes)

variable {node part : Node} {nodes : List Node}

theorem WellFormed.of_mem_statements (h : allStatements nodes = true) (hpart : part ∈ nodes) :
    part.WellFormed := by
  rw [allStatements_eq_all] at h
  exact .statement (List.all_eq_true.1 h part hpart)

theorem WellFormed.of_mem_parts (h : node.WellFormed) (hpart : part ∈ node.parts) : part.WellFormed := by
  cases h with
  | expression h =>
    have hpart : part.isExpression = true ∨ part.isAlternative = true := by
      cases node <;>
        simp only [isExpression, parts, allExpressions_eq_all, allPairs_eq_all, Bool.and_eq_true, List.all_eq_true,
          List.mem_cons, List.mem_flatMap, List.not_mem_nil] at h hpart <;>
        grind [isAlternative_of_isBlock]
    exact hpart.elim .expression .branch
  | branch h =>
    cases node with
    | block nodes => exact .of_mem_statements h hpart
    | absent => cases hpart
    | _ => cases h
  | statement h =>
    cases node with
    | letStatement name value =>
      rw [isStatement, Bool.and_eq_true] at h
      rw [List.mem_singleton.1 hpart]
      exact .expression h.2
    | returnStatement value => exact .expression (List.mem_singleton.1 hpart ▸ h)
    | expressionStatement e => exact .expression (List.mem_singleton.1 hpart ▸ h)
    | _ => cases h
  | program h => exact .of_mem_statements h hpart

theorem WellFormed.integer {n : Int} (h : (integer n).WellFormed) : 0 ≤ n ∧ n ≤ maxInteger := by
  cases h with
  | expression h => simpa [isExpression] using h
  | branch h => cases h
  | statement h => cases h

theorem WellFormed.string {s : String} (h : (string s).WellFormed) : '"' ∉ s.toList := by
  cases h with
  | expression h => simpa [isExpression] using h
  | branch h => cases h
  | statement h => cases h

end Node

theorem wellFormed_of_parse (h : frontEnd.parse source = (nodes, [])) : (program nodes).WellFormed :=
  .program (allStatements_of_parse h)

end MonkeyLanguage
