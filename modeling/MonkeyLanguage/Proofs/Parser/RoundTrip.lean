import MonkeyLanguage.Proofs.Parser.Printing
import MonkeyLanguage.Proofs.Parser.Reading

/-!
# Printings are read back

Words that print a part of a program are a sentence that stands for that part (`derives_of_prints`).  An
expression in parentheses has the level `call`, and without them the level of its own operator
(`Node.level`); the parentheses that a printing needs are those that bring an operand to the level that the
grammar asks for.
-/

namespace MonkeyLanguage

open Phrase

/-- The level of an expression as it is printed. -/
def Node.level : Bool → Node → Level
  | true, _ => .suffix
  | false, .unary .. => .unary
  | false, e => e.infixLevel?.getD .suffix

def Phrase.category : Phrase → Category
  | expression inParens e => .expression (e.level inParens) e
  | items nodes => .items nodes
  | list nodes => .list nodes
  | entries pairs => .entries pairs
  | statement node => .statement true node
  | statements nodes => .statements nodes

variable {b b₁ b₂ : Bool} {e left right : Node} {level : Level} {operator x : String} {nodes : List Node}
  {ws : List String} {rest : List Token}

/-! ## Levels -/

theorem expr_lt_of_infixLevel? (h : infixLevel? operator = some level) :
    .expr < level ∧ level < .unary := by
  unfold infixLevel? at h
  split at h <;> cases h <;> decide

theorem level_of_infixLevel? (h : infixLevel? operator = some level) :
    (Node.binary left operator right).level false = level := by
  rw [Node.level, Node.infixLevel?, h]
  · rfl
  · intro _ _ h
    cases h

theorem le_level (h : ∀ own ∈ e.infixLevel?, own < level → b = true) (hlevel : level ≤ .unary) :
    level ≤ e.level b := by
  unfold Node.level
  split
  · exact Level.le_suffix level
  · exact hlevel
  · cases hown : e.infixLevel? with
    | none => exact Level.le_suffix level
    | some own => exact Level.not_lt.1 fun hlt => Bool.noConfusion (h own hown hlt)

theorem lt_level (h : ∀ own ∈ e.infixLevel?, own ≤ level → b = true) (hlevel : level < .unary) :
    level < e.level b := by
  unfold Node.level
  split
  · exact Nat.lt_trans hlevel (by decide)
  · exact hlevel
  · cases hown : e.infixLevel? with
    | none => exact Nat.lt_trans hlevel (by decide)
    | some own => exact Level.not_le.1 fun hle => Bool.noConfusion (h own hown hle)

theorem suffix_le_level (h : e.isOperation = true → b = true) : .suffix ≤ e.level b := by
  cases b with
  | true => exact Nat.le_refl _
  | false =>
    cases e with
    | unary operator e => exact absurd (h rfl) (by decide)
    | binary left operator right => exact absurd (h rfl) (by decide)
    | _ => exact Nat.le_refl _

/-! ## The tokens of words -/

theorem spells_of_isName (h : isName x = true) : Lexeme.Spells .identifier x.toList := by
  unfold isName at h
  cases hx : x.toList with
  | nil => simp [hx] at h
  | cons c cs =>
    simp only [hx, Bool.and_eq_true, decide_eq_true_eq] at h
    exact .word h.2 h.1.1 h.1.2

theorem spells_of_digits (hne : x.toList ≠ []) (hdigits : x.toList.all Char.isDigit = true) :
    Lexeme.Spells .integer x.toList := by
  cases hx : x.toList with
  | nil => exact absurd hx hne
  | cons c cs =>
    rw [hx, List.all_cons, Bool.and_eq_true] at hdigits
    exact .integer hdigits.1 hdigits.2

theorem toList_quoted (x : String) : ("\"" ++ x ++ "\"").toList = '"' :: (x.toList ++ ['"']) := by
  simp [String.toList_append]

theorem spells_of_quoted (h : '"' ∉ x.toList) : Lexeme.Spells .string ("\"" ++ x ++ "\"").toList := by
  rw [toList_quoted]
  exact .string h

theorem ofWord_of_isName (h : isName x = true) : Token.ofWord x = ⟨.identifier, x, .start⟩ := by
  rw [ofWord_of_spells (spells_of_isName h)]
  simp [Lexeme.value, String.ofList_toList]

theorem ofWord_of_digits (hne : x.toList ≠ []) (hdigits : x.toList.all Char.isDigit = true) :
    Token.ofWord x = ⟨.integer, x, .start⟩ := by
  rw [ofWord_of_spells (spells_of_digits hne hdigits)]
  simp [Lexeme.value, String.ofList_toList]

theorem ofWord_of_quoted (h : '"' ∉ x.toList) :
    Token.ofWord ("\"" ++ x ++ "\"") = ⟨.string, x, .start⟩ := by
  rw [ofWord_of_spells (spells_of_quoted h), toList_quoted]
  simp [Lexeme.value, String.ofList_toList]

theorem isTooLarge_of_le (h : decimal x.toList ≤ maxInteger) (hlength : x.toList.length ≤ Text.maxDigits)
    (place : Position) : (⟨.integer, x, place⟩ : Token).isTooLarge = false := by
  rw [Token.isTooLarge, Bool.and_eq_false_iff, Bool.or_eq_false_iff]
  exact .inr ⟨decide_eq_false (Int.not_lt.2 h), decide_eq_false (Nat.not_lt.2 hlength)⟩

theorem ofWord_operator (h : infixLevel? operator = some level) :
    ∃ kind : Token.Kind, Token.ofWord operator = ⟨kind, operator, .start⟩ ∧ kind.level = level := by
  unfold infixLevel? at h
  split at h <;> cases h <;> exact ⟨_, rfl, rfl⟩

/-! ## Printings are sentences -/

theorem derives_unary {ts us : List Token} (hoperator : operator = "!" ∨ operator = "-")
    (hparens : e.infixLevel?.isSome = true → b = true) (he : Derives (.expression (e.level b) e) ts us) :
    Derives (.expression .unary (.unary operator e)) (.ofWord operator :: ts) us := by
  have hlevel : .unary ≤ e.level b :=
    le_level (fun own hown _ => hparens (by simp [Option.mem_def.1 hown])) (Nat.le_refl _)
  have he : Derives (.expression .unary e) ts us := .raise hlevel he
  rcases hoperator with rfl | rfl
  · exact @Derives.unary e (.ofWord "!") ts us (.inl rfl) he
  · exact @Derives.unary e (.ofWord "-") ts us (.inr rfl) he

theorem derives_binary {ts us vs : List Token} (hoperator : infixLevel? operator = some level)
    (hparens₁ : ∀ own ∈ left.infixLevel?, own < level → b₁ = true)
    (hparens₂ : ∀ own ∈ right.infixLevel?, own ≤ level → b₂ = true)
    (hleft : Derives (.expression (left.level b₁) left) ts (.ofWord operator :: us))
    (hright : Derives (.expression (right.level b₂) right) us vs) :
    Derives (.expression level (.binary left operator right)) ts vs := by
  obtain ⟨hlow, hhigh⟩ := expr_lt_of_infixLevel? hoperator
  have hlevel := le_level hparens₁ (Nat.le_of_lt hhigh)
  have htight := lt_level hparens₂ hhigh
  obtain ⟨kind, hword, rfl⟩ := ofWord_operator hoperator
  rw [hword] at hleft
  exact @Derives.binary _ left right ⟨kind, operator, .start⟩ ts us vs hlow hhigh htight (.raise hlevel hleft) hright

theorem derives_names {xs : List String} (hx : isName x = true) (hxs : ∀ y ∈ xs, isName y = true) :
    Derives (.names (x :: xs)) (((x :: xs).intersperse ",").map Token.ofWord ++ rest) rest := by
  induction xs generalizing x with
  | nil =>
    rw [List.intersperse_singleton, List.map_singleton, List.singleton_append, ofWord_of_isName hx]
    exact @Derives.name ⟨.identifier, x, .start⟩ rest rfl
  | cons y xs ih =>
    rw [List.forall_mem_cons] at hxs
    rw [List.intersperse_cons_cons, List.map_cons, List.map_cons, List.cons_append, List.cons_append,
      ofWord_of_isName hx]
    exact @Derives.moreNames (y :: xs) ⟨.identifier, x, .start⟩ (.ofWord ",") _ rest rfl rfl (ih hxs.1 hxs.2)

theorem derives_parameters {xs : List String} (hxs : ∀ x ∈ xs, isName x = true) :
    Derives (.parameters xs) ((xs.intersperse ",").map Token.ofWord ++ rest) rest := by
  cases xs with
  | nil => exact .noParameters
  | cons x xs =>
    rw [List.forall_mem_cons] at hxs
    exact .someParameters (derives_names hxs.1 hxs.2)

/-- Words that print a part of a program are a sentence that stands for it. -/
theorem derives_of_prints {phrase : Phrase} (h : Prints phrase ws) (rest : List Token) :
    Derives phrase.category (ws.map Token.ofWord ++ rest) rest := by
  induction h generalizing rest <;>
    simp only [Phrase.category, List.map_append, List.map_cons, List.map_nil, List.append_assoc, List.cons_append,
      List.nil_append]
  case parens he => exact .group rfl (he _).expr rfl
  case identifier x hx =>
    rw [ofWord_of_isName hx]
    exact @Derives.identifier ⟨.identifier, x, .start⟩ rest rfl
  case integer hne hdigits hmax hlength =>
    rw [ofWord_of_digits hne hdigits]
    exact .integer rfl (isTooLarge_of_le hmax hlength _)
  case boolean b =>
    cases b with
    | true => exact .trueWord rfl
    | false => exact .falseWord rfl
  case string x hx =>
    rw [ofWord_of_quoted hx]
    exact @Derives.string ⟨.string, x, .start⟩ rest rfl
  case unary hoperator _ hparens he => exact derives_unary hoperator hparens (he _)
  case binary hoperator _ _ hparens₁ hparens₂ hleft hright =>
    rw [level_of_infixLevel? hoperator]
    exact derives_binary hoperator hparens₁ hparens₂ (hleft _) (hright _)
  case ifThen hcondition hconsequence =>
    exact .ifThen rfl rfl (hcondition _).expr rfl (.block rfl (hconsequence _) rfl)
  case ifElse hcondition hconsequence halternative =>
    exact .ifElse rfl rfl (hcondition _).expr rfl (.block rfl (hconsequence _) rfl) rfl
      (.block rfl (halternative _) rfl)
  case function hparameters _ hbody =>
    exact .function rfl rfl (derives_parameters hparameters) rfl (.block rfl (hbody _) rfl)
  case call hparens _ hcallee harguments =>
    exact .call (.raise (suffix_le_level hparens) (hcallee _)) rfl (harguments _) rfl
  case array helements => exact .array rfl (helements _) rfl
  case hash hpairs => exact .hash rfl (hpairs _) rfl
  case index hparens _ hleft hposition =>
    exact .index (.raise (suffix_le_level hparens) (hleft _)) rfl (hposition _).expr rfl
  case item he => exact .item (he _).expr
  case moreItems he hnodes => exact .moreItems (he _).expr rfl (hnodes _)
  case noItems => exact .noItems
  case someItems hnodes => exact .someItems (hnodes _)
  case noEntries => exact .noEntries
  case entry hkey hvalue => exact .entry (hkey _).expr rfl (hvalue _).expr
  case moreEntries hkey hvalue hpairs =>
    exact .moreEntries (hkey _).expr rfl (hvalue _).expr rfl (hpairs _)
  case letStatement x _ value _ hx _ hvalue =>
    rw [ofWord_of_isName hx]
    exact @Derives.letStatement value (.ofWord "let") ⟨.identifier, x, .start⟩ (.ofWord "=") (.ofWord ";")
      _ rest rfl rfl rfl (hvalue _).expr rfl
  case returnStatement hvalue => exact .returnStatement rfl (hvalue _).expr rfl
  case expressionStatement he => exact .expressionStatement (he _).expr rfl
  case noStatements => exact .noStatements
  case moreStatements hnode hnodes => exact .moreStatements (hnode _) (hnodes _) nofun

/-! ## Whole texts -/

theorem isWord_of_operator (h : infixLevel? operator = some level) : isWord operator = true := by
  unfold infixLevel? at h
  split at h <;> cases h <;> decide

theorem isWord_of_name (h : isName x = true) : isWord x = true :=
  isWord_of_spells (spells_of_isName h)

theorem all_isWord_parameters {parameters : List String} (h : ∀ x ∈ parameters, isName x = true) :
    (parameters.intersperse ",").all isWord = true := by
  have hcomma : isWord "," = true := by decide
  fun_induction List.intersperse "," parameters with
  | case1 => rfl
  | case2 x => simpa using isWord_of_name (h x (by simp))
  | case3 x y parameters ih =>
    rw [List.forall_mem_cons] at h
    simp [isWord_of_name h.1, hcomma, ih h.2]

theorem all_isWord_of_prints {phrase : Phrase} (h : Prints phrase ws) : ws.all isWord = true := by
  have hfixed : ["(", ")", "[", "]", "\x7b", "\x7d", ",", ":", ";", "=", "if", "else", "fn", "let",
      "return"].all isWord = true := by decide
  simp only [List.all_cons, List.all_nil, Bool.and_true, Bool.and_eq_true] at hfixed
  induction h with
  | identifier hx => simpa using isWord_of_name hx
  | integer hne hdigits => simpa using isWord_of_spells (spells_of_digits hne hdigits)
  | boolean b => cases b <;> decide
  | string hs => simpa using isWord_of_spells (spells_of_quoted hs)
  | unary hoperator _ _ he => rcases hoperator with rfl | rfl <;> simp [he] <;> decide
  | binary hoperator _ _ _ _ hleft hright => simp [hleft, hright, isWord_of_operator hoperator]
  | function hparameters _ hbody => simp [all_isWord_parameters hparameters, hbody, hfixed]
  | letStatement hname _ hvalue => simp [isWord_of_name hname, hvalue, hfixed]
  | _ => simp [*]

/-- A program can be printed, and every text that prints it is parsed to it. -/
theorem parse_of_prints (hnodes : Node.allStatements nodes = true) :
    (∃ ws, Prints (statements nodes) ws) ∧ ∀ (ws : List String) (source : String),
      Prints (statements nodes) ws → Laid ws source.toList →
        FrontEnd.descent.parse source = (nodes, []) := by
  refine ⟨exists_prints_statements nodes hnodes, fun ws source h hlaid => ?_⟩
  have hwords := map_word_tokensOf hlaid (List.all_eq_true.1 (all_isWord_of_prints h))
  have hderives : Derives (.statements nodes) (ws.map Token.ofWord ++ []) [] := derives_of_prints h []
  rw [List.append_nil] at hderives
  obtain ⟨σ', htakes, hend⟩ := accepts_of_derives hderives
  exact descent_eq_iff.2 ⟨σ', (Automaton.takes_congr hwords _).trans htakes, hend⟩

theorem parse_of_product_of_sum :
    FrontEnd.descent.parse " ( 1 + 2 ) * ( a ) ;" =
      ([.expressionStatement (.binary (.binary (.integer 1) "+" (.integer 2)) "*" (.identifier "a"))],
        []) := by
  have hone : Prints (expression false (.integer 1)) ["1"] :=
    @Prints.integer "1" (by decide) (by decide) (by decide) (by decide)
  have htwo : Prints (expression false (.integer 2)) ["2"] :=
    @Prints.integer "2" (by decide) (by decide) (by decide) (by decide)
  have hsum : Prints (expression false (.binary (.integer 1) "+" (.integer 2))) ["1", "+", "2"] :=
    .binary rfl hone htwo (by decide) (by decide)
  have hname : Prints (expression false (.identifier "a")) ["a"] := .identifier (by decide)
  have hproduct : Prints
      (expression false (.binary (.binary (.integer 1) "+" (.integer 2)) "*" (.identifier "a")))
      ["(", "1", "+", "2", ")", "*", "(", "a", ")"] :=
    .binary rfl hsum.parens hname.parens (fun _ _ _ => rfl) fun _ _ _ => rfl
  exact (parse_of_prints (by decide)).2 _ _ (.moreStatements (.expressionStatement hproduct) .noStatements)
    (laid_flatMap _)

end MonkeyLanguage
