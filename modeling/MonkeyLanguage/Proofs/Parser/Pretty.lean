import MonkeyLanguage.Node.Render
import MonkeyLanguage.Proofs.Parser.RoundTrip
import MonkeyLanguage.Proofs.Parser.WellFormed
import MonkeyLanguage.Proofs.Token.Words

/-!
# Rendered programs are read back

The text of a program is parsed to the program, unless it is ambiguous (`parse_pretty`).  Operations and indexed
expressions are rendered in parentheses, so that every rendered expression is an operand of any operator.

There are two places where the text does not tell the tree.  The condition of an `if` is rendered without
parentheses of its own, and an expression statement without a semicolon, so that a bracket behind it would go on with
the expression.  `Node.isClear` excludes both.
-/

namespace MonkeyLanguage

open Category Lexeme

/-! ## Trees whose text is not ambiguous -/

namespace Node

def isBracketed : Node → Bool
  | unary .. | binary .. | index .. => true
  | _ => false

/-- Whether the text of the tree begins with a bracket that can go on with an expression. -/
def opensBracket (node : Node) : Bool :=
  match node.render.toList with
  | '(' :: _ | '[' :: _ => true
  | _ => false

/-- Whether no expression statement stands before a statement that could go on with it. -/
def areParted : List Node → Bool
  | [] => true
  | expressionStatement _ :: node :: nodes => !node.opensBracket && areParted (node :: nodes)
  | _ :: nodes => areParted nodes

/-- Whether the text of the tree tells the tree, apart from the texts of its parts. -/
def isClear : Node → Bool
  | ifElse condition _ _ => condition.isBracketed
  | block nodes | program nodes => areParted nodes
  | _ => true

end Node

/-! ## Texts that are read back -/

/-- The text is cut into words that are a sentence of the category, whatever follows. -/
structure Sentence (category : Category) (text : List Char) (ws : List String) : Prop where
  cuts : Cuts text ws
  derives : ∀ rest, Derives category (ws.map Token.ofWord ++ rest) rest

/-- The first character is no equals sign, and the first word is no operator unless it is a bracket. -/
inductive Opens : List Char → List String → Prop where
  | intro {c : Char} {text : List Char} {w : String} {ws : List String} (hc : c ≠ '=')
    (hlow : c = '(' ∨ c = '[' ∨ (Token.ofWord w).kind.level = .expr) : Opens (c :: text) (w :: ws)

/-- The text of an expression is read back as an operand.  If it is in parentheses, what stands in them is read back
too. -/
structure Node.Rereads (e : Node) (ws : List String) : Prop extends
    Sentence (expression .suffix e) e.render.toList ws where
  opens : Opens e.render.toList ws
  inner : e.isBracketed = true → ∃ inner, ws = "(" :: (inner ++ [")"]) ∧
    ∀ rest, Derives (expression .expr e) (inner.map Token.ofWord ++ rest) rest

/-- The text of a statement is read back, with a semicolon at the end unless it is an expression. -/
structure Node.RereadsStatement (node : Node) (ws : List String) : Prop where
  cuts : Cuts node.render.toList ws
  opens : Opens node.render.toList ws
  derives : ∃ ended, (ended = false → ∃ e, node = .expressionStatement e) ∧
    ∀ rest, Derives (statement ended node) (ws.map Token.ofWord ++ rest) rest

variable {e left right condition callee position value node : Node} {nodes nodes' es : List Node}
  {text text' : List Char} {w x operator : String} {ws ws₁ ws₂ : List String} {kind : Token.Kind}
  {level : Level}

theorem Opens.append (h : Opens text ws) (text' : List Char) (ws' : List String) :
    Opens (text ++ text') (ws ++ ws') := by
  cases h with
  | intro hc hlow => exact .intro hc hlow

theorem Opens.of_spells (h : Spells kind w.toList) (hlow : kind.level = .expr) (hassign : kind ≠ .assign) :
    Opens w.toList [w] := by
  obtain ⟨c, cs, htext, -, -, hhead⟩ := head_of_spells h
  rw [htext]
  refine .intro ?_ (.inr (.inr (by rw [ofWord_of_spells h]; exact hlow)))
  rintro rfl
  have hkind : (head.orEqual '=' cs .assign .equal).1 = kind := congrArg Prod.fst hhead
  unfold head.orEqual at hkind
  split at hkind
  · rw [← hkind] at hlow
    cases hlow
  · exact hassign hkind.symm

theorem Opens.append_words (h : Opens text ws) (ws' : List String) : Opens text (ws ++ ws') := by
  cases h with
  | intro hc hlow => exact .intro hc hlow

/-- A text that begins with no bracket does not go on with an expression before it. -/
theorem Opens.no_operator (h : Opens node.render.toList ws) (hbracket : node.opensBracket = false) (rest : List Token) :
    ∀ t ∈ (ws.map Token.ofWord ++ rest).head?, t.kind.level = .expr := by
  unfold Node.opensBracket at hbracket
  generalize node.render.toList = text at h hbracket
  cases h with
  | intro _ hlow =>
    intro t ht
    obtain rfl := Option.some.inj ht
    rcases hlow with rfl | rfl | hlow
    · cases hbracket
    · cases hbracket
    · exact hlow

/-! ## Expressions -/

namespace Node.Rereads

theorem of_sentence (h : Sentence (expression .suffix e) e.render.toList ws) (hopens : Opens e.render.toList ws)
    (hbare : e.isBracketed = false) : e.Rereads ws :=
  ⟨h, hopens, fun hbracketed => absurd hbracketed (by rw [hbare]; exact Bool.false_ne_true)⟩

theorem of_inner (htext : e.render.toList = '(' :: text) (hcuts : Cuts text (ws ++ [")"]))
    (h : ∀ rest, Derives (expression .expr e) (ws.map Token.ofWord ++ rest) rest) :
    e.Rereads ("(" :: (ws ++ [")"])) where
  cuts := by
    rw [htext]
    exact hcuts.punctuation rfl rfl
  derives rest := by
    rw [List.map_cons, List.map_append, List.cons_append, List.append_assoc]
    exact .group rfl (h _) rfl
  opens := by
    rw [htext]
    exact .intro (by decide) (.inl rfl)
  inner _ := ⟨ws, rfl, h⟩

theorem of_word (hspells : Spells kind w.toList) (hlow : kind.level = .expr) (hassign : kind ≠ .assign)
    (hrender : e.render = w) (hprints : Prints (.expression false e) [w]) (hlevel : e.level false = .suffix)
    (hbare : e.isBracketed = false) : e.Rereads [w] := by
  subst hrender
  refine .of_sentence ⟨.of_isWord (isWord_of_spells hspells), fun rest => ?_⟩ (.of_spells hspells hlow hassign) hbare
  have hderives := derives_of_prints hprints rest
  rw [Phrase.category, hlevel] at hderives
  exact hderives

theorem identifier (h : isName x = true) : (identifier x).Rereads [x] :=
  .of_word (spells_of_isName h) rfl (by decide) rfl (.identifier h) rfl rfl

theorem integer {n : Nat} (h : n ≤ maxInteger) : (integer n).Rereads [n.repr] :=
  .of_word (spells_of_digits (toList_repr_ne_nil n) (all_isDigit_repr n)) rfl (by decide) rfl (prints_natural h) rfl rfl

theorem boolean (b : Bool) : (boolean b).Rereads [boolText b] := by
  cases b with
  | true => exact .of_word (spells_of_isWord (by decide)) rfl (by decide) rfl (.boolean true) rfl rfl
  | false => exact .of_word (spells_of_isWord (by decide)) rfl (by decide) rfl (.boolean false) rfl rfl

theorem string (h : '"' ∉ x.toList) : (string x).Rereads ["\"" ++ x ++ "\""] :=
  .of_word (spells_of_quoted h) rfl (by decide) rfl (.string h) rfl rfl

theorem unary (hoperator : operator = "!" ∨ operator = "-") (he : e.Rereads ws) :
    (unary operator e).Rereads ("(" :: ((operator :: ws) ++ [")"])) := by
  have htext : (Node.unary operator e).render.toList = '(' :: (operator.toList ++ (e.render.toList ++ [')'])) := by
    simp [render, String.toList_append]
  refine .of_inner htext ?_ fun rest => (derives_unary hoperator (fun _ => rfl) (he.derives rest)).expr
  have hbody : Cuts (e.render.toList ++ [')']) (ws ++ [")"]) := he.cuts.append_punctuation rfl rfl .nil
  rcases hoperator with rfl | rfl
  · have hopens := he.opens
    generalize e.render.toList = text at hbody hopens
    cases hopens with
    | intro hc _ => exact .bang hc hbody
  · exact hbody.punctuation rfl rfl

theorem binary (hoperator : MonkeyLanguage.infixLevel? operator = some level) (hleft : left.Rereads ws₁)
    (hright : right.Rereads ws₂) :
    (binary left operator right).Rereads ("(" :: (ws₁ ++ operator :: ws₂ ++ [")"])) := by
  have htext : (Node.binary left operator right).render.toList =
      '(' :: (left.render.toList ++ ' ' :: (operator.toList ++ ' ' :: (right.render.toList ++ [')']))) := by
    simp [render, String.toList_append]
  refine .of_inner htext ?_ fun rest => ?_
  · have hoperand : Cuts (operator.toList ++ ' ' :: (right.render.toList ++ [')'])) (operator :: (ws₂ ++ [")"])) :=
      (Cuts.of_isWord (isWord_of_operator hoperator)).append_blank rfl (hright.cuts.append_punctuation rfl rfl .nil)
    rw [List.append_assoc]
    exact hleft.cuts.append_blank rfl hoperand
  · rw [List.map_append, List.map_cons, List.append_assoc]
    exact (derives_binary hoperator (fun _ _ _ => rfl) (fun _ _ _ => rfl) (hleft.derives _) (hright.derives _)).expr

theorem index (hleft : left.Rereads ws₁) (hposition : position.Rereads ws₂) :
    (index left position).Rereads ("(" :: (ws₁ ++ "[" :: (ws₂ ++ ["]"]) ++ [")"])) := by
  have htext : (Node.index left position).render.toList =
      '(' :: (left.render.toList ++ '[' :: (position.render.toList ++ ']' :: [')'])) := by
    simp [render, String.toList_append]
  refine .of_inner htext ?_ fun rest => ?_
  · rw [List.append_assoc, List.cons_append, List.append_assoc]
    exact hleft.cuts.append_punctuation rfl rfl (hposition.cuts.append_punctuation rfl rfl (.punctuation rfl rfl .nil))
  · simp only [List.map_append, List.map_cons, List.append_assoc, List.cons_append, List.map_nil, List.nil_append]
    exact (Derives.index (hleft.derives _) rfl (hposition.derives _).expr rfl).expr

theorem call (hcallee : callee.Rereads ws)
    (harguments : Sentence (list nodes) (", ".intercalate (renderList nodes)).toList ws₁) :
    (call callee nodes).Rereads (ws ++ "(" :: (ws₁ ++ [")"])) := by
  have htext : (Node.call callee nodes).render.toList =
      callee.render.toList ++ '(' :: ((", ".intercalate (renderList nodes)).toList ++ [')']) := by
    simp [render, String.toList_append]
  refine .of_sentence ⟨?_, fun rest => ?_⟩ (htext ▸ hcallee.opens.append _ _) rfl
  · rw [htext]
    exact hcallee.cuts.append_punctuation rfl rfl (harguments.cuts.append_punctuation rfl rfl .nil)
  · simp only [List.map_append, List.map_cons, List.append_assoc, List.cons_append, List.map_nil, List.nil_append]
    exact .call (hcallee.derives _) rfl (harguments.derives _) rfl

theorem array (helements : Sentence (list nodes) (", ".intercalate (renderList nodes)).toList ws) :
    (array nodes).Rereads ("[" :: (ws ++ ["]"])) := by
  have htext : (Node.array nodes).render.toList = '[' :: ((", ".intercalate (renderList nodes)).toList ++ [']']) := by
    simp [render, String.toList_append]
  refine .of_sentence ⟨?_, fun rest => ?_⟩ (htext ▸ .intro (by decide) (.inr (.inl rfl))) rfl
  · rw [htext]
    exact .punctuation rfl rfl (helements.cuts.append_punctuation rfl rfl .nil)
  · simp only [List.map_append, List.map_cons, List.append_assoc, List.cons_append, List.map_nil, List.nil_append]
    exact .array rfl (helements.derives _) rfl

theorem hash {pairs : List (Node × Node)}
    (hpairs : Sentence (entries pairs) (", ".intercalate (renderPairs pairs)).toList ws) :
    (hash pairs).Rereads ("\x7b" :: (ws ++ ["\x7d"])) := by
  have htext : (Node.hash pairs).render.toList =
      '\x7b' :: ((", ".intercalate (renderPairs pairs)).toList ++ ['\x7d']) := by
    simp [render, String.toList_append]
  refine .of_sentence ⟨?_, fun rest => ?_⟩ (htext ▸ .intro (by decide) (.inr (.inr rfl))) rfl
  · rw [htext]
    exact .punctuation rfl rfl (hpairs.cuts.append_punctuation rfl rfl .nil)
  · simp only [List.map_append, List.map_cons, List.append_assoc, List.cons_append, List.map_nil, List.nil_append]
    exact .hash rfl (hpairs.derives _) rfl

theorem function {xs : List String} (hxs : ∀ x ∈ xs, isName x = true)
    (hbody : Sentence (.block nodes) (block nodes).render.toList ws) :
    (function xs (block nodes)).Rereads ("fn" :: "(" :: (xs.intersperse "," ++ ")" :: ws)) := by
  have htext : (Node.function xs (Node.block nodes)).render.toList =
      "fn".toList ++ '(' :: ((", ".intercalate xs).toList ++ ')' :: ' ' :: (Node.block nodes).render.toList) := by
    simp [render, String.toList_append]
  refine .of_sentence ⟨?_, fun rest => ?_⟩ (htext ▸ .intro (by decide) (.inr (.inr rfl))) rfl
  · have hnames := Cuts.intersperse fun x hx => isWord_of_name (hxs x hx)
    have hword : Cuts "fn".toList ["fn"] := .of_isWord (by decide)
    rw [htext]
    exact hword.append_punctuation rfl rfl (hnames.append_punctuation rfl rfl (hbody.cuts.blank rfl))
  · simp only [List.map_append, List.map_cons, List.append_assoc, List.cons_append]
    exact .function rfl rfl (derives_parameters hxs) rfl (hbody.derives _)

theorem ifThen (hcondition : condition.Rereads ws) (hbracketed : condition.isBracketed = true)
    (hconsequence : Sentence (.block nodes) (block nodes).render.toList ws₁) :
    (ifElse condition (block nodes) absent).Rereads ("if" :: (ws ++ ws₁)) := by
  have htext : (Node.ifElse condition (Node.block nodes) .absent).render.toList =
      "if".toList ++ ' ' :: (condition.render.toList ++ ' ' :: (Node.block nodes).render.toList) := by
    simp [render, String.toList_append]
  refine .of_sentence ⟨?_, fun rest => ?_⟩ (htext ▸ .intro (by decide) (.inr (.inr rfl))) rfl
  · have hword : Cuts "if".toList ["if"] := .of_isWord (by decide)
    rw [htext]
    exact hword.append_blank rfl (hcondition.cuts.append_blank rfl hconsequence.cuts)
  · obtain ⟨inner, rfl, hinner⟩ := hcondition.inner hbracketed
    simp only [List.map_append, List.map_cons, List.append_assoc, List.cons_append, List.nil_append]
    exact .ifThen rfl rfl (hinner _) rfl (hconsequence.derives _)

theorem ifElse (hcondition : condition.Rereads ws) (hbracketed : condition.isBracketed = true)
    (hconsequence : Sentence (.block nodes) (block nodes).render.toList ws₁)
    (halternative : Sentence (.block nodes') (block nodes').render.toList ws₂) :
    (ifElse condition (block nodes) (block nodes')).Rereads ("if" :: (ws ++ (ws₁ ++ "else" :: ws₂))) := by
  have htext : (Node.ifElse condition (Node.block nodes) (Node.block nodes')).render.toList =
      "if".toList ++ ' ' :: (condition.render.toList ++ ' ' :: ((Node.block nodes).render.toList ++
        ' ' :: ("else".toList ++ ' ' :: (Node.block nodes').render.toList))) := by
    simp [render, String.toList_append]
  refine .of_sentence ⟨?_, fun rest => ?_⟩ (htext ▸ .intro (by decide) (.inr (.inr rfl))) rfl
  · have hif : Cuts "if".toList ["if"] := .of_isWord (by decide)
    have helse : Cuts "else".toList ["else"] := .of_isWord (by decide)
    rw [htext]
    exact hif.append_blank rfl (hcondition.cuts.append_blank rfl (hconsequence.cuts.append_blank rfl
      (helse.append_blank rfl halternative.cuts)))
  · obtain ⟨inner, rfl, hinner⟩ := hcondition.inner hbracketed
    simp only [List.map_append, List.map_cons, List.append_assoc, List.cons_append, List.nil_append]
    exact .ifElse rfl rfl (hinner _) rfl (hconsequence.derives _) rfl (halternative.derives _)

end Node.Rereads

/-! ## Lists -/

theorem exists_sentence_items (h : ∀ node ∈ e :: es, ∃ ws, node.Rereads ws) :
    ∃ ws, Sentence (items (e :: es)) (", ".intercalate (Node.renderList (e :: es))).toList ws := by
  induction es generalizing e with
  | nil =>
    obtain ⟨ws, he⟩ := h e (List.mem_singleton_self e)
    exact ⟨ws, by simpa [Node.renderList] using he.cuts, fun rest => .item (he.derives rest).expr⟩
  | cons next es ih =>
    rw [List.forall_mem_cons] at h
    obtain ⟨⟨ws, he⟩, hes⟩ := h
    obtain ⟨ws₁, hitems⟩ := ih hes
    refine ⟨ws ++ "," :: ws₁, he.cuts.cons_comma hitems.cuts, fun rest => ?_⟩
    rw [List.map_append, List.map_cons, List.append_assoc, List.cons_append]
    exact .moreItems (he.derives _).expr rfl (hitems.derives rest)

theorem exists_sentence_list (h : ∀ node ∈ es, ∃ ws, node.Rereads ws) :
    ∃ ws, Sentence (list es) (", ".intercalate (Node.renderList es)).toList ws := by
  cases es with
  | nil => exact ⟨[], .nil, fun _ => .noItems⟩
  | cons e es =>
    obtain ⟨ws, hitems⟩ := exists_sentence_items h
    exact ⟨ws, hitems.cuts, fun rest => .someItems (hitems.derives rest)⟩

theorem cuts_entryText (hkey : left.Rereads ws₁) (hvalue : right.Rereads ws₂) :
    Cuts (left.render ++ ": " ++ right.render).toList (ws₁ ++ ":" :: ws₂) := by
  have htext : (left.render ++ ": " ++ right.render).toList =
      left.render.toList ++ ':' :: ' ' :: right.render.toList := by
    simp [String.toList_append]
  rw [htext]
  exact hkey.cuts.append_punctuation rfl rfl (hvalue.cuts.blank rfl)

theorem exists_sentence_entries {pairs : List (Node × Node)}
    (h : ∀ pair ∈ pairs, (∃ ws, pair.1.Rereads ws) ∧ ∃ ws, pair.2.Rereads ws) :
    ∃ ws, Sentence (entries pairs) (", ".intercalate (Node.renderPairs pairs)).toList ws := by
  induction pairs with
  | nil => exact ⟨[], .nil, fun _ => .noEntries⟩
  | cons pair pairs ih =>
    rw [List.forall_mem_cons] at h
    obtain ⟨⟨⟨ws₁, hkey⟩, ws₂, hvalue⟩, hpairs⟩ := h
    have hentry := cuts_entryText hkey hvalue
    cases pairs with
    | nil =>
      refine ⟨_, by simpa [Node.renderPairs] using hentry, fun rest => ?_⟩
      rw [List.map_append, List.map_cons, List.append_assoc, List.cons_append]
      exact .entry (hkey.derives _).expr rfl (hvalue.derives rest).expr
    | cons next pairs =>
      obtain ⟨ws, hentries⟩ := ih hpairs
      refine ⟨ws₁ ++ ":" :: ws₂ ++ "," :: ws, hentry.cons_comma hentries.cuts, fun rest => ?_⟩
      simp only [List.map_append, List.map_cons, List.append_assoc, List.cons_append]
      exact .moreEntries (hkey.derives _).expr rfl (hvalue.derives _).expr rfl (hentries.derives rest)

/-! ## Statements -/

namespace Node.RereadsStatement

theorem letStatement (hname : isName x = true) (he : e.Rereads ws) :
    (letStatement x e).RereadsStatement ("let" :: x :: "=" :: (ws ++ [";"])) := by
  have htext : (Node.letStatement x e).render.toList =
      "let".toList ++ ' ' :: (x.toList ++ ' ' :: ("=".toList ++ ' ' :: (e.render.toList ++ [';']))) := by
    simp [render, String.toList_append]
  refine ⟨?_, htext ▸ .intro (by decide) (.inr (.inr rfl)), true, Bool.noConfusion, fun rest => ?_⟩
  · have hlet : Cuts "let".toList ["let"] := .of_isWord (by decide)
    have hassign : Cuts "=".toList ["="] := .of_isWord (by decide)
    have hvalue : Cuts (e.render.toList ++ [';']) (ws ++ [";"]) := he.cuts.append_punctuation rfl rfl .nil
    rw [htext]
    exact hlet.append_blank rfl ((Cuts.of_isWord (isWord_of_name hname)).append_blank rfl
      (hassign.append_blank rfl hvalue))
  · simp only [List.map_append, List.map_cons, List.append_assoc, List.cons_append, List.map_nil, List.nil_append,
      ofWord_of_isName hname]
    exact @Derives.letStatement e (.ofWord "let") ⟨.identifier, x, .start⟩ (.ofWord "=") (.ofWord ";") _ rest rfl rfl
      rfl (he.derives _).expr rfl

theorem returnStatement (he : e.Rereads ws) : (returnStatement e).RereadsStatement ("return" :: (ws ++ [";"])) := by
  have htext : (Node.returnStatement e).render.toList = "return".toList ++ ' ' :: (e.render.toList ++ [';']) := by
    simp [render, String.toList_append]
  refine ⟨?_, htext ▸ .intro (by decide) (.inr (.inr rfl)), true, Bool.noConfusion, fun rest => ?_⟩
  · have hreturn : Cuts "return".toList ["return"] := .of_isWord (by decide)
    rw [htext]
    exact hreturn.append_blank rfl (he.cuts.append_punctuation rfl rfl .nil)
  · simp only [List.map_append, List.map_cons, List.append_assoc, List.cons_append, List.map_nil, List.nil_append]
    exact .returnStatement rfl (he.derives _).expr rfl

theorem expressionStatement (he : e.Rereads ws) : (expressionStatement e).RereadsStatement ws :=
  ⟨he.cuts, he.opens, false, fun _ => ⟨e, rfl⟩, fun rest => .openExpression (he.derives rest).expr⟩

end Node.RereadsStatement

/-- Statements with blanks between them, behind which no operator follows. -/
structure RereadsStatements (sep : String) (nodes : List Node) (ws : List String) : Prop where
  cuts : Cuts (sep.intercalate (Node.renderList nodes)).toList ws
  opens : ∀ node ∈ nodes.head?, Opens node.render.toList ws
  derives : ∀ rest : List Token, (∀ t ∈ rest.head?, t.kind.level = .expr) →
    Derives (statements nodes) (ws.map Token.ofWord ++ rest) rest

theorem Node.areParted_tail (h : areParted (node :: nodes) = true) : areParted nodes = true := by
  cases nodes with
  | nil => rfl
  | cons next nodes =>
    cases node with
    | expressionStatement e =>
      rw [areParted, Bool.and_eq_true] at h
      exact h.2
    | _ => exact h

theorem exists_rereadsStatements {sep : String} {c : Char} (hsep : sep.toList = [c]) (hc : isGap c = true)
    (h : ∀ node ∈ nodes, ∃ ws, node.RereadsStatement ws) (hparted : Node.areParted nodes = true) :
    ∃ ws, RereadsStatements sep nodes ws := by
  induction nodes with
  | nil => exact ⟨[], .nil, nofun, fun _ _ => .noStatements⟩
  | cons node nodes ih =>
    rw [List.forall_mem_cons] at h
    obtain ⟨⟨ws, hnode⟩, hnodes⟩ := h
    obtain ⟨ended, hended, hderives⟩ := hnode.derives
    cases nodes with
    | nil =>
      refine ⟨ws, by simpa [Node.renderList] using hnode.cuts, ?_, fun rest hrest => ?_⟩
      · rintro _ ⟨⟩
        exact hnode.opens
      · exact .moreStatements (hderives rest) .noStatements fun _ => hrest
    | cons next nodes =>
      obtain ⟨ws₁, hmore⟩ := ih hnodes (Node.areParted_tail hparted)
      have htext : (sep.intercalate (Node.renderList (node :: next :: nodes))).toList =
          node.render.toList ++ c :: (sep.intercalate (Node.renderList (next :: nodes))).toList := by
        simp [Node.renderList, String.toList_append, hsep]
      refine ⟨ws ++ ws₁, ?_, ?_, fun rest hrest => ?_⟩
      · rw [htext]
        exact hnode.cuts.append_blank hc hmore.cuts
      · rintro _ ⟨⟩
        exact hnode.opens.append_words ws₁
      · rw [List.map_append, List.append_assoc]
        refine .moreStatements (hderives _) (hmore.derives rest hrest) fun hopen => ?_
        obtain ⟨e, rfl⟩ := hended hopen
        rw [Node.areParted, Bool.and_eq_true, Bool.not_eq_true'] at hparted
        exact (hmore.opens next rfl).no_operator hparted.1 rest

theorem exists_sentence_block (h : ∀ node ∈ nodes, ∃ ws, node.RereadsStatement ws)
    (hparted : Node.areParted nodes = true) :
    ∃ ws, Sentence (.block nodes) (Node.block nodes).render.toList ws := by
  obtain ⟨ws, hnodes⟩ := @exists_rereadsStatements nodes " " ' ' rfl rfl h hparted
  refine ⟨"\x7b" :: (ws ++ ["\x7d"]), ?_, fun rest => ?_⟩
  · cases nodes with
    | nil =>
      have hcuts : Cuts [' '] ws := by simpa [Node.renderList] using hnodes.cuts.append_blank rfl .nil
      exact .punctuation rfl rfl (hcuts.append_punctuation rfl rfl .nil)
    | cons node nodes =>
      have htext : (Node.block (node :: nodes)).render.toList =
          '\x7b' :: ' ' :: ((" ".intercalate (Node.renderList (node :: nodes))).toList ++ ' ' :: ['\x7d']) := by
        simp [Node.render_block_cons, String.toList_append]
      rw [htext]
      exact .punctuation rfl rfl (.blank rfl (hnodes.cuts.append_blank rfl (.punctuation rfl rfl .nil)))
  · simp only [List.map_append, List.map_cons, List.append_assoc, List.cons_append, List.map_nil, List.nil_append]
    exact .block rfl (hnodes.derives _ (by rintro _ ⟨⟩; rfl)) rfl

/-! ## Programs -/

namespace Node

/-- What stands for a part of a program is read back. -/
structure Restored (node : Node) : Prop where
  expression : node.isExpression = true → ∃ ws, node.Rereads ws
  block : ∀ nodes, node = .block nodes → allStatements nodes = true →
    ∃ ws, Sentence (.block nodes) (Node.block nodes).render.toList ws
  statement : node.isStatement = true → ∃ ws, node.RereadsStatement ws

theorem exists_rereads (hclear : e.isClear = true) (hparts : ∀ part ∈ e.parts, part.Restored)
    (h : e.isExpression = true) : ∃ ws, e.Rereads ws := by
  cases e with
  | identifier x => exact ⟨_, .identifier h⟩
  | integer n =>
    simp only [isExpression, Bool.and_eq_true, decide_eq_true_eq] at h
    obtain ⟨m, rfl⟩ := Int.eq_ofNat_of_zero_le h.1
    exact ⟨_, .integer h.2⟩
  | boolean b => exact ⟨_, .boolean b⟩
  | string x => exact ⟨_, .string (by simpa [isExpression] using h)⟩
  | unary operator e =>
    simp only [isExpression, Bool.and_eq_true, Bool.or_eq_true, beq_iff_eq] at h
    obtain ⟨ws, he⟩ := (hparts e (List.mem_singleton_self e)).expression h.2
    exact ⟨_, .unary h.1 he⟩
  | binary left operator right =>
    simp only [isExpression, Bool.and_eq_true] at h
    obtain ⟨level, hlevel⟩ := Option.isSome_iff_exists.1 h.1.1
    obtain ⟨ws₁, hleft⟩ := (hparts left (by simp [parts])).expression h.1.2
    obtain ⟨ws₂, hright⟩ := (hparts right (by simp [parts])).expression h.2
    exact ⟨_, .binary hlevel hleft hright⟩
  | ifElse condition consequence alternative =>
    simp only [isExpression, Bool.and_eq_true] at h
    obtain ⟨ws, hcondition⟩ := (hparts condition (by simp [parts])).expression h.1.1
    cases consequence with
    | block nodes =>
      obtain ⟨ws₁, hconsequence⟩ := (hparts (.block nodes) (by simp [parts])).block nodes rfl h.1.2
      cases alternative with
      | absent => exact ⟨_, .ifThen hcondition hclear hconsequence⟩
      | block nodes' =>
        obtain ⟨ws₂, halternative⟩ := (hparts (.block nodes') (by simp [parts])).block nodes' rfl h.2
        exact ⟨_, .ifElse hcondition hclear hconsequence halternative⟩
      | _ => cases h.2
    | _ => cases h.1.2
  | function xs body =>
    simp only [isExpression, Bool.and_eq_true, List.all_eq_true] at h
    cases body with
    | block nodes =>
      obtain ⟨ws, hbody⟩ := (hparts (.block nodes) (List.mem_singleton_self _)).block nodes rfl h.2
      exact ⟨_, .function h.1 hbody⟩
    | _ => cases h.2
  | call callee nodes =>
    simp only [isExpression, allExpressions_eq_all, Bool.and_eq_true, List.all_eq_true] at h
    obtain ⟨ws, hcallee⟩ := (hparts callee (List.mem_cons_self ..)).expression h.1
    obtain ⟨ws₁, harguments⟩ := exists_sentence_list fun node hnode =>
      (hparts node (List.mem_cons_of_mem _ hnode)).expression (h.2 node hnode)
    exact ⟨_, .call hcallee harguments⟩
  | array nodes =>
    simp only [isExpression, allExpressions_eq_all, List.all_eq_true] at h
    obtain ⟨ws, helements⟩ := exists_sentence_list fun node hnode => (hparts node hnode).expression (h node hnode)
    exact ⟨_, .array helements⟩
  | hash pairs =>
    simp only [isExpression, allPairs_eq_all, List.all_eq_true, Bool.and_eq_true] at h
    have hpart {pair : Node × Node} (hpair : pair ∈ pairs) {part : Node} (hmem : part ∈ [pair.1, pair.2]) :
        part.Restored :=
      hparts part (List.mem_flatMap.2 ⟨pair, hpair, hmem⟩)
    obtain ⟨ws, hentries⟩ := exists_sentence_entries fun pair hpair =>
      ⟨(hpart hpair (List.mem_cons_self ..)).expression (h pair hpair).1,
        (hpart hpair (List.mem_cons_of_mem _ (List.mem_singleton_self _))).expression (h pair hpair).2⟩
    exact ⟨_, .hash hentries⟩
  | index left position =>
    simp only [isExpression, Bool.and_eq_true] at h
    obtain ⟨ws₁, hleft⟩ := (hparts left (by simp [parts])).expression h.1
    obtain ⟨ws₂, hposition⟩ := (hparts position (by simp [parts])).expression h.2
    exact ⟨_, .index hleft hposition⟩
  | _ => cases h

theorem exists_rereadsStatement (hparts : ∀ part ∈ node.parts, part.Restored) (h : node.isStatement = true) :
    ∃ ws, node.RereadsStatement ws := by
  cases node with
  | letStatement x e =>
    rw [isStatement, Bool.and_eq_true] at h
    obtain ⟨ws, he⟩ := (hparts e (List.mem_singleton_self e)).expression h.2
    exact ⟨_, .letStatement h.1 he⟩
  | returnStatement e =>
    obtain ⟨ws, he⟩ := (hparts e (List.mem_singleton_self e)).expression h
    exact ⟨_, .returnStatement he⟩
  | expressionStatement e =>
    obtain ⟨ws, he⟩ := (hparts e (List.mem_singleton_self e)).expression h
    exact ⟨_, .expressionStatement he⟩
  | _ => cases h

theorem restored_of_clear (h : node.Every fun node => node.isClear = true) : node.Restored := by
  induction h with
  | intro hclear _ hparts =>
    refine ⟨exists_rereads hclear hparts, ?_, exists_rereadsStatement hparts⟩
    rintro nodes rfl hnodes
    rw [allStatements_eq_all, List.all_eq_true] at hnodes
    exact exists_sentence_block (fun node hnode => (hparts node hnode).statement (hnodes node hnode)) hclear

end Node

/-- What a front end accepts is read back from its text by each front end, if the conditions of `if` are rendered in
parentheses and no expression statement stands before a statement whose text begins with a bracket. -/
theorem parse_pretty {frontEnd frontEnd' : FrontEnd} {source : String} (h : frontEnd.parse source = (nodes, []))
    (hclear : (Node.program nodes).Every fun node => node.isClear = true) :
    frontEnd'.parse (Node.pretty nodes) = (nodes, []) := by
  have hnodes := allStatements_of_parse h
  rw [Node.allStatements_eq_all, List.all_eq_true] at hnodes
  have hstatements : ∀ node ∈ nodes, ∃ ws, node.RereadsStatement ws := fun node hnode =>
    (Node.restored_of_clear (hclear.of_mem_parts hnode)).statement (hnodes node hnode)
  obtain ⟨ws, hcuts, -, hderives⟩ := @exists_rereadsStatements nodes "\n" '\n' rfl rfl hstatements hclear.self
  have hsentence := hderives [] nofun
  rw [List.append_nil] at hsentence
  exact parse_of_words (map_word_tokensOf_of_cuts hcuts) hsentence

theorem parse_pretty_condition :
    FrontEnd.automaton.parse "if (1 < x) \x7b return (-2); \x7d else \x7b x \x7d\nf(3)" =
      FrontEnd.descent.parse "if (1 < x) \x7b return -2 \x7d else \x7b x; \x7d f(3);" := by
  let condition : Node := .binary (.integer 1) "<" (.identifier "x")
  let consequence : Node := .block [.returnStatement (.unary "-" (.integer 2))]
  let alternative : Node := .block [.expressionStatement (.identifier "x")]
  let call : Node := .call (.identifier "f") [.integer 3]
  have hparse : FrontEnd.descent.parse "if (1 < x) \x7b return -2 \x7d else \x7b x; \x7d f(3);" =
      ([.expressionStatement (.ifElse condition consequence alternative), .expressionStatement call], []) := by
    decide +kernel
  have hcondition : condition.Every fun node => node.isClear = true :=
    ⟨rfl, List.forall_mem_cons.2 ⟨⟨rfl, nofun⟩, List.forall_mem_singleton.2 ⟨rfl, nofun⟩⟩⟩
  have hconsequence : consequence.Every fun node => node.isClear = true := by
    refine ⟨rfl, List.forall_mem_singleton.2 ⟨rfl, List.forall_mem_singleton.2 ⟨rfl, ?_⟩⟩⟩
    exact List.forall_mem_singleton.2 ⟨rfl, nofun⟩
  have halternative : alternative.Every fun node => node.isClear = true :=
    ⟨rfl, List.forall_mem_singleton.2 ⟨rfl, List.forall_mem_singleton.2 ⟨rfl, nofun⟩⟩⟩
  have hcall : call.Every fun node => node.isClear = true :=
    ⟨rfl, List.forall_mem_cons.2 ⟨⟨rfl, nofun⟩, List.forall_mem_singleton.2 ⟨rfl, nofun⟩⟩⟩
  have hif : (Node.ifElse condition consequence alternative).Every fun node => node.isClear = true := by
    refine ⟨rfl, List.forall_mem_cons.2 ⟨hcondition, List.forall_mem_cons.2 ⟨hconsequence, ?_⟩⟩⟩
    exact List.forall_mem_singleton.2 halternative
  rw [hparse]
  refine parse_pretty hparse ⟨by decide +kernel, List.forall_mem_cons.2 ⟨⟨rfl, ?_⟩, ?_⟩⟩
  · exact List.forall_mem_singleton.2 hif
  · exact List.forall_mem_singleton.2 ⟨rfl, List.forall_mem_singleton.2 hcall⟩

end MonkeyLanguage
