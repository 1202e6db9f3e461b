import MonkeyLanguage.Proofs.Text.Lines
import MonkeyLanguage.Proofs.Token.Cutting
import MonkeyLanguage.Proofs.Token.Munch
import MonkeyLanguage.Proofs.Token.Words

/-!
# Texts with a separator between them

Blanks and semicolons separate: the text behind one is cut into tokens as if it stood alone, and its tokens only stand
elsewhere, as many lines further down as the text in front has line feeds, and on the first line as many columns
further to the right as its last line has characters.

This is so just if the text in front has an even number of double quotes (`tokenize_append_separator`).  Behind an odd
number the separator is part of a string, and the last token in front of it goes on.
-/

namespace MonkeyLanguage

/-! ## Places behind a text -/

/-- The position some lines further down, and on the first line some columns further to the right. -/
def Position.shift (lines columns : Nat) (p : Position) : Position :=
  ⟨p.line + lines, if p.line = 1 then p.column + columns else p.column⟩

/-- The token of a text that is put behind another one. -/
def Token.behind (front : String) (t : Token) : Token :=
  t.moved (.shift (front.toList.count '\n') (Text.lastLine front.toList).length)

theorem Position.relocate_advance_start (text : List Char) (p : Position) :
    (start.advance text).relocate p = p.shift (text.count '\n') (Text.lastLine text).length := by
  rw [advance_start, relocate, shift]
  by_cases hp : p.line = 1
  · simp only [if_pos hp, mk.injEq]
    omega
  · simp only [if_neg hp, mk.injEq, and_true]
    omega

theorem ofLexemes_behind (front : String) (ls : List Lexeme) :
    Token.ofLexemes (Position.start.advance front.toList) ls =
      (Token.ofLexemes .start ls).map (Token.behind front) := by
  have hmove : (Position.start.advance front.toList).relocate =
      .shift (front.toList.count '\n') (Text.lastLine front.toList).length :=
    funext (Position.relocate_advance_start front.toList)
  have hplace : Position.start.advance front.toList =
      (Position.start.advance front.toList).relocate .start :=
    Position.advance_eq_relocate _ []
  rw [hplace, ofLexemes_relocate .start, hmove]
  rfl

/-! ## Blanks -/

namespace Lexeme

variable {c : Char} {cs gap rest tail : List Char} {l : Lexeme}

theorem ofLexemes_split_blank (hc : isGap c = true) (p : Position) :
    Token.ofLexemes p (split (c :: cs)) = Token.ofLexemes (p.next c) (split cs) := by
  have hfirst := @first?_blank c cs hc
  cases h : first? cs with
  | none =>
    rw [h] at hfirst
    rw [split_of_first?_eq_none h, split_of_first?_eq_none hfirst]
    rfl
  | some found =>
    rw [h] at hfirst
    rw [split_of_first?_eq_some h, split_of_first?_eq_some hfirst]
    rfl

theorem ofLexemes_split_gap (hgap : gap.all isGap = true) (p : Position) (rest : List Char) :
    Token.ofLexemes p (split (gap ++ rest)) = Token.ofLexemes (p.advance gap) (split rest) := by
  induction gap generalizing p with
  | nil => rfl
  | cons c gap ih =>
    rw [List.all_cons, Bool.and_eq_true] at hgap
    rw [List.cons_append, ofLexemes_split_blank hgap.1, ih hgap.2]
    rfl

theorem ofLexemes_split_append_gap (hgap : gap.all isGap = true) (hne : gap ≠ []) (hquotes : cs.count '"' % 2 = 0)
    (p : Position) :
    Token.ofLexemes p (split (cs ++ (gap ++ rest))) =
      Token.ofLexemes p (split cs) ++ Token.ofLexemes (p.advance (cs ++ gap)) (split rest) := by
  have hbreaks : Breaks (gap ++ rest) := breaks_of_isGap fun d hd => by
    obtain ⟨first, more, rfl⟩ := List.exists_cons_of_ne_nil hne
    obtain rfl := Option.some.inj hd
    exact List.all_eq_true.1 hgap _ (List.mem_cons_self ..)
  induction cs using split.induct generalizing p with
  | case1 cs h =>
    have hall : (cs ++ gap).all isGap = true := by
      rw [List.all_append, all_isGap_of_first?_eq_none h, hgap]
      rfl
    rw [split_of_first?_eq_none h, ← List.append_assoc, ofLexemes_split_gap hall]
    rfl
  | case2 cs l tail h ih =>
    obtain ⟨hfirst, htail⟩ := first?_append_of_breaks hbreaks hquotes h
    rw [split_of_first?_eq_some hfirst, split_of_first?_eq_some h, Token.ofLexemes, Token.ofLexemes, ih htail,
      ← Position.advance_append, ← List.append_assoc, first?_append h]
    rfl

/-! ## Open strings -/

/-- With more text behind it an open string is another token. -/
theorem word_ne_of_open {inner text : List Char} {kind : Token.Kind} (hne : rest ≠ [])
    (hhead : head '"' (inner ++ rest) = (kind, text, tail)) (gap : List Char) :
    (⟨gap, .illegal, '"' :: inner⟩ : Lexeme).word ≠ (⟨gap, kind, text⟩ : Lexeme).word := by
  intro hword
  obtain ⟨hkind, hvalue⟩ := Prod.mk.inj hword
  obtain rfl : Token.Kind.illegal = kind := hkind
  rcases text_of_illegal hhead with ⟨hquote, -⟩ | ⟨-, -, rfl⟩
  · exact hquote rfl
  · have hvalue : '"' :: inner = '"' :: (inner ++ rest) := String.ofList_inj.1 hvalue
    exact hne (List.append_right_eq_self.1 (List.cons.inj hvalue).2.symm)

theorem split_open_append {inner : List Char} (hopen : '"' ∉ inner) (hgap : gap.all isGap = true) (hne : rest ≠ []) :
    ∃ l l' more, split (gap ++ '"' :: inner) = [l] ∧ split (gap ++ '"' :: inner ++ rest) = l' :: more ∧
      l.word ≠ l'.word := by
  cases hhead : head '"' (inner ++ rest) with
  | mk kind found =>
    have hall := List.all_eq_true.1 hgap
    have hfirst : first? (gap ++ '"' :: inner ++ rest) = some (⟨gap, kind, found.1⟩, found.2) := by
      rw [List.append_assoc, List.cons_append, first?, List.takeWhile_append_of_pos hall,
        List.dropWhile_append_of_pos hall, List.takeWhile_cons_of_neg (by decide),
        List.dropWhile_cons_of_neg (by decide), List.append_nil]
      simp only [hhead]
    exact ⟨_, _, split found.2, split_of_open_string hopen hgap, split_of_first?_eq_some hfirst,
      word_ne_of_open hne hhead gap⟩

theorem split_append_of_odd (hrest : Breaks rest) (hne : rest ≠ []) (hquotes : cs.count '"' % 2 = 1) :
    ∃ front l l' more, split cs = front ++ [l] ∧ split (cs ++ rest) = front ++ l' :: more ∧ l.word ≠ l'.word := by
  induction cs using split.induct with
  | case1 cs h =>
    rw [count_quote_of_all rfl (all_isGap_of_first?_eq_none h)] at hquotes
    cases hquotes
  | case2 cs l tail h ih =>
    by_cases hclosed : ∀ c cs', cs.dropWhile isGap = c :: cs' → c = '"' → '"' ∈ cs'
    · obtain ⟨hfirst, hparity⟩ := first?_append_of_closed hrest hclosed h
      obtain ⟨front, m, m', more, hsplit, hsplit', hword⟩ := ih (hparity.symm.trans hquotes)
      refine ⟨l :: front, m, m', more, ?_, ?_, hword⟩
      · rw [split_of_first?_eq_some h, hsplit]
        rfl
      · rw [split_of_first?_eq_some hfirst, hsplit']
        rfl
    · -- the first token is a string that is open up to the end of the text
      simp only [not_forall] at hclosed
      obtain ⟨c, inner, hdrop, rfl, hopen⟩ := hclosed
      rw [← List.takeWhile_append_dropWhile (p := isGap) (l := cs), hdrop]
      obtain ⟨m, m', more, hsplit, hsplit', hword⟩ := split_open_append hopen List.all_takeWhile hne
      exact ⟨[], m, m', more, hsplit, hsplit', hword⟩

end Lexeme

open Lexeme

/-! ## Whole texts -/

/-- The text separates those in front of it and behind it.  Where it stands at `place` these tokens are in it. -/
inductive Separates (place : Position) : String → List Token → Prop where
  | blanks {w : String} (hne : w ≠ "") (hall : ∀ c ∈ w.toList, c ∈ [' ', '\t', '\r', '\n']) : Separates place w []
  | semicolon : Separates place ";" [⟨.semicolon, ";", place⟩]

variable {a w : String} {ts : List Token} {place : Position}

theorem all_isGap_of_blanks (h : ∀ c ∈ w.toList, c ∈ [' ', '\t', '\r', '\n']) : w.toList.all isGap = true := by
  refine List.all_eq_true.2 fun c hc => ?_
  have hmem := h c hc
  simp only [List.mem_cons, List.not_mem_nil, or_false] at hmem
  rcases hmem with rfl | rfl | rfl | rfl <;> rfl

theorem Separates.toList_ne_nil (h : Separates place w ts) : w.toList ≠ [] := by
  cases h with
  | blanks hne => exact fun hnil => hne (String.toList_eq_nil_iff.1 hnil)
  | semicolon => exact List.cons_ne_nil _ _

theorem Separates.breaks (h : Separates place w ts) (rest : List Char) : Breaks (w.toList ++ rest) := by
  obtain ⟨c, more, hw⟩ := List.exists_cons_of_ne_nil h.toList_ne_nil
  have hc : c ∈ w.toList := hw ▸ List.mem_cons_self ..
  rw [hw]
  cases h with
  | blanks hne hall =>
    refine breaks_of_isGap fun d hd => ?_
    obtain rfl := Option.some.inj hd
    exact List.all_eq_true.1 (all_isGap_of_blanks hall) _ hc
  | semicolon =>
    obtain ⟨rfl, rfl⟩ := List.cons.inj hw
    exact breaks_of_punctuation (show punctuation? ';' = some .semicolon from rfl)

theorem toList_append_append (a w b : String) : (a ++ w ++ b).toList = a.toList ++ (w.toList ++ b.toList) := by
  rw [String.toList_append, String.toList_append, List.append_assoc]

theorem dropLast_tokenize (source : String) : (tokenize source).dropLast = tokensOf source :=
  List.dropLast_concat

theorem endAt_behind (front source : String) :
    Token.behind front (.endAt (Cursor.ofString source).finish) =
      .endAt (Cursor.ofString (front ++ source)).finish := by
  have hfinish : (Cursor.ofString (front ++ source)).finish =
      (Position.start.advance front.toList).relocate (Cursor.ofString source).finish := by
    show Position.start.advance (front ++ source).toList = _
    rw [String.toList_append, Position.advance_append, Position.advance_eq_relocate]
    rfl
  rw [hfinish, Position.relocate_advance_start]
  rfl

theorem map_word_tokenize (source : String) :
    (tokenize source).map Token.word = (split source.toList).map Lexeme.word ++ [(.eof, "")] := by
  rw [tokenize_eq, List.map_append, ← map_word_ofLexemes .start]
  rfl

theorem tokensOf_append_separator (h : Separates (.ofOffset a.toList a.length) w ts)
    (hquotes : a.toList.count '"' % 2 = 0) (b : String) :
    tokensOf (a ++ w ++ b) = tokensOf a ++ ts ++ (tokensOf b).map (Token.behind (a ++ w)) := by
  show Token.ofLexemes .start (split (a ++ w ++ b).toList) =
    Token.ofLexemes .start (split a.toList) ++ ts ++ (Token.ofLexemes .start (split b.toList)).map _
  have haw : (a ++ w).toList = a.toList ++ w.toList := String.toList_append
  rw [toList_append_append, ← ofLexemes_behind, haw]
  cases h with
  | blanks hne hall =>
    have hw : w.toList ≠ [] := fun hnil => hne (String.toList_eq_nil_iff.1 hnil)
    rw [ofLexemes_split_append_gap (all_isGap_of_blanks hall) hw hquotes, List.append_nil]
  | semicolon =>
    have hplace := Position.ofOffset_append a.toList []
    rw [List.append_nil, String.length_toList] at hplace
    rw [hplace, List.append_assoc]
    exact ofLexemes_split_append_semicolon hquotes .start b.toList

/-- Behind a separator a text is cut into tokens as if it stood alone, and they only stand elsewhere, just if an even
number of quotes is in front of the separator. -/
theorem tokenize_append_separator (h : Separates (.ofOffset a.toList a.length) w ts) (b : String) :
    tokenize (a ++ w ++ b) = (tokenize a).dropLast ++ ts ++ (tokenize b).map (Token.behind (a ++ w)) ↔
      a.toList.count '"' % 2 = 0 := by
  rw [dropLast_tokenize]
  constructor
  · intro heq
    by_contra hodd
    have hrest : w.toList ++ b.toList ≠ [] := fun hnil => h.toList_ne_nil (List.append_eq_nil_iff.1 hnil).1
    obtain ⟨front, l, l', more, hsplit, hsplit', hword⟩ :=
      split_append_of_odd (h.breaks b.toList) hrest (Nat.mod_two_ne_zero.1 hodd)
    have hwords := congrArg (List.map Token.word) heq
    have ha : (tokensOf a).map Token.word = (split a.toList).map Lexeme.word := map_word_ofLexemes _ _
    rw [map_word_tokenize, toList_append_append, hsplit', List.map_append, List.map_append, List.map_append, ha,
      hsplit] at hwords
    simp only [List.map_append, List.map_cons, List.append_assoc] at hwords
    exact hword (List.cons.inj (List.append_cancel_left hwords)).1.symm
  · intro hquotes
    rw [tokenize_eq, tokenize_eq, tokensOf_append_separator h hquotes, List.map_append, List.map_singleton,
      endAt_behind, List.append_assoc, List.append_assoc]

/-- The equals signs are apart, and the tokens of the second text are a line further down. -/
theorem tokenize_append_line_feed :
    let a := "x = \"p\n\" ="
    let w := " \n "
    let b := "= 1;\ny"
    Separates (.ofOffset a.toList a.length) w [] ∧ a.toList.count '"' % 2 = 0 ∧
      tokenize (a ++ w ++ b) = (tokenize a).dropLast ++ [] ++ (tokenize b).map (Token.behind (a ++ w)) ∧
      (tokenize (a ++ w ++ b)).map Token.render =
        ["Tok(IDENT, 'x', 1:1)", "Tok(ASSIGN, '=', 1:3)", "Tok(STRING, 'p\\n', 1:5)", "Tok(ASSIGN, '=', 2:3)",
          "Tok(ASSIGN, '=', 3:2)", "Tok(INT, '1', 3:4)", "Tok(SEMICOLON, ';', 3:5)", "Tok(IDENT, 'y', 4:1)",
          "Tok(EOF, '', 4:2)"] := by
  intro a w b
  have hall : (w.toList.all fun c => c ∈ [' ', '\t', '\r', '\n']) = true := by decide +kernel
  have h : Separates (.ofOffset a.toList a.length) w [] :=
    .blanks (by decide +kernel) fun c hc => of_decide_eq_true (List.all_eq_true.1 hall c hc)
  have heven : a.toList.count '"' % 2 = 0 := by decide +kernel
  have htokens := (tokenize_append_separator h b).2 heven
  refine ⟨h, heven, htokens, ?_⟩
  rw [htokens]
  decide +kernel

end MonkeyLanguage
