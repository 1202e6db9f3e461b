import MonkeyLanguage.Proofs.Token.Spelling

/-!
# Cutting a text in two

Where no string is left open in front of it, a punctuation character is a token of its own, and the
texts on both sides of it are cut into tokens as if each stood alone (`split_append_punctuation`).  The tokens
of the text behind it only stand elsewhere (`tokensOf_append_semicolon`): `Position.relocate` moves a position
counted from the start of a text to where that text starts.
-/

namespace MonkeyLanguage

/-! ## Positions -/

namespace Position

/-- The position `p` of a text that starts at `origin`. -/
def relocate (origin p : Position) : Position :=
  if p.line = 1 then ⟨origin.line, origin.column + p.column - 1⟩
  else ⟨origin.line + p.line - 1, p.column⟩

/-- Lines and columns are counted from one. -/
def FromOne (p : Position) : Prop :=
  1 ≤ p.line ∧ 1 ≤ p.column

variable {origin p : Position}

theorem FromOne.start : FromOne start :=
  ⟨Nat.le_refl 1, Nat.le_refl 1⟩

theorem FromOne.next (h : p.FromOne) (c : Char) : (p.next c).FromOne := by
  unfold Position.next
  split
  · exact ⟨Nat.le_add_left 1 _, Nat.le_refl 1⟩
  · exact ⟨h.1, Nat.le_add_left 1 _⟩

theorem FromOne.advance (h : p.FromOne) (text : List Char) : (p.advance text).FromOne := by
  induction text generalizing p with
  | nil => exact h
  | cons c text ih => exact ih (h.next c)

theorem relocate_next (h : p.FromOne) (c : Char) : origin.relocate (p.next c) = (origin.relocate p).next c := by
  obtain ⟨hline, hcolumn⟩ := h
  by_cases hc : c = '\n'
  · have hne : p.line + 1 ≠ 1 := by omega
    simp only [Position.next, if_pos hc, relocate, if_neg hne]
    split
    · next hone => rw [hone]; rfl
    · rw [mk.injEq]
      show origin.line + (p.line + 1) - 1 = origin.line + p.line - 1 + 1 ∧ 1 = 1
      omega
  · simp only [Position.next, if_neg hc, relocate]
    split
    · rw [mk.injEq]
      show origin.line = origin.line ∧ origin.column + (p.column + 1) - 1 = origin.column + p.column - 1 + 1
      omega
    · rfl

theorem relocate_advance (h : p.FromOne) (text : List Char) :
    origin.relocate (p.advance text) = (origin.relocate p).advance text := by
  induction text generalizing p with
  | nil => rfl
  | cons c text ih => rw [advance_cons, ih (h.next c), relocate_next h, advance_cons]

theorem advance_eq_relocate (origin : Position) (text : List Char) :
    origin.advance text = origin.relocate (start.advance text) :=
  (relocate_advance .start text).symm

end Position

def Token.moved (f : Position → Position) (t : Token) : Token :=
  { t with position := f t.position }

/-! ## Quotes -/

namespace Lexeme

variable {c : Char} {cs rest : List Char} {l : Lexeme} {kind : Token.Kind}

theorem breaks_of_punctuation (h : punctuation? c = some kind) : Breaks (c :: rest) := by
  intro d hd
  obtain rfl : c = d := Option.some.inj hd
  constructor
  · cases hname : isNameChar c with
    | false => rfl
    | true =>
      rw [punctuation?_eq_none hname] at h
      cases h
  · rintro rfl
    cases h

theorem count_quote_of_all {p : Char → Bool} (hp : p '"' = false) (h : cs.all p = true) :
    cs.count '"' = 0 := by
  refine List.count_eq_zero.2 fun hmem => ?_
  have hquote := List.all_eq_true.1 h _ hmem
  rw [hp] at hquote
  cases hquote

theorem count_quote_of_spells {text : List Char} (h : Spells kind text) : text.count '"' % 2 = 0 := by
  have hne {p : Char → Bool} {d : Char} (hp : p '"' = false) (hd : p d = true) : d ≠ '"' := by
    rintro rfl
    rw [hp] at hd
    cases hd
  cases h with
  | @punctuation d _ hd =>
    have hd : d ≠ '"' := by
      rintro rfl
      cases hd
    rw [List.count_cons_of_ne hd]
    rfl
  | word _ hc hcs =>
    rw [List.count_cons_of_ne (hne rfl hc), count_quote_of_all rfl hcs]
  | integer hc hcs =>
    rw [List.count_cons_of_ne (hne rfl hc), count_quote_of_all rfl hcs]
  | string hcs =>
    rw [List.count_cons_self, List.count_append, List.count_eq_zero.2 hcs]
    rfl
  | _ => decide

theorem orEqual_ne_illegal {single double : Token.Kind} (hsingle : single ≠ .illegal) (hdouble : double ≠ .illegal) :
    (head.orEqual c cs single double).1 ≠ .illegal := by
  unfold head.orEqual
  split
  · exact hdouble
  · exact hsingle

theorem head_of_illegal (h : (head c cs).1 = .illegal) (hquote : c = '"' → '"' ∈ cs) :
    c ≠ '"' ∧ (head c cs).2.1 = [c] := by
  revert h
  unfold head
  split
  · next hc => exact fun h => absurd h (Spells.isWord (.punctuation hc)).2
  split
  · exact fun h => absurd h (orEqual_ne_illegal (by decide) (by decide))
  split
  · exact fun h => absurd h (orEqual_ne_illegal (by decide) (by decide))
  split
  · next hc =>
    exact fun h => absurd h (Spells.isWord (.word rfl hc (List.all_takeWhile (l := cs)))).2
  split
  · exact fun h => absurd h Token.Kind.noConfusion
  split
  · next hc =>
    split
    · next hdrop =>
      have hall := List.takeWhile_append_dropWhile (p := (· ≠ '"')) (l := cs)
      rw [hdrop, List.append_nil] at hall
      have hmem := hquote hc
      rw [← hall] at hmem
      exact absurd (List.all_eq_true.1 List.all_takeWhile _ hmem) (by decide)
    · exact fun h => absurd h Token.Kind.noConfusion
  · next hc => exact fun _ => ⟨hc, rfl⟩

theorem count_quote_head (hquote : c = '"' → '"' ∈ cs) : (head c cs).2.1.count '"' % 2 = 0 := by
  by_cases h : (head c cs).1 = .illegal
  · obtain ⟨hc, htext⟩ := head_of_illegal h hquote
    rw [htext, List.count_cons_of_ne hc]
    rfl
  · exact count_quote_of_spells (spells_of_head h)

/-! ## Cutting at a punctuation character -/

theorem first?_append_punctuation (hc : punctuation? c = some kind) (h : cs.all isGap = true) :
    first? (cs ++ c :: rest) = some (⟨cs, kind, [c]⟩, rest) := by
  have hgap := List.all_eq_true.1 h
  have hc' := isGap_eq_false_of_punctuation hc
  have htake : (cs ++ c :: rest).takeWhile isGap = cs := by
    rw [List.takeWhile_append_of_pos hgap]
    simp [hc']
  have hdrop : (cs ++ c :: rest).dropWhile isGap = c :: rest := by
    rw [List.dropWhile_append_of_pos hgap]
    simp [hc']
  rw [first?, hdrop, htake]
  simp only [head, hc]

theorem first?_append_of_closed {tail : List Char} (hrest : Breaks rest)
    (hclosed : ∀ c cs', cs.dropWhile isGap = c :: cs' → c = '"' → '"' ∈ cs') (h : first? cs = some (l, tail)) :
    first? (cs ++ rest) = some (l, tail ++ rest) ∧ cs.count '"' % 2 = tail.count '"' % 2 := by
  have hsource := first?_append h
  unfold first? at h
  split at h
  · cases h
  · next c cs' hdrop =>
    have hgaps := List.takeWhile_append_dropWhile (p := isGap) (l := cs)
    have hquote := hclosed c cs' hdrop
    rw [hdrop] at hgaps
    cases h
    have hstop : (∃ d ∈ cs, isGap d = false) ∨ ∀ d ∈ rest.head?, isGap d = false := by
      refine .inl ⟨c, ?_, ?_⟩
      · rw [← hgaps]
        simp
      · have hhead := List.head?_dropWhile_not isGap cs
        rw [hdrop] at hhead
        simpa using hhead
    constructor
    · rw [first?, dropWhile_append_of_stop hstop, takeWhile_append_of_stop hstop, hdrop]
      simp only [List.cons_append, head_append_of_breaks hrest hquote]
    · have heven := count_quote_head hquote
      have hnone : (cs.takeWhile isGap).count '"' = 0 := count_quote_of_all rfl List.all_takeWhile
      conv => lhs; rw [← hsource, source, List.count_append, List.count_append, hnone]
      simp only
      omega

theorem first?_append_of_breaks {tail : List Char} (hrest : Breaks rest) (hquotes : cs.count '"' % 2 = 0)
    (h : first? cs = some (l, tail)) :
    first? (cs ++ rest) = some (l, tail ++ rest) ∧ tail.count '"' % 2 = 0 := by
  have hclosed : ∀ c cs', cs.dropWhile isGap = c :: cs' → c = '"' → '"' ∈ cs' := by
    rintro c cs' hdrop rfl
    have hgaps := List.takeWhile_append_dropWhile (p := isGap) (l := cs)
    rw [← hgaps, hdrop, List.count_append, count_quote_of_all rfl List.all_takeWhile, List.count_cons_self] at hquotes
    exact List.count_pos_iff.1 (by omega)
  obtain ⟨hfirst, hparity⟩ := first?_append_of_closed hrest hclosed h
  exact ⟨hfirst, hparity.symm.trans hquotes⟩

theorem tailGap_of_first?_eq_none (h : first? cs = none) : tailGap cs = cs := by
  rw [tailGap, split_of_first?_eq_none h]
  rfl

theorem tailGap_of_first?_eq_some (h : first? cs = some (l, rest)) : tailGap cs = tailGap rest := by
  rw [tailGap, tailGap, split_of_first?_eq_some h, List.flatMap_cons, List.length_append]
  conv => lhs; rw [← first?_append h]
  rw [← List.drop_drop, List.drop_left]

theorem all_isGap_of_first?_eq_none (h : first? cs = none) : cs.all isGap = true := by
  unfold first? at h
  split at h
  · next hdrop =>
    have hboth := List.takeWhile_append_dropWhile (p := isGap) (l := cs)
    rw [hdrop, List.append_nil] at hboth
    rw [← hboth]
    exact List.all_takeWhile
  · cases h

theorem gap_of_first? (h : first? cs = some (l, rest)) : l.gap.all isGap = true := by
  unfold first? at h
  split at h
  · cases h
  · cases h
    exact List.all_takeWhile

theorem flatMap_source_split (cs : List Char) : (split cs).flatMap source ++ tailGap cs = cs := by
  induction cs using split.induct with
  | case1 cs h =>
    rw [split_of_first?_eq_none h, tailGap_of_first?_eq_none h]
    rfl
  | case2 cs l rest h ih =>
    rw [split_of_first?_eq_some h, tailGap_of_first?_eq_some h, List.flatMap_cons, List.append_assoc, ih,
      first?_append h]

theorem split_append_punctuation (hc : punctuation? c = some kind) (hquotes : cs.count '"' % 2 = 0) :
    split (cs ++ c :: rest) = split cs ++ ⟨tailGap cs, kind, [c]⟩ :: split rest := by
  induction cs using split.induct with
  | case1 cs h =>
    have hgap := all_isGap_of_first?_eq_none h
    rw [split_of_first?_eq_some (first?_append_punctuation hc hgap), split_of_first?_eq_none h,
      tailGap_of_first?_eq_none h]
    rfl
  | case2 cs l tail h ih =>
    obtain ⟨hfirst, htail⟩ := first?_append_of_breaks (breaks_of_punctuation hc) hquotes h
    rw [split_of_first?_eq_some hfirst, ih htail, split_of_first?_eq_some h, tailGap_of_first?_eq_some h]
    rfl

end Lexeme

/-! ## Tokens -/

open Lexeme

theorem ofLexemes_append (p : Position) (ls ms : List Lexeme) :
    Token.ofLexemes p (ls ++ ms) =
      Token.ofLexemes p ls ++ Token.ofLexemes (p.advance (ls.flatMap Lexeme.source)) ms := by
  induction ls generalizing p with
  | nil => rfl
  | cons l ls ih =>
    rw [List.cons_append, Token.ofLexemes, Token.ofLexemes, ih, List.flatMap_cons, Position.advance_append]
    rfl

theorem ofLexemes_relocate {origin p : Position} (h : p.FromOne) (ls : List Lexeme) :
    Token.ofLexemes (origin.relocate p) ls = (Token.ofLexemes p ls).map (Token.moved origin.relocate) := by
  induction ls generalizing p with
  | nil => rfl
  | cons l ls ih =>
    rw [Token.ofLexemes, Token.ofLexemes, List.map_cons, ← Position.relocate_advance h,
      ← Position.relocate_advance h, ih (h.advance _)]
    rfl

theorem ofLexemes_split_append_semicolon {cs : List Char} (hquotes : cs.count '"' % 2 = 0) (p : Position)
    (rest : List Char) :
    Token.ofLexemes p (split (cs ++ ';' :: rest)) =
      Token.ofLexemes p (split cs) ++ ⟨.semicolon, ";", p.advance cs⟩ ::
        Token.ofLexemes (p.advance (cs ++ [';'])) (split rest) := by
  have hplace : (p.advance ((split cs).flatMap Lexeme.source)).advance (tailGap cs) = p.advance cs := by
    rw [← Position.advance_append, flatMap_source_split]
  rw [split_append_punctuation rfl hquotes, ofLexemes_append, Token.ofLexemes, Lexeme.source, Position.advance_append,
    hplace, Position.advance_append]
  rfl

/-- Behind an even number of quotes a semicolon parts a text, and the tokens behind it only stand elsewhere. -/
theorem tokensOf_append_semicolon {b : String} (c : String) (hquotes : b.toList.count '"' % 2 = 0) :
    ∃ t : Token, t.kind = .semicolon ∧ tokensOf (b ++ ";") = tokensOf b ++ [t] ∧
      tokensOf (b ++ ";" ++ c) = tokensOf b ++ t ::
        (tokensOf c).map (Token.moved (Position.start.advance (b ++ ";").toList).relocate) := by
  have hsplit := ofLexemes_split_append_semicolon hquotes .start
  have hb : (b ++ ";").toList = b.toList ++ [';'] := String.toList_append
  refine ⟨⟨.semicolon, ";", Position.start.advance b.toList⟩, rfl, ?_, ?_⟩
  · show Token.ofLexemes .start (split (b ++ ";").toList) = _
    rw [hb, hsplit, @split_of_all_isGap [] rfl]
    rfl
  · have hc : (b ++ ";" ++ c).toList = b.toList ++ ';' :: c.toList := by
      rw [String.toList_append, hb, List.append_assoc]
      rfl
    have hmoved : Token.ofLexemes (Position.start.advance (b ++ ";").toList) (split c.toList) =
        (tokensOf c).map (Token.moved (Position.start.advance (b ++ ";").toList).relocate) :=
      ofLexemes_relocate .start (split c.toList)
    show Token.ofLexemes .start (split (b ++ ";" ++ c).toList) = _
    rw [hc, hsplit, ← hb, hmoved]
    rfl

end MonkeyLanguage
