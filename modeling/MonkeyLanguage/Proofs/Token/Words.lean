import MonkeyLanguage.Proofs.Token.Splitting

/-!
# Texts made of words

`Cuts text ws` says that a text is cut into the words `ws` wherever it ends: no token that goes on follows it.
Texts that are put together from words with punctuation and blanks between them are cut into those words, and
need no blanks around the punctuation.

A text that ends in a semicolon is cut into its words whatever text is put behind it (`map_word_tokensOf_append`).
-/

namespace MonkeyLanguage

namespace Lexeme

variable {c : Char} {text text' : List Char} {w : String} {ws ws' : List String} {kind : Token.Kind}

/-- The text is cut into the words, with any text behind it that goes on with no token. -/
def Cuts (text : List Char) (ws : List String) : Prop :=
  ∀ rest, Breaks rest → (split (text ++ rest)).map word =
    (ws.map fun w => (Token.ofWord w).word) ++ (split rest).map word

theorem word_of_spells (h : Spells kind w.toList) (gap : List Char) :
    (⟨gap, kind, w.toList⟩ : Lexeme).word = (Token.ofWord w).word := by
  rw [ofWord_of_spells h]
  rfl

theorem first?_blank {cs : List Char} (hc : isGap c = true) :
    first? (c :: cs) = (first? cs).map fun found => (⟨c :: found.1.gap, found.1.kind, found.1.text⟩, found.2) := by
  rw [first?, first?, List.dropWhile_cons, if_pos hc, List.takeWhile_cons, if_pos hc]
  cases cs.dropWhile isGap <;> rfl

theorem map_word_split_blank {cs : List Char} (hc : isGap c = true) :
    (split (c :: cs)).map word = (split cs).map word := by
  have hfirst := @first?_blank c cs hc
  cases h : first? cs with
  | none =>
    rw [h] at hfirst
    rw [split_of_first?_eq_none h, split_of_first?_eq_none hfirst]
  | some found =>
    rw [h] at hfirst
    rw [split_of_first?_eq_some h, split_of_first?_eq_some hfirst]
    rfl

namespace Cuts

theorem nil : Cuts [] [] :=
  fun _ _ => rfl

theorem of_isWord (h : isWord w = true) : Cuts w.toList [w] := by
  intro rest hrest
  have hspells := spells_of_isWord h
  have hsplit := @split_source_append rest ⟨[], (Token.ofWord w).kind, w.toList⟩ hspells rfl hrest
  rw [source, List.nil_append] at hsplit
  rw [hsplit, List.map_cons, word_of_spells hspells]
  rfl

theorem append (h : Cuts text ws) (h' : Cuts text' ws') (hbreaks : Breaks text') (hne : text' ≠ []) :
    Cuts (text ++ text') (ws ++ ws') := by
  intro rest hrest
  have hboth : Breaks (text' ++ rest) := by
    cases text' with
    | nil => exact absurd rfl hne
    | cons d text' => exact hbreaks
  rw [List.append_assoc, h _ hboth, h' rest hrest, List.map_append, List.append_assoc]

theorem punctuation (hc : punctuation? c = some kind) (hw : w.toList = [c]) (h : Cuts text ws) :
    Cuts (c :: text) (w :: ws) := by
  intro rest hrest
  have hspells : Spells kind w.toList := hw ▸ .punctuation hc
  have hsplit := split_of_first?_eq_some (@first?_append_punctuation c [] (text ++ rest) kind hc rfl)
  rw [← hw, List.nil_append] at hsplit
  rw [List.cons_append, hsplit, List.map_cons, word_of_spells hspells, h rest hrest]
  rfl

theorem append_punctuation (hc : punctuation? c = some kind) (hw : w.toList = [c]) (h : Cuts text ws)
    (h' : Cuts text' ws') : Cuts (text ++ c :: text') (ws ++ w :: ws') :=
  h.append (.punctuation hc hw h') (breaks_of_punctuation hc) (List.cons_ne_nil _ _)

theorem blank (hc : isGap c = true) (h : Cuts text ws) : Cuts (c :: text) ws := by
  intro rest hrest
  rw [← h rest hrest, List.cons_append, map_word_split_blank hc]

theorem append_blank (hc : isGap c = true) (h : Cuts text ws) (h' : Cuts text' ws') :
    Cuts (text ++ c :: text') (ws ++ ws') := by
  refine h.append (h'.blank hc) (fun d hd => ?_) (List.cons_ne_nil _ _)
  obtain rfl : c = d := Option.some.inj hd
  exact not_nameChar_of_isGap hc

theorem bang {d : Char} (hd : d ≠ '=') (h : Cuts (d :: text) ws) : Cuts ('!' :: d :: text) ("!" :: ws) := by
  intro rest hrest
  have hhead : head '!' (d :: (text ++ rest)) = (.bang, ['!'], d :: (text ++ rest)) := by
    show head.orEqual '!' (d :: (text ++ rest)) .bang .notEqual = _
    unfold head.orEqual
    split
    · next heq => exact absurd (List.cons.inj heq).1 hd
    · rfl
  have hfirst : first? ('!' :: d :: (text ++ rest)) = some (⟨[], .bang, ['!']⟩, d :: (text ++ rest)) := by
    change some ((⟨[], (head '!' (d :: (text ++ rest))).1, (head '!' (d :: (text ++ rest))).2.1⟩ : Lexeme),
      (head '!' (d :: (text ++ rest))).2.2) = _
    rw [hhead]
  have hrest := h rest hrest
  rw [List.cons_append] at hrest
  rw [List.cons_append, List.cons_append, split_of_first?_eq_some hfirst, List.map_cons, hrest]
  rfl

theorem cons_comma {x y : String} {ys : List String} (h : Cuts x.toList ws)
    (h' : Cuts (", ".intercalate (y :: ys)).toList ws') :
    Cuts (", ".intercalate (x :: y :: ys)).toList (ws ++ "," :: ws') := by
  have htext : (", ".intercalate (x :: y :: ys)).toList =
      x.toList ++ ',' :: ' ' :: (", ".intercalate (y :: ys)).toList := by
    simp [String.toList_append]
  rw [htext]
  exact h.append_punctuation rfl rfl (h'.blank rfl)

theorem intersperse (h : ∀ w ∈ ws, isWord w = true) : Cuts (", ".intercalate ws).toList (ws.intersperse ",") := by
  induction ws with
  | nil => exact .nil
  | cons w ws ih =>
    rw [List.forall_mem_cons] at h
    cases ws with
    | nil => simpa using Cuts.of_isWord h.1
    | cons next ws =>
      rw [List.intersperse_cons_cons]
      exact (Cuts.of_isWord h.1).cons_comma (ih h.2)

end Cuts

/-! ## Texts that end in a semicolon -/

variable {cs rest : List Char} {l : Lexeme}

theorem map_word_split_gap (h : cs.all isGap = true) (rest : List Char) :
    (split (cs ++ rest)).map word = (split rest).map word := by
  induction cs with
  | nil => rfl
  | cons c cs ih =>
    rw [List.all_cons, Bool.and_eq_true] at h
    rw [List.cons_append, map_word_split_blank h.1, ih h.2]

theorem first?_of_split_eq_nil (h : split cs = []) : first? cs = none := by
  cases hfirst : first? cs with
  | none => rfl
  | some found =>
    rw [split_of_first?_eq_some hfirst] at h
    cases h

theorem count_quote_of_split (h : ∀ l ∈ split cs, l.kind ≠ .illegal) : cs.count '"' % 2 = 0 := by
  induction cs using split.induct with
  | case1 cs hfirst => rw [count_quote_of_all rfl (all_isGap_of_first?_eq_none hfirst)]
  | case2 cs l rest hfirst ih =>
    rw [split_of_first?_eq_some hfirst, List.forall_mem_cons] at h
    have htext := count_quote_of_spells (spells_of_mem_split (mem_split_of_first? hfirst) h.1)
    have hgap : l.gap.count '"' = 0 := count_quote_of_all rfl (gap_of_first? hfirst)
    have hrest := ih h.2
    rw [← first?_append hfirst, source, List.count_append, List.count_append, hgap]
    omega

theorem text_of_semicolon {text : List Char} (h : Spells .semicolon text) : text = [';'] := by
  cases h with
  | @punctuation c _ hc =>
    unfold punctuation? at hc
    split at hc <;> cases hc
    rfl
  | word hkind =>
    unfold wordKind at hkind
    split at hkind <;> cases hkind

theorem exists_of_getLast?_split (h : (split cs).getLast? = some l) (hl : l.kind = .semicolon) :
    ∃ before gap, cs = before ++ ';' :: gap ∧ gap.all isGap = true := by
  induction cs using split.induct with
  | case1 cs hfirst =>
    rw [split_of_first?_eq_none hfirst] at h
    cases h
  | case2 cs first rest hfirst ih =>
    have hsource := first?_append hfirst
    have hmem := mem_split_of_first? hfirst
    rw [split_of_first?_eq_some hfirst] at h
    cases hrest : split rest with
    | nil =>
      rw [hrest, List.getLast?_singleton] at h
      obtain rfl := Option.some.inj h
      have htext := text_of_semicolon (hl ▸ spells_of_mem_split hmem (by rw [hl]; decide))
      rw [source, htext, List.append_assoc] at hsource
      exact ⟨first.gap, rest, hsource.symm, all_isGap_of_first?_eq_none (first?_of_split_eq_nil hrest)⟩
    | cons m ms =>
      rw [hrest, List.getLast?_cons_cons, ← hrest] at h
      obtain ⟨before, gap, hbefore, hgap⟩ := ih h
      refine ⟨first.source ++ before, gap, ?_, hgap⟩
      rw [List.append_assoc, ← hbefore, hsource]

/-- A text that ends in a semicolon is cut into its words, whatever follows. -/
theorem map_word_split_append (hlegal : ∀ l ∈ split cs, l.kind ≠ .illegal)
    (hlast : ∀ l ∈ (split cs).getLast?, l.kind = .semicolon) (rest : List Char) :
    (split (cs ++ rest)).map word = (split cs).map word ++ (split rest).map word := by
  cases hl : (split cs).getLast? with
  | none =>
    rw [List.getLast?_eq_none_iff] at hl
    rw [map_word_split_gap (all_isGap_of_first?_eq_none (first?_of_split_eq_nil hl)), hl]
    rfl
  | some l =>
    obtain ⟨before, gap, rfl, hgap⟩ := exists_of_getLast?_split hl (hlast l hl)
    have hquotes : before.count '"' % 2 = 0 := by
      have hcount := count_quote_of_split hlegal
      rw [List.count_append, List.count_cons_of_ne (by decide), count_quote_of_all rfl hgap] at hcount
      exact hcount
    rw [List.append_assoc, List.cons_append, split_append_punctuation rfl hquotes,
      split_append_punctuation rfl hquotes, split_of_all_isGap hgap, List.map_append, List.map_append, List.map_cons,
      List.map_cons, map_word_split_gap hgap, List.append_assoc]
    rfl

end Lexeme

open Lexeme

theorem map_word_tokensOf_of_cuts {source : String} {ws : List String} (h : Cuts source.toList ws) :
    (tokensOf source).map Token.word = (ws.map Token.ofWord).map Token.word := by
  have hwords := h [] nofun
  rw [List.append_nil, @split_of_all_isGap [] rfl, List.map_nil, List.append_nil] at hwords
  rw [List.map_map]
  exact (map_word_ofLexemes _ _).trans hwords

theorem map_word_tokensOf_append {a : String} (b : String) (hlegal : ∀ t ∈ tokensOf a, t.kind ≠ .illegal)
    (hlast : ∀ t ∈ (tokensOf a).getLast?, t.kind = .semicolon) :
    (tokensOf (a ++ b)).map Token.word = (tokensOf a).map Token.word ++ (tokensOf b).map Token.word := by
  have hwords (source : String) : (tokensOf source).map Token.word = (split source.toList).map Lexeme.word :=
    map_word_ofLexemes _ _
  have hkinds := map_kind_tokensOf a
  rw [hwords, hwords, hwords, String.toList_append]
  refine map_word_split_append (fun l hl => ?_) (fun l hl => ?_) b.toList
  · have hmem : l.kind ∈ (tokensOf a).map Token.kind := hkinds ▸ List.mem_map_of_mem hl
    obtain ⟨t, ht, htl⟩ := List.mem_map.1 hmem
    exact htl ▸ hlegal t ht
  · have hgetLast : ((tokensOf a).map Token.kind).getLast? = some l.kind := by
      rw [hkinds, List.getLast?_map, hl]
      rfl
    rw [List.getLast?_map] at hgetLast
    obtain ⟨t, ht, htl⟩ := Option.map_eq_some_iff.1 hgetLast
    exact htl ▸ hlast t ht

end MonkeyLanguage
