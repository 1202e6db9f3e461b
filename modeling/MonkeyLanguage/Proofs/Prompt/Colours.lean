import MonkeyLanguage.Prompt.Highlight
import MonkeyLanguage.Proofs.Token.Layout

/-!
# Colours lose nothing

The coloured lines of a text are its lines, and each character has the style of the token that it belongs to
(`highlight_faithful`).

A fragment stands for its characters, each with the style (`paint`).  Cutting fragments into lines is cutting their
characters at the line feeds (`map_paint_fragmentLines`), and the fragments of a text are its characters
(`map_fst_paint_fragmentsFrom`), those of a token in the style of the token
(`exists_style_fragmentsFrom`).  Both facts ask of the tokens no more than that they tile the text.
-/

namespace MonkeyLanguage.Prompt

/-! ## Offsets -/

theorem lineStarts_append (before rest : List Char) :
    ∃ others, lineStarts (before ++ rest) = lineStarts before ++ others := by
  rw [lineStarts, List.zipIdx_append, List.filterMap_append]
  exact ⟨_, rfl⟩

theorem lineStarts_last (text : List Char) :
    (lineStarts text).length = text.count '\n' + 1 ∧
      (lineStarts text).getD (text.count '\n') 0 + (Text.lastLine text).length = text.length := by
  induction text using List.reverseRecOn with
  | nil => exact ⟨rfl, rfl⟩
  | append_singleton text c ih =>
    obtain ⟨hlength, hlast⟩ := ih
    have hstarts : lineStarts (text ++ [c]) =
        lineStarts text ++ if c = '\n' then [text.length + 1] else [] := by
      rw [lineStarts, List.zipIdx_append, List.filterMap_append]
      by_cases hc : c = '\n' <;> simp [lineStarts, hc]
    rw [hstarts, List.count_append, Text.lastLine_concat]
    by_cases hc : c = '\n'
    · simp [hc, hlength]
    · simpa [hc, ← Nat.add_assoc] using ⟨hlength, hlast⟩

theorem offsetOf_ofOffset {text : List Char} {k : Nat} (h : k ≤ text.length) :
    offsetOf (lineStarts text) (.ofOffset text k) = k := by
  obtain ⟨hlength, hlast⟩ := lineStarts_last (text.take k)
  obtain ⟨others, hstarts⟩ := lineStarts_append (text.take k) (text.drop k)
  rw [List.take_append_drop] at hstarts
  rw [List.length_take_of_le h, List.getD_eq_getElem?_getD] at hlast
  have hlt : (text.take k).count '\n' < (lineStarts (text.take k)).length := hlength ▸ Nat.lt_succ_self _
  rw [offsetOf, Position.ofOffset, hstarts, List.getD_eq_getElem?_getD, Nat.add_sub_cancel_left,
    List.getElem?_append_left hlt, Nat.add_comm 1 (Text.lastLine _).length, ← Nat.add_assoc, hlast, Nat.add_sub_cancel]

theorem spanLength_eq (t : Token) : spanLength t = t.text.length := by
  by_cases h : t.kind = .string <;> simp [spanLength, Token.text, h, ← String.length_toList]

/-! ## The characters of fragments -/

/-- The characters of the fragments, each with its style. -/
def paint (fs : List Fragment) : List (Char × Style) :=
  fs.flatMap fun f => f.text.map (·, f.style)

def endsLine (c : Char × Style) : Bool :=
  c.1 == '\n'

@[simp] theorem paint_nil : paint [] = [] := rfl

@[simp] theorem paint_cons (f : Fragment) (fs : List Fragment) :
    paint (f :: fs) = f.text.map (·, f.style) ++ paint fs := rfl

@[simp] theorem paint_append (fs gs : List Fragment) : paint (fs ++ gs) = paint fs ++ paint gs :=
  List.flatMap_append

@[simp] theorem paint_ofText (style : Style) (text : List Char) :
    paint (Fragment.ofText style text) = text.map (·, style) := by
  unfold Fragment.ofText
  split
  · next h => rw [List.isEmpty_iff.1 h]; rfl
  · simp

theorem map_fst_paint (fs : List Fragment) : (paint fs).map Prod.fst = fs.flatMap Fragment.text := by
  induction fs with
  | nil => rfl
  | cons f fs ih => simp [ih, Function.comp_def]

/-! ## Lines of fragments -/

theorem map_paint_prependParts {style : Style} {text : List Char} {lines : List (List Fragment)}
    {rest : List (Char × Style)} (h : lines.map paint = rest.splitOnP endsLine) :
    (prependParts style (Text.lines text) lines).map paint =
      (text.map (·, style) ++ rest).splitOnP endsLine := by
  obtain ⟨line, lines, rfl⟩ : ∃ line others, lines = line :: others :=
    List.exists_cons_of_ne_nil fun hnil => List.splitOnP_ne_nil endsLine rest (by rw [← h, hnil]; rfl)
  induction text with
  | nil => simpa [Text.lines, prependParts] using h
  | cons c text ih =>
    obtain ⟨part, parts, hparts⟩ := List.exists_cons_of_ne_nil (Text.lines_ne_nil text)
    rw [List.map_cons, List.cons_append, List.splitOnP_cons_eq_if_modifyHead, ← ih, Text.lines, hparts]
    by_cases hc : c = '\n'
    · simp [hc, endsLine, prependParts]
    · cases parts <;> simp [hc, endsLine, prependParts]

theorem map_paint_fragmentLines (fs : List Fragment) :
    (fragmentLines fs).map paint = (paint fs).splitOnP endsLine := by
  induction fs with
  | nil => rfl
  | cons f fs ih => exact map_paint_prependParts ih

theorem text_ne_nil_of_mem_prependParts {style : Style} {parts : List (List Char)} {lines : List (List Fragment)}
    (h : ∀ line ∈ lines, ∀ f ∈ line, f.text ≠ []) :
    ∀ line ∈ prependParts style parts lines, ∀ f ∈ line, f.text ≠ [] := by
  have hofText (part : List Char) : ∀ f ∈ Fragment.ofText style part, f.text ≠ [] := by
    unfold Fragment.ofText
    split <;> simp_all
  fun_induction prependParts style parts lines with
  | case1 lines => exact h
  | case2 part => exact List.forall_mem_singleton.2 (hofText part)
  | case3 part line lines =>
    rw [List.forall_mem_cons] at h ⊢
    exact ⟨List.forall_mem_append.2 ⟨hofText part, h.1⟩, h.2⟩
  | case4 part parts lines _ _ ih => exact List.forall_mem_cons.2 ⟨hofText part, ih h⟩

theorem text_ne_nil_of_mem_fragmentLines (fs : List Fragment) :
    ∀ line ∈ fragmentLines fs, ∀ f ∈ line, f.text ≠ [] := by
  induction fs with
  | nil => simp [fragmentLines]
  | cons f fs ih => exact text_ne_nil_of_mem_prependParts ih

/-! ## Fragments of a text -/

section
variable {builtins : List String} {text : List Char} {offset : Nat} {p : PlacedToken} {placed : List PlacedToken}

theorem paint_fragmentsFrom_cons (h : TilesFrom offset text (p :: placed)) :
    paint (fragmentsFrom builtins text (lineStarts text) offset ((p :: placed).map PlacedToken.token)) =
      (text.extract offset p.offset).map (·, .plain) ++ p.token.text.map (·, .ofToken builtins p.token) ++
        paint (fragmentsFrom builtins text (lineStarts text) p.stop (placed.map PlacedToken.token)) := by
  have hp := h.stands p (List.mem_cons_self ..)
  have hle := h.stop_le (List.mem_cons_self ..)
  have hlt := h.offset_lt_stop (List.mem_cons_self ..)
  have hoffset : offsetOf (lineStarts text) p.token.position = p.offset := by
    rw [hp.position_eq]
    exact offsetOf_ofOffset (by omega)
  rw [List.map_cons, fragmentsFrom, hoffset, spanLength_eq, hp.text_eq, paint_append, paint_cons, paint_ofText,
    List.append_assoc]
  rfl

theorem map_fst_paint_fragmentsFrom (h : TilesFrom offset text placed) :
    (paint (fragmentsFrom builtins text (lineStarts text) offset (placed.map PlacedToken.token))).map Prod.fst =
      text.drop offset := by
  induction placed generalizing offset with
  | nil => simp [fragmentsFrom, Function.comp_def]
  | cons p placed ih =>
    have hle := h.behind p (List.mem_cons_self ..)
    have hlt := h.offset_lt_stop (List.mem_cons_self ..)
    have htext := h.extract_eq (List.mem_cons_self ..)
    have hfst (xs : List Char) (style : Style) : (xs.map (·, style)).map Prod.fst = xs := by
      simp [Function.comp_def]
    rw [paint_fragmentsFrom_cons h, List.map_append, List.map_append, ih h.tail, hfst, hfst, ← htext,
      List.append_assoc, extract_append_drop (Nat.le_of_lt hlt), extract_append_drop hle]

/-- A character is shown in the style of the token that covers it, and plain if there is none. -/
theorem exists_style_fragmentsFrom (h : TilesFrom offset text placed) {k : Nat} {c : Char} (hk : offset ≤ k)
    (hc : text[k]? = some c) :
    ∃ style, (paint (fragmentsFrom builtins text (lineStarts text) offset
        (placed.map PlacedToken.token)))[k - offset]? = some (c, style) ∧
      (∀ p ∈ placed, p.Covers k → style = .ofToken builtins p.token) ∧
      ((∀ p ∈ placed, ¬p.Covers k) → style = .plain) := by
  induction placed generalizing offset with
  | nil =>
    refine ⟨.plain, ?_, List.forall_mem_nil _, fun _ => rfl⟩
    simp [fragmentsFrom, Nat.add_sub_cancel' hk, hc]
  | cons p placed ih =>
    have hle := h.behind p (List.mem_cons_self ..)
    have hlt := h.offset_lt_stop (List.mem_cons_self ..)
    have hstop := h.stop_le (List.mem_cons_self ..)
    have hapart : ∀ q ∈ placed, p.stop ≤ q.offset := (List.pairwise_cons.1 h.apart).1
    have hgap : (text.extract offset p.offset).length = p.offset - offset := by simp; omega
    have htoken : p.token.text.length = p.stop - p.offset := by rw [PlacedToken.stop, Nat.add_sub_cancel_left]
    rw [paint_fragmentsFrom_cons h]
    simp only [List.forall_mem_cons, List.getElem?_append, List.getElem?_map, List.length_append, List.length_map,
      hgap, htoken]
    rcases Nat.lt_or_ge k p.offset with hfront | hfront
    · refine ⟨.plain, ?_, ⟨fun hp => absurd hp.1 (by omega), fun q hq hcovers => ?_⟩, fun _ => rfl⟩
      · rw [if_pos (by omega), if_pos (by omega), List.getElem?_take_of_lt (by omega), List.getElem?_drop,
          Nat.add_sub_cancel' hk, hc]
        rfl
      · exact absurd hcovers.1 (by have := hapart q hq; omega)
    rcases Nat.lt_or_ge k p.stop with hinside | hbehind
    · refine ⟨.ofToken builtins p.token, ?_, ⟨fun _ => rfl, fun q hq hcovers => ?_⟩, fun hnone => ?_⟩
      · have hindex : k - offset - (p.offset - offset) = k - p.offset := by omega
        rw [if_pos (by omega), if_neg (by omega), hindex, ← h.extract_eq (List.mem_cons_self ..),
          List.getElem?_take_of_lt (by omega), List.getElem?_drop, Nat.add_sub_cancel' hfront, hc]
        rfl
      · exact absurd hcovers.1 (by have := hapart q hq; omega)
      · exact absurd ⟨hfront, hinside⟩ hnone.1
    · obtain ⟨style, hstyle, hcovered, hplain⟩ := ih h.tail hbehind
      refine ⟨style, ?_, ⟨fun hp => absurd hp.2 (by omega), hcovered⟩, fun hnone => hplain hnone.2⟩
      have hindex : k - offset - (p.offset - offset + (p.stop - p.offset)) = k - p.stop := by omega
      rw [if_neg (by omega), hindex, hstyle]

end

/-! ## Coloured lines -/

/-- The character that lines of fragments show at a position, with its style. -/
def charAt? (lines : List (List Fragment)) (p : Position) : Option (Char × Style) :=
  lines[p.line - 1]?.bind fun line => (paint line)[p.column - 1]?

theorem charAt?_of_map_paint {lines : List (List Fragment)} {xs : List (Char × Style)} {k : Nat} {x : Char × Style}
    (h : lines.map paint = xs.splitOnP endsLine) (hk : xs[k]? = some x) (hx : endsLine x = false) :
    charAt? lines (.ofOffset (xs.map Prod.fst) k) = some x := by
  have hxs : xs = xs.take k ++ x :: xs.drop (k + 1) := by
    obtain ⟨hlt, rfl⟩ := List.getElem?_eq_some_iff.1 hk
    rw [List.getElem_cons_drop, List.take_append_drop]
  obtain ⟨part, hpart, hfound⟩ := @getElem?_splitOnP _ endsLine (xs.take k) (xs.drop (k + 1)) x hx
  rw [← hxs, ← h, List.getElem?_map] at hpart
  obtain ⟨line, hline, rfl⟩ := Option.map_eq_some_iff.1 hpart
  have hcount : ((xs.map Prod.fst).take k).count '\n' = (xs.take k).countP endsLine := by
    rw [← List.map_take, List.count, List.countP_map]
    rfl
  have hlast : (Text.lastLine ((xs.map Prod.fst).take k)).length =
      ((xs.take k).rtakeWhile (!endsLine ·)).length := by
    rw [← List.map_take, Text.lastLine, rtakeWhile_map, List.length_map]
    rfl
  rw [charAt?, Position.ofOffset, hcount, hlast, Nat.add_sub_cancel_left, hline]
  simpa using hfound

theorem map_paint_highlight (builtins : List String) (text : String) :
    (highlight builtins text).map paint = (paint (fragments builtins text)).splitOnP endsLine := by
  rw [highlight, List.map_map, ← map_paint_fragmentLines]
  refine List.map_congr_left fun line _ => ?_
  cases line <;> rfl

theorem fragments_eq (builtins : List String) (text : String) :
    fragments builtins text = fragmentsFrom builtins text.toList (lineStarts text.toList) 0
      ((Lexeme.layout text.toList).map PlacedToken.token) := by
  obtain ⟨htokens, hkinds, -⟩ := layout_spec text
  rw [fragments, htokens, List.takeWhile_append_of_pos]
  · rw [List.takeWhile_cons_of_neg (by simp [Token.endAt]), List.append_nil]
  · simpa using hkinds

theorem map_fst_paint_fragments (builtins : List String) (text : String) :
    (paint (fragments builtins text)).map Prod.fst = text.toList := by
  rw [fragments_eq, map_fst_paint_fragmentsFrom (layout_spec text).2.2, List.drop_zero]

theorem map_text_highlight (builtins : List String) (text : String) :
    (highlight builtins text).map (fun line => line.flatMap Fragment.text) = text.toList.splitOnP (· == '\n') := by
  rw [← map_fst_paint_fragments builtins text, ← map_splitOnP]
  show _ = ((paint (fragments builtins text)).splitOnP endsLine).map _
  rw [← map_paint_highlight, List.map_map]
  exact List.map_congr_left fun line _ => (map_fst_paint line).symm

theorem eq_blankLine_of_mem_highlight {builtins : List String} {text : String} {line : List Fragment}
    (h : line ∈ highlight builtins text) : line ≠ [] ∧ (line.flatMap Fragment.text = [] → line = blankLine) := by
  obtain ⟨raw, hraw, rfl⟩ := List.mem_map.1 h
  cases raw with
  | nil => exact ⟨List.cons_ne_nil _ _, fun _ => rfl⟩
  | cons f fs =>
    refine ⟨List.cons_ne_nil _ _, fun hempty => ?_⟩
    have hne := text_ne_nil_of_mem_fragmentLines _ _ hraw f (List.mem_cons_self ..)
    exact absurd (List.append_eq_nil_iff.1 hempty).1 hne

/-- The coloured lines of a text are its lines, of which a blank one is one empty fragment, and each character has
the style of the token that covers it. -/
theorem highlight_faithful (builtins : List String) (text : String) :
    (highlight builtins text).length = text.toList.count '\n' + 1 ∧
    (∀ line ∈ highlight builtins text, ∀ f ∈ line, '\n' ∉ f.text) ∧
    ['\n'].intercalate ((highlight builtins text).map fun line => line.flatMap Fragment.text) = text.toList ∧
    (∀ line ∈ highlight builtins text, line ≠ [] ∧ (line.flatMap Fragment.text = [] → line = blankLine)) ∧
    ∃ placed : List PlacedToken,
      tokenize text = placed.map PlacedToken.token ++ [.endAt (.ofOffset text.toList text.length)] ∧
      TilesFrom 0 text.toList placed ∧
      ∀ k c, text.toList[k]? = some c → c ≠ '\n' → ∃ style,
        charAt? (highlight builtins text) (.ofOffset text.toList k) = some (c, style) ∧
        (∀ p ∈ placed, p.Covers k → style = .ofToken builtins p.token) ∧
        ((∀ p ∈ placed, ¬p.Covers k) → style = .plain) := by
  obtain ⟨htokens, -, htiles⟩ := layout_spec text
  have htexts := map_text_highlight builtins text
  refine ⟨?_, fun line hline f hf hmem => ?_, ?_, fun line hline => eq_blankLine_of_mem_highlight hline, _, htokens,
    htiles, fun k c hk hc => ?_⟩
  · have hlength := congrArg List.length htexts
    rwa [List.length_map, length_splitOnP] at hlength
  · have hpart : line.flatMap Fragment.text ∈ text.toList.splitOnP (· == '\n') := by
      rw [← htexts]
      exact List.mem_map_of_mem hline
    exact absurd (not_of_mem_splitOnP _ hpart (List.mem_flatMap.2 ⟨f, hf, hmem⟩)) (by decide)
  · rw [htexts]
    exact List.intercalate_splitOn '\n'
  · obtain ⟨style, hstyle, hcovered, hplain⟩ :=
      @exists_style_fragmentsFrom builtins _ _ _ htiles k c (Nat.zero_le k) hk
    refine ⟨style, ?_, hcovered, hplain⟩
    rw [← fragments_eq] at hstyle
    rw [← map_fst_paint_fragments builtins text]
    exact charAt?_of_map_paint (map_paint_highlight builtins text) hstyle (by simpa [endsLine] using hc)

end MonkeyLanguage.Prompt
