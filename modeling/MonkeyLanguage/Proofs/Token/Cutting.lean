import MonkeyLanguage.Proofs.Parser.Brackets
import MonkeyLanguage.Proofs.Token.Layout

/-!
# Texts that are cut off

The beginning of a text has the tokens of the text up to the place where it is cut off
(`exists_layout_append`).  The token that the cut goes through, if there is one, is shorter, and can be of another kind.
But it is no bracket before and after, and its beginning is an open string only if it is a string itself.
-/

namespace MonkeyLanguage

namespace Lexeme

variable {c : Char} {cs rest cut : List Char} {l : Lexeme}

/-! ## Tokens in front of the cut -/

theorem takeWhile_cut {p : Char → Bool} (hcut : cut <+: cs.dropWhile p) :
    (cs.takeWhile p ++ cut).takeWhile p = cs.takeWhile p ∧ (cs.takeWhile p ++ cut).dropWhile p = cut := by
  have hall : ∀ d ∈ cs.takeWhile p, p d = true := List.all_eq_true.1 List.all_takeWhile
  have hstop : ∀ d ∈ cut.head?, p d = false := by
    intro d hd
    obtain ⟨behind, hbehind⟩ := hcut
    have hhead := List.head?_dropWhile_not p cs
    rw [← hbehind, List.head?_append, hd] at hhead
    simpa using hhead
  have htake : cut.takeWhile p = [] := by
    cases cut with
    | nil => rfl
    | cons d cut => simp [hstop d rfl]
  have hboth := List.takeWhile_append_dropWhile (p := p) (l := cut)
  rw [htake, List.nil_append] at hboth
  rw [List.takeWhile_append_of_pos hall, List.dropWhile_append_of_pos hall, htake, List.append_nil]
  exact ⟨rfl, hboth⟩

theorem orEqual_cut {single double : Token.Kind} (hcut : cut <+: (head.orEqual c cs single double).2.2) :
    head.orEqual c ((head.orEqual c cs single double).2.1.tail ++ cut) single double =
      ((head.orEqual c cs single double).1, (head.orEqual c cs single double).2.1, cut) := by
  revert hcut
  unfold head.orEqual
  split
  · exact fun _ => rfl
  · next hne =>
    intro hcut
    simp only [List.tail_cons, List.nil_append]
    split
    · next tail =>
      obtain ⟨behind, rfl⟩ := hcut
      exact absurd rfl (hne (tail ++ behind))
    · rfl

theorem head_cut (hlegal : (head c cs).1 ≠ .illegal) (hcut : cut <+: (head c cs).2.2) :
    head c ((head c cs).2.1.tail ++ cut) = ((head c cs).1, (head c cs).2.1, cut) := by
  unfold head at hlegal hcut ⊢
  cases hpunctuation : punctuation? c with
  | some kind => rfl
  | none =>
    simp only [hpunctuation] at hlegal hcut ⊢
    by_cases hequals : c = '='
    · simp only [if_pos hequals] at hcut ⊢
      exact orEqual_cut hcut
    by_cases hbang : c = '!'
    · simp only [if_neg hequals, if_pos hbang] at hcut ⊢
      exact orEqual_cut hcut
    by_cases hname : isNameStart c = true
    · simp only [if_neg hequals, if_neg hbang, if_pos hname] at hcut ⊢
      obtain ⟨htake, hdrop⟩ := takeWhile_cut hcut
      rw [List.tail_cons, htake, hdrop]
    by_cases hdigit : c.isDigit = true
    · simp only [if_neg hequals, if_neg hbang, if_neg hname, if_pos hdigit] at hcut ⊢
      obtain ⟨htake, hdrop⟩ := takeWhile_cut hcut
      rw [List.tail_cons, htake, hdrop]
    by_cases hstring : c = '"'
    · simp only [if_neg hequals, if_neg hbang, if_neg hname, if_neg hdigit, if_pos hstring] at hlegal hcut ⊢
      cases hquote : cs.dropWhile (· ≠ '"') with
      | nil =>
        rw [hquote] at hlegal
        exact absurd rfl hlegal
      | cons quote rest =>
        rw [hquote] at hcut
        have hcut : quote :: cut <+: cs.dropWhile (· ≠ '"') := by
          rw [hquote]
          exact List.cons_prefix_cons.2 ⟨rfl, hcut⟩
        obtain ⟨htake, hdrop⟩ := takeWhile_cut hcut
        simp only [List.cons_append, List.tail_cons, List.append_assoc, List.nil_append, htake, hdrop]
    · simp only [if_neg hequals, if_neg hbang, if_neg hname, if_neg hdigit, if_neg hstring] at hlegal
      exact absurd rfl hlegal

theorem first?_cut (h : first? cs = some (l, rest)) (hlegal : l.kind ≠ .illegal) (hcut : cut <+: rest) :
    first? (l.source ++ cut) = some (l, cut) := by
  have hgap := List.all_eq_true.1 (gap_of_first? h)
  unfold first? at h
  split at h
  · cases h
  · next c tail hdrop =>
    have hc : isGap c = false := by
      have hhead := List.head?_dropWhile_not isGap cs
      rw [hdrop] at hhead
      simpa using hhead
    cases h
    have htext : (head c tail).2.1 = c :: (head c tail).2.1.tail := by
      have happend := head_append c tail
      cases htext : (head c tail).2.1 with
      | nil => exact absurd htext (head_text_ne_nil c tail)
      | cons d text =>
        rw [htext] at happend
        rw [(List.cons.inj happend).1, List.tail_cons]
    have hsource : (⟨cs.takeWhile isGap, (head c tail).1, (head c tail).2.1⟩ : Lexeme).source ++ cut =
        cs.takeWhile isGap ++ c :: ((head c tail).2.1.tail ++ cut) := by
      rw [source, List.append_assoc, htext]
      rfl
    have hhead : head c ((head c tail).2.1.tail ++ cut) = ((head c tail).1, (head c tail).2.1, cut) :=
      head_cut hlegal hcut
    rw [hsource, first?, List.takeWhile_append_of_pos hgap, List.dropWhile_append_of_pos hgap,
      List.takeWhile_cons_of_neg (by simp [hc]), List.dropWhile_cons_of_neg (by simp [hc]), List.append_nil]
    simp only [hhead]

/-! ## The token that the cut goes through -/

theorem isBracket_wordKind (word : List Char) :
    (wordKind word).isBracket = false ∧ wordKind word ≠ .string := by
  unfold wordKind
  split <;> decide

theorem split_of_spells {gap text : List Char} {kind : Token.Kind} (h : Spells kind text)
    (hgap : gap.all isGap = true) : split (gap ++ text) = [⟨gap, kind, text⟩] := by
  have hsplit := @split_source_append [] ⟨gap, kind, text⟩ h hgap nofun
  rwa [List.append_nil, @split_of_all_isGap [] rfl] at hsplit

theorem head_of_open_string {inner : List Char} (h : '"' ∉ inner) : head '"' inner = (.illegal, '"' :: inner, []) := by
  have hdrop : inner.dropWhile (· ≠ '"') = [] := by
    refine (takeWhile_of_all (List.all_eq_true.2 fun d hd => ?_)).2
    rw [decide_eq_true_eq]
    rintro rfl
    exact h hd
  unfold head
  rw [hdrop]
  rfl

theorem split_of_open_string {gap inner : List Char} (h : '"' ∉ inner) (hgap : gap.all isGap = true) :
    split (gap ++ '"' :: inner) = [⟨gap, .illegal, '"' :: inner⟩] := by
  have hgap := List.all_eq_true.1 hgap
  have hfirst : first? (gap ++ '"' :: inner) = some (⟨gap, .illegal, '"' :: inner⟩, []) := by
    rw [first?, List.takeWhile_append_of_pos hgap, List.dropWhile_append_of_pos hgap,
      List.takeWhile_cons_of_neg (by decide), List.dropWhile_cons_of_neg (by decide), List.append_nil]
    simp only [head_of_open_string h]
  rw [split_of_first?_eq_some hfirst, @split_of_all_isGap [] rfl]

/-- What is left of a token that the cut goes through is one token.  Neither is a bracket, and the one is an open
string if the other is a string. -/
theorem split_of_cut_token {gap text behind : List Char} {kind : Token.Kind} (h : Spells kind (text ++ behind))
    (htext : text ≠ []) (hbehind : behind ≠ []) (hgap : gap.all isGap = true) :
    kind.isBracket = false ∧ ∃ kind', split (gap ++ text) = [⟨gap, kind', text⟩] ∧ kind'.isBracket = false ∧
      (kind' = .illegal ∧ text.head? = some '"' ↔ kind = .string) := by
  have hpos := List.length_pos_iff.2 hbehind
  obtain ⟨d, tail, rfl⟩ := List.exists_cons_of_ne_nil htext
  have hword {kind' : Token.Kind} (hspells : Spells kind' (d :: tail)) (hbracket : kind.isBracket = false)
      (hbracket' : kind'.isBracket = false) (hkind : kind ≠ .string) :
      kind.isBracket = false ∧ ∃ kind', split (gap ++ d :: tail) = [⟨gap, kind', d :: tail⟩] ∧
        kind'.isBracket = false ∧ (kind' = .illegal ∧ (d :: tail).head? = some '"' ↔ kind = .string) :=
    ⟨hbracket, kind', split_of_spells hspells hgap, hbracket',
      ⟨fun h => absurd h.1 hspells.isWord.2, fun h => absurd h hkind⟩⟩
  have hshort {c : Char} (h : tail ++ behind = [c]) : tail = [] := by
    have hlength := congrArg List.length h
    rw [List.length_append, List.length_singleton] at hlength
    exact List.length_eq_zero_iff.1 (by omega)
  rw [List.cons_append] at h
  generalize hall : d :: (tail ++ behind) = all at h
  cases h with
  | punctuation | assign | bang =>
    have hnil := (List.append_eq_nil_iff.1 (List.cons.inj hall).2).2
    exact absurd hnil hbehind
  | equal =>
    obtain ⟨rfl, hrest⟩ := List.cons.inj hall
    obtain rfl := hshort hrest
    exact hword .assign rfl rfl (by decide)
  | notEqual =>
    obtain ⟨rfl, hrest⟩ := List.cons.inj hall
    obtain rfl := hshort hrest
    exact hword .bang rfl rfl (by decide)
  | @word c cs kind hkind hc hcs =>
    obtain ⟨rfl, rfl⟩ := List.cons.inj hall
    rw [List.all_append, Bool.and_eq_true] at hcs
    obtain ⟨hbracket, hstring⟩ := isBracket_wordKind (d :: (tail ++ behind))
    exact hword (.word rfl hc hcs.1) (hkind ▸ hbracket) (isBracket_wordKind _).1 (hkind ▸ hstring)
  | integer hc hcs =>
    obtain ⟨rfl, rfl⟩ := List.cons.inj hall
    rw [List.all_append, Bool.and_eq_true] at hcs
    exact hword (.integer hc hcs.1) rfl rfl (by decide)
  | @string inner hinner =>
    obtain ⟨rfl, hrest⟩ := List.cons.inj hall
    have hquote : '"' ∉ tail := by
      obtain ⟨front, quote, rfl⟩ := (List.eq_nil_or_concat' behind).resolve_left hbehind
      rw [← List.append_assoc] at hrest
      have hfront := (List.append_singleton_inj.1 hrest).1
      exact fun hmem => hinner (hfront ▸ List.mem_append_left _ hmem)
    exact ⟨rfl, .illegal, split_of_open_string hquote hgap, rfl, ⟨fun _ => rfl, fun _ => ⟨rfl, rfl⟩⟩⟩

end Lexeme

open Lexeme

/-! ## Beginnings -/

/-- The token is what a cut at an offset leaves of a token that stands in front of it. -/
structure LeftOf (stop : Nat) (t : Token) (p : PlacedToken) : Prop where
  front : p.offset < stop
  whole : p.stop ≤ stop → t = p.token
  cut : stop < p.stop → t.kind.isBracket = false ∧ p.token.kind.isBracket = false ∧
    (t.kind = .illegal ∧ t.value.toList.head? = some '"' ↔ p.token.kind = .string)

variable {cs rest u v before : List Char} {l : Lexeme}

theorem leftOf_whole (h : first? cs = some (l, rest)) {stop : Nat} (hstop : (before ++ l.source).length ≤ stop) :
    LeftOf stop ⟨l.kind, l.value, (Position.start.advance before).advance l.gap⟩ (l.placeBehind before) where
  front := by
    have hpos := List.length_pos_iff.2 (first?_text_ne_nil h)
    simp only [placeBehind, source, List.length_append] at hstop ⊢
    omega
  whole _ := by rw [placeBehind, Position.advance_append]
  cut hcut := by
    rw [stop_placeBehind h] at hcut
    omega

theorem leftOf_cut (h : first? cs = some (l, rest)) (hlegal : l.kind ≠ .illegal) {text behind : List Char}
    (htext : l.text = text ++ behind) (hne : text ≠ []) (hne' : behind ≠ []) :
    ∃ t, Token.ofLexemes (Position.start.advance before) (split (l.gap ++ text)) = [t] ∧
      LeftOf (before ++ (l.gap ++ text)).length t (l.placeBehind before) := by
  have hspells : Spells l.kind (text ++ behind) := htext ▸ spells_of_mem_split (mem_split_of_first? h) hlegal
  obtain ⟨hbracket, kind, hsplit, hbracket', hstring⟩ := split_of_cut_token hspells hne hne' (gap_of_first? h)
  have hpos := List.length_pos_iff.2 hne
  have hpos' := List.length_pos_iff.2 hne'
  rw [hsplit]
  refine ⟨_, rfl, ?_, fun hwhole => ?_, fun _ => ⟨hbracket', hbracket, ?_⟩⟩
  · simp only [placeBehind, List.length_append]
    omega
  · rw [stop_placeBehind h] at hwhole
    simp only [source, htext, List.length_append] at hwhole
    omega
  · refine (and_congr_right fun hkind => ?_).trans hstring
    obtain rfl : kind = .illegal := hkind
    simp [Lexeme.value]

/-- A text that is cut off has those tokens of the whole text that stand in front of the cut, or what is left of
them. -/
theorem exists_layout_append (hlegal : ∀ l ∈ split cs, l.kind ≠ .illegal) (hcs : cs = u ++ v)
    (before : List Char) :
    ∃ xs ys, layoutBehind before (split cs) = xs ++ ys ∧
      List.Forall₂ (LeftOf (before ++ u).length) (Token.ofLexemes (Position.start.advance before) (split u)) xs ∧
      ∀ q ∈ ys, (before ++ u).length ≤ q.offset := by
  induction cs using split.induct generalizing before u with
  | case1 cs h =>
    have hgap := all_isGap_of_first?_eq_none h
    rw [hcs, List.all_append, Bool.and_eq_true] at hgap
    refine ⟨[], [], ?_, ?_, List.forall_mem_nil _⟩
    · rw [split_of_first?_eq_none h]
      rfl
    · rw [split_of_all_isGap hgap.1]
      exact .nil
  | case2 cs l rest h ih =>
    rw [split_of_first?_eq_some h, List.forall_mem_cons] at hlegal
    have hsource := first?_append h
    have hrest : ∀ q ∈ layoutBehind (before ++ l.source) (split rest), (before ++ l.source).length ≤ q.offset :=
      (tilesFrom_layoutBehind (before ++ l.source) rest).behind
    have hu : u <+: cs := ⟨v, hcs.symm⟩
    have hl : l.source <+: cs := ⟨rest, hsource⟩
    rw [split_of_first?_eq_some h, layoutBehind]
    by_cases hgap : u.length ≤ l.gap.length
    · -- the cut goes through the blanks in front of the token
      have hgaps : u.all isGap = true := by
        obtain ⟨others, hothers⟩ := List.prefix_of_prefix_length_le hu ((List.prefix_append ..).trans hl) hgap
        have hall := gap_of_first? h
        rw [← hothers, List.all_append, Bool.and_eq_true] at hall
        exact hall.1
      refine ⟨[], _, rfl, ?_, List.forall_mem_cons.2 ⟨?_, fun q hq => ?_⟩⟩
      · rw [split_of_all_isGap hgaps]
        exact .nil
      · simp only [placeBehind, List.length_append]
        omega
      · have hq := hrest q hq
        simp only [source, List.length_append] at hq ⊢
        omega
    by_cases hinside : u.length < l.source.length
    · -- the cut goes through the token
      obtain ⟨text, rfl⟩ := List.prefix_of_prefix_length_le ((List.prefix_append ..).trans hl) hu (by omega)
      obtain ⟨behind, hbehind⟩ := List.prefix_of_prefix_length_le hu hl (by omega)
      have htext : l.text = text ++ behind := by
        rw [source, List.append_assoc] at hbehind
        exact (List.append_cancel_left hbehind).symm
      have hne : text ≠ [] := by
        rintro rfl
        simp at hgap
      have hne' : behind ≠ [] := by
        rintro rfl
        simp [source, htext] at hinside
      obtain ⟨t, ht, hleft⟩ := @leftOf_cut cs rest before l h hlegal.1 text behind htext hne hne'
      refine ⟨[l.placeBehind before], _, rfl, ht ▸ .cons hleft .nil, fun q hq => ?_⟩
      have hq := hrest q hq
      simp only [List.length_append] at hq hinside ⊢
      omega
    · -- the cut is behind the token
      obtain ⟨u, rfl⟩ := List.prefix_of_prefix_length_le hl hu (by omega)
      obtain rfl : rest = u ++ v := by
        rw [← hsource, List.append_assoc] at hcs
        exact List.append_cancel_left hcs
      obtain ⟨xs, ys, hlayout, hleft, hbehind⟩ := ih hlegal.2 rfl (before ++ l.source)
      have hfirst : first? (l.source ++ u) = some (l, u) := first?_cut h hlegal.1 (List.prefix_append u v)
      rw [List.append_assoc] at hleft hbehind
      rw [Position.advance_append] at hleft
      refine ⟨l.placeBehind before :: xs, ys, by rw [hlayout]; rfl, ?_, hbehind⟩
      rw [split_of_first?_eq_some hfirst, Token.ofLexemes]
      refine .cons (leftOf_whole h ?_) hleft
      simp only [List.length_append]
      omega

end MonkeyLanguage
