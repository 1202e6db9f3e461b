import MonkeyLanguage.Proofs.Prompt.Continuation

/-!
# Quotes and brackets of an input

Whether an input goes on can be read off its characters, without cutting it into tokens: it has an odd number of
double quotes, or more opening than closing brackets outside of strings (`goesOn_iff_characters`).

Dropping a character that is neither a quote nor a bracket can make other tokens of those around it, but it changes no
quote and no bracket.  So the input goes on with its invisible characters just if it does without them
(`goesOn_normalize`).
-/

namespace MonkeyLanguage.Prompt

open Lexeme

variable {c : Char} {cs text rest : List Char} {l : Lexeme} {kind : Token.Kind} {p : Char → Bool}

/-! ## Characters outside of strings -/

/-- The characters outside of strings, without the quotes.  `inside` says whether the text starts inside a string. -/
def outsideQuotes (inside : Bool) : List Char → List Char
  | [] => []
  | c :: cs =>
    if c = '"' then outsideQuotes (!inside) cs
    else if inside then outsideQuotes inside cs
    else c :: outsideQuotes inside cs

def isOpening (c : Char) : Bool :=
  c = '(' || c = '{' || c = '['

def isClosing (c : Char) : Bool :=
  c = ')' || c = '}' || c = ']'

def excess (cs : List Char) : Int :=
  cs.countP isOpening - cs.countP isClosing

theorem outsideQuotes_append (h : '"' ∉ text) (inside : Bool) (rest : List Char) :
    outsideQuotes inside (text ++ rest) = (if inside then [] else text) ++ outsideQuotes inside rest := by
  induction text with
  | nil => cases inside <;> rfl
  | cons c cs ih =>
    rw [List.mem_cons, not_or] at h
    rw [List.cons_append, outsideQuotes, if_neg (Ne.symm h.1), ih h.2]
    cases inside <;> rfl

theorem outsideQuotes_openString (h : '"' ∉ text) (rest : List Char) :
    outsideQuotes false ('"' :: (text ++ rest)) = outsideQuotes true rest := by
  rw [outsideQuotes, if_pos rfl, outsideQuotes_append h]
  rfl

theorem outsideQuotes_filter (hp : p '"' = true) (inside : Bool) (cs : List Char) :
    outsideQuotes inside (cs.filter p) = (outsideQuotes inside cs).filter p := by
  induction cs generalizing inside with
  | nil => rfl
  | cons c cs ih =>
    by_cases hc : c = '"'
    · subst hc
      rw [List.filter_cons_of_pos hp, outsideQuotes, outsideQuotes, if_pos rfl, if_pos rfl, ih]
    · cases hkept : p c with
      | true =>
        rw [List.filter_cons_of_pos hkept, outsideQuotes, outsideQuotes, if_neg hc, if_neg hc, ih]
        cases inside
        · exact (List.filter_cons_of_pos hkept).symm
        · rfl
      | false =>
        rw [List.filter_cons_of_neg (by simp [hkept]), outsideQuotes, if_neg hc, ih]
        cases inside
        · exact (List.filter_cons_of_neg (by simp [hkept])).symm
        · rfl

/-! ## Brackets -/

@[simp] theorem excess_nil : excess [] = 0 := rfl

@[simp] theorem excess_append (cs text : List Char) : excess (cs ++ text) = excess cs + excess text := by
  simp only [excess, List.countP_append]
  omega

theorem excess_of_punctuation (h : punctuation? c = some kind) : excess [c] = weight kind := by
  unfold punctuation? at h
  split at h
  case h_16 => cases h
  all_goals cases h; decide

theorem punctuation?_of_bracket (h : isOpening c = true ∨ isClosing c = true) :
    punctuation? c ≠ none ∧ isInvisible c = false := by
  simp only [isOpening, isClosing, Bool.or_eq_true, decide_eq_true_eq] at h
  rcases h with ((rfl | rfl) | rfl) | ((rfl | rfl) | rfl) <;> decide

theorem excess_of_not_punctuation (h : ∀ c ∈ cs, punctuation? c = none) : excess cs = 0 := by
  have hnone : ∀ c ∈ cs, ¬(isOpening c = true ∨ isClosing c = true) := fun c hc hbracket =>
    (punctuation?_of_bracket hbracket).1 (h c hc)
  rw [excess, List.countP_eq_zero.2 fun c hc hopening => hnone c hc (.inl hopening),
    List.countP_eq_zero.2 fun c hc hclosing => hnone c hc (.inr hclosing)]
  rfl

theorem punctuation?_of_isGap (h : isGap c = true) : punctuation? c = none := by
  simp only [isGap, Bool.or_eq_true, decide_eq_true_eq] at h
  rcases h with ((rfl | rfl) | rfl) | rfl <;> rfl

theorem excess_of_all (hquote : p '"' = false) (hp : ∀ c, p c = true → punctuation? c = none) (h : cs.all p = true) :
    '"' ∉ cs ∧ excess cs = 0 :=
  ⟨List.count_eq_zero.1 (count_quote_of_all hquote h),
    excess_of_not_punctuation fun c hc => hp c (List.all_eq_true.1 h c hc)⟩

/-- Of all token texts only strings have quotes.  The brackets of the others are counted by the kind. -/
theorem excess_of_spells (h : Spells kind text) (hkind : kind ≠ .string) :
    '"' ∉ text ∧ excess text = weight kind := by
  have hname {cs : List Char} (h : cs.all isNameChar = true) : '"' ∉ cs ∧ excess cs = 0 :=
    excess_of_all rfl (fun _ => punctuation?_eq_none) h
  cases h with
  | @punctuation c _ hc =>
    refine ⟨fun hquote => ?_, excess_of_punctuation hc⟩
    obtain rfl := List.mem_singleton.1 hquote
    cases hc
  | assign | equal | bang | notEqual => decide
  | @word c cs kind hword hc hcs =>
    rw [weight_of_not_bracket (hword ▸ (isBracket_wordKind _).1)]
    refine hname ?_
    rw [List.all_cons, isNameChar_of_isNameStart hc, hcs]
    rfl
  | integer hc hcs =>
    refine hname (List.all_eq_true.2 fun d hd => ?_)
    rcases List.mem_cons.1 hd with rfl | hd
    · exact isNameChar_of_isDigit hc
    · exact isNameChar_of_isDigit (List.all_eq_true.1 hcs d hd)
  | string => exact absurd rfl hkind

theorem punctuation?_of_illegal (h : (head c cs).1 = .illegal) : punctuation? c = none := by
  cases hkind : punctuation? c with
  | none => rfl
  | some kind =>
    simp only [head, hkind] at h
    exact absurd h (Spells.isWord (.punctuation hkind)).2

/-! ## The tokens of a text -/

theorem first?_cases (h : first? cs = some (l, rest)) :
    (l.kind = .illegal ∧ rest = [] ∧ ∃ inner, '"' ∉ inner ∧ l.text = '"' :: inner) ∨
    (l.kind = .string ∧ ∃ inner, '"' ∉ inner ∧ l.text = '"' :: (inner ++ ['"'])) ∨
    (l.kind ≠ .string ∧ '"' ∉ l.text ∧ excess l.text = weight l.kind) := by
  unfold first? at h
  split at h
  · cases h
  · next c tail hdrop =>
    cases h
    by_cases hopen : c = '"' ∧ '"' ∉ tail
    · obtain ⟨rfl, hquote⟩ := hopen
      rw [head_of_open_string hquote]
      exact .inl ⟨rfl, rfl, tail, hquote, rfl⟩
    refine .inr ?_
    by_cases hillegal : (head c tail).1 = .illegal
    · obtain ⟨hc, htext⟩ := head_of_illegal hillegal fun hc => by_contra fun hquote => hopen ⟨hc, hquote⟩
      have hexcess : excess [c] = 0 :=
        excess_of_not_punctuation (List.forall_mem_singleton.2 (punctuation?_of_illegal hillegal))
      refine .inr ⟨by simp [hillegal], ?_⟩
      simp only [hillegal, htext]
      exact ⟨by simpa using Ne.symm hc, hexcess⟩
    · have hspells := spells_of_head hillegal
      by_cases hstring : (head c tail).1 = .string
      · exact .inl ⟨hstring, text_of_string (hstring ▸ hspells)⟩
      · exact .inr ⟨hstring, excess_of_spells hspells hstring⟩

/-- The depth of the tokens of a text is the excess of opening brackets outside of strings. -/
theorem depth_ofLexemes_split (position : Position) (cs : List Char) :
    depth (Token.ofLexemes position (split cs)) = excess (outsideQuotes false cs) := by
  have hgap {gap : List Char} (h : gap.all isGap = true) : '"' ∉ gap ∧ excess gap = 0 :=
    excess_of_all rfl (fun _ => punctuation?_of_isGap) h
  induction cs using split.induct generalizing position with
  | case1 cs h =>
    obtain ⟨hquote, hexcess⟩ := hgap (all_isGap_of_first?_eq_none h)
    rw [split_of_first?_eq_none h, ← List.append_nil cs, outsideQuotes_append hquote, excess_append]
    simp [Token.ofLexemes, outsideQuotes, hexcess]
  | case2 cs l rest h ih =>
    obtain ⟨hquote, hexcess⟩ := hgap (gap_of_first? h)
    have hall : cs = l.gap ++ (l.text ++ rest) := by rw [← first?_append h, source, List.append_assoc]
    rw [split_of_first?_eq_some h, Token.ofLexemes, depth_cons, ih, hall, outsideQuotes_append hquote, excess_append]
    rcases first?_cases h with ⟨hkind, rfl, inner, hinner, htext⟩ | ⟨hkind, inner, hinner, htext⟩ | ⟨-, htext, hcount⟩
    · rw [htext, List.cons_append, outsideQuotes_openString hinner, hkind, weight_of_not_bracket rfl]
      simp [hexcess, outsideQuotes]
    · rw [htext, List.cons_append, List.append_assoc, outsideQuotes_openString hinner, hkind, weight_of_not_bracket rfl]
      simp [hexcess, outsideQuotes]
    · rw [outsideQuotes_append htext, excess_append]
      simp [hexcess, hcount]

theorem isOpenString_of_first? (h : first? cs = some (l, rest)) (position : Position) :
    (isOpenString ⟨l.kind, l.value, position⟩ = true ∧ rest = [] ∧ l.text.count '"' = 1) ∨
    (isOpenString ⟨l.kind, l.value, position⟩ = false ∧ l.text.count '"' % 2 = 0) := by
  rcases first?_cases h with ⟨hkind, rfl, inner, hinner, htext⟩ | ⟨hkind, inner, hinner, htext⟩ | ⟨hkind, htext, -⟩
  · exact .inl (by simp [isOpenString, value, hkind, htext, List.count_eq_zero.2 hinner])
  · exact .inr (by simp [isOpenString, hkind, htext, List.count_eq_zero.2 hinner])
  · have hhead : l.value.toList.head? ≠ some '"' := by
      rw [value, if_neg hkind, String.toList_ofList]
      exact fun hhead => htext (List.mem_of_mem_head? hhead)
    exact .inr (by simp [isOpenString, hhead, List.count_eq_zero.2 htext])

theorem any_isOpenString_ofLexemes_split (position : Position) (cs : List Char) :
    (Token.ofLexemes position (split cs)).any isOpenString = true ↔ cs.count '"' % 2 = 1 := by
  induction cs using split.induct generalizing position with
  | case1 cs h =>
    rw [split_of_first?_eq_none h, count_quote_of_all rfl (all_isGap_of_first?_eq_none h)]
    simp [Token.ofLexemes]
  | case2 cs l rest h ih =>
    have hcount : cs.count '"' = l.text.count '"' + rest.count '"' := by
      rw [← first?_append h, source, List.count_append, List.count_append, count_quote_of_all rfl (gap_of_first? h),
        Nat.zero_add]
    rw [split_of_first?_eq_some h, Token.ofLexemes, List.any_cons, Bool.or_eq_true, ih, hcount]
    rcases isOpenString_of_first? h (position.advance l.gap) with ⟨hopen, rfl, hquotes⟩ | ⟨hopen, hquotes⟩
    · simp [hopen, hquotes]
    · rw [hopen, Nat.add_mod, hquotes]
      simp

theorem getLast?_isOpenString_ofLexemes_split (position : Position) (cs : List Char) :
    (∃ t ∈ (Token.ofLexemes position (split cs)).getLast?, isOpenString t = true) ↔
      (Token.ofLexemes position (split cs)).any isOpenString = true := by
  induction cs using split.induct generalizing position with
  | case1 cs h => simp [split_of_first?_eq_none h, Token.ofLexemes]
  | case2 cs l rest h ih =>
    rw [split_of_first?_eq_some h, Token.ofLexemes, List.any_cons, Bool.or_eq_true, ← ih]
    rcases isOpenString_of_first? h (position.advance l.gap) with ⟨hopen, rfl, -⟩ | ⟨hopen, -⟩
    · simp [hopen, @split_of_all_isGap [] rfl, Token.ofLexemes]
    · rw [hopen, List.getLast?_cons]
      cases (Token.ofLexemes (position.advance l.source) (split rest)).getLast? <;> simp [hopen]

theorem goesOn_iff_characters (text : String) :
    goesOn text = true ↔ text.toList.count '"' % 2 = 1 ∨
      (outsideQuotes false text.toList).countP isClosing < (outsideQuotes false text.toList).countP isOpening := by
  have hdepth : depth (tokensOf text) = excess (outsideQuotes false text.toList) := depth_ofLexemes_split ..
  have hopen : (tokensOf text).any isOpenString = true ↔ text.toList.count '"' % 2 = 1 :=
    any_isOpenString_ofLexemes_split ..
  rw [goesOn_iff, hopen, hdepth, excess]
  omega

/-! ## Invisible characters -/

theorem count_quote_normalize (text : String) : (normalize text).toList.count '"' = text.toList.count '"' := by
  rw [normalize, String.toList_ofList]
  exact List.count_filter rfl

theorem countP_outsideQuotes_normalize {bracket : Char → Bool} (h : ∀ c, bracket c = true → isInvisible c = false)
    (text : String) :
    (outsideQuotes false (normalize text).toList).countP bracket =
      (outsideQuotes false text.toList).countP bracket := by
  rw [normalize, String.toList_ofList, outsideQuotes_filter rfl, List.countP_filter]
  refine List.countP_congr fun c _ => ?_
  simpa using h c

/-- An input goes on with its invisible characters just if it does without them, which is when it has an odd number of
double quotes or more opening than closing brackets outside of strings.  Dropping the invisible characters again changes
nothing. -/
theorem goesOn_normalize (text : String) :
    goesOn (normalize text) = goesOn text ∧
    (goesOn text = true ↔ text.toList.count '"' % 2 = 1 ∨
      (outsideQuotes false text.toList).countP isClosing < (outsideQuotes false text.toList).countP isOpening) ∧
    normalize (normalize text) = normalize text := by
  refine ⟨?_, goesOn_iff_characters text, ?_⟩
  · rw [Bool.eq_iff_iff, goesOn_iff_characters, goesOn_iff_characters, count_quote_normalize,
      countP_outsideQuotes_normalize fun c hc => (punctuation?_of_bracket (.inl hc)).2,
      countP_outsideQuotes_normalize fun c hc => (punctuation?_of_bracket (.inr hc)).2]
  · rw [normalize, normalize, String.toList_ofList, List.filter_filter]
    simp only [Bool.and_self]

/-- Without the invisible character between them, two equals signs are one token. -/
example : (tokenize "(=\u200b=").length = 5 ∧ (tokenize (normalize "(=\u200b=")).length = 3 := by
  decide +kernel

end MonkeyLanguage.Prompt
