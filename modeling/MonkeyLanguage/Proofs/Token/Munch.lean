import MonkeyLanguage.Parser.Terminal
import MonkeyLanguage.Proofs.Token.Layout

/-!
# Longest matches

The terminals of the grammar are patterns (`terminals`), and the grammar cuts a text from the left into the
longest texts that they match (`Munches`).  Up to the first illegal token, the tokens of a text are cut off
one by one in the same way, and at an illegal token no terminal matches (`tokenize_munches`).

What terminals match is what tokens are spelt like (`matchedAs_some_iff`), so a match at the head of a text is no
longer than the token that is read there (`head_of_front`).
-/

namespace MonkeyLanguage

open Lexeme

/-! ## Terminals -/

inductive Pattern.Matches : Pattern → List Char → Prop where
  | fixed (text : String) : Matches (.fixed text) text.toList
  | run {first more : List (Char × Char)} {c : Char} {cs : List Char} (hc : InRanges first c)
    (hcs : ∀ d ∈ cs, InRanges more d) : Matches (.run first more) (c :: cs)
  | quoted {cs : List Char} (hcs : '"' ∉ cs) : Matches .quoted ('"' :: (cs ++ ['"']))

/-- A terminal matches the text as a token of the kind, or as blanks. -/
def MatchedAs (kind : Option Token.Kind) (text : List Char) : Prop :=
  ∃ terminal ∈ terminals, terminal.2.Matches text ∧ kind = terminal.1.map (retyped text)

/-- The terminals match the text in front of the rest, and none of them matches more. -/
structure Longest (kind : Option Token.Kind) (text rest : List Char) : Prop where
  matched : MatchedAs kind text
  length_le : ∀ kind' text', MatchedAs kind' text' → text' <+: text ++ rest → text'.length ≤ text.length

/-- No terminal matches at the head of the text. -/
def Stuck (cs : List Char) : Prop :=
  ∀ kind text, MatchedAs kind text → ¬text <+: cs

/-- The longest matches cut the text at `p` into words, each with its kind and position, up to the rest of it at
`q`, where no terminal matches. -/
inductive Munches :
    Position → List Char → List (Token.Kind × List Char × Position) → Position → List Char → Prop where
  | stuck {p : Position} {cs : List Char} (h : Stuck cs) : Munches p cs [] p cs
  | blanks {p q : Position} {text rest left : List Char} {words : List (Token.Kind × List Char × Position)}
    (h : Longest none text rest) (hrest : Munches (p.advance text) rest words q left) :
    Munches p (text ++ rest) words q left
  | token {p q : Position} {text rest left : List Char} {words : List (Token.Kind × List Char × Position)}
    {kind : Token.Kind} (h : Longest (some kind) text rest) (hrest : Munches (p.advance text) rest words q left) :
    Munches p (text ++ rest) ((kind, text, p) :: words) q left

/-! ## What terminals match -/

section

variable {c : Char} {cs text rest : List Char} {kind : Token.Kind}

theorem between_self (c d : Char) : d ≤ c ∧ c ≤ d ↔ c = d :=
  ⟨fun h => Char.le_antisymm h.2 h.1, fun h => h ▸ ⟨Char.le_refl c, Char.le_refl c⟩⟩

theorem inRanges_letter : InRanges letterRanges c ↔ isNameStart c = true := by
  have hupper : c.isUpper = true ↔ 'A' ≤ c ∧ c ≤ 'Z' := decide_eq_true_iff
  have hlower : (decide ('a'.val ≤ c.val) && decide (c.val ≤ 'z'.val)) = true ↔ 'a' ≤ c ∧ c ≤ 'z' := by
    rw [Bool.and_eq_true, decide_eq_true_iff, decide_eq_true_iff]
    rfl
  show _ ↔ (c.isUpper || (decide ('a'.val ≤ c.val) && decide (c.val ≤ 'z'.val)) || decide (c = '_')) = true
  rw [Bool.or_eq_true, Bool.or_eq_true, hupper, hlower, decide_eq_true_iff, ← between_self c '_']
  simp only [InRanges, letterRanges, List.mem_cons, List.not_mem_nil, or_false, exists_eq_or_imp, exists_eq_left,
    or_assoc]

theorem inRanges_digit : InRanges digitRanges c ↔ c.isDigit = true := by
  simp [InRanges, digitRanges, Char.isDigit, Char.le_def]

theorem inRanges_append {xs ys : List (Char × Char)} : InRanges (xs ++ ys) c ↔ InRanges xs c ∨ InRanges ys c := by
  simp [InRanges, or_and_right, exists_or]

theorem inRanges_name : InRanges (letterRanges ++ digitRanges) c ↔ isNameChar c = true := by
  rw [inRanges_append, inRanges_letter, inRanges_digit, isNameChar, Bool.or_eq_true]

theorem inRanges_blank : InRanges blankRanges c ↔ isGap c = true := by
  simp only [InRanges, blankRanges, List.mem_cons, List.not_mem_nil, or_false, exists_eq_or_imp, exists_eq_left,
    between_self, isGap, Bool.or_eq_true, decide_eq_true_eq]
  grind

theorem retyped_identifier (text : List Char) : retyped text .identifier = wordKind text := by
  unfold wordKind
  split
  case h_8 => simp_all [retyped, keywords, eq_comm]
  all_goals
    next h =>
      rw [retyped, h]
      rfl

theorem Pattern.matches_run {first more : List (Char × Char)} {p q : Char → Bool}
    (hp : ∀ c, InRanges first c ↔ p c = true) (hq : ∀ c, InRanges more c ↔ q c = true) :
    (Pattern.run first more).Matches text ↔ ∃ c cs, text = c :: cs ∧ p c = true ∧ cs.all q = true := by
  constructor
  · rintro ⟨⟩
    next c cs hc hcs => exact ⟨c, cs, rfl, (hp c).1 hc, List.all_eq_true.2 fun d hd => (hq d).1 (hcs d hd)⟩
  · rintro ⟨c, cs, rfl, hc, hcs⟩
    exact .run ((hp c).2 hc) fun d hd => (hq d).2 (List.all_eq_true.1 hcs d hd)

theorem Pattern.matches_fixed {w : String} : (Pattern.fixed w).Matches text ↔ text = w.toList :=
  ⟨fun h => by cases h; rfl, fun h => h ▸ .fixed w⟩

theorem Pattern.matches_quoted : Pattern.quoted.Matches text ↔ ∃ cs, '"' ∉ cs ∧ text = '"' :: (cs ++ ['"']) :=
  ⟨fun h => by cases h with | quoted hcs => exact ⟨_, hcs, rfl⟩, fun ⟨_, hcs, h⟩ => h ▸ .quoted hcs⟩

theorem retyped_symbol {symbol : String × Token.Kind} (h : symbol ∈ symbols) : retyped text symbol.2 = symbol.2 := by
  have hne : ∀ symbol ∈ symbols, symbol.2 ≠ .identifier := by decide
  have hne := hne symbol h
  unfold retyped
  split
  · next heq => exact absurd heq hne
  · rfl

theorem matchedAs_iff {kind : Option Token.Kind} :
    MatchedAs kind text ↔
      (∃ symbol ∈ symbols, text = symbol.1.toList ∧ kind = some symbol.2) ∨
      (∃ c cs, text = c :: cs ∧ isNameStart c = true ∧ cs.all isNameChar = true) ∧ kind = some (wordKind text) ∨
      (∃ c cs, text = c :: cs ∧ c.isDigit = true ∧ cs.all Char.isDigit = true) ∧ kind = some .integer ∨
      (∃ cs, '"' ∉ cs ∧ text = '"' :: (cs ++ ['"'])) ∧ kind = some .string ∨
      (∃ c cs, text = c :: cs ∧ isGap c = true ∧ cs.all isGap = true) ∧ kind = none := by
  rw [← Pattern.matches_quoted, ← Pattern.matches_run (fun _ => inRanges_letter) fun _ => inRanges_name,
    ← Pattern.matches_run (fun _ => inRanges_digit) fun _ => inRanges_digit,
    ← Pattern.matches_run (fun _ => inRanges_blank) fun _ => inRanges_blank]
  simp only [MatchedAs, terminals, List.mem_append, List.mem_map, List.mem_cons, List.not_mem_nil, or_false,
    or_and_right, exists_or, exists_eq_left, Option.map_some, Option.map_none, retyped_identifier]
  refine or_comm.trans (or_congr ⟨?_, ?_⟩ Iff.rfl)
  · rintro ⟨_, ⟨symbol, hsymbol, rfl⟩, hmatches, rfl⟩
    exact ⟨symbol, hsymbol, Pattern.matches_fixed.1 hmatches, congrArg some (retyped_symbol hsymbol)⟩
  · rintro ⟨symbol, hsymbol, htext, rfl⟩
    exact ⟨_, ⟨symbol, hsymbol, rfl⟩, Pattern.matches_fixed.2 htext, congrArg some (retyped_symbol hsymbol).symm⟩

theorem matchedAs_none_iff : MatchedAs none text ↔ ∃ c cs, text = c :: cs ∧ isGap c = true ∧ cs.all isGap = true := by
  simp [matchedAs_iff]

theorem mem_symbols_of_punctuation (h : punctuation? c = some kind) : (String.ofList [c], kind) ∈ symbols := by
  unfold punctuation? at h
  split at h <;> cases h <;> decide

theorem spells_symbol {symbol : String × Token.Kind} (h : symbol ∈ symbols) : Spells symbol.2 symbol.1.toList := by
  have hword : ∀ symbol ∈ symbols, isWord symbol.1 = true ∧ (Token.ofWord symbol.1).kind = symbol.2 := by decide
  exact (hword symbol h).2 ▸ spells_of_isWord (hword symbol h).1

/-- The texts that the terminals match are those that tokens are spelt like. -/
theorem matchedAs_some_iff : MatchedAs (some kind) text ↔ Spells kind text := by
  rw [matchedAs_iff]
  simp only [Option.some.injEq, reduceCtorEq, and_false, or_false]
  constructor
  · rintro (⟨symbol, hsymbol, rfl, rfl⟩ | ⟨⟨c, cs, rfl, hc, hcs⟩, rfl⟩ | ⟨⟨c, cs, rfl, hc, hcs⟩, rfl⟩ |
      ⟨⟨cs, hcs, rfl⟩, rfl⟩)
    · exact spells_symbol hsymbol
    · exact .word rfl hc hcs
    · exact .integer hc hcs
    · exact .string hcs
  · intro h
    cases h with
    | punctuation hc => exact .inl ⟨_, mem_symbols_of_punctuation hc, String.toList_ofList.symm, rfl⟩
    | assign => exact .inl ⟨("=", .assign), by decide, rfl, rfl⟩
    | equal => exact .inl ⟨("==", .equal), by decide, rfl, rfl⟩
    | bang => exact .inl ⟨("!", .bang), by decide, rfl, rfl⟩
    | notEqual => exact .inl ⟨("!=", .notEqual), by decide, rfl, rfl⟩
    | word hkind hc hcs => exact .inr (.inl ⟨⟨_, _, rfl, hc, hcs⟩, hkind.symm⟩)
    | integer hc hcs => exact .inr (.inr (.inl ⟨⟨_, _, rfl, hc, hcs⟩, rfl⟩))
    | string hcs => exact .inr (.inr (.inr ⟨⟨_, hcs, rfl⟩, rfl⟩))

/-! ## Longest matches and tokens -/

theorem length_le_takeWhile {p : Char → Bool} {xs : List Char} (h : xs <+: cs) (hall : xs.all p = true) :
    xs.length ≤ (cs.takeWhile p).length := by
  obtain ⟨more, rfl⟩ := h
  rw [List.takeWhile_append_of_pos (List.all_eq_true.1 hall), List.length_append]
  exact Nat.le_add_right ..

theorem head_of_front (h : Spells kind text) (hfront : text <+: c :: cs) :
    (head c cs).1 ≠ .illegal ∧ text.length ≤ (head c cs).2.1.length := by
  have hpos : 0 < (head c cs).2.1.length := List.length_pos_iff.2 (head_text_ne_nil c cs)
  have hne {d e : Char} (hd : isNameChar d = true) (he : isNameChar e = false) : d ≠ e := by
    rintro rfl
    rw [hd] at he
    cases he
  cases h with
  | punctuation hc =>
    obtain ⟨rfl, -⟩ := List.cons_prefix_cons.1 hfront
    exact ⟨by rw [head, hc]; exact (Spells.punctuation hc).isWord.2, hpos⟩
  | assign | bang =>
    obtain ⟨rfl, -⟩ := List.cons_prefix_cons.1 hfront
    exact ⟨orEqual_ne_illegal (by decide) (by decide), hpos⟩
  | equal | notEqual =>
    obtain ⟨more, hmore⟩ := hfront
    obtain ⟨rfl, rfl⟩ := List.cons.inj hmore
    exact ⟨Token.Kind.noConfusion, Nat.le_refl 2⟩
  | word hkind hc hcs =>
    obtain ⟨rfl, hbehind⟩ := List.cons_prefix_cons.1 hfront
    have hname := isNameChar_of_isNameStart hc
    rw [head, punctuation?_eq_none hname]
    simp only [if_neg (hne hname (e := '=') (by decide)), if_neg (hne hname (e := '!') (by decide)), if_pos hc]
    refine ⟨?_, Nat.succ_le_succ (length_le_takeWhile hbehind hcs)⟩
    exact (Spells.word rfl hc (List.all_takeWhile (l := cs))).isWord.2
  | integer hc hcs =>
    obtain ⟨rfl, hbehind⟩ := List.cons_prefix_cons.1 hfront
    have hname := isNameChar_of_isDigit hc
    rw [head, punctuation?_eq_none hname]
    simp only [if_neg (hne hname (e := '=') (by decide)), if_neg (hne hname (e := '!') (by decide)),
      isNameStart_eq_false_of_isDigit hc, hc, if_true]
    exact ⟨Token.Kind.noConfusion, Nat.succ_le_succ (length_le_takeWhile hbehind hcs)⟩
  | @string inner hquote =>
    obtain ⟨rfl, more, rfl⟩ := List.cons_prefix_cons.1 hfront
    have hall : ∀ d ∈ inner, (decide (d ≠ '"')) = true := fun d hd =>
      decide_eq_true fun heq => hquote (heq ▸ hd)
    have htake : (inner ++ ['"'] ++ more).takeWhile (· ≠ '"') = inner := by
      rw [List.append_assoc, List.takeWhile_append_of_pos hall]
      simp
    have hdrop : (inner ++ ['"'] ++ more).dropWhile (· ≠ '"') = '"' :: more := by
      rw [List.append_assoc, List.dropWhile_append_of_pos hall]
      simp
    simp only [head, punctuation?, htake, hdrop]
    simp [isNameStart]

theorem not_isGap_of_spells (h : Spells kind text) (hfront : text <+: c :: cs) : isGap c = false := by
  obtain ⟨d, ds, rfl, hd, -⟩ := head_of_spells h
  exact (List.cons_prefix_cons.1 hfront).1 ▸ hd

theorem spells_of_matchedAs {found : Option Token.Kind} (h : MatchedAs found text) (hfront : text <+: c :: cs)
    (hc : isGap c = false) : ∃ kind, Spells kind text := by
  cases found with
  | some kind => exact ⟨kind, matchedAs_some_iff.1 h⟩
  | none =>
    obtain ⟨d, ds, rfl, hd, -⟩ := matchedAs_none_iff.1 h
    rw [(List.cons_prefix_cons.1 hfront).1, hc] at hd
    cases hd

theorem longest_head (hc : isGap c = false) (hhead : head c cs = (kind, text, rest)) (hkind : kind ≠ .illegal) :
    Longest (some kind) text rest where
  matched := by
    have hspells : (head c cs).1 ≠ .illegal → Spells (head c cs).1 (head c cs).2.1 := spells_of_head
    rw [hhead] at hspells
    exact matchedAs_some_iff.2 (hspells hkind)
  length_le _ other hmatched hfront := by
    have happend := head_append c cs
    rw [hhead] at happend
    rw [happend] at hfront
    obtain ⟨kind', hspells⟩ := spells_of_matchedAs hmatched hfront hc
    have hlength := (head_of_front hspells hfront).2
    rwa [hhead] at hlength

theorem stuck_head (hc : isGap c = false) (hhead : head c cs = (.illegal, text, rest)) : Stuck (c :: cs) := by
  intro found other hmatched hfront
  obtain ⟨kind, hspells⟩ := spells_of_matchedAs hmatched hfront hc
  exact (head_of_front hspells hfront).1 (congrArg Prod.fst hhead)

theorem longest_blanks (hall : (c :: cs).all isGap = true) (hrest : ∀ d ∈ rest.head?, isGap d = false) :
    Longest none (c :: cs) rest where
  matched := by
    rw [List.all_cons, Bool.and_eq_true] at hall
    exact matchedAs_none_iff.2 ⟨c, cs, rfl, hall⟩
  length_le found text hmatched hfront := by
    cases found with
    | some kind =>
      have hc := not_isGap_of_spells (matchedAs_some_iff.1 hmatched) hfront
      rw [List.all_cons, hc] at hall
      cases hall
    | none =>
      obtain ⟨d, ds, rfl, hd, hds⟩ := matchedAs_none_iff.1 hmatched
      have htake : ((c :: cs) ++ rest).takeWhile isGap = c :: cs := by
        rw [takeWhile_append_of_stop (.inr hrest)]
        exact (takeWhile_of_all hall).1
      have hlength := length_le_takeWhile (p := isGap) hfront (by rw [List.all_cons, hd, hds]; rfl)
      rwa [htake] at hlength

theorem stuck_nil : Stuck [] := by
  intro found text hmatched hfront
  obtain rfl := List.prefix_nil.1 hfront
  cases found with
  | some kind =>
    obtain ⟨c, cs, htext, -⟩ := head_of_spells (matchedAs_some_iff.1 hmatched)
    cases htext
  | none =>
    obtain ⟨c, cs, htext, -⟩ := matchedAs_none_iff.1 hmatched
    cases htext

theorem Stuck.not_longest {found : Option Token.Kind} (h : Stuck (text ++ rest)) : ¬Longest found text rest :=
  fun hlongest => h found text hlongest.matched (List.prefix_append text rest)

theorem MatchedAs.unique {found found' : Option Token.Kind} (h : MatchedAs found text) (h' : MatchedAs found' text) :
    found = found' := by
  cases found with
  | some kind =>
    obtain ⟨c, cs, rfl, hc, -, hhead⟩ := head_of_spells (matchedAs_some_iff.1 h)
    cases found' with
    | some kind' =>
      obtain ⟨d, ds, htext, -, -, hhead'⟩ := head_of_spells (matchedAs_some_iff.1 h')
      obtain ⟨rfl, rfl⟩ := List.cons.inj htext
      rw [hhead] at hhead'
      exact congrArg some (Prod.mk.inj hhead').1
    | none =>
      obtain ⟨d, ds, htext, hd, -⟩ := matchedAs_none_iff.1 h'
      rw [← (List.cons.inj htext).1, hc] at hd
      cases hd
  | none =>
    obtain ⟨c, cs, rfl, hc, -⟩ := matchedAs_none_iff.1 h
    cases found' with
    | some kind' =>
      have hd := not_isGap_of_spells (matchedAs_some_iff.1 h') (List.prefix_refl _)
      rw [hc] at hd
      cases hd
    | none => rfl

theorem Longest.unique {found found' : Option Token.Kind} {text' rest' : List Char} (h : Longest found text rest)
    (h' : Longest found' text' rest') (heq : text ++ rest = text' ++ rest') :
    found = found' ∧ text = text' ∧ rest = rest' := by
  have hle := h.length_le found' text' h'.matched (heq ▸ List.prefix_append text' rest')
  have hle' := h'.length_le found text h.matched (heq ▸ List.prefix_append text rest)
  obtain ⟨rfl, rfl⟩ := List.append_inj heq (Nat.le_antisymm hle' hle)
  exact ⟨h.matched.unique h'.matched, rfl, rfl⟩

variable {p q q' : Position} {words words' : List (Token.Kind × List Char × Position)} {left left' : List Char}

theorem Munches.inversion (h : Munches p cs words q left) :
    (Stuck cs ∧ words = [] ∧ q = p ∧ left = cs) ∨
      ∃ found text rest words', cs = text ++ rest ∧ Longest found text rest ∧
        words = found.toList.map (·, text, p) ++ words' ∧ Munches (p.advance text) rest words' q left := by
  cases h with
  | stuck h => exact .inl ⟨h, rfl, rfl, rfl⟩
  | blanks h hrest => exact .inr ⟨_, _, _, _, rfl, h, rfl, hrest⟩
  | token h hrest => exact .inr ⟨_, _, _, _, rfl, h, rfl, hrest⟩

theorem Munches.unique_step {found : Option Token.Kind} (h : Longest found text rest)
    (ih : ∀ words', Munches (p.advance text) rest words' q' left' → words = words' ∧ q = q' ∧ left = left')
    (h' : Munches p (text ++ rest) words' q' left') :
    found.toList.map (·, text, p) ++ words = words' ∧ q = q' ∧ left = left' := by
  rcases h'.inversion with ⟨hstuck, -⟩ | ⟨found', text', rest', words', heq, hlongest, rfl, hrest⟩
  · exact absurd h hstuck.not_longest
  · obtain ⟨rfl, rfl, rfl⟩ := h.unique hlongest heq
    obtain ⟨rfl, hplace⟩ := ih words' hrest
    exact ⟨rfl, hplace⟩

theorem Munches.unique (h : Munches p cs words q left) (h' : Munches p cs words' q' left') :
    words = words' ∧ q = q' ∧ left = left' := by
  induction h generalizing words' with
  | stuck h =>
    rcases h'.inversion with ⟨-, rfl, rfl, rfl⟩ | ⟨found, text, rest, words', rfl, hlongest, -⟩
    · exact ⟨rfl, rfl, rfl⟩
    · exact absurd hlongest h.not_longest
  | blanks h hrest ih => exact unique_step h (fun _ => ih) h'
  | token h hrest ih => exact unique_step h (fun _ => ih) h'

theorem Munches.gap {gap : List Char} (hgap : gap.all isGap = true) (hrest : ∀ d ∈ rest.head?, isGap d = false)
    (h : Munches (p.advance gap) rest words q left) : Munches p (gap ++ rest) words q left := by
  cases gap with
  | nil => exact h
  | cons c gap => exact .blanks (longest_blanks hgap hrest) h

theorem Longest.not_matchedAs {found found' : Option Token.Kind} (h : Longest found text rest) (hc : c ∈ rest.head?) :
    ¬MatchedAs found' (text ++ [c]) := by
  intro hmatched
  obtain ⟨tail, rfl⟩ := List.head?_eq_some_iff.1 hc
  have hle := h.length_le found' _ hmatched ⟨tail, by simp⟩
  rw [List.length_append] at hle
  exact absurd hle (Nat.not_succ_le_self _)

theorem wordKind_cases (word : List Char) : wordKind word = .identifier ∨ (wordKind word).isKeyword = true := by
  unfold wordKind
  split <;> decide

theorem Longest.word_ends (h : Longest (some kind) text rest) (hc : c ∈ rest.head?)
    (hkind : kind = .identifier ∨ kind.isKeyword = true) : ¬InRanges (letterRanges ++ digitRanges) c := by
  have hsymbols : ∀ symbol ∈ symbols, ¬(symbol.2 = .identifier ∨ symbol.2.isKeyword = true) := by decide
  intro hname
  rw [inRanges_name] at hname
  refine h.not_matchedAs hc (matchedAs_iff.2 (.inr (.inl ⟨?_, rfl⟩)))
  rcases matchedAs_iff.1 h.matched with ⟨symbol, hsymbol, -, hsame⟩ | ⟨⟨d, ds, rfl, hd, hds⟩, -⟩ | ⟨-, hsame⟩ |
    ⟨-, hsame⟩ | ⟨-, hsame⟩
  · exact absurd (Option.some.inj hsame ▸ hkind) (hsymbols symbol hsymbol)
  · refine ⟨d, ds ++ [c], rfl, hd, ?_⟩
    rw [List.all_append, hds, List.all_cons, hname]
    rfl
  · exact absurd (Option.some.inj hsame ▸ hkind) (by decide)
  · exact absurd (Option.some.inj hsame ▸ hkind) (by decide)
  · cases hsame

theorem Longest.integer_ends (h : Longest (some .integer) text rest) (hc : c ∈ rest.head?) :
    ¬InRanges digitRanges c := by
  have hsymbols : ∀ symbol ∈ symbols, symbol.2 ≠ .integer := by decide
  intro hdigit
  rw [inRanges_digit] at hdigit
  refine h.not_matchedAs hc (matchedAs_iff.2 (.inr (.inr (.inl ⟨?_, rfl⟩))))
  rcases matchedAs_iff.1 h.matched with ⟨symbol, hsymbol, -, hsame⟩ | ⟨-, hsame⟩ | ⟨⟨d, ds, rfl, hd, hds⟩, -⟩ |
    ⟨-, hsame⟩ | ⟨-, hsame⟩
  · exact absurd (Option.some.inj hsame).symm (hsymbols symbol hsymbol)
  · exact absurd (Option.some.inj hsame ▸ wordKind_cases text) (by decide)
  · refine ⟨d, ds ++ [c], rfl, hd, ?_⟩
    rw [List.all_append, hds, List.all_cons, hdigit]
    rfl
  · cases hsame
  · cases hsame

theorem Longest.equals_sign_ends (h : Longest (some kind) text rest) (hc : c ∈ rest.head?)
    (hkind : kind = .assign ∨ kind = .bang) : c ≠ '=' := by
  have hdouble : ∀ symbol ∈ symbols, symbol.2 = .assign ∨ symbol.2 = .bang →
      ∃ double ∈ symbols, symbol.1.toList ++ ['='] = double.1.toList := by decide
  rintro rfl
  rcases matchedAs_iff.1 h.matched with ⟨symbol, hsymbol, rfl, hsame⟩ | ⟨-, hsame⟩ | ⟨-, hsame⟩ | ⟨-, hsame⟩ |
    ⟨-, hsame⟩
  · obtain ⟨double, hmem, htext⟩ := hdouble symbol hsymbol (Option.some.inj hsame ▸ hkind)
    exact h.not_matchedAs hc (matchedAs_iff.2 (.inl ⟨double, hmem, htext, rfl⟩))
  · have hword := wordKind_cases text
    rw [← Option.some.inj hsame] at hword
    rcases hkind with rfl | rfl <;> exact absurd hword (by decide)
  · exact absurd (Option.some.inj hsame ▸ hkind) (by decide)
  · exact absurd (Option.some.inj hsame ▸ hkind) (by decide)
  · cases hsame

end

/-! ## Tokens in a text -/

/-- The token is the longest match where it stands, or it is illegal and no terminal matches there: then it is one
character, or all from a double quote on that is never closed. -/
structure PlacedToken.Munched (p : PlacedToken) (text : List Char) : Prop where
  longest : p.token.kind ≠ .illegal → Longest (some p.token.kind) p.token.text (text.drop p.stop)
  stuck : p.token.kind = .illegal → Stuck (text.drop p.offset)
  illegal : p.token.kind = .illegal → (∃ c, c ≠ '"' ∧ p.token.text = [c]) ∨
    ∃ inner, '"' ∉ inner ∧ p.token.text = '"' :: inner ∧ text.drop p.offset = p.token.text

/-- The token as the grammar has it: its kind, its text and its position. -/
def Token.munch (t : Token) : Token.Kind × List Char × Position :=
  (t.kind, t.text, t.position)

namespace Lexeme

variable {c : Char} {before cs text rest : List Char} {l : Lexeme}

theorem text_of_illegal (hhead : head c cs = (.illegal, text, rest)) :
    c ≠ '"' ∧ text = [c] ∨ c = '"' ∧ '"' ∉ cs ∧ text = c :: cs := by
  have htext : (head c cs).2.1 = text := congrArg (·.2.1) hhead
  by_cases hquote : c = '"' → '"' ∈ cs
  · rw [← htext]
    exact .inl (head_of_illegal (congrArg Prod.fst hhead) hquote)
  · obtain ⟨rfl, hopen⟩ := Classical.not_imp.1 hquote
    have hall : cs.all (· ≠ '"') = true := by
      simp only [List.all_eq_true, decide_eq_true_eq]
      exact fun d hd heq => hopen (heq ▸ hd)
    refine .inr ⟨rfl, hopen, htext ▸ ?_⟩
    simp only [head, punctuation?, (takeWhile_of_all hall).2]
    simp [isNameStart]

theorem exists_head_of_first? (h : first? cs = some (l, rest)) :
    ∃ c tail, isGap c = false ∧ head c tail = (l.kind, l.text, rest) ∧ l.text ++ rest = c :: tail := by
  unfold first? at h
  split at h
  · cases h
  · next c tail hdrop =>
    have hhead := List.head?_dropWhile_not isGap cs
    rw [hdrop] at hhead
    cases h
    exact ⟨c, tail, by simpa using hhead, rfl, head_append c tail⟩

theorem not_isGap_of_first? (h : first? cs = some (l, rest)) : ∀ d ∈ (l.text ++ rest).head?, isGap d = false := by
  obtain ⟨c, tail, hc, -, hall⟩ := exists_head_of_first? h
  rw [hall]
  rintro d ⟨⟩
  exact hc

theorem longest_of_first? (h : first? cs = some (l, rest)) (hl : l.kind ≠ .illegal) :
    Longest (some l.kind) l.text rest := by
  obtain ⟨c, tail, hc, hhead, -⟩ := exists_head_of_first? h
  exact longest_head hc hhead hl

theorem stuck_of_first? (h : first? cs = some (l, rest)) (hl : l.kind = .illegal) : Stuck (l.text ++ rest) := by
  obtain ⟨c, tail, hc, hhead, hall⟩ := exists_head_of_first? h
  rw [hl] at hhead
  rw [hall]
  exact stuck_head hc hhead

theorem source_append_of_first? (h : first? cs = some (l, rest)) :
    before ++ cs = (before ++ l.gap) ++ (l.text ++ rest) := by
  rw [← first?_append h, source]
  simp only [List.append_assoc]

theorem drop_offset_placeBehind (h : first? cs = some (l, rest)) :
    (before ++ cs).drop (l.placeBehind before).offset = l.text ++ rest := by
  rw [source_append_of_first? h]
  exact List.drop_left

theorem munched_placeBehind (h : first? cs = some (l, rest)) : (l.placeBehind before).Munched (before ++ cs) := by
  have htext : (l.placeBehind before).token.text = l.text := text_placeBehind h
  constructor
  · intro hkind
    have hstop : (before ++ cs).drop (l.placeBehind before).stop = rest := by
      rw [stop_placeBehind h, ← first?_append h, ← List.append_assoc]
      exact List.drop_left
    rw [htext, hstop]
    exact longest_of_first? h hkind
  · intro hkind
    rw [drop_offset_placeBehind h]
    exact stuck_of_first? h hkind
  · intro hkind
    obtain ⟨c, tail, -, hhead, hall⟩ := exists_head_of_first? h
    rw [show l.kind = .illegal from hkind] at hhead
    rw [htext, drop_offset_placeBehind h, hall]
    rcases text_of_illegal hhead with ⟨hc, hsingle⟩ | ⟨rfl, hopen, hquote⟩
    · exact .inl ⟨c, hc, hsingle⟩
    · exact .inr ⟨tail, hopen, hquote, hquote.symm⟩

theorem munched_layoutBehind (before cs : List Char) :
    ∀ p ∈ layoutBehind before (split cs), p.Munched (before ++ cs) := by
  induction cs using split.induct generalizing before with
  | case1 cs h =>
    rw [split_of_first?_eq_none h]
    exact List.forall_mem_nil _
  | case2 cs l rest h ih =>
    rw [split_of_first?_eq_some h]
    refine List.forall_mem_cons.2 ⟨munched_placeBehind h, ?_⟩
    have hrest := ih (before ++ l.source)
    rwa [List.append_assoc, first?_append h] at hrest

/-- Up to the first illegal token, the tokens that are laid out are the longest matches. -/
theorem munches_layoutBehind (before cs : List Char) :
    ∃ legal others stop, layoutBehind before (split cs) = legal ++ others ∧
      (∀ p ∈ legal, p.token.kind ≠ .illegal) ∧
      (others = [] ∧ stop = (before ++ cs).length ∨
        ∃ p behind, others = p :: behind ∧ p.token.kind = .illegal ∧ stop = p.offset) ∧
      Munches (Position.start.advance before) cs (legal.map (·.token.munch)) (.ofOffset (before ++ cs) stop)
        ((before ++ cs).drop stop) := by
  induction cs using split.induct generalizing before with
  | case1 cs h =>
    have hplace := Position.ofOffset_append (before ++ cs) []
    rw [List.append_nil] at hplace
    rw [split_of_first?_eq_none h]
    refine ⟨[], [], _, rfl, List.forall_mem_nil _, .inl ⟨rfl, rfl⟩, ?_⟩
    rw [List.drop_length, hplace, Position.advance_append]
    have hmunches : Munches (Position.start.advance before) (cs ++ []) [] _ [] :=
      .gap (all_isGap_of_first?_eq_none h) (by simp) (.stuck stuck_nil)
    rwa [List.append_nil] at hmunches
  | case2 cs l rest h ih =>
    have hgap := gap_of_first? h
    have hsource : before ++ cs = (before ++ l.gap) ++ (l.text ++ rest) := source_append_of_first? h
    have hcs : cs = l.gap ++ (l.text ++ rest) := by
      rw [← first?_append h, source, List.append_assoc]
    rw [split_of_first?_eq_some h]
    by_cases hl : l.kind = .illegal
    · refine ⟨[], _, _, rfl, List.forall_mem_nil _, .inr ⟨_, _, rfl, hl, rfl⟩, ?_⟩
      have hplace : .ofOffset (before ++ cs) (l.placeBehind before).offset =
          Position.start.advance (before ++ l.gap) := by
        rw [hsource]
        exact Position.ofOffset_append ..
      rw [drop_offset_placeBehind h, hplace, Position.advance_append]
      conv => arg 2; rw [hcs]
      exact .gap hgap (not_isGap_of_first? h) (.stuck (stuck_of_first? h hl))
    · obtain ⟨legal, others, stop, hlayout, hlegal, hstop, hrest⟩ := ih (before ++ l.source)
      rw [List.append_assoc, first?_append h] at hstop hrest
      refine ⟨l.placeBehind before :: legal, others, stop, ?_, List.forall_mem_cons.2 ⟨hl, hlegal⟩, hstop, ?_⟩
      · rw [layoutBehind, hlayout, List.cons_append]
      · have hmunch : (l.placeBehind before).token.munch =
            (l.kind, l.text, (Position.start.advance before).advance l.gap) := by
          rw [Token.munch, text_placeBehind h, ← Position.advance_append]
          rfl
        rw [List.map_cons, hmunch]
        rw [source, ← List.append_assoc, Position.advance_append, Position.advance_append] at hrest
        conv => arg 2; rw [hcs]
        exact .gap hgap (not_isGap_of_first? h) (.token (longest_of_first? h hl) hrest)

end Lexeme

/-- Up to the first illegal token, the tokens of a text are the longest matches of the terminals from the left, and
these do not go on there.  A word does not end in front of a character that it could go on with, nor an integer in
front of a digit, and `==` and `!=` are not split. Illegal tokens stand where no terminal matches. -/
theorem tokenize_munches (source : String) :
    ∃ legal others stop,
      tokenize source =
        (legal ++ others).map PlacedToken.token ++ [.endAt (.ofOffset source.toList source.length)] ∧
      TilesFrom 0 source.toList (legal ++ others) ∧
      (∀ p ∈ legal, p.token.kind ≠ .illegal) ∧
      (others = [] ∧ stop = source.length ∨
        ∃ p behind, others = p :: behind ∧ p.token.kind = .illegal ∧ stop = p.offset) ∧
      (∀ words q left, Munches .start source.toList words q left ↔
        words = legal.map (·.token.munch) ∧ q = .ofOffset source.toList stop ∧ left = source.toList.drop stop) ∧
      (∀ p ∈ legal ++ others, p.Munched source.toList) ∧
      ∀ p ∈ legal ++ others, ∀ c ∈ (source.toList.drop p.stop).head?,
        (p.token.kind = .identifier ∨ p.token.kind.isKeyword = true → ¬InRanges (letterRanges ++ digitRanges) c) ∧
        (p.token.kind = .integer → ¬InRanges digitRanges c) ∧
        (p.token.kind = .assign ∨ p.token.kind = .bang → c ≠ '=') := by
  obtain ⟨htokens, -, htiles⟩ := layout_spec source
  obtain ⟨legal, others, stop, hlayout, hlegal, hstop, hmunches⟩ := munches_layoutBehind [] source.toList
  have hmunched := munched_layoutBehind [] source.toList
  rw [List.nil_append] at hstop hmunches hmunched
  rw [layout, hlayout] at htokens htiles
  rw [hlayout] at hmunched
  rw [String.length_toList] at hstop
  refine ⟨legal, others, stop, htokens, htiles, hlegal, hstop, fun words q left => ⟨fun h => h.unique hmunches, ?_⟩,
    hmunched, fun p hp c hc => ?_⟩
  · rintro ⟨rfl, rfl, rfl⟩
    exact hmunches
  · have hlongest := (hmunched p hp).longest
    refine ⟨fun hkind => ?_, fun hkind => ?_, fun hkind => ?_⟩
    · exact (hlongest (by rintro heq; rw [heq] at hkind; exact absurd hkind (by decide))).word_ends hc hkind
    · rw [hkind] at hlongest
      exact (hlongest (by decide)).integer_ends hc
    · exact (hlongest (by rintro heq; rw [heq] at hkind; exact absurd hkind (by decide))).equals_sign_ends hc hkind

end MonkeyLanguage
