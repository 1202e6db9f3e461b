import MonkeyLanguage.Token.Cursor

/-!
# Token texts in other surroundings

What `Lexeme.head` reads does not depend on the text behind it, as long as a character follows that goes
on with no token (`Breaks`) and a quote that was opened is closed (`head_append_of_breaks`).  `Spells` are the
texts of each kind of token.  Words with blanks between them are read back one by one
(`split_of_laid`).
-/

namespace MonkeyLanguage

section
variable {α : Type} {p : α → Bool} {cs rest : List α}

theorem takeWhile_append_of_stop (h : (∃ c ∈ cs, p c = false) ∨ ∀ c ∈ rest.head?, p c = false) :
    (cs ++ rest).takeWhile p = cs.takeWhile p := by
  induction cs with
  | nil =>
    rcases h with ⟨c, hc, -⟩ | h
    · cases hc
    · cases rest with
      | nil => rfl
      | cons d rest => simp [h d rfl]
  | cons c cs ih =>
    cases hc : p c with
    | false => simp [hc]
    | true =>
      simp only [List.cons_append, List.takeWhile_cons, hc, if_true]
      rw [ih]
      refine h.imp_left ?_
      rintro ⟨d, hd, hpd⟩
      rcases List.mem_cons.1 hd with rfl | hd
      · rw [hc] at hpd
        cases hpd
      · exact ⟨d, hd, hpd⟩

theorem dropWhile_append_of_stop (h : (∃ c ∈ cs, p c = false) ∨ ∀ c ∈ rest.head?, p c = false) :
    (cs ++ rest).dropWhile p = cs.dropWhile p ++ rest := by
  have hboth := List.takeWhile_append_dropWhile (p := p) (l := cs ++ rest)
  rw [takeWhile_append_of_stop h] at hboth
  have hall : cs.takeWhile p ++ (cs ++ rest).dropWhile p = cs.takeWhile p ++ (cs.dropWhile p ++ rest) := by
    rw [hboth, ← List.append_assoc, List.takeWhile_append_dropWhile]
  exact List.append_cancel_left hall

end

namespace Lexeme

/-- No token but a string goes on with the first character. -/
def Breaks (rest : List Char) : Prop :=
  ∀ c ∈ rest.head?, isNameChar c = false ∧ c ≠ '='

variable {c : Char} {cs rest gap : List Char} {l : Lexeme}

theorem not_nameChar_of_isGap (h : isGap c = true) : isNameChar c = false ∧ c ≠ '=' := by
  simp only [isGap, Bool.or_eq_true, decide_eq_true_eq] at h
  rcases h with ((rfl | rfl) | rfl) | rfl <;> decide

theorem breaks_of_isGap (h : ∀ c ∈ rest.head?, isGap c = true) : Breaks rest :=
  fun c hc => not_nameChar_of_isGap (h c hc)

theorem orEqual_append {single double : Token.Kind} (hrest : Breaks rest) :
    head.orEqual c (cs ++ rest) single double =
      ((head.orEqual c cs single double).1, (head.orEqual c cs single double).2.1,
        (head.orEqual c cs single double).2.2 ++ rest) := by
  cases cs with
  | nil =>
    cases rest with
    | nil => rfl
    | cons d rest =>
      have hd := (hrest d rfl).2
      unfold head.orEqual
      split <;> simp_all
  | cons d cs =>
    unfold head.orEqual
    split <;> simp_all

theorem head_append_of_breaks (hrest : Breaks rest) (hquote : c = '"' → '"' ∈ cs) :
    head c (cs ++ rest) = ((head c cs).1, (head c cs).2.1, (head c cs).2.2 ++ rest) := by
  have hname : ∀ d ∈ rest.head?, isNameChar d = false := fun d hd => (hrest d hd).1
  have hdigit : ∀ d ∈ rest.head?, d.isDigit = false := by
    intro d hd
    have hd := hname d hd
    simp only [isNameChar, Bool.or_eq_false_iff] at hd
    exact hd.2
  unfold head
  split
  · rfl
  split
  · exact orEqual_append hrest
  split
  · exact orEqual_append hrest
  split
  · simp [takeWhile_append_of_stop (.inr hname), dropWhile_append_of_stop (.inr hname)]
  split
  · simp [takeWhile_append_of_stop (.inr hdigit), dropWhile_append_of_stop (.inr hdigit)]
  split
  · next hc =>
    have hmem : ∃ d ∈ cs, (decide (d ≠ '"')) = false := ⟨'"', hquote hc, by decide⟩
    rw [takeWhile_append_of_stop (.inl hmem), dropWhile_append_of_stop (.inl hmem)]
    cases hdrop : cs.dropWhile (· ≠ '"') with
    | nil =>
      have hsplit := List.takeWhile_append_dropWhile (p := (· ≠ '"')) (l := cs)
      rw [hdrop, List.append_nil] at hsplit
      have hall := List.all_takeWhile (p := (· ≠ '"')) (l := cs)
      rw [hsplit, List.all_eq_true] at hall
      exact absurd (hall _ (hquote hc)) (by decide)
    | cons quote tail => simp
  · rfl

/-! ## The texts of each kind -/

/-- The texts that are tokens of a kind. -/
inductive Spells : Token.Kind → List Char → Prop where
  | punctuation {c : Char} {kind : Token.Kind} (hc : punctuation? c = some kind) : Spells kind [c]
  | assign : Spells .assign ['=']
  | equal : Spells .equal ['=', '=']
  | bang : Spells .bang ['!']
  | notEqual : Spells .notEqual ['!', '=']
  | word {c : Char} {cs : List Char} {kind : Token.Kind} (hkind : wordKind (c :: cs) = kind)
    (hc : isNameStart c = true) (hcs : cs.all isNameChar = true) : Spells kind (c :: cs)
  | integer {c : Char} {cs : List Char} (hc : c.isDigit = true) (hcs : cs.all Char.isDigit = true) :
    Spells .integer (c :: cs)
  | string {cs : List Char} (hcs : '"' ∉ cs) : Spells .string ('"' :: (cs ++ ['"']))

theorem punctuation?_eq_none (h : isNameChar c = true) : punctuation? c = none := by
  unfold punctuation?
  split
  case h_16 => rfl
  all_goals exact absurd h (by decide)

theorem isNameChar_of_isNameStart (h : isNameStart c = true) : isNameChar c = true := by
  rw [isNameChar, h]
  rfl

theorem isNameChar_of_isDigit (h : c.isDigit = true) : isNameChar c = true := by
  rw [isNameChar, h, Bool.or_true]

theorem isGap_eq_false (h : isNameChar c = true) : isGap c = false := by
  cases hgap : isGap c with
  | false => rfl
  | true => exact absurd h (by simp [(not_nameChar_of_isGap hgap).1])

theorem isGap_eq_false_of_punctuation {kind : Token.Kind} (h : punctuation? c = some kind) :
    isGap c = false := by
  unfold punctuation? at h
  split at h
  case h_16 => cases h
  all_goals decide

theorem isNameStart_eq_false_of_isDigit (h : c.isDigit = true) : isNameStart c = false := by
  have hne : c ≠ '_' := by
    rintro rfl
    exact absurd h (by decide)
  simp only [Char.isDigit, Bool.and_eq_true, decide_eq_true_eq, ge_iff_le, UInt32.le_iff_toNat_le] at h
  have h9 : '9'.val.toNat = 57 := rfl
  have hA : 'A'.val.toNat = 65 := rfl
  have ha : 'a'.val.toNat = 97 := rfl
  have hupper : c.isUpper = false := by
    refine decide_eq_false fun hc => ?_
    have hc := UInt32.le_iff_toNat_le.1 hc.1
    omega
  have hlower : decide ('a'.val ≤ c.val) = false := by
    refine decide_eq_false fun hc => ?_
    have hc := UInt32.le_iff_toNat_le.1 hc
    omega
  show (c.isUpper || (decide ('a'.val ≤ c.val) && decide (c.val ≤ 'z'.val)) || decide (c = '_')) = false
  rw [hupper, hlower, decide_eq_false hne]
  rfl

theorem takeWhile_of_all {p : Char → Bool} (h : cs.all p = true) :
    cs.takeWhile p = cs ∧ cs.dropWhile p = [] := by
  have hboth := List.takeWhile_append_dropWhile (p := p) (l := cs)
  have htake : (cs ++ []).takeWhile p = cs ++ [].takeWhile p :=
    List.takeWhile_append_of_pos (List.all_eq_true.1 h)
  simp only [List.append_nil, List.takeWhile_nil] at htake
  rw [htake] at hboth
  exact ⟨htake, List.append_cancel_left (hboth.trans (List.append_nil cs).symm)⟩

theorem head_of_spells {kind : Token.Kind} {text : List Char} (h : Spells kind text) :
    ∃ c cs, text = c :: cs ∧ isGap c = false ∧ (c = '"' → '"' ∈ cs) ∧ head c cs = (kind, text, []) := by
  have hne {c d : Char} (hc : isNameChar c = true) (hd : isNameChar d = false) : c ≠ d := by
    rintro rfl
    rw [hc] at hd
    cases hd
  cases h with
  | @punctuation c kind hc =>
    refine ⟨c, [], rfl, isGap_eq_false_of_punctuation hc, ?_, ?_⟩
    · rintro rfl
      cases hc
    · rw [head, hc]
  | assign | bang => exact ⟨_, _, rfl, by decide, by decide, by decide⟩
  | equal | notEqual => exact ⟨_, _, rfl, by decide, by decide, by decide⟩
  | @word c cs kind hkind hc hcs =>
    have hname := isNameChar_of_isNameStart hc
    obtain ⟨htake, hdrop⟩ := takeWhile_of_all hcs
    refine ⟨c, cs, rfl, isGap_eq_false hname, fun h => absurd h (hne hname (by decide)), ?_⟩
    rw [head, punctuation?_eq_none hname]
    simp only [if_neg (hne hname (d := '=') (by decide)), if_neg (hne hname (d := '!') (by decide)),
      if_pos hc, htake, hdrop, hkind]
  | @integer c cs hc hcs =>
    have hname := isNameChar_of_isDigit hc
    obtain ⟨htake, hdrop⟩ := takeWhile_of_all hcs
    refine ⟨c, cs, rfl, isGap_eq_false hname, fun h => absurd h (hne hname (by decide)), ?_⟩
    rw [head, punctuation?_eq_none hname]
    simp only [if_neg (hne hname (d := '=') (by decide)), if_neg (hne hname (d := '!') (by decide)),
      isNameStart_eq_false_of_isDigit hc, hc, if_true, htake, hdrop]
    rfl
  | @string cs hcs =>
    refine ⟨'"', cs ++ ['"'], rfl, by decide, by simp, ?_⟩
    have hall : ∀ d ∈ cs, (decide (d ≠ '"')) = true := by
      intro d hd
      rw [decide_eq_true_eq]
      rintro rfl
      exact hcs hd
    have htake : (cs ++ ['"']).takeWhile (· ≠ '"') = cs ++ ['"'].takeWhile (· ≠ '"') :=
      List.takeWhile_append_of_pos hall
    have hdrop : (cs ++ ['"']).dropWhile (· ≠ '"') = ['"'].dropWhile (· ≠ '"') :=
      List.dropWhile_append_of_pos hall
    simp only [head, punctuation?, htake, hdrop]
    simp [isNameStart]

theorem spells_of_head (h : (head c cs).1 ≠ .illegal) : Spells (head c cs).1 (head c cs).2.1 := by
  revert h
  unfold head
  split
  · next hc => exact fun _ => .punctuation hc
  split
  · next hc =>
    subst hc
    unfold head.orEqual
    split
    · exact fun _ => .equal
    · exact fun _ => .assign
  split
  · next hc =>
    subst hc
    unfold head.orEqual
    split
    · exact fun _ => .notEqual
    · exact fun _ => .bang
  split
  · next hc => exact fun _ => .word rfl hc List.all_takeWhile
  split
  · next hc => exact fun _ => .integer hc List.all_takeWhile
  split
  · next hc =>
    subst hc
    split
    · exact fun h => absurd rfl h
    · next quote rest hdrop =>
      intro _
      have hquote : quote = '"' := by
        have hhead := List.head?_dropWhile_not (· ≠ '"') cs
        rw [hdrop] at hhead
        simpa using hhead
      have htake : '"' ∉ cs.takeWhile (· ≠ '"') := fun hmem =>
        absurd (List.all_eq_true.1 List.all_takeWhile _ hmem) (by decide)
      rw [hquote]
      exact .string htake
  · exact fun h => absurd rfl h

theorem Spells.isWord {kind : Token.Kind} {text : List Char} (h : Spells kind text) :
    kind ≠ .eof ∧ kind ≠ .illegal := by
  cases h with
  | punctuation hc =>
    unfold punctuation? at hc
    split at hc <;> cases hc <;> decide
  | word hkind hc hcs =>
    subst hkind
    unfold wordKind
    split <;> decide
  | _ => decide

theorem text_of_string {text : List Char} (h : Spells .string text) :
    ∃ inner, '"' ∉ inner ∧ text = '"' :: (inner ++ ['"']) := by
  generalize hkind : Token.Kind.string = kind at h
  cases h with
  | @punctuation c _ hc =>
    subst hkind
    unfold punctuation? at hc
    split at hc <;> cases hc
  | word hword =>
    subst hkind
    unfold wordKind at hword
    split at hword <;> cases hword
  | string hquote => exact ⟨_, hquote, rfl⟩
  | _ => cases hkind

theorem split_source_append (hspell : Spells l.kind l.text) (hgap : l.gap.all isGap = true)
    (hrest : Breaks rest) : split (l.source ++ rest) = l :: split rest := by
  obtain ⟨c, cs, htext, hc, hquote, hhead⟩ := head_of_spells hspell
  refine split_of_first?_eq_some ?_
  have hgap := List.all_eq_true.1 hgap
  have hsource : l.source ++ rest = l.gap ++ c :: (cs ++ rest) := by
    rw [source, htext, List.append_assoc]
    rfl
  have htake : (l.source ++ rest).takeWhile isGap = l.gap := by
    rw [hsource, List.takeWhile_append_of_pos hgap]
    simp [hc]
  have hdrop : (l.source ++ rest).dropWhile isGap = c :: (cs ++ rest) := by
    rw [hsource, List.dropWhile_append_of_pos hgap]
    simp [hc]
  rw [first?, hdrop, htake]
  simp only [head_append_of_breaks hrest hquote, hhead]
  rfl

theorem split_of_all_isGap (h : gap.all isGap = true) : split gap = [] := by
  refine split_of_first?_eq_none ?_
  rw [first?, (takeWhile_of_all h).2]

theorem spells_of_mem_split (h : l ∈ split cs) (hl : l.kind ≠ .illegal) : Spells l.kind l.text := by
  induction cs using split.induct with
  | case1 cs hfirst =>
    rw [split_of_first?_eq_none hfirst] at h
    cases h
  | case2 cs l' rest hfirst ih =>
    rw [split_of_first?_eq_some hfirst] at h
    rcases List.mem_cons.1 h with rfl | h
    · unfold first? at hfirst
      split at hfirst
      · cases hfirst
      · cases hfirst
        exact spells_of_head hl
    · exact ih h

theorem mem_split_of_first? (h : first? cs = some (l, rest)) : l ∈ split cs := by
  rw [split_of_first?_eq_some h]
  exact List.mem_cons_self ..

/-! ## Words -/

end Lexeme

open Lexeme

/-- Whether the text is one token of the language. -/
def isWord (w : String) : Bool :=
  match w.toList with
  | [] => false
  | c :: cs => (head c cs).1 ≠ .illegal && (head c cs).2.2.isEmpty

def Token.ofWord (w : String) : Token :=
  match w.toList with
  | [] => .endAt .start
  | c :: cs =>
    let lexeme : Lexeme := ⟨[], (head c cs).1, (head c cs).2.1⟩
    ⟨lexeme.kind, lexeme.value, .start⟩

/-- The token without its place. -/
def Token.word (t : Token) : Token.Kind × String :=
  (t.kind, t.value)

def Lexeme.word (l : Lexeme) : Token.Kind × String :=
  (l.kind, l.value)

variable {w : String} {ws : List String} {kind : Token.Kind} {cs : List Char}

theorem spells_of_isWord (h : isWord w = true) : Spells (Token.ofWord w).kind w.toList := by
  unfold isWord at h
  unfold Token.ofWord
  cases htext : w.toList with
  | nil => simp [htext] at h
  | cons c cs =>
    simp only [htext, Bool.and_eq_true, decide_eq_true_eq, List.isEmpty_iff] at h
    have hspells := spells_of_head h.1
    have hall := head_append c cs
    rw [h.2, List.append_nil] at hall
    rw [hall] at hspells
    exact hspells

theorem isWord_of_spells (h : Spells kind w.toList) : isWord w = true := by
  obtain ⟨c, cs, htext, -, -, hhead⟩ := head_of_spells h
  simp [isWord, htext, hhead, h.isWord.2]

theorem ofWord_of_spells (h : Spells kind w.toList) :
    Token.ofWord w = ⟨kind, (⟨[], kind, w.toList⟩ : Lexeme).value, .start⟩ := by
  obtain ⟨c, cs, htext, -, -, hhead⟩ := head_of_spells h
  simp only [Token.ofWord, htext, hhead]

/-- The words in a row, with blanks around them and at least one blank between two words. -/
inductive Laid : List String → List Char → Prop where
  | blanks {gap : List Char} (hgap : gap.all isGap = true) : Laid [] gap
  | word {gap rest : List Char} {w : String} {ws : List String} (hgap : gap.all isGap = true)
    (hrest : Laid ws rest) (hblank : ∀ c ∈ rest.head?, isGap c = true) :
    Laid (w :: ws) (gap ++ w.toList ++ rest)

theorem split_of_laid (h : Laid ws cs) (hws : ∀ w ∈ ws, isWord w = true) :
    (split cs).map Lexeme.word = ws.map fun w => (Token.ofWord w).word := by
  induction h with
  | blanks hgap => rw [split_of_all_isGap hgap]; rfl
  | @word gap rest w ws hgap hrest hblank ih =>
    rw [List.forall_mem_cons] at hws
    have hspells := spells_of_isWord hws.1
    let lexeme : Lexeme := ⟨gap, (Token.ofWord w).kind, w.toList⟩
    have hsplit : split (lexeme.source ++ rest) = lexeme :: split rest :=
      split_source_append hspells hgap (breaks_of_isGap hblank)
    have hword : lexeme.word = (Token.ofWord w).word := by
      rw [ofWord_of_spells hspells]
      rfl
    change (split (lexeme.source ++ rest)).map Lexeme.word = _
    rw [hsplit, List.map_cons, List.map_cons, ih hws.2, hword]

theorem laid_flatMap (ws : List String) : Laid ws (ws.flatMap fun w => ' ' :: w.toList) := by
  induction ws with
  | nil => exact .blanks rfl
  | cons w ws ih =>
    have hblank : ∀ c ∈ (ws.flatMap fun w => ' ' :: w.toList).head?, isGap c = true := by
      cases ws with
      | nil => simp
      | cons next ws => simp [isGap]
    have hgap : [' '].all isGap = true := rfl
    exact .word hgap ih hblank

/-! ## The tokens of a text -/

abbrev tokensOf (source : String) : List Token :=
  (Cursor.ofString source).tokens

theorem tokenize_eq (source : String) :
    tokenize source = tokensOf source ++ [.endAt (Cursor.ofString source).finish] :=
  rfl

theorem map_word_ofLexemes (p : Position) (ls : List Lexeme) :
    (Token.ofLexemes p ls).map Token.word = ls.map Lexeme.word := by
  induction ls generalizing p with
  | nil => rfl
  | cons l ls ih =>
    rw [Token.ofLexemes, List.map_cons, List.map_cons, ih]
    rfl

theorem map_kind_tokensOf (source : String) :
    (tokensOf source).map Token.kind = (split source.toList).map Lexeme.kind := by
  have h := congrArg (List.map Prod.fst) (map_word_ofLexemes .start (split source.toList))
  rwa [List.map_map, List.map_map] at h

theorem kind_ne_eof_of_mem_tokensOf {t : Token} (source : String) (h : t ∈ tokensOf source) : t.kind ≠ .eof := by
  have hkind : t.kind ∈ (split source.toList).map Lexeme.kind := map_kind_tokensOf source ▸ List.mem_map_of_mem h
  obtain ⟨l, hl, hkind⟩ := List.mem_map.1 hkind
  intro heof
  rw [heof] at hkind
  exact (hkind ▸ spells_of_mem_split hl (by rw [hkind]; decide)).isWord.1 rfl

theorem map_word_tokensOf {source : String} (h : Laid ws source.toList)
    (hws : ∀ w ∈ ws, isWord w = true) :
    (tokensOf source).map Token.word = (ws.map Token.ofWord).map Token.word := by
  rw [List.map_map]
  exact (map_word_ofLexemes _ _).trans (split_of_laid h hws)

end MonkeyLanguage
