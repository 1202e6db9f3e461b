import MonkeyLanguage.Proofs.Text.Lines
import MonkeyLanguage.Proofs.Token.Splitting

/-!
# Where tokens stand

The tokens of a text are stretches of it, one behind the other, with blanks alone around them, and the position
of a token is that of its first character (`tokenize_tiles`).  Reading the tokens one at a time gives the same
tokens (`map_pull`, `drain_after`).

Lexemes are laid out behind the text before them (`layoutBehind`), so all facts about a text go by induction on
its splitting, with any text before it.
-/

namespace MonkeyLanguage

theorem mem_blanks_of_isGap {c : Char} (h : isGap c = true) : c ∈ [' ', '\t', '\n', '\r'] := by
  simpa [isGap, or_assoc] using h

theorem extract_middle {α : Type} (before middle rest : List α) :
    (before ++ (middle ++ rest)).extract before.length (before.length + middle.length) = middle := by
  simp

theorem extract_append_drop {α : Type} {a b : Nat} (h : a ≤ b) (xs : List α) :
    xs.extract a b ++ xs.drop b = xs.drop a := by
  have hboth := List.take_append_drop (b - a) (xs.drop a)
  rwa [List.drop_drop, Nat.add_sub_cancel' h] at hboth

/-! ## Placed tokens -/

/-- The source text of the token: its value, for a string with the quotes around it. -/
def Token.text (t : Token) : List Char :=
  if t.kind = .string then '"' :: (t.value.toList ++ ['"']) else t.value.toList

/-- The token is the stretch of the text that begins at the offset. -/
structure Token.StandsAt (t : Token) (text : List Char) (offset : Nat) : Prop where
  text_eq : text.extract offset (offset + t.text.length) = t.text
  position_eq : t.position = .ofOffset text offset

/-- A token and the offset of its first character. -/
structure PlacedToken where
  token : Token
  offset : Nat

namespace PlacedToken

def stop (p : PlacedToken) : Nat :=
  p.offset + p.token.text.length

/-- The character at the offset `k` is one of the token. -/
def Covers (p : PlacedToken) (k : Nat) : Prop :=
  p.offset ≤ k ∧ k < p.stop

end PlacedToken

/-- From an offset on, the tokens stand in the text one behind the other and cover all but its blanks. -/
structure TilesFrom (start : Nat) (text : List Char) (placed : List PlacedToken) : Prop where
  behind : ∀ p ∈ placed, start ≤ p.offset
  stands : ∀ p ∈ placed, p.token.StandsAt text p.offset
  nonempty : ∀ p ∈ placed, p.token.text ≠ []
  apart : placed.Pairwise fun p q => p.stop ≤ q.offset
  blank : ∀ k c, start ≤ k → text[k]? = some c → (∀ p ∈ placed, ¬p.Covers k) → c ∈ [' ', '\t', '\n', '\r']

theorem Token.StandsAt.stop_le {t : Token} {text : List Char} {offset : Nat} (h : t.StandsAt text offset)
    (hne : t.text ≠ []) : offset + t.text.length ≤ text.length := by
  have hlength := congrArg List.length h.text_eq
  have hpos := List.length_pos_iff.2 hne
  simp only [List.length_take, List.length_drop] at hlength
  omega

namespace TilesFrom

variable {start : Nat} {text : List Char} {p : PlacedToken} {placed : List PlacedToken}

theorem offset_lt_stop (h : TilesFrom start text placed) (hp : p ∈ placed) : p.offset < p.stop :=
  Nat.lt_add_of_pos_right (List.length_pos_iff.2 (h.nonempty p hp))

theorem stop_le (h : TilesFrom start text placed) (hp : p ∈ placed) : p.stop ≤ text.length :=
  (h.stands p hp).stop_le (h.nonempty p hp)

theorem extract_eq (h : TilesFrom start text placed) (hp : p ∈ placed) :
    text.extract p.offset p.stop = p.token.text :=
  (h.stands p hp).text_eq

theorem increasing (h : TilesFrom start text placed) : placed.Pairwise fun p q => p.offset < q.offset :=
  h.apart.imp_of_mem fun hp _ hle => Nat.lt_of_lt_of_le (h.offset_lt_stop hp) hle

theorem tail (h : TilesFrom start text (p :: placed)) : TilesFrom p.stop text placed where
  behind := (List.pairwise_cons.1 h.apart).1
  stands := fun q hq => h.stands q (List.mem_cons_of_mem p hq)
  nonempty := fun q hq => h.nonempty q (List.mem_cons_of_mem p hq)
  apart := h.apart.of_cons
  blank k c hk hc hcovers := by
    have hfirst := h.behind p (List.mem_cons_self ..)
    have hstop := h.offset_lt_stop (List.mem_cons_self ..)
    refine h.blank k c (by omega) hc (List.forall_mem_cons.2 ⟨fun hp => ?_, hcovers⟩)
    exact absurd hp.2 (Nat.not_lt.2 hk)

end TilesFrom

namespace Lexeme

/-- The token that the lexeme is behind a text. -/
def placeBehind (before : List Char) (l : Lexeme) : PlacedToken :=
  ⟨⟨l.kind, l.value, Position.start.advance (before ++ l.gap)⟩, (before ++ l.gap).length⟩

def layoutBehind (before : List Char) : List Lexeme → List PlacedToken
  | [] => []
  | l :: ls => l.placeBehind before :: layoutBehind (before ++ l.source) ls

/-- The tokens of a text with their places, without the end token. -/
def layout (text : List Char) : List PlacedToken :=
  layoutBehind [] (split text)

variable {before cs rest : List Char} {l : Lexeme} {ls : List Lexeme}

theorem map_token_layoutBehind (before : List Char) (ls : List Lexeme) :
    (layoutBehind before ls).map PlacedToken.token = Token.ofLexemes (Position.start.advance before) ls := by
  induction ls generalizing before with
  | nil => rfl
  | cons l ls ih =>
    rw [layoutBehind, List.map_cons, ih, Token.ofLexemes, placeBehind, Position.advance_append,
      Position.advance_append]

theorem text_placeBehind (h : first? cs = some (l, rest)) : (l.placeBehind before).token.text = l.text := by
  by_cases hl : l.kind = .string
  · have hspells := spells_of_mem_split (mem_split_of_first? h) (by rw [hl]; decide)
    rw [hl] at hspells
    obtain ⟨inner, -, htext⟩ := text_of_string hspells
    simp [placeBehind, Token.text, hl, Lexeme.value, htext]
  · simp [placeBehind, Token.text, hl, Lexeme.value]

theorem stop_placeBehind (h : first? cs = some (l, rest)) :
    (l.placeBehind before).stop = (before ++ l.source).length := by
  rw [PlacedToken.stop, text_placeBehind h]
  simp [placeBehind, source, Nat.add_assoc]

theorem standsAt_placeBehind (h : first? cs = some (l, rest)) :
    (l.placeBehind before).token.StandsAt (before ++ cs) (l.placeBehind before).offset := by
  have hcs : before ++ cs = (before ++ l.gap) ++ (l.text ++ rest) := by
    rw [← first?_append h, source]
    simp only [List.append_assoc]
  rw [hcs]
  constructor
  · rw [text_placeBehind h]
    exact extract_middle ..
  · exact (Position.ofOffset_append _ _).symm

theorem tilesFrom_nil (h : cs.all isGap = true) : TilesFrom before.length (before ++ cs) [] where
  behind := List.forall_mem_nil _
  stands := List.forall_mem_nil _
  nonempty := List.forall_mem_nil _
  apart := .nil
  blank k c hk hc _ := by
    rw [List.getElem?_append_right hk] at hc
    exact mem_blanks_of_isGap (List.all_eq_true.1 h c (List.mem_of_getElem? hc))

theorem tilesFrom_cons {placed : List PlacedToken} (h : first? cs = some (l, rest))
    (hrest : TilesFrom (before ++ l.source).length (before ++ cs) placed) :
    TilesFrom before.length (before ++ cs) (l.placeBehind before :: placed) where
  behind := by
    refine List.forall_mem_cons.2 ⟨by simp [placeBehind], fun p hp => ?_⟩
    have hlength := hrest.behind p hp
    rw [List.length_append] at hlength
    omega
  stands := List.forall_mem_cons.2 ⟨standsAt_placeBehind h, hrest.stands⟩
  nonempty := List.forall_mem_cons.2 ⟨text_placeBehind h ▸ first?_text_ne_nil h, hrest.nonempty⟩
  apart := .cons (fun p hp => stop_placeBehind h ▸ hrest.behind p hp) hrest.apart
  blank k c hk hc hcovers := by
    rw [List.forall_mem_cons] at hcovers
    by_cases hbehind : (before ++ l.source).length ≤ k
    · exact hrest.blank k c hbehind hc hcovers.2
    · -- the character stands in front of the first token, which does not cover it
      have hgap : k - before.length < l.gap.length := by
        have hfirst := hcovers.1
        simp only [PlacedToken.Covers, stop_placeBehind h] at hfirst
        simp only [placeBehind, List.length_append] at hfirst hbehind
        omega
      rw [List.getElem?_append_right hk, ← first?_append h, source, List.append_assoc,
        List.getElem?_append_left hgap] at hc
      exact mem_blanks_of_isGap (List.all_eq_true.1 (gap_of_first? h) c (List.mem_of_getElem? hc))

theorem tilesFrom_layoutBehind (before cs : List Char) :
    TilesFrom before.length (before ++ cs) (layoutBehind before (split cs)) := by
  induction cs using split.induct generalizing before with
  | case1 cs h =>
    rw [split_of_first?_eq_none h]
    exact tilesFrom_nil (all_isGap_of_first?_eq_none h)
  | case2 cs l rest h ih =>
    rw [split_of_first?_eq_some h]
    refine tilesFrom_cons h ?_
    have hrest := ih (before ++ l.source)
    rwa [List.append_assoc, first?_append h] at hrest

theorem length_split_le (cs : List Char) : (split cs).length ≤ cs.length := by
  induction cs using split.induct with
  | case1 cs h => simp [split_of_first?_eq_none h]
  | case2 cs l rest h ih =>
    have hrest := length_lt_of_first? h
    rw [split_of_first?_eq_some h, List.length_cons]
    omega

end Lexeme

open Lexeme

/-! ## One token at a time -/

namespace Cursor

def after : Nat → Cursor → Cursor
  | 0, c => c
  | n + 1, c => c.next.2.after n

variable {c : Cursor} {l : Lexeme} {rest : List Char}

theorem next_of_some (h : first? c.rest = some (l, rest)) :
    c.next = (⟨l.kind, l.value, c.position.advance l.gap⟩, c.skip l.source rest) := by
  rw [next, h]

theorem next_of_none (h : first? c.rest = none) :
    c.next = (.endAt c.finish, { c.skip c.rest [] with done := true }) := by
  rw [next, h]
  rfl

theorem tokens_of_some (h : first? c.rest = some (l, rest)) :
    c.tokens = c.next.1 :: c.next.2.tokens ∧ c.next.2.finish = c.finish := by
  rw [next_of_some h, tokens, split_of_first?_eq_some h]
  exact ⟨rfl, by rw [finish, finish, ← first?_append h, Position.advance_append]; rfl⟩

theorem tokens_of_none (h : first? c.rest = none) :
    c.tokens = [] ∧ c.next.2.tokens = [] ∧ c.next.2.finish = c.finish := by
  rw [next_of_none h, tokens, split_of_first?_eq_none h]
  exact ⟨rfl, by rw [tokens]; exact congrArg _ (split_of_all_isGap rfl), rfl⟩

/-- Reads give the tokens in order, and then the end token again and again. -/
theorem map_pull {n m : Nat} (hle : n ≤ m) (c : Cursor) :
    (c.pull n).map Prod.fst = (c.tokens ++ List.replicate m (Token.endAt c.finish)).take n := by
  induction n generalizing m c with
  | zero => rw [List.take_zero]; rfl
  | succ n ih =>
    rw [pull, List.map_cons]
    cases h : first? c.rest with
    | some found =>
      obtain ⟨htokens, hfinish⟩ := tokens_of_some h
      rw [htokens, List.cons_append, List.take_succ_cons, ih (Nat.le_of_succ_le hle), hfinish]
    | none =>
      obtain ⟨htokens, hnext, hfinish⟩ := tokens_of_none h
      obtain ⟨m, rfl⟩ := Nat.exists_eq_add_of_lt hle
      have hm : n ≤ n + m := Nat.le_add_right n m
      rw [htokens, List.nil_append, List.replicate_succ, List.take_succ_cons, ih hm, hnext, hfinish, next_of_none h]
      rfl

theorem drain_eq_nil_iff : c.drain = [] ↔ c.done = true := by
  unfold drain
  split <;> simp_all

theorem done_after (h : c.done = true) (n : Nat) : (c.after n).done = true := by
  induction n generalizing c with
  | zero => exact h
  | succ n ih =>
    refine ih ?_
    cases hfirst : first? c.rest with
    | some found => rw [next_of_some hfirst]; exact h
    | none => rw [next_of_none hfirst]

theorem drain_after (h : c.done = false) (n : Nat) : (c.after n).drain = c.drain.drop n := by
  induction n generalizing c with
  | zero => rfl
  | succ n ih =>
    have hdrain : c.drain = c.tokens ++ [.endAt c.finish] := if_neg (by simp [h])
    rw [after, hdrain]
    cases hfirst : first? c.rest with
    | some found =>
      obtain ⟨htokens, hfinish⟩ := tokens_of_some hfirst
      have hdone : c.next.2.done = false := by rw [next_of_some hfirst]; exact h
      have hnext : c.next.2.drain = c.next.2.tokens ++ [.endAt c.next.2.finish] := if_neg (by simp [hdone])
      rw [ih hdone, hnext, htokens, hfinish]
      rfl
    | none =>
      obtain ⟨htokens, -, -⟩ := tokens_of_none hfirst
      have hdone : c.next.2.done = true := by rw [next_of_none hfirst]
      rw [drain, if_pos (done_after hdone n), htokens]
      simp

end Cursor

/-! ## Whole texts -/

theorem tokensOf_eq_layout (source : String) : tokensOf source = (layout source.toList).map PlacedToken.token :=
  (map_token_layoutBehind [] (split source.toList)).symm

theorem layout_spec (source : String) :
    tokenize source =
        (layout source.toList).map PlacedToken.token ++ [.endAt (.ofOffset source.toList source.length)] ∧
      (∀ p ∈ layout source.toList, p.token.kind ≠ .eof) ∧ TilesFrom 0 source.toList (layout source.toList) := by
  have htokens := tokensOf_eq_layout source
  have hfinish := Position.ofOffset_append source.toList []
  rw [List.append_nil] at hfinish
  refine ⟨?_, fun p hp => ?_, tilesFrom_layoutBehind [] source.toList⟩
  · show tokensOf source ++ [.endAt (Position.start.advance source.toList)] = _
    rw [htokens, ← hfinish, String.length_toList]
  · exact kind_ne_eof_of_mem_tokensOf source (htokens ▸ List.mem_map_of_mem hp)

/-- The tokens of a text are stretches of it in order, with blanks alone around them, and the end token is the only
one of its kind.  Any number of reads gives the first tokens, then the end token again and again, and leaves the
others, so that reading is done when all tokens have been read. -/
theorem tokenize_tiles (source : String) :
    (∃ placed : List PlacedToken,
      tokenize source = placed.map PlacedToken.token ++ [.endAt (.ofOffset source.toList source.length)] ∧
      (∀ p ∈ placed, p.token.kind ≠ .eof) ∧
      TilesFrom 0 source.toList placed ∧ placed.Pairwise fun p q => p.offset < q.offset) ∧
    (tokenize source).length ≤ source.length + 1 ∧
    ∀ n, ((Cursor.ofString source).pull n).map Prod.fst =
        (tokenize source ++ List.replicate n (Token.endAt (.ofOffset source.toList source.length))).take n ∧
      ((Cursor.ofString source).after n).drain = (tokenize source).drop n ∧
      (((Cursor.ofString source).after n).done = true ↔ (tokenize source).length ≤ n) := by
  obtain ⟨htokens, hkinds, htiles⟩ := layout_spec source
  have htokenize : tokenize source = tokensOf source ++ [.endAt (Cursor.ofString source).finish] := rfl
  have hfinish : (Cursor.ofString source).finish = .ofOffset source.toList source.length := by
    rw [htokens] at htokenize
    exact (congrArg Token.position (List.append_singleton_inj.1 htokenize).2).symm
  have hdrain (n : Nat) : ((Cursor.ofString source).after n).drain = (tokenize source).drop n :=
    Cursor.drain_after rfl n
  refine ⟨⟨_, htokens, hkinds, htiles, htiles.increasing⟩, ?_, fun n => ⟨?_, hdrain n, ?_⟩⟩
  · have hlength : (tokensOf source).length = (split source.toList).length := by
      simpa using congrArg List.length (map_kind_tokensOf source)
    rw [htokenize, List.length_append, hlength]
    exact Nat.succ_le_succ (length_split_le source.toList)
  · rw [htokenize, ← hfinish, List.append_assoc, ← List.replicate_one, List.replicate_append_replicate]
    exact Cursor.map_pull (Nat.le_add_left n 1) _
  · rw [← List.drop_eq_nil_iff, ← hdrain, Cursor.drain_eq_nil_iff]

end MonkeyLanguage
