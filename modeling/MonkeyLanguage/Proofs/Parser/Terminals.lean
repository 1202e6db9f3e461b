import MonkeyLanguage.Parser.Terminal
import MonkeyLanguage.Proofs.Parser.Settling
import MonkeyLanguage.Proofs.Token.Munch

/-!
# The terminals and the lexer

The terminals of the grammar are tried in turn, and the first that matches at the head of a text matches more of it
than any other (`longest_of_match?`): those that start with the same character are fixed texts, the longer ones first.
So what the terminals cut a text into are the longest matches (`munches_cut`), and these are the tokens of the lexer up
to the first illegal one (`tokens_eq`).  No program goes on there, so it makes no difference to the automaton which of
the two it is given (`parse_eq_parseTokens`).
-/

namespace MonkeyLanguage

/-! ## One pattern at the head of a text -/

theorem takeWhile_ne_append {c : Char} {as : List Char} (h : c ∉ as) (bs : List Char) :
    (as ++ c :: bs).takeWhile (· ≠ c) = as := by
  rw [List.takeWhile_append_of_pos fun d hd => decide_eq_true (ne_of_mem_of_not_mem hd h)]
  simp

namespace Pattern

variable {pattern other : Pattern} {c : Char} {cs text text' : List Char}

theorem matches_of_front? (h : pattern.front? cs = some text) : pattern.Matches text ∧ text <+: cs := by
  revert h
  fun_cases front? pattern cs with
  | case1 w cs hfront =>
    rintro ⟨⟩
    exact ⟨.fixed w, List.isPrefixOf_iff_prefix.1 hfront⟩
  | case3 first more c cs hc =>
    rintro ⟨⟩
    refine ⟨.run hc fun d hd => ?_, ?_⟩
    · simpa using List.mem_takeWhile_imp hd
    · exact List.cons_prefix_cons.2 ⟨rfl, List.takeWhile_prefix _⟩
  | case5 cs hquote =>
    rintro ⟨⟩
    obtain ⟨inner, rest, rfl, hinner⟩ := List.eq_append_cons_of_mem hquote
    rw [takeWhile_ne_append hinner]
    exact ⟨.quoted hinner, rest, by simp⟩
  | _ => rintro ⟨⟩

theorem front?_of_matches (h : pattern.Matches text) (hfront : text <+: cs) :
    ∃ text', pattern.front? cs = some text' ∧ text.length ≤ text'.length := by
  cases h with
  | fixed w => exact ⟨_, by rw [front?, if_pos (List.isPrefixOf_iff_prefix.2 hfront)], Nat.le_refl _⟩
  | @run first more c inner hc hinner =>
    obtain ⟨rest, rfl⟩ := hfront
    refine ⟨_, by rw [List.cons_append, front?, if_pos hc], Nat.succ_le_succ ?_⟩
    exact length_le_takeWhile (List.prefix_append inner rest)
      (List.all_eq_true.2 fun d hd => decide_eq_true (hinner d hd))
  | @quoted inner hinner =>
    obtain ⟨rest, rfl⟩ := hfront
    refine ⟨'"' :: (inner ++ ['"']), ?_, Nat.le_refl _⟩
    rw [List.cons_append, List.append_assoc, List.singleton_append, front?, takeWhile_ne_append hinner,
      if_pos (List.mem_append_right _ (List.mem_cons_self ..))]

def starts : Pattern → List (Char × Char)
  | fixed w => w.toList.head?.toList.map fun c => (c, c)
  | run first _ => first
  | quoted => [('"', '"')]

def length? : Pattern → Option Nat
  | fixed w => some w.length
  | _ => none

theorem inRanges_starts (h : pattern.Matches (c :: cs)) : InRanges pattern.starts c := by
  generalize htext : c :: cs = text at h
  cases h with
  | fixed w => exact ⟨(c, c), by simp [starts, ← htext], Char.le_refl c, Char.le_refl c⟩
  | run hc hcs => exact (List.cons.inj htext).1 ▸ hc
  | quoted hcs => exact ⟨('"', '"'), by simp [starts], by simp [(List.cons.inj htext).1]⟩

theorem length_eq_of_length? {n : Nat} (h : pattern.Matches text) (hn : pattern.length? = some n) :
    text.length = n := by
  cases h with
  | fixed w => exact w.length_toList.trans (Option.some.inj hn)
  | _ => cases hn

/-- The other pattern starts with other characters, or both match texts of one length, the other a shorter one. -/
def Outlasts (pattern other : Pattern) : Prop :=
  (∀ r ∈ pattern.starts, ∀ s ∈ other.starts, r.2 < s.1 ∨ s.2 < r.1) ∨
    ∃ m ∈ pattern.length?, ∃ n ∈ other.length?, n ≤ m

instance (pattern other : Pattern) : Decidable (pattern.Outlasts other) :=
  inferInstanceAs (Decidable (_ ∨ _))

theorem Outlasts.length_le (h : pattern.Outlasts other) (htext : pattern.Matches text) (hfront : text <+: cs)
    (hne : text ≠ []) (htext' : other.Matches text') (hfront' : text' <+: cs) : text'.length ≤ text.length := by
  rcases h with hapart | ⟨m, hm, n, hn, hle⟩
  · obtain ⟨c, rest, rfl⟩ := List.exists_cons_of_ne_nil hne
    cases text' with
    | nil => exact Nat.zero_le _
    | cons d rest' =>
      obtain ⟨more, rfl⟩ := hfront
      obtain rfl := (List.cons_prefix_cons.1 hfront').1
      obtain ⟨r, hr, hrle, hler⟩ := inRanges_starts htext
      obtain ⟨s, hs, hsle, hles⟩ := inRanges_starts htext'
      rcases hapart r hr s hs with hlt | hlt
      · exact absurd (Char.le_trans hsle hler) (Char.not_le.2 hlt)
      · exact absurd (Char.le_trans hrle hles) (Char.not_le.2 hlt)
  · rw [length_eq_of_length? htext hm, length_eq_of_length? htext' hn]
    exact hle

end Pattern

/-! ## The first terminal that matches -/

namespace Terminal

variable {cs text : List Char} {kind : Option Token.Kind}

theorem terminals_outlast : terminals.Pairwise fun terminal other => terminal.2.Outlasts other.2 := by
  decide +kernel

/-- The first terminal that matches at the head of a text matches more of it than any other. -/
theorem longest_of_match? (h : match? cs = some (kind, text)) : Longest kind text (cs.drop text.length) := by
  have hne := ne_nil_of_match? h
  obtain ⟨before, terminal, behind, hterminals, hmatch, hbefore⟩ := List.findSome?_eq_some_iff.1 h
  obtain ⟨text, hfront, hpair⟩ := Option.map_eq_some_iff.1 hmatch
  cases hpair
  obtain ⟨hmatches, hprefix⟩ := Pattern.matches_of_front? hfront
  have hmem : terminal ∈ terminals := hterminals ▸ List.mem_append_right _ (List.mem_cons_self ..)
  refine ⟨⟨terminal, hmem, hmatches, rfl⟩, ?_⟩
  rintro kind' text' ⟨other, hother, hmatches', rfl⟩ hprefix'
  rw [List.prefix_iff_eq_append.1 hprefix] at hprefix'
  rw [hterminals, List.mem_append, List.mem_cons] at hother
  rcases hother with hother | rfl | hother
  · -- a terminal before this one would have been the first
    obtain ⟨text'', hfront'', -⟩ := Pattern.front?_of_matches hmatches' hprefix'
    have hnone := hbefore other hother
    rw [hfront''] at hnone
    cases hnone
  · obtain ⟨text'', hfront'', hle⟩ := Pattern.front?_of_matches hmatches' hprefix'
    rwa [← Option.some.inj (hfront.symm.trans hfront'')] at hle
  · have hpairwise := terminals_outlast
    rw [hterminals, List.pairwise_append] at hpairwise
    have houtlasts := (List.pairwise_cons.1 hpairwise.2.1).1 other hother
    exact houtlasts.length_le hmatches hprefix hne hmatches' hprefix'

theorem stuck_of_match? (h : match? cs = none) : Stuck cs := by
  rintro kind text ⟨terminal, hterminal, hmatches, -⟩ hprefix
  obtain ⟨text', hfront, -⟩ := Pattern.front?_of_matches hmatches hprefix
  have hnone := List.findSome?_eq_none_iff.1 h terminal hterminal
  rw [hfront] at hnone
  cases hnone

theorem append_of_match? (h : match? cs = some (kind, text)) : text ++ cs.drop text.length = cs := by
  obtain ⟨terminal, -, hfront⟩ := exists_front_of_match? h
  exact List.prefix_iff_eq_append.1 (Pattern.matches_of_front? hfront).2

/-! ## Whole texts -/

/-- The character where no terminal matches, as a token. -/
def illegalAt (p : Position) (cs : List Char) : List Token :=
  (cs.head?.map fun c => ⟨.illegal, String.ofList [c], p⟩).toList

theorem munches_cut (p : Position) (cs : List Char) : ∃ words q left, Munches p cs words q left ∧
    cut p cs = words.map (fun word => token word.1 word.2.1 word.2.2) ++ illegalAt q left := by
  fun_induction cut p cs with
  | case1 p => exact ⟨[], p, [], .stuck stuck_nil, rfl⟩
  | case2 p c tail hnone => exact ⟨[], p, c :: tail, .stuck (stuck_of_match? hnone), rfl⟩
  | case3 p c tail text hmatch ih =>
    obtain ⟨words, q, left, hmunches, hcut⟩ := ih
    refine ⟨words, q, left, ?_, hcut⟩
    rw [← append_of_match? hmatch]
    exact .blanks (longest_of_match? hmatch) hmunches
  | case4 p c tail kind text hmatch ih =>
    obtain ⟨words, q, left, hmunches, hcut⟩ := ih
    refine ⟨(kind, text, p) :: words, q, left, ?_, by rw [hcut]; rfl⟩
    conv => arg 2; rw [← append_of_match? hmatch]
    exact .token (longest_of_match? hmatch) hmunches

theorem token_munch (t : Token) : token t.munch.1 t.munch.2.1 t.munch.2.2 = t := by
  obtain ⟨kind, value, place⟩ := t
  by_cases hkind : kind = .string
  · simp [Token.munch, Token.text, token, hkind]
  · simp [Token.munch, Token.text, token, hkind]

end Terminal

namespace Automaton

open Lexeme Terminal

variable {t : Token} {ts : List Token} {σ : State}

theorem illegalAt_of_standsAt {text : List Char} {offset : Nat} (h : t.StandsAt text offset) (hne : t.text ≠ [])
    (ht : t.kind = .illegal) : illegalAt (.ofOffset text offset) (text.drop offset) = [sourceToken t] := by
  have htext : t.text = t.value.toList := by rw [Token.text, ht, if_neg (by decide)]
  obtain ⟨c, rest, hcons⟩ := List.exists_cons_of_ne_nil hne
  have hprefix : t.text <+: text.drop offset := by
    have heq := h.text_eq
    rw [List.extract_eq_take_drop, Nat.add_sub_cancel_left] at heq
    exact heq ▸ List.take_prefix _ _
  obtain ⟨more, hmore⟩ := hprefix
  rw [← hmore, hcons, ← h.position_eq, illegalAt]
  simp [sourceToken, ht, ← htext, hcons]

/-- The tokens that the terminals cut off are those of the lexer up to the first illegal one. -/
theorem tokens_eq (source : String) :
    (tokens source = tokensOf source ∧ ∀ t ∈ tokensOf source, t.kind ≠ .illegal) ∨
      ∃ legal t behind, tokensOf source = legal ++ t :: behind ∧ t.kind = .illegal ∧
        tokens source = legal ++ [sourceToken t] := by
  obtain ⟨legal, others, stop, hlayout, hlegal, hstop, hmunches⟩ := munches_layoutBehind [] source.toList
  obtain ⟨words, q, left, hcut, htokens⟩ := munches_cut .start source.toList
  obtain ⟨rfl, rfl, rfl⟩ := hcut.unique hmunches
  have htiles := tilesFrom_layoutBehind [] source.toList
  have hall := tokensOf_eq_layout source
  rw [List.nil_append] at hstop htiles htokens
  rw [layout, hlayout, List.map_append] at hall
  rw [hlayout] at htiles
  rw [List.map_map, List.map_congr_left fun p _ => token_munch p.token] at htokens
  rcases hstop with ⟨rfl, rfl⟩ | ⟨p, behind, rfl, hp, rfl⟩
  · rw [List.drop_length] at htokens
    rw [List.map_nil, List.append_nil] at hall
    refine .inl ⟨?_, fun t ht => ?_⟩
    · rw [tokens, htokens, hall]
      exact List.append_nil _
    · rw [hall] at ht
      obtain ⟨p, hp, rfl⟩ := List.mem_map.1 ht
      exact hlegal p hp
  · have hmem : p ∈ legal ++ p :: behind := List.mem_append_right _ (List.mem_cons_self ..)
    rw [illegalAt_of_standsAt (htiles.stands p hmem) (htiles.nonempty p hmem) hp] at htokens
    exact .inr ⟨legal.map PlacedToken.token, p.token, behind.map PlacedToken.token, hall, hp, htokens⟩

theorem run_of_illegal (ht : t.kind = .illegal) (behind : List Token) :
    σ.run (ts ++ t :: behind) = (σ.run ts).bind fun σ' => .error (σ', t) := by
  induction ts generalizing σ with
  | nil =>
    rw [List.nil_append, State.run.eq_2, shift_of_no_word (.inr ht)]
    rfl
  | cons u ts ih =>
    rw [List.cons_append, State.run, State.run]
    cases σ.shift u with
    | none => rfl
    | some next => exact ih

theorem sourceToken_sourceToken (ht : t.kind = .illegal) : sourceToken (sourceToken t) = sourceToken t := by
  simp [sourceToken, ht, List.take_take]

theorem parse_eq_parseTokens (source : String) : parse source = parseTokens (tokensOf source) := by
  rcases tokens_eq source with ⟨htokens, -⟩ | ⟨legal, t, behind, hall, ht, htokens⟩
  · rw [parse, htokens]
  · have ht' : (sourceToken t).kind = .illegal := by rw [sourceToken, ht]
    rw [parse, htokens, hall, parseTokens, parseTokens, run_of_illegal ht, run_of_illegal ht']
    cases State.initial.run legal with
    | error stuck => rfl
    | ok σ =>
      show Except.error (blame (sourceToken t)) = Except.error (blame t)
      rw [blame, blame, ht', ht, sourceToken_sourceToken ht]

end Automaton

end MonkeyLanguage
