import MonkeyLanguage.Proofs.Parser.Completion

/-!
# The first error is where no program goes on

Kinds of tokens are `Viable` if some program begins with tokens of these kinds.  What the automaton can run
over is viable (`viable_iff`), since every state leads to a program, and nothing else is.  The token
that is blamed first is therefore the first behind which no program goes on, and both front ends blame
it.
-/

namespace MonkeyLanguage

open Automaton

def Parse.Accepted (tokens : List Token) : Prop :=
  (ofTokens (rules tokens.length) .start tokens.length tokens []).failures = []

/-- Some program begins with tokens of these kinds, where `eof` stands for its end. -/
def Viable (kinds : List Token.Kind) : Prop :=
  ∃ tokens, Parse.Accepted tokens ∧ kinds <+: tokens.map Token.kind ++ [.eof]

/-- A program could go on behind the tokens `before`, but not with the next token of the text, whatever
integers stand in it. -/
def SyntaxErrorBehind (source : String) (before : List Token) : Prop :=
  ∃ token after, tokenize source = before ++ token :: after ∧ Viable (before.map Token.kind) ∧
    ¬Viable ((before ++ [token]).map Token.kind)

variable {σ σ' : State} {ts us : List Token} {t : Token} {source : String} {kinds : List Token.Kind}

theorem accepted_iff : Parse.Accepted ts ↔ ∃ statements, Accepts .initial ts statements := by
  have hreads := @ofTokens_reads ts.length ts.length .start ts [] [] (Nat.le_refl _) (Nat.le_refl _)
  simp only at hreads
  unfold Parse.Accepted
  split at hreads
  · next hf => exact ⟨fun _ => ⟨_, hreads⟩, fun _ => hf⟩
  · next hf => simp [hf, hreads.not_accepts, State.initial]

/-! ## Runs -/

theorem run_append (h : σ.run ts = .ok σ') : σ.run (ts ++ us) = σ'.run us := by
  induction ts generalizing σ with
  | nil =>
    cases h
    rfl
  | cons t ts ih =>
    rw [State.run] at h
    rw [List.cons_append, State.run]
    split at h
    · exact ih h
    · cases h

theorem run_append_eq_ok (h : σ.run (ts ++ us) = .ok σ') :
    ∃ σ₁, σ.run ts = .ok σ₁ ∧ σ₁.run us = .ok σ' := by
  induction ts generalizing σ with
  | nil => exact ⟨σ, rfl, h⟩
  | cons t ts ih =>
    rw [List.cons_append, State.run] at h
    rw [State.run]
    split at h
    · exact ih h
    · cases h

theorem run_eq_error (h : σ.run ts = .error (σ', t)) :
    ∃ before after, ts = before ++ t :: after ∧ σ.run before = .ok σ' ∧ σ'.shift t = none := by
  induction ts generalizing σ with
  | nil => cases h
  | cons u ts ih =>
    rw [State.run] at h
    split at h
    · next next hshift =>
      obtain ⟨before, after, rfl, hrun, ht⟩ := ih h
      refine ⟨u :: before, after, rfl, ?_, ht⟩
      rw [State.run, hshift]
      exact hrun
    · next hshift =>
      cases h
      exact ⟨[], ts, rfl, rfl, hshift⟩

theorem isWord_of_run (h : σ.run ts = .ok σ') : ∀ t ∈ ts, t.kind ≠ .eof ∧ t.kind ≠ .illegal := by
  intro t ht
  obtain ⟨before, after, rfl⟩ := List.append_of_mem ht
  obtain ⟨σ₁, -, hrun⟩ := run_append_eq_ok h
  rw [← not_or]
  intro hkind
  rw [State.run, shift_of_no_word hkind] at hrun
  cases hrun

/-! ## Texts for tokens -/

theorem isTooLarge_bare (kind : Token.Kind) : kind.bare.isTooLarge = false := by
  cases kind <;> decide

theorem map_kind_bare (kinds : List Token.Kind) :
    (kinds.map Token.Kind.bare).map Token.kind = kinds := by
  rw [List.map_map]
  exact List.map_id kinds

theorem exists_accepts (σ : State) :
    ∃ statements, Accepts σ (σ.completion.map Token.Kind.bare) statements := by
  refine completes σ _ (map_kind_bare _) fun t ht => ?_
  obtain ⟨kind, -, rfl⟩ := List.mem_map.1 ht
  exact isTooLarge_bare kind

theorem isWord_completion (σ : State) : ∀ kind ∈ σ.completion, kind ≠ .eof ∧ kind ≠ .illegal := by
  obtain ⟨statements, σ', htakes, -⟩ := exists_accepts σ
  have hword := isWord_of_run (takes_eq_some_iff.1 htakes).1
  exact fun kind hkind => hword kind.bare (List.mem_map_of_mem hkind)

theorem exists_words (hts : tokensOf source = ts ++ us) (hrun : σ.run ts = .ok σ') :
    ∃ ws : List String, (∀ w ∈ ws, isWord w = true) ∧
      (ws.map Token.ofWord).map Token.word = ts.map Token.word := by
  let lexemes := (Lexeme.split source.toList).take ts.length
  have htake : lexemes.map Lexeme.word = ts.map Token.word := by
    have hwords : (ts ++ us).map Token.word = (Lexeme.split source.toList).map Lexeme.word := by
      rw [← hts]
      exact map_word_ofLexemes _ _
    rw [List.map_take, ← hwords, List.map_append, List.take_left' (List.length_map _)]
  have hspells : ∀ l ∈ lexemes, Lexeme.Spells l.kind (String.ofList l.text).toList := by
    intro l hl
    rw [String.toList_ofList]
    refine Lexeme.spells_of_mem_split (List.mem_of_mem_take hl) ?_
    have hword := List.mem_map_of_mem (f := Lexeme.word) hl
    rw [htake] at hword
    obtain ⟨t, ht, hword⟩ := List.mem_map.1 hword
    rw [← show t.kind = l.kind from congrArg Prod.fst hword]
    exact (isWord_of_run hrun t ht).2
  refine ⟨lexemes.map fun l => String.ofList l.text, ?_, ?_⟩
  · intro w hw
    obtain ⟨l, hl, rfl⟩ := List.mem_map.1 hw
    exact isWord_of_spells (hspells l hl)
  · rw [← htake, List.map_map, List.map_map]
    refine List.map_congr_left fun l hl => ?_
    simp only [Function.comp_apply]
    rw [ofWord_of_spells (hspells l hl), String.toList_ofList]
    rfl

theorem exists_continuation (hts : tokensOf source = ts ++ us) (htakes : State.initial.takes ts = some σ) :
    ∃ source' more, (tokensOf source').map Token.word = ts.map Token.word ++ more ∧
      (FrontEnd.descent.parse source').2 = [] := by
  obtain ⟨ws, hws, hwords⟩ := exists_words hts (takes_eq_some_iff.1 htakes).1
  let more := σ.completion.map Token.Kind.sample
  have hmore : ∀ w ∈ ws ++ more, isWord w = true := by
    rw [List.forall_mem_append]
    refine ⟨hws, fun w hw => ?_⟩
    obtain ⟨kind, hkind, rfl⟩ := List.mem_map.1 hw
    obtain ⟨he, hi⟩ := isWord_completion σ kind hkind
    exact (isWord_sample he hi).1
  let text := (ws ++ more).flatMap fun w => ' ' :: w.toList
  have hlaid : Laid (ws ++ more) (String.ofList text).toList := by
    rw [String.toList_ofList]
    exact laid_flatMap _
  have htokens := map_word_tokensOf hlaid hmore
  rw [List.map_append, List.map_append, hwords] at htokens
  refine ⟨String.ofList text, _, htokens, ?_⟩
  have hkinds : (more.map Token.ofWord).map Token.kind = σ.completion := by
    rw [List.map_map, List.map_map]
    refine (List.map_congr_left fun kind hkind => ?_).trans (List.map_id _)
    obtain ⟨he, hi⟩ := isWord_completion σ kind hkind
    exact (isWord_sample he hi).2.1
  have hsmall : ∀ t ∈ more.map Token.ofWord, t.isTooLarge = false := by
    intro t ht
    obtain ⟨w, hw, rfl⟩ := List.mem_map.1 ht
    obtain ⟨kind, hkind, rfl⟩ := List.mem_map.1 hw
    obtain ⟨he, hi⟩ := isWord_completion σ kind hkind
    exact (isWord_sample he hi).2.2
  obtain ⟨statements, σ', htakes', hend⟩ := completes σ (more.map Token.ofWord) hkinds hsmall
  have hprogram : Accepts .initial (tokensOf (String.ofList text)) statements := by
    refine ⟨σ', ?_, hend⟩
    rw [← List.map_append] at htokens
    rw [takes_congr htokens, takes_append, htakes]
    exact htakes'
  rw [descent_eq_iff.2 hprogram]

/-! ## Viable kinds -/

theorem exists_run_of_accepted (h : Parse.Accepted us) (hkinds : ts.map Token.kind <+: us.map Token.kind) :
    ∃ σ, State.initial.run ts = .ok σ := by
  obtain ⟨statements, σ', htakes, -⟩ := accepted_iff.1 h
  obtain ⟨more, hmore⟩ := hkinds
  obtain ⟨start, rest, rfl, hstart, -⟩ := List.map_eq_append_iff.1 hmore.symm
  obtain ⟨σ₁, hrun, -⟩ := run_append_eq_ok (takes_eq_some_iff.1 htakes).1
  obtain ⟨σ, hσ, -⟩ := run_congr rfl hstart hrun
  exact ⟨σ, hσ⟩

theorem map_kind_outline (ts : List Token) : (ts.map Token.outline).map Token.kind = ts.map Token.kind := by
  rw [List.map_map]
  rfl

theorem exists_takes_outline (hrun : σ.run ts = .ok σ') :
    ∃ τ, σ.takes (ts.map Token.outline) = some τ ∧ σ'.outline = τ.outline := by
  obtain ⟨τ, hτ, houtline⟩ := run_congr rfl (map_kind_outline ts).symm hrun
  refine ⟨τ, takes_eq_some_iff.2 ⟨hτ, fun t ht => ?_⟩, houtline⟩
  obtain ⟨u, -, rfl⟩ := List.mem_map.1 ht
  exact isTooLarge_bare u.kind

/-- What the automaton runs over is viable, and nothing else is. -/
theorem viable_iff (hts : ∀ t ∈ ts, t.kind ≠ .eof) :
    Viable (ts.map Token.kind) ↔ ∃ σ, State.initial.run ts = .ok σ := by
  constructor
  · rintro ⟨us, haccepted, hprefix⟩
    rcases List.prefix_concat_iff.1 hprefix with hall | hprefix
    · have hmem : Token.Kind.eof ∈ ts.map Token.kind := by rw [hall]; simp
      obtain ⟨t, ht, hkind⟩ := List.mem_map.1 hmem
      exact absurd hkind (hts t ht)
    · exact exists_run_of_accepted haccepted hprefix
  · rintro ⟨σ, hrun⟩
    obtain ⟨τ, htakes, -⟩ := exists_takes_outline hrun
    obtain ⟨statements, haccepts⟩ := exists_accepts τ
    refine ⟨_, accepted_iff.2 ⟨statements, haccepts.prepend htakes⟩, ?_⟩
    rw [List.map_append, map_kind_outline, List.append_assoc]
    exact List.prefix_append _ _

theorem viable_end_iff :
    Viable (ts.map Token.kind ++ [.eof]) ↔
      ∃ σ statements, State.initial.run ts = .ok σ ∧ σ.statements? = some statements := by
  constructor
  · rintro ⟨us, haccepted, hprefix⟩
    obtain ⟨statements, haccepts⟩ := accepted_iff.1 haccepted
    rcases List.prefix_concat_iff.1 hprefix with hall | hprefix
    · have hkinds := (List.append_inj_left' hall rfl).symm
      obtain ⟨σ', htakes, hend⟩ := haccepts
      obtain ⟨σ, hrun, houtline⟩ := run_congr rfl hkinds (takes_eq_some_iff.1 htakes).1
      have hsome : σ.statements?.isSome = true := by
        rw [← statements?_outline, ← houtline, statements?_outline, hend]
        rfl
      obtain ⟨statements', hend'⟩ := Option.isSome_iff_exists.1 hsome
      exact ⟨σ, statements', hrun, hend'⟩
    · have hmem : Token.Kind.eof ∈ us.map Token.kind := hprefix.subset (by simp)
      obtain ⟨t, ht, hkind⟩ := List.mem_map.1 hmem
      obtain ⟨σ', htakes, -⟩ := haccepts
      exact absurd hkind (isWord_of_run (takes_eq_some_iff.1 htakes).1 t ht).1
  · rintro ⟨σ, statements, hrun, hend⟩
    obtain ⟨τ, htakes, houtline⟩ := exists_takes_outline hrun
    have hsome : τ.statements?.isSome = true := by
      rw [← statements?_outline, ← houtline, statements?_outline, hend]
      rfl
    obtain ⟨statements', hend'⟩ := Option.isSome_iff_exists.1 hsome
    refine ⟨_, accepted_iff.2 ⟨statements', τ, htakes, hend'⟩, ?_⟩
    exact ⟨[], by rw [List.append_nil, map_kind_outline]⟩

/-! ## Syntax errors -/

theorem not_viable_of_shift (hts : tokensOf source = ts ++ t :: us)
    (hrun : State.initial.run ts = .ok σ) (ht : σ.shift t = none) :
    ¬Viable ((ts ++ [t]).map Token.kind) := by
  have hne : ∀ u ∈ ts ++ [t], u.kind ≠ .eof := by
    intro u hu
    refine kind_ne_eof_of_mem_tokensOf source ?_
    rw [hts, List.append_cons]
    exact List.mem_append_left us hu
  rw [viable_iff hne, run_append hrun, State.run, ht]
  simp

theorem not_viable_of_end (hrun : State.initial.run ts = .ok σ) (hend : σ.statements? = none)
    (finish : Position) : ¬Viable ((ts ++ [Token.endAt finish]).map Token.kind) := by
  rw [List.map_append, List.map_singleton]
  change ¬Viable (ts.map Token.kind ++ [.eof])
  rw [viable_end_iff, hrun]
  rintro ⟨_, statements, hσ, hend'⟩
  cases hσ
  rw [hend] at hend'
  cases hend'

theorem viable_of_run (hts : tokensOf source = ts ++ us) (hrun : State.initial.run ts = .ok σ) :
    Viable (ts.map Token.kind) := by
  refine (viable_iff fun u hu => kind_ne_eof_of_mem_tokensOf source ?_).2 ⟨σ, hrun⟩
  rw [hts]
  exact List.mem_append_left us hu

theorem syntaxErrorBehind_of_shift (hts : tokensOf source = ts ++ t :: us)
    (hrun : State.initial.run ts = .ok σ) (ht : σ.shift t = none) : SyntaxErrorBehind source ts :=
  ⟨t, us ++ [.endAt (Cursor.ofString source).finish], by simp [tokenize_eq, hts],
    viable_of_run hts hrun, not_viable_of_shift hts hrun ht⟩

theorem syntaxErrorBehind_of_end (hrun : State.initial.run (tokensOf source) = .ok σ)
    (hend : σ.statements? = none) : SyntaxErrorBehind source (tokensOf source) :=
  ⟨.endAt (Cursor.ofString source).finish, [], by rw [tokenize_eq],
    viable_of_run (List.append_nil _).symm hrun, not_viable_of_end hrun hend _⟩

theorem shift_of_wanted {kind : Token.Kind} (hw : (σ.settle t.kind).wanted = some kind)
    (ht : t.kind = .integer) : σ.shift t = none := by
  rw [← shift_settle]
  have hself := settle_settle t.kind σ
  generalize σ.settle t.kind = settled at hw hself
  cases settled with
  | operator left hole =>
    have happ : hole.apply .expr left = (left, hole) := by
      rw [ht, State.settle, ExpressionHole.settle] at hself
      cases h : hole.apply Token.Kind.integer.level left with
      | mk whole outer =>
        rw [h] at hself
        refine Eq.trans h ?_
        cases outer with
        | returnValue outer | statement outer => simp [Token.Kind.level_eq] at hself
        | _ =>
          obtain ⟨hwhole, houter⟩ := State.operator.inj hself
          rw [hwhole, houter]
    rw [State.shift, proceed_of_no_operator (by rw [ht]; rfl) happ]
    cases hole <;> simp [ExpressionHole.finish, ht]
    all_goals cases hw
  | statement _ | operand _ | arguments _ _ | elements _ | entries _ _ | elseWord _ _ _ => cases hw
  | _ => simp [State.shift, shiftKind, ht]

/-- An integer that is too large is blamed for its value exactly where an integer may stand. -/
theorem shift_of_cause_ne {e : ParseError} {finish : Position} (h : Blocks σ finish e ts us σ')
    (hcause : e.cause ≠ .integerTooLarge) : σ'.shift e.token = none := by
  have hnone := h.take_eq
  rw [State.take] at hnone
  split at hnone
  · next hlarge =>
    have hkind : e.token.kind = .integer := by
      rw [Token.isTooLarge, Bool.and_eq_true] at hlarge
      exact of_decide_eq_true hlarge.1
    have hobjection := congrArg ParseError.cause h.complaint_eq
    cases hw : (σ'.settle e.token.kind).wanted with
    | some kind => exact shift_of_wanted hw hkind
    | none =>
      refine absurd (hobjection.trans ?_) hcause
      simp [State.complaint, State.objection, hw, hlarge]
  · exact hnone

/-! ## The first failure -/

theorem not_accepted_of_blocks {e : ParseError} {finish : Position} {start more : List Token}
    {literal : Token} (h : Blocks .initial finish e ts us σ)
    (hkinds : start.map Token.kind = ts.map Token.kind) (hword : literal.word = e.token.word) :
    ¬Parse.Accepted (start ++ literal :: more) := by
  intro haccepted
  obtain ⟨statements, σ', htakes, -⟩ := accepted_iff.1 haccepted
  rw [takes_append] at htakes
  obtain ⟨τ, hstart, hrest⟩ := Option.bind_eq_some_iff.1 htakes
  obtain ⟨τ₁, hliteral, -⟩ := Option.bind_eq_some_iff.1 hrest
  obtain ⟨σ₁, hrun, houtline⟩ := run_congr rfl hkinds (takes_eq_some_iff.1 hstart).1
  rw [(takes_eq_some_iff.1 h.takes_eq).1] at hrun
  cases hrun
  have hsmall : e.token.isTooLarge = false := by
    rw [← isTooLarge_congr hword]
    cases hlarge : literal.isTooLarge with
    | false => rfl
    | true => simp [State.take, hlarge] at hliteral
  have hnone := h.take_eq
  rw [State.take, hsmall] at hnone
  have hshift : (τ.shift literal).map State.outline = (σ.shift e.token).map State.outline := by
    rw [shift_congr hword, ← shift_outline τ, ← shift_outline σ, houtline]
  rw [shift_of_take hliteral, show σ.shift e.token = none from hnone] at hshift
  cases hshift

theorem sourceToken_kind (t : Token) : (sourceToken t).kind = t.kind := by
  unfold sourceToken
  split <;> rfl

theorem sourceToken_position (t : Token) : (sourceToken t).position = t.position := by
  unfold sourceToken
  split <;> rfl

theorem parse_of_end (hrun : State.initial.run (tokensOf source) = .ok σ) (hend : σ.statements? = none) :
    ∃ error, Automaton.parse source = .error error ∧ error.token.kind = .eof ∧
      (tokensOf source).getLast?.map Token.position = some error.token.position := by
  refine ⟨⟨.unexpected, endToken (tokensOf source)⟩, ?_, rfl, ?_⟩
  · rw [parse_eq_parseTokens, parseTokens, hrun]
    simp only [hend]
  · rw [endToken]
    cases hlast : (tokensOf source).getLast? with
    | none =>
      rw [List.getLast?_eq_none_iff.1 hlast] at hrun
      cases hrun
      cases hend
    | some last => rfl

theorem parse_of_shift (hts : tokensOf source = ts ++ t :: us) (hrun : State.initial.run ts = .ok σ)
    (ht : σ.shift t = none) : Automaton.parse source = .error (blame t) := by
  have hstuck : State.initial.run (ts ++ t :: us) = .error (σ, t) := by
    rw [run_append hrun, State.run, ht]
  rw [parse_eq_parseTokens, hts, parseTokens, hstuck]

theorem parse_of_large (hts : tokensOf source = ts ++ t :: us) (hsmall : ∀ u ∈ ts, u.isTooLarge = false)
    (hlarge : t.isTooLarge = true) (hbefore : ∀ before, SyntaxErrorBehind source before → t ∉ before)
    (hrun : State.initial.run ts = .ok σ) (ht : σ.shift t = some σ') :
    Automaton.parse source = .error ⟨.integerTooLarge, t⟩ := by
  have hfind : (ts ++ t :: us).find? Token.isTooLarge = some t := by
    rw [List.find?_append, List.find?_eq_none.2 fun u hu => by simp [hsmall u hu]]
    simp [hlarge]
  have hrest {vs : List Token} : State.initial.run (ts ++ t :: vs) = σ'.run vs := by
    rw [run_append hrun, State.run, ht]
  cases hall : σ'.run us with
  | error stuck =>
    obtain ⟨σ₁, u⟩ := stuck
    obtain ⟨between, after, rfl, hbetween, hu⟩ := run_eq_error hall
    have htokens : tokensOf source = (ts ++ t :: between) ++ u :: after := by simp [hts]
    have herror := syntaxErrorBehind_of_shift htokens (hrest.trans hbetween) hu
    exact absurd (by simp) (hbefore _ herror)
  | ok σ₁ =>
    rw [← hrest] at hall
    cases hend : σ₁.statements? with
    | none => exact absurd (by simp [hts]) (hbefore _ (syntaxErrorBehind_of_end (hts ▸ hall) hend))
    | some statements =>
      rw [parse_eq_parseTokens, hts, parseTokens, hall]
      simp only [hend, hfind]

/-- The automaton blames the same token, and the end of the text where its last token starts. -/
theorem automaton_blames {e : ParseError} (hts : tokensOf source = ts ++ us)
    (h : Blocks .initial (Cursor.ofString source).finish e ts us σ)
    (hlarge : ∀ before, SyntaxErrorBehind source before → ∀ u ∈ before, u.isTooLarge = false) :
    ∃ error, Automaton.parse source = .error error ∧ error.token.kind = e.token.kind ∧
      (e.token.kind ≠ .eof → error.token.position = e.token.position) ∧
      (e.token.kind = .eof → (tokensOf source).getLast?.map Token.position = some error.token.position) := by
  obtain ⟨hrun, hsmall⟩ := takes_eq_some_iff.1 h.takes_eq
  cases us with
  | nil =>
    have hkind : e.token.kind = .eof := by
      rw [h.token_eq]
      rfl
    rw [List.append_nil] at hts
    obtain ⟨error, hparse, herror, hposition⟩ := parse_of_end (hts ▸ hrun) (h.end_eq rfl)
    exact ⟨error, hparse, herror.trans hkind.symm, fun hne => absurd hkind hne, fun _ => hposition⟩
  | cons t us =>
    have htoken : e.token = t := h.token_eq
    have hne : t.kind ≠ .eof := kind_ne_eof_of_mem_tokensOf source (by simp [hts])
    rw [htoken]
    cases hshift : σ.shift t with
    | none =>
      exact ⟨blame t, parse_of_shift hts hrun hshift, sourceToken_kind t, fun _ => sourceToken_position t,
        fun heof => absurd heof hne⟩
    | some σ₁ =>
      have htoo : t.isTooLarge = true := by
        have hnone := h.take_eq
        rw [htoken, State.take, hshift] at hnone
        cases hl : t.isTooLarge with
        | true => rfl
        | false => simp [hl] at hnone
      have hbefore : ∀ before, SyntaxErrorBehind source before → t ∉ before := by
        intro before hbehind hmem
        rw [hlarge before hbehind t hmem] at htoo
        cases htoo
      exact ⟨⟨.integerTooLarge, t⟩, parse_of_large hts hsmall htoo hbefore hrun hshift, rfl, fun _ => rfl,
        fun heof => absurd heof hne⟩

/-- The token blamed first is the first that no program goes on with, and the automaton blames it too. -/
theorem first_failure_is_first_error {failure : StatementForm × ParseError}
    {failures : List (StatementForm × ParseError)}
    (hfailures : (Parse.ofString source).failures = failure :: failures)
    (hlarge : ∀ before, SyntaxErrorBehind source before → ∀ t ∈ before, t.isTooLarge = false) :
    ∃ before after, tokenize source = before ++ failure.2.token :: after ∧
      (∃ source' more, (tokensOf source').map Token.word = before.map Token.word ++ more ∧
        (FrontEnd.descent.parse source').2 = []) ∧
      (failure.2.cause ≠ .integerTooLarge →
        ¬Viable ((before ++ [failure.2.token]).map Token.kind)) ∧
      (∀ start literal more, start.map Token.kind = before.map Token.kind →
        literal.word = failure.2.token.word → ¬Parse.Accepted (start ++ literal :: more)) ∧
      ∃ error, Automaton.parse source = .error error ∧ error.token.kind = failure.2.token.kind ∧
        (failure.2.token.kind ≠ .eof → error.token.position = failure.2.token.position) ∧
        (failure.2.token.kind = .eof →
          (tokensOf source).getLast?.map Token.position = some error.token.position) := by
  have hreads := parse_reads source
  rw [hfailures] at hreads
  obtain ⟨before, rest, σ, htokens, hblocks⟩ := hreads
  refine ⟨before, rest.tail ++ (if rest = [] then [] else [.endAt (Cursor.ofString source).finish]), ?_,
    exists_continuation htokens hblocks.takes_eq, fun hcause => ?_, fun start literal more hkinds hword =>
    not_accepted_of_blocks hblocks hkinds hword, automaton_blames htokens hblocks hlarge⟩
  · rw [tokenize_eq, htokens, hblocks.token_eq]
    cases rest <;> simp
  · have hrun := (takes_eq_some_iff.1 hblocks.takes_eq).1
    cases rest with
    | nil =>
      rw [hblocks.token_eq]
      exact not_viable_of_end hrun (hblocks.end_eq rfl) _
    | cons token rest =>
      have htoken : failure.2.token = token := hblocks.token_eq
      rw [htoken]
      exact not_viable_of_shift htokens hrun (htoken ▸ shift_of_cause_ne hblocks hcause)

theorem missing_assign_is_first_error :
    ¬Viable [.letWord, .identifier, .integer] ∧
      ∃ error, Automaton.parse "let x 5" = .error error ∧ error.token.position = ⟨1, 7⟩ := by
  have htokenize : tokenize "let x 5" = [⟨.letWord, "let", ⟨1, 1⟩⟩, ⟨.identifier, "x", ⟨1, 5⟩⟩,
      ⟨.integer, "5", ⟨1, 7⟩⟩, ⟨.eof, "", ⟨1, 8⟩⟩] := by decide +kernel
  have hfailures : (Parse.ofString "let x 5").failures =
      [(.letStatement, ⟨.expected .assign, ⟨.integer, "5", ⟨1, 7⟩⟩⟩)] := by decide +kernel
  have hsmall : ∀ t ∈ tokenize "let x 5", t.isTooLarge = false := by decide +kernel
  obtain ⟨before, after, htokens, -, hviable, -, error, herror, -, hposition, -⟩ :=
    first_failure_is_first_error hfailures fun before ⟨token, after, htokens, _⟩ t ht =>
      hsmall t (htokens ▸ List.mem_append_left _ ht)
  refine ⟨?_, error, herror, hposition (by decide)⟩
  have hkinds : before.map Token.kind = [.letWord, .identifier] := by
    rw [htokenize] at htokens
    clear hviable hsmall htokenize
    rcases before with _ | ⟨a, _ | ⟨b, _ | ⟨c, _ | ⟨d, before⟩⟩⟩⟩
    · simp at htokens
    · simp at htokens
    · simp only [List.cons_append, List.nil_append, List.cons.injEq] at htokens
      rw [← htokens.1, ← htokens.2.1]
      rfl
    · simp at htokens
    · simp at htokens
  have hnot := hviable (by decide)
  rw [List.map_append, hkinds] at hnot
  exact hnot

end MonkeyLanguage
