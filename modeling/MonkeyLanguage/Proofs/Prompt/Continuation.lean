import Mathlib.Data.List.Forall2
import MonkeyLanguage.Prompt.Continuation
import MonkeyLanguage.Proofs.Parser.Concatenation
import MonkeyLanguage.Proofs.Token.Cutting

/-!
# Programs that go on

A program does not go on.  The beginning of one goes on if the cut is inside a string or between two brackets that
belong together (`goesOn_beginning`).

The depth of a beginning is never negative, and it is positive just where a pair of brackets is open
(`depth_beginning`).
-/

namespace MonkeyLanguage.Prompt

variable {ts us xs ys : List Token} {l r : Token}

/-! ## Depth -/

def weight (kind : Token.Kind) : Int :=
  if kind.isOpener then 1 else if kind.isCloser then -1 else 0

theorem depth_eq_foldl (ts : List Token) : depth ts = (ts.map fun t => weight t.kind).foldl (· + ·) 0 := by
  have hstep : (fun (n : Int) (t : Token) => if t.kind.isOpener then n + 1 else if t.kind.isCloser then n - 1 else n) =
      fun n t => n + weight t.kind := by
    funext n t
    cases ho : t.kind.isOpener <;> cases hc : t.kind.isCloser <;> simp [weight, ho, hc, Int.sub_eq_add_neg]
  rw [depth, hstep, List.foldl_map]

@[simp] theorem depth_nil : depth [] = 0 := rfl

@[simp] theorem depth_append (ts us : List Token) : depth (ts ++ us) = depth ts + depth us := by
  simp only [depth_eq_foldl, List.map_append, List.foldl_append]
  rw [← @List.foldl_assoc Int (· + ·), Int.add_zero]

@[simp] theorem depth_cons (t : Token) (ts : List Token) : depth (t :: ts) = weight t.kind + depth ts := by
  rw [← List.singleton_append, depth_append, depth_eq_foldl [t]]
  simp

theorem weight_of_not_bracket {kind : Token.Kind} (h : kind.isBracket = false) : weight kind = 0 := by
  rw [Token.Kind.isBracket, Bool.or_eq_false_iff] at h
  simp [weight, h]

theorem weight_of_closer {kind kind' : Token.Kind} (h : kind.closer? = some kind') :
    weight kind = 1 ∧ weight kind' = -1 := by
  cases kind <;> cases h <;> decide

theorem depth_of_balanced (h : Balanced ts) : depth ts = 0 := by
  induction h with
  | nil => rfl
  | token ht _ ih => rw [depth_cons, weight_of_not_bracket ht, ih, Int.zero_add]
  | brackets hlr _ _ ihts ihus =>
    obtain ⟨hl, hr⟩ := weight_of_closer hlr
    simp only [depth_cons, depth_append, hl, hr, ihts, ihus]
    omega

/-- The beginning of a balanced list has a depth, and if it is positive then a pair of brackets is open at its end. -/
theorem depth_beginning (h : Balanced (xs ++ ys)) :
    0 ≤ depth xs ∧ (0 < depth xs → ∃ before l inside inside' r after, xs = before ++ l :: inside ∧
      ys = inside' ++ r :: after ∧ l.kind.closer? = some r.kind ∧ Balanced (inside ++ inside')) := by
  induction h.cut with
  | between hxs _ =>
    rw [depth_of_balanced hxs]
    exact ⟨Int.le_refl 0, fun hpos => absurd hpos (Int.lt_irrefl 0)⟩
  | inside hbefore hlr hcut _ ih =>
    have hnonneg := (ih hcut.balanced).1
    rw [depth_append, depth_cons, depth_of_balanced hbefore, (weight_of_closer hlr).1]
    exact ⟨by omega, fun _ => ⟨_, _, _, _, _, _, rfl, rfl, hlr, hcut.balanced⟩⟩

theorem depth_pos_of_open {before inside inside' : List Token} (h : Balanced (before ++ ys))
    (hlr : l.kind.closer? = some r.kind) (hinside : Balanced (inside ++ inside')) :
    0 < depth (before ++ l :: inside) := by
  have hbefore := (depth_beginning h).1
  have hinside := (depth_beginning hinside).1
  rw [depth_append, depth_cons, (weight_of_closer hlr).1]
  omega

/-! ## Beginnings -/

variable {stop : Nat} {placed qs : List PlacedToken}

theorem depth_of_leftOf (h : List.Forall₂ (LeftOf stop) ts placed) :
    depth ts = depth (placed.map PlacedToken.token) := by
  induction h with
  | nil => rfl
  | @cons t p _ _ hleft _ ih =>
    have hweight : weight t.kind = weight p.token.kind := by
      rcases Nat.lt_or_ge stop p.stop with hcut | hwhole
      · obtain ⟨ht, hp, -⟩ := hleft.cut hcut
        rw [weight_of_not_bracket ht, weight_of_not_bracket hp]
      · rw [hleft.whole hwhole]
    rw [List.map_cons, depth_cons, depth_cons, ih, hweight]

theorem any_isOpenString_of_leftOf (h : List.Forall₂ (LeftOf stop) ts placed)
    (hlegal : ∀ p ∈ placed, p.token.kind ≠ .illegal) :
    ts.any isOpenString = true ↔ ∃ p ∈ placed, p.token.kind = .string ∧ p.offset < stop ∧ stop < p.stop := by
  induction h with
  | nil => simp
  | @cons t p _ _ hleft _ ih =>
    rw [List.forall_mem_cons] at hlegal
    have hopen : isOpenString t = true ↔ p.token.kind = .string ∧ p.offset < stop ∧ stop < p.stop := by
      rcases Nat.lt_or_ge stop p.stop with hcut | hwhole
      · obtain ⟨-, -, hstring⟩ := hleft.cut hcut
        simpa [isOpenString, hcut, hleft.front] using hstring
      · rw [hleft.whole hwhole]
        simp [isOpenString, hlegal.1, Nat.not_lt.2 hwhole]
    rw [List.any_cons, Bool.or_eq_true, hopen, ih hlegal.2]
    simp

/-- The two brackets belong together: they are of one kind, and what stands between them is balanced. -/
def Pair (placed : List PlacedToken) (l r : PlacedToken) : Prop :=
  ∃ before inside after, placed = before ++ l :: (inside ++ r :: after) ∧
    l.token.kind.closer? = some r.token.kind ∧ Balanced (inside.map PlacedToken.token)

theorem exists_between {α : Type} {xs ys before inside after : List α} {l r : α}
    (h : xs ++ ys = before ++ l :: (inside ++ r :: after)) (hl : l ∉ ys) (hr : r ∉ xs) :
    ∃ inside₁ inside₂, xs = before ++ l :: inside₁ ∧ inside = inside₁ ++ inside₂ ∧ ys = inside₂ ++ r :: after := by
  rcases List.append_eq_append_iff.1 h with ⟨others, rfl, rfl⟩ | ⟨others, rfl, hothers⟩
  · exact absurd (by simp) hl
  cases others with
  | nil =>
    rw [List.nil_append] at hothers
    exact absurd (hothers ▸ List.mem_cons_self ..) hl
  | cons x others =>
    obtain ⟨rfl, hrest⟩ := List.cons.inj hothers
    rcases List.append_eq_append_iff.1 hrest with ⟨front, rfl, hfront⟩ | ⟨behind, rfl, rfl⟩
    · cases front with
      | nil => exact ⟨inside, [], by simp, by simp, hfront.symm⟩
      | cons y front =>
        obtain ⟨rfl, -⟩ := List.cons.inj hfront
        exact absurd (by simp) hr
    · exact ⟨others, behind, rfl, rfl, rfl⟩

theorem depth_pos_iff (h : Balanced ((placed ++ qs).map PlacedToken.token)) (hfront : ∀ p ∈ placed, p.offset < stop)
    (hbehind : ∀ q ∈ qs, stop ≤ q.offset) :
    0 < depth (placed.map PlacedToken.token) ↔
      ∃ l r, Pair (placed ++ qs) l r ∧ l.offset < stop ∧ stop ≤ r.offset := by
  constructor
  · intro hpos
    rw [List.map_append] at h
    obtain ⟨before, l, inside, inside', r, after, hxs, hys, hlr, hinside⟩ := (depth_beginning h).2 hpos
    obtain ⟨before, others, rfl, rfl, hothers⟩ := List.map_eq_append_iff.1 hxs
    obtain ⟨l, inside, rfl, rfl, rfl⟩ := List.map_eq_cons_iff.1 hothers
    obtain ⟨inside', others, rfl, rfl, hothers⟩ := List.map_eq_append_iff.1 hys
    obtain ⟨r, after, rfl, rfl, rfl⟩ := List.map_eq_cons_iff.1 hothers
    refine ⟨l, r, ⟨before, inside ++ inside', after, by simp, hlr, by rwa [List.map_append]⟩, ?_, ?_⟩
    · exact hfront l (by simp)
    · exact hbehind r (by simp)
  · rintro ⟨l, r, ⟨before, inside, after, hall, hlr, hinside⟩, hl, hr⟩
    obtain ⟨inside, inside', rfl, rfl, rfl⟩ := exists_between hall
      (fun hmem => absurd (hbehind l hmem) (Nat.not_le.2 hl)) fun hmem => absurd (hfront r hmem) (Nat.not_lt.2 hr)
    rw [List.append_assoc, List.map_append] at h
    rw [List.map_append] at hinside
    rw [List.map_append, List.map_cons]
    exact depth_pos_of_open h hlr hinside

theorem goesOn_iff (text : String) :
    goesOn text = true ↔ (tokensOf text).any isOpenString = true ∨ 0 < depth (tokensOf text) := by
  have htokenize : tokenize text = tokensOf text ++ [.endAt (Cursor.ofString text).finish] := rfl
  rw [goesOn, htokenize, List.any_append, depth_append]
  simp [isOpenString, Token.endAt, weight, Token.Kind.isOpener, Token.Kind.isCloser]

theorem goesOn_eq_false {text : String} (hlegal : ∀ t ∈ tokensOf text, t.kind ≠ .illegal)
    (hbalanced : Balanced (tokensOf text)) : goesOn text = false := by
  rw [Bool.eq_false_iff, Ne, goesOn_iff, depth_of_balanced hbalanced]
  refine not_or_intro (fun hany => ?_) (Int.lt_irrefl 0)
  obtain ⟨t, ht, hopen⟩ := List.any_eq_true.1 hany
  simp [isOpenString, hlegal t ht] at hopen

theorem goesOn_front {source u v : String} (hlegal : ∀ t ∈ tokensOf source, t.kind ≠ .illegal)
    (hbalanced : Balanced (tokensOf source)) (h : source = u ++ v) :
    goesOn u = true ↔
      (∃ p ∈ Lexeme.layout source.toList, p.token.kind = .string ∧ p.offset < u.length ∧ u.length < p.stop) ∨
      ∃ l r, Pair (Lexeme.layout source.toList) l r ∧ l.offset < u.length ∧ u.length ≤ r.offset := by
  have hkinds : ∀ l ∈ Lexeme.split source.toList, l.kind ≠ .illegal := by
    intro l hl
    have hkind : l.kind ∈ (tokensOf source).map Token.kind := map_kind_tokensOf source ▸ List.mem_map_of_mem hl
    obtain ⟨t, ht, hkind⟩ := List.mem_map.1 hkind
    exact hkind ▸ hlegal t ht
  have htext : source.toList = u.toList ++ v.toList := by rw [h, String.toList_append]
  obtain ⟨placed, qs, hlayout, hleft, hbehind⟩ := exists_layout_append hkinds htext []
  change Lexeme.layout source.toList = _ at hlayout
  rw [List.nil_append, String.length_toList] at hleft hbehind
  rw [tokensOf_eq_layout, hlayout] at hlegal hbalanced
  rw [hlayout]
  have hplaced : ∀ p ∈ placed, p.token.kind ≠ .illegal := fun p hp =>
    hlegal p.token (List.mem_map_of_mem (List.mem_append_left qs hp))
  have hfront : ∀ p ∈ placed, p.offset < u.length := by
    intro p hp
    obtain ⟨i, hi, rfl⟩ := List.getElem_of_mem hp
    exact (List.Forall₂.get hleft (hleft.length_eq ▸ hi) hi).front
  have hany := any_isOpenString_of_leftOf hleft hplaced
  have hdepth := depth_pos_iff hbalanced hfront hbehind
  rw [← depth_of_leftOf hleft] at hdepth
  rw [goesOn_iff, ← hdepth]
  refine or_congr (hany.trans ⟨?_, ?_⟩) Iff.rfl
  · rintro ⟨p, hp, hopen⟩
    exact ⟨p, List.mem_append_left qs hp, hopen⟩
  · rintro ⟨p, hp, hkind, hstart, hstop⟩
    rcases List.mem_append.1 hp with hp | hp
    · exact ⟨p, hp, hkind, hstart, hstop⟩
    · exact absurd hstart (Nat.not_lt.2 (hbehind p hp))

/-- A program does not go on.  Its beginning goes on just if the cut is inside a string or between two brackets that
belong together. -/
theorem goesOn_beginning {frontEnd : FrontEnd} {source : String} {statements : List Node}
    (h : frontEnd.parse source = (statements, [])) :
    goesOn source = false ∧ ∃ placed : List PlacedToken,
      tokenize source = placed.map PlacedToken.token ++ [.endAt (.ofOffset source.toList source.length)] ∧
      TilesFrom 0 source.toList placed ∧
      ∀ u v : String, source = u ++ v →
        (goesOn u = true ↔
          (∃ p ∈ placed, p.token.kind = .string ∧ p.offset < u.length ∧ u.length < p.stop) ∨
          ∃ l r, Pair placed l r ∧ l.offset < u.length ∧ u.length ≤ r.offset) := by
  have hlegal := kind_ne_illegal_of_parse h
  have hbalanced := balanced_of_parse h
  obtain ⟨htokens, -, htiles⟩ := layout_spec source
  exact ⟨goesOn_eq_false hlegal hbalanced, _, htokens, htiles, fun u v => goesOn_front hlegal hbalanced⟩

/-- The beginning `f("` of a call goes on, so it ends inside the string or between the brackets. -/
theorem goesOn_beginning_of_call :
    FrontEnd.descent.parse "f(\"a\")" =
        ([.expressionStatement (.call (.identifier "f") [.string "a"])], []) ∧
      goesOn "f(\"" = true ∧
      ∃ placed : List PlacedToken, TilesFrom 0 "f(\"a\")".toList placed ∧
        ((∃ p ∈ placed, p.token.kind = .string ∧ p.offset < 3 ∧ 3 < p.stop) ∨
          ∃ l r, Pair placed l r ∧ l.offset < 3 ∧ 3 ≤ r.offset) := by
  have hparse : FrontEnd.descent.parse "f(\"a\")" =
      ([.expressionStatement (.call (.identifier "f") [.string "a"])], []) := by
    decide +kernel
  have hgoes : goesOn "f(\"" = true := by
    decide +kernel
  obtain ⟨-, placed, -, htiles, hfront⟩ := goesOn_beginning hparse
  exact ⟨hparse, hgoes, placed, htiles, (hfront "f(\"" "a\")" rfl).1 hgoes⟩

end MonkeyLanguage.Prompt
