import MonkeyLanguage.Parser.Recovery

/-!
# Skipping a malformed statement

A counter goes up at opening brackets and down at closing ones, never below zero (`countBrackets`).  The
stack of the parser is never higher, since it drops unclosed brackets at a semicolon.  So skipping comes
to rest where the counter is zero and a semicolon follows (`skipStatement_closed`).
-/

namespace MonkeyLanguage

/-! ## Counting brackets -/

/-- The number of brackets open behind a token, if `n` are open before it. -/
def Token.Kind.count (n : Nat) (kind : Token.Kind) : Nat :=
  if kind.isOpener then n + 1 else if kind.isCloser then n - 1 else n

def countBrackets (n : Nat) (ts : List Token) : Nat :=
  ts.foldl (fun n t => t.kind.count n) n

/-- No bracket is open behind the tokens if `n` are open before them, and a semicolon ends them. -/
structure Closed (n : Nat) (ts : List Token) : Prop where
  count_eq : countBrackets n ts = 0
  last_eq : ∀ t ∈ ts.getLast?, t.kind = .semicolon

variable {t : Token} {ts taken left : List Token} {brackets : OpenBrackets} {m n : Nat}

theorem count_mono (h : m ≤ n) (kind : Token.Kind) : kind.count m ≤ kind.count n := by
  unfold Token.Kind.count
  split
  · omega
  split
  · omega
  · exact h

theorem countBrackets_mono (h : m ≤ n) (ts : List Token) : countBrackets m ts ≤ countBrackets n ts := by
  induction ts generalizing m n with
  | nil => exact h
  | cons t ts ih => exact ih (count_mono h t.kind)

theorem length_read (brackets : OpenBrackets) (kind : Token.Kind) :
    (brackets.read kind).length = kind.count brackets.length := by
  unfold OpenBrackets.read Token.Kind.count
  split
  · rfl
  split
  · exact List.length_tail
  · rfl

theorem length_readAll (brackets : OpenBrackets) (ts : List Token) :
    (brackets.readAll ts.reverse).length = countBrackets brackets.length ts := by
  rw [OpenBrackets.readAll, List.foldr_reverse]
  induction ts generalizing brackets with
  | nil => rfl
  | cons t ts ih =>
    rw [List.foldl_cons, ih, length_read]
    rfl

theorem Closed.mono (h : Closed n ts) (hle : m ≤ n) : Closed m ts where
  count_eq := Nat.le_zero.1 (h.count_eq ▸ countBrackets_mono hle ts)
  last_eq := h.last_eq

theorem Closed.right (h : Closed n (taken ++ left)) : Closed (countBrackets n taken) left where
  count_eq := by
    rw [← h.count_eq, countBrackets, countBrackets, countBrackets, List.foldl_append]
  last_eq := fun t ht => h.last_eq t (by rw [List.getLast?_append, Option.mem_def.1 ht]; rfl)

theorem Closed.tail (h : Closed n (t :: ts)) : Closed (t.kind.count n) ts :=
  Closed.right (show Closed n ([t] ++ ts) from h)

theorem brackets_eq_nil_of_closed (h : Closed brackets.length []) : brackets = [] :=
  List.length_eq_zero_iff.1 h.count_eq

/-! ## Skipping -/

theorem length_dropUnclosed (depth : Nat) (brackets : OpenBrackets) :
    (brackets.dropUnclosed depth).length ≤ brackets.length := by
  induction brackets with
  | nil => exact Nat.le_refl 0
  | cons kind outer ih =>
    rw [OpenBrackets.dropUnclosed]
    split
    · exact Nat.le_succ_of_le ih
    · exact Nat.le_refl _

/-- Skipping stops before a token, or at a semicolon, or it goes on; what stands behind the token makes no
difference.  Brackets are forgotten behind a semicolon only. -/
theorem skipStatement_cons (depth : Nat) (last : Token) (brackets : OpenBrackets) (t : Token) :
    ∃ kept : OpenBrackets, (kept = brackets ∨ last.kind = .semicolon ∧ kept = brackets.dropUnclosed depth) ∧
      ((kept.length ≤ depth ∧ ∀ ts, skipStatement depth last brackets (t :: ts) = (t :: ts, kept)) ∨
        (kept.length ≤ depth ∧ t.kind = .semicolon ∧
          ∀ ts, skipStatement depth last brackets (t :: ts) = (ts, kept)) ∨
        ∀ ts, skipStatement depth last brackets (t :: ts) = skipStatement depth t (kept.read t.kind) ts) := by
  by_cases hsemicolon : last.kind = .semicolon
  · refine ⟨brackets.dropUnclosed depth, .inr ⟨hsemicolon, rfl⟩, ?_⟩
    by_cases hdepth : (brackets.dropUnclosed depth).length ≤ depth
    · exact .inl ⟨hdepth, fun ts => by simp [skipStatement, hsemicolon, hdepth]⟩
    · exact .inr (.inr fun ts => by simp [skipStatement, hsemicolon, hdepth])
  · refine ⟨brackets, .inl rfl, ?_⟩
    by_cases hend : last.kind = .rightBrace ∧ brackets.length ≤ depth ∧ t.kind ≠ .elseWord
    · by_cases ht : t.kind = .semicolon
      · exact .inr (.inl ⟨hend.2.1, ht, fun ts => by simp [skipStatement, hend, ht]⟩)
      · exact .inl ⟨hend.2.1, fun ts => by simp [skipStatement, hend, ht]⟩
    · exact .inr (.inr fun ts => by simp [skipStatement, hsemicolon, hend])

theorem skipStatement_suffix (depth : Nat) (last : Token) (brackets : OpenBrackets) (ts : List Token) :
    (skipStatement depth last brackets ts).1 <:+ ts := by
  induction ts generalizing last brackets with
  | nil => exact List.suffix_refl []
  | cons t ts ih =>
    obtain ⟨kept, -, ⟨-, h⟩ | ⟨-, -, h⟩ | h⟩ := skipStatement_cons depth last brackets t
    · simp [h]
    · simp [h]
    · rw [h]
      exact (ih _ _).trans (List.suffix_cons t ts)

theorem length_skipStatement (depth : Nat) (last : Token) (brackets : OpenBrackets) (ts : List Token) :
    (skipStatement depth last brackets ts).1.length ≤ ts.length :=
  (skipStatement_suffix depth last brackets ts).length_le

theorem skipStatement_zero (last : Token) (brackets : OpenBrackets) (ts : List Token) :
    (skipStatement 0 last brackets ts).2 = [] := by
  induction ts generalizing last brackets with
  | nil => exact List.drop_length
  | cons t ts ih =>
    obtain ⟨kept, -, ⟨hkept, hskip⟩ | ⟨hkept, -, hskip⟩ | hskip⟩ := skipStatement_cons 0 last brackets t
    · rw [hskip]
      exact List.length_eq_zero_iff.1 (Nat.le_zero.1 hkept)
    · rw [hskip]
      exact List.length_eq_zero_iff.1 (Nat.le_zero.1 hkept)
    · rw [hskip]
      exact ih _ _

theorem skipStatement_closed {last : Token} (hlast : ts = [] → last.kind = .semicolon)
    (h : Closed brackets.length ts) :
    ∃ dropped left, ts = dropped ++ left ∧
      ∀ rest, skipStatement 0 last brackets (ts ++ rest) = (left ++ rest, []) := by
  induction ts generalizing last brackets with
  | nil =>
    obtain rfl := brackets_eq_nil_of_closed h
    refine ⟨[], [], rfl, fun rest => ?_⟩
    cases rest with
    | nil => rfl
    | cons t rest => simp [skipStatement, hlast rfl, OpenBrackets.dropUnclosed]
  | cons t ts ih =>
    obtain ⟨kept, hfrom, ⟨hkept, hskip⟩ | ⟨hkept, -, hskip⟩ | hskip⟩ :=
      skipStatement_cons 0 last brackets t
    · obtain rfl : kept = [] := List.length_eq_zero_iff.1 (Nat.le_zero.1 hkept)
      exact ⟨[], t :: ts, rfl, fun rest => hskip (ts ++ rest)⟩
    · obtain rfl : kept = [] := List.length_eq_zero_iff.1 (Nat.le_zero.1 hkept)
      exact ⟨[t], ts, rfl, fun rest => hskip (ts ++ rest)⟩
    · have hlength : kept.length ≤ brackets.length := by
        rcases hfrom with rfl | ⟨-, rfl⟩
        · exact Nat.le_refl _
        · exact length_dropUnclosed 0 brackets
      have hclosed : Closed (kept.read t.kind).length ts := by
        rw [length_read]
        exact (h.mono hlength).tail
      obtain ⟨dropped, left, htokens, hrest⟩ :=
        ih (fun hts => h.last_eq t (by rw [hts]; rfl)) hclosed
      exact ⟨t :: dropped, left, congrArg (t :: ·) htokens,
        fun rest => (hskip (ts ++ rest)).trans (hrest rest)⟩

end MonkeyLanguage
