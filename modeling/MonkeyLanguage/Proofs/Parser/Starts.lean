import MonkeyLanguage.Proofs.Parser.Brackets
import MonkeyLanguage.Proofs.Parser.Resumption

/-!
# Where statements start

`Parse.statementsAt` tells at which token each statement of a program starts.  However malformed the text is, no
statement starts between two braces that belong together (`statements_outside_braces`), provided that a semicolon
between braces stands in no other bracket inside them.

At a semicolon the parser forgets parentheses and square brackets up to the next brace, as if they were never
closed.  If they are closed behind it, then the closing brackets take braces off the stack, and the parser comes to
rest too early (`statement_inside_braces`).  Without such a semicolon the stack of the parser and the brackets of the
text differ in what stands around the outermost brace at most (`InStep`), and where the stack is empty the text stands
in no brace.
-/

namespace MonkeyLanguage

open Automaton

variable {t last : Token} {ts left : List Token} {brackets kept all : OpenBrackets} {m n : Nat} {finish : Position}

/-! ## The starts of statements -/

/-- The well-formed statements that `ofTokens` finds, each with the tokens from its first on. -/
def Parse.statementsAt (r : Rules) (finish : Position) : Nat → List Token → OpenBrackets → List (List Token × Node)
  | 0, _, _ => []
  | _, [], _ => []
  | n + 1, first :: rest, brackets =>
    match r.statement ⟨[], first :: rest, finish⟩ with
    | .ok node stream =>
      (first :: rest, node) :: statementsAt r finish n stream.tokens (brackets.readAll stream.read)
    | .error _ stream =>
      let (tokens, brackets) := skipStatement (brackets.depthAround first.kind)
        (stream.read.headD first) (brackets.readAll stream.read) stream.tokens
      statementsAt r finish n tokens brackets

def statementsAt (source : String) : List (List Token × Node) :=
  Parse.statementsAt (rules (tokensOf source).length) (Cursor.ofString source).finish (tokensOf source).length
    (tokensOf source) []

theorem map_snd_ofTokens (r : Rules) (finish : Position) (n : Nat) (ts : List Token) (brackets : OpenBrackets) :
    (Parse.statementsAt r finish n ts brackets).map Prod.snd = (Parse.ofTokens r finish n ts brackets).statements := by
  induction n generalizing ts brackets with
  | zero => rfl
  | succ n ih =>
    cases ts with
    | nil => rfl
    | cons first rest =>
      rw [Parse.statementsAt, Parse.ofTokens]
      cases r.statement ⟨[], first :: rest, finish⟩ with
      | ok node stream => exact congrArg (node :: ·) (ih _ _)
      | error e stream => exact ih _ _

theorem map_snd_statementsAt (source : String) :
    (statementsAt source).map Prod.snd = (FrontEnd.descent.parse source).1 :=
  map_snd_ofTokens ..

/-! ## Places in braces -/

/-- The place between the tokens `before` and `left` is between two braces that belong together. -/
def InBraces (before left : List Token) : Prop :=
  ∃ outside l inside inside' r after, before = outside ++ l :: inside ∧ left = inside' ++ r :: after ∧
    l.kind = .leftBrace ∧ r.kind = .rightBrace ∧ Balanced (inside ++ inside')

namespace OpenBrackets

theorem readAll_append (brackets : OpenBrackets) (ts us : List Token) :
    brackets.readAll (ts ++ us).reverse = (brackets.readAll ts.reverse).readAll us.reverse := by
  rw [List.reverse_append, readAll, readAll, readAll, List.foldr_append]

theorem readAll_cons (brackets : OpenBrackets) (t : Token) (ts : List Token) :
    brackets.readAll (t :: ts).reverse = (brackets.read t.kind).readAll ts.reverse :=
  readAll_append brackets [t] ts

theorem read_of_not_isBracket {kind : Token.Kind} (h : kind.isBracket = false) : brackets.read kind = brackets := by
  rw [Token.Kind.isBracket, Bool.or_eq_false_iff] at h
  simp [read, h]

theorem read_of_closer {kind kind' : Token.Kind} (h : kind.closer? = some kind') :
    brackets.read kind = kind :: brackets ∧ ∀ outer : OpenBrackets, outer.read kind' = outer.tail := by
  cases kind <;> cases h <;> exact ⟨rfl, fun _ => rfl⟩

theorem readAll_balanced (h : Balanced ts) (brackets : OpenBrackets) : brackets.readAll ts.reverse = brackets := by
  induction h generalizing brackets with
  | nil => rfl
  | token ht _ ih => rw [readAll_cons, read_of_not_isBracket ht, ih]
  | brackets hlr _ _ ihts ihus =>
    obtain ⟨hopen, hclose⟩ := @read_of_closer brackets _ _ hlr
    rw [readAll_cons, hopen, readAll_append, ihts, readAll_cons, hclose]
    exact ihus brackets

theorem exists_readAll_front {front behind : List Token} (h : Balanced (front ++ behind)) (brackets : OpenBrackets) :
    ∃ inner, brackets.readAll front.reverse = inner ++ brackets := by
  induction h.cut generalizing brackets with
  | between hfront _ => exact ⟨[], readAll_balanced hfront brackets⟩
  | @inside before _ _ _ l _ hbefore hlr hcut _ ih =>
    obtain ⟨inner, hinner⟩ := ih hcut.balanced (l.kind :: brackets)
    refine ⟨inner ++ [l.kind], ?_⟩
    rw [readAll_append, readAll_balanced hbefore, readAll_cons, (read_of_closer hlr).1, hinner, List.append_cons]

/-- Between braces that belong together a brace is open. -/
theorem mem_readAll_of_inBraces {before left : List Token} (h : InBraces before left) (brackets : OpenBrackets) :
    .leftBrace ∈ brackets.readAll before.reverse := by
  obtain ⟨outside, l, inside, inside', r, after, rfl, -, hl, -, hbalanced⟩ := h
  have hopen (outer : OpenBrackets) : outer.read l.kind = .leftBrace :: outer := by rw [hl]; rfl
  rw [readAll_append, readAll_cons, hopen]
  obtain ⟨inner, hinner⟩ := exists_readAll_front hbalanced (.leftBrace :: brackets.readAll outside.reverse)
  rw [hinner]
  simp

/-! ## Two stacks in step -/

/-- A brace is the innermost bracket, if one is open. -/
def AtBlock (brackets : OpenBrackets) : Prop :=
  .leftBrace ∈ brackets → brackets.head? = some .leftBrace

instance (brackets : OpenBrackets) : Decidable brackets.AtBlock :=
  inferInstanceAs (Decidable (_ → _))

/-- The stacks hold the same brackets down to the outermost brace. -/
def InStep (kept all : OpenBrackets) : Prop :=
  ∃ inner outer outer', kept = inner ++ outer ∧ all = inner ++ outer' ∧ .leftBrace ∉ outer ∧ .leftBrace ∉ outer'

namespace InStep

theorem nil_iff : InStep [] all ↔ .leftBrace ∉ all := by
  constructor
  · rintro ⟨inner, outer, outer', hnil, rfl, -, houter'⟩
    obtain ⟨rfl, -⟩ := List.append_eq_nil_iff.1 hnil.symm
    exact houter'
  · exact fun h => ⟨[], [], all, rfl, rfl, nofun, h⟩

theorem read (h : InStep kept all) (kind : Token.Kind) : InStep (kept.read kind) (all.read kind) := by
  obtain ⟨inner, outer, outer', rfl, rfl, houter, houter'⟩ := h
  unfold OpenBrackets.read
  split
  · exact ⟨kind :: inner, outer, outer', rfl, rfl, houter, houter'⟩
  split
  · cases inner with
    | nil =>
      exact ⟨[], outer.tail, outer'.tail, rfl, rfl, fun hmem => houter (List.mem_of_mem_tail hmem),
        fun hmem => houter' (List.mem_of_mem_tail hmem)⟩
    | cons k inner => exact ⟨inner, outer, outer', rfl, rfl, houter, houter'⟩
  · exact ⟨inner, outer, outer', rfl, rfl, houter, houter'⟩

theorem readAll (h : InStep kept all) (ts : List Token) : InStep (kept.readAll ts) (all.readAll ts) := by
  induction ts with
  | nil => exact h
  | cons t ts ih => exact ih.read t.kind

theorem dropUnclosed (h : InStep kept all) (hall : all.AtBlock) : InStep (kept.dropUnclosed 0) all := by
  obtain ⟨inner, outer, outer', rfl, rfl, houter, houter'⟩ := h
  by_cases hmem : .leftBrace ∈ inner
  · cases inner with
    | nil => cases hmem
    | cons k inner =>
      obtain rfl : k = .leftBrace := Option.some.inj (hall (List.mem_append_left outer' hmem))
      rw [List.cons_append, OpenBrackets.dropUnclosed, if_neg (by simp)]
      exact ⟨.leftBrace :: inner, outer, outer', rfl, rfl, houter, houter'⟩
  · have hnone (brackets : OpenBrackets) (h : .leftBrace ∉ brackets) : brackets.dropUnclosed 0 = [] := by
      induction brackets with
      | nil => rfl
      | cons k brackets ih =>
        rw [List.mem_cons, not_or] at h
        rw [OpenBrackets.dropUnclosed, if_pos ⟨Nat.zero_le _, Ne.symm h.1⟩, ih h.2]
    rw [hnone _ (by simp [hmem, houter]), nil_iff]
    simp [hmem, houter']

end InStep

end OpenBrackets

open OpenBrackets

/-- Each semicolon that stands in braces stands in no other bracket inside them, if these brackets are open before
the tokens. -/
def SemicolonsInBlocks (brackets : OpenBrackets) : List Token → Prop
  | [] => True
  | t :: ts => (t.kind = .semicolon → brackets.AtBlock) ∧ SemicolonsInBlocks (brackets.read t.kind) ts

instance decidableSemicolonsInBlocks (brackets : OpenBrackets) :
    (ts : List Token) → Decidable (SemicolonsInBlocks brackets ts)
  | [] => inferInstanceAs (Decidable True)
  | t :: ts =>
    have := decidableSemicolonsInBlocks (brackets.read t.kind) ts
    inferInstanceAs (Decidable ((t.kind = .semicolon → brackets.AtBlock) ∧ _))

theorem SemicolonsInBlocks.right {taken : List Token} (h : SemicolonsInBlocks all (taken ++ left)) :
    SemicolonsInBlocks (all.readAll taken.reverse) left := by
  induction taken generalizing all with
  | nil => exact h
  | cons t taken ih =>
    rw [readAll_cons]
    exact ih h.2

/-! ## Malformed statements -/

theorem skipStatement_inStep (h : InStep kept all) (hlast : last.kind = .semicolon → all.AtBlock)
    (hts : SemicolonsInBlocks all ts) :
    ∃ dropped, ts = dropped ++ (skipStatement 0 last kept ts).1 ∧
      ((skipStatement 0 last kept ts).1 ≠ [] → .leftBrace ∉ all.readAll dropped.reverse) := by
  induction ts generalizing last kept all with
  | nil => exact ⟨[], rfl, fun hne => absurd rfl hne⟩
  | cons t ts ih =>
    obtain ⟨rest, hfrom, ⟨hrest, hskip⟩ | ⟨hrest, ht, hskip⟩ | hskip⟩ := skipStatement_cons 0 last kept t
    all_goals
      have hstep : InStep rest all := by
        rcases hfrom with rfl | ⟨hsemicolon, rfl⟩
        · exact h
        · exact h.dropUnclosed (hlast hsemicolon)
      rw [hskip]
    · obtain rfl : rest = [] := List.length_eq_zero_iff.1 (Nat.le_zero.1 hrest)
      exact ⟨[], rfl, fun _ => InStep.nil_iff.1 hstep⟩
    · obtain rfl : rest = [] := List.length_eq_zero_iff.1 (Nat.le_zero.1 hrest)
      refine ⟨[t], rfl, fun _ => ?_⟩
      rw [readAll_cons, ht]
      exact InStep.nil_iff.1 hstep
    · have hread : t.kind = .semicolon → (all.read t.kind).AtBlock := by
        intro ht
        rw [read_of_not_isBracket (by rw [ht]; rfl)]
        exact hts.1 ht
      obtain ⟨dropped, htokens, hbrace⟩ := ih (hstep.read t.kind) hread hts.2
      refine ⟨t :: dropped, congrArg (t :: ·) htokens, fun hne => ?_⟩
      rw [readAll_cons]
      exact hbrace hne

/-! ## Programs -/

theorem skipStatement_of_error {s' : TokenStream} {e : ParseError} (hbraces : .leftBrace ∉ all)
    (hsemicolons : SemicolonsInBlocks all (t :: ts))
    (h : scan 0 (.statement (.program [])) ⟨[], t :: ts, finish⟩ = .error e s') :
    ∃ dropped left, t :: ts = dropped ++ left ∧
      skipStatement 0 (s'.read.headD t) (OpenBrackets.readAll [] s'.read) s'.tokens = (left, []) ∧
      (left ≠ [] → .leftBrace ∉ all.readAll dropped.reverse) := by
  have htokens : s'.read.reverse ++ s'.tokens = t :: ts := read_append_tokens_of_error h
  have hstep : InStep (OpenBrackets.readAll [] s'.read) (all.readAll s'.read) := (InStep.nil_iff.2 hbraces).readAll _
  have hlast : (s'.read.headD t).kind = .semicolon → (all.readAll s'.read).AtBlock := by
    cases hread : s'.read with
    | nil => exact fun _ hmem => absurd hmem hbraces
    | cons u us =>
      intro hu
      rw [hread, List.reverse_cons, List.append_assoc] at htokens
      have hbehind := (htokens ▸ hsemicolons).right.1 hu
      rw [List.reverse_reverse] at hbehind
      have hbrackets : all.readAll (u :: us) = all.readAll us :=
        read_of_not_isBracket (show u.kind.isBracket = false by rw [show u.kind = .semicolon from hu]; rfl)
      rwa [hbrackets]
  have hbehind : SemicolonsInBlocks (all.readAll s'.read) s'.tokens := by
    have hright := (htokens ▸ hsemicolons).right
    rwa [List.reverse_reverse] at hright
  obtain ⟨dropped, hdropped, hbrace⟩ := skipStatement_inStep hstep hlast hbehind
  refine ⟨s'.read.reverse ++ dropped, _, ?_, Prod.ext rfl (skipStatement_zero ..), fun hne => ?_⟩
  · rw [List.append_assoc, ← hdropped, htokens]
  · rw [readAll_append, List.reverse_reverse]
    exact hbrace hne

/-- No brace is open where a statement starts. -/
theorem statementsAt_outside (hn : ts.length ≤ n) (hm : n ≤ m) (hbraces : ts ≠ [] → .leftBrace ∉ all)
    (hsemicolons : SemicolonsInBlocks all ts) :
    ∀ statement ∈ Parse.statementsAt (rules m) finish n ts [],
      ∃ before, ts = before ++ statement.1 ∧ .leftBrace ∉ all.readAll before.reverse := by
  induction n generalizing ts all with
  | zero =>
    obtain rfl : ts = [] := List.length_eq_zero_iff.1 (Nat.le_zero.1 hn)
    exact nofun
  | succ n ih =>
    cases ts with
    | nil => exact nofun
    | cons t ts =>
      have hlength : (t :: ts).length ≤ m := Nat.le_trans hn hm
      have hall := hbraces (List.cons_ne_nil t ts)
      -- what is found behind the first statement
      have hrest {taken left : List Token} (htokens : t :: ts = taken ++ left) (hleft : left.length ≤ n)
          (hbrace : left ≠ [] → .leftBrace ∉ all.readAll taken.reverse) :
          ∀ statement ∈ Parse.statementsAt (rules m) finish n left [],
            ∃ before, t :: ts = before ++ statement.1 ∧ .leftBrace ∉ all.readAll before.reverse := by
        intro statement hstatement
        obtain ⟨before, rfl, hbefore⟩ :=
          ih hleft (Nat.le_of_succ_le hm) hbrace (htokens ▸ hsemicolons).right statement hstatement
        exact ⟨taken ++ before, by rw [htokens, List.append_assoc], by rwa [readAll_append]⟩
      rw [Parse.statementsAt]
      cases hstatement : (rules m).statement ⟨[], t :: ts, finish⟩ with
      | ok node s' =>
        have hshorter : s'.tokens.length ≤ n :=
          Nat.le_trans (length_of_statement_ok hlength hstatement) (Nat.sub_le_of_le_add hn)
        have hscan := (statement_ok_iff hlength).1 hstatement
        have hclosed := Parse.readAll_of_scan_ok rfl rfl hscan
        obtain ⟨taken, σ', hmoves, -⟩ := moves_of_scan_ok hscan
        have hread : s'.read = taken.reverse := hmoves.read_eq.trans (List.append_nil _)
        have hbrace : .leftBrace ∉ all.readAll taken.reverse := by
          have hstep := (InStep.nil_iff.2 hall).readAll s'.read
          rw [hclosed, hread] at hstep
          exact InStep.nil_iff.1 hstep
        simp only [hclosed]
        rw [List.forall_mem_cons]
        exact ⟨⟨[], rfl, hall⟩, hrest hmoves.tokens_eq hshorter fun _ => hbrace⟩
      | error e s' =>
        have hshorter : s'.tokens.length < (t :: ts).length :=
          length_of_statement_error hlength (List.cons_ne_nil t ts) hstatement
        obtain ⟨dropped, left, htokens, hskip, hbrace⟩ :=
          skipStatement_of_error hall hsemicolons ((statement_error_iff hlength).1 hstatement)
        have hskipped := length_skipStatement 0 (s'.read.headD t) (OpenBrackets.readAll [] s'.read) s'.tokens
        rw [hskip] at hskipped
        have hleft : left.length ≤ n := Nat.le_of_lt_succ (Nat.lt_of_le_of_lt hskipped (Nat.lt_of_lt_of_le hshorter hn))
        simp only [depthAround_nil, hskip]
        exact hrest htokens hleft hbrace

/-- No statement starts between two braces that belong together, however malformed the text is, if a semicolon that
stands in braces stands in no other bracket inside them. -/
theorem statements_outside_braces {source : String} (h : SemicolonsInBlocks [] (tokensOf source)) :
    (statementsAt source).map Prod.snd = (FrontEnd.descent.parse source).1 ∧
      ∀ statement ∈ statementsAt source,
        ∃ before, tokensOf source = before ++ statement.1 ∧ ¬InBraces before statement.1 := by
  refine ⟨map_snd_statementsAt source, fun statement hstatement => ?_⟩
  obtain ⟨before, htokens, hbrace⟩ :=
    statementsAt_outside (Nat.le_refl _) (Nat.le_refl _) (fun _ => List.not_mem_nil) h statement hstatement
  exact ⟨before, htokens, fun hinside => hbrace (mem_readAll_of_inBraces hinside [])⟩

theorem statements_outside_braces_of_malformed :
    (Parse.ofString "(1; 2); let f = fn(x) \x7b [x 1]; x \x7d; f(2)").failures.length = 3 ∧
      ∀ statement ∈ statementsAt "(1; 2); let f = fn(x) \x7b [x 1]; x \x7d; f(2)",
        ∃ before, tokensOf "(1; 2); let f = fn(x) \x7b [x 1]; x \x7d; f(2)" = before ++ statement.1 ∧
          ¬InBraces before statement.1 :=
  ⟨by decide +kernel, (statements_outside_braces (by decide +kernel)).2⟩

/-- The semicolon in the parentheses makes the parser forget them, and the parenthesis behind it takes the brace off
the stack. -/
theorem statement_inside_braces :
    Balanced (tokensOf "fn() \x7b (1; 2); y \x7d") ∧
      (FrontEnd.descent.parse "fn() \x7b (1; 2); y \x7d").1 = [.expressionStatement (.identifier "y")] ∧
      ∃ statement ∈ statementsAt "fn() \x7b (1; 2); y \x7d", ∃ before,
        tokensOf "fn() \x7b (1; 2); y \x7d" = before ++ statement.1 ∧ InBraces before statement.1 := by
  let outside : List Token := [⟨.fnWord, "fn", ⟨1, 1⟩⟩, ⟨.leftParen, "(", ⟨1, 3⟩⟩, ⟨.rightParen, ")", ⟨1, 4⟩⟩]
  let l : Token := ⟨.leftBrace, "\x7b", ⟨1, 6⟩⟩
  let numbers : List Token := [⟨.integer, "1", ⟨1, 9⟩⟩, ⟨.semicolon, ";", ⟨1, 10⟩⟩, ⟨.integer, "2", ⟨1, 12⟩⟩]
  let inside : List Token :=
    ⟨.leftParen, "(", ⟨1, 8⟩⟩ :: (numbers ++ [⟨.rightParen, ")", ⟨1, 13⟩⟩, ⟨.semicolon, ";", ⟨1, 14⟩⟩])
  let y : Token := ⟨.identifier, "y", ⟨1, 16⟩⟩
  let r : Token := ⟨.rightBrace, "\x7d", ⟨1, 18⟩⟩
  have htokens : tokensOf "fn() \x7b (1; 2); y \x7d" = outside ++ l :: (inside ++ [y] ++ [r]) := by decide +kernel
  have hstarts : statementsAt "fn() \x7b (1; 2); y \x7d" = [([y, r], .expressionStatement (.identifier "y"))] := by
    decide +kernel
  have houtside : Balanced outside := .token rfl (.brackets rfl .nil .nil)
  have hnumbers : Balanced numbers := .token rfl (.token rfl (.token rfl .nil))
  have hparens : Balanced inside := .brackets rfl hnumbers (.token rfl .nil)
  have hinside : Balanced (inside ++ [y]) := hparens.append (.token rfl .nil)
  refine ⟨?_, by decide +kernel, ([y, r], .expressionStatement (.identifier "y")), ?_, outside ++ l :: inside, ?_, ?_⟩
  · rw [htokens]
    exact houtside.append (.brackets rfl hinside .nil)
  · rw [hstarts]
    exact List.mem_singleton_self _
  · rw [htokens]
    simp
  · exact ⟨outside, l, inside, [y], r, [], rfl, rfl, rfl, rfl, hinside⟩

end MonkeyLanguage
