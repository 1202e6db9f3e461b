import MonkeyLanguage.Proofs.Parser.Starts
import MonkeyLanguage.Proofs.Prompt.Quotes

/-!
# Stray closing brackets

The prompt counts brackets and the parser keeps a stack of them.  A closing bracket that is met where none is open (a
stray) takes one from the count and nothing from the stack, so the count is the height of the stack less the number of
strays (`depth_add_strays`).  An input goes on if it ends inside a string or has more open brackets than strays
(`goesOn_iff_more_open`).

So a stray hides one bracket that is opened behind it (`stray_hides_open_bracket`).
-/

namespace MonkeyLanguage.Prompt

/-! ## Open strings -/

/-- The text ends inside a string: its last token is the rest of the text from a quote that is never closed. -/
def EndsInString (text : String) : Prop :=
  ∃ t ∈ (tokensOf text).getLast?, isOpenString t = true

theorem endsInString_iff (text : String) : EndsInString text ↔ (tokensOf text).any isOpenString = true :=
  getLast?_isOpenString_ofLexemes_split ..

/-! ## The count and the stack -/

/-- The number of closing brackets that are met where no bracket is open. -/
def strays (brackets : OpenBrackets) : List Token → Nat
  | [] => 0
  | t :: ts => (if t.kind.isCloser ∧ brackets = [] then 1 else 0) + strays (brackets.read t.kind) ts

theorem weight_add_stray (brackets : OpenBrackets) (kind : Token.Kind) :
    weight kind + (if kind.isCloser ∧ brackets = [] then 1 else 0 : Nat) =
      ((brackets.read kind).length : Int) - brackets.length := by
  simp only [length_read, ← List.length_eq_zero_iff, weight, Token.Kind.count]
  cases hopener : kind.isOpener with
  | true =>
    have hcloser : kind.isCloser = false := by cases kind <;> first | rfl | cases hopener
    simp only [hcloser, if_true, Bool.false_eq_true, false_and, if_false]
    omega
  | false =>
    cases kind.isCloser with
    | false => simp
    | true =>
      simp only [Bool.false_eq_true, if_false, if_true, true_and]
      split <;> omega

/-- The count and the strays are what the stack has grown by. -/
theorem depth_add_strays (brackets : OpenBrackets) (ts : List Token) :
    depth ts + strays brackets ts = ((brackets.readAll ts.reverse).length : Int) - brackets.length := by
  induction ts generalizing brackets with
  | nil => simp [strays, OpenBrackets.readAll]
  | cons t ts ih =>
    have hstep := weight_add_stray brackets t.kind
    have hrest := ih (brackets.read t.kind)
    rw [OpenBrackets.readAll_cons, depth_cons, strays]
    omega

/-- An input goes on if it ends inside a string, or more brackets are open at its end than strays were met.  Without
strays it goes on just if it ends inside a string or a bracket is open at its end. -/
theorem goesOn_iff_more_open (text : String) :
    (goesOn text = true ↔ EndsInString text ∨
      strays [] (tokensOf text) < (OpenBrackets.readAll [] (tokensOf text).reverse).length) ∧
    (strays [] (tokensOf text) = 0 →
      (goesOn text = true ↔ EndsInString text ∨ OpenBrackets.readAll [] (tokensOf text).reverse ≠ [])) := by
  have hmore : goesOn text = true ↔ EndsInString text ∨
      strays [] (tokensOf text) < (OpenBrackets.readAll [] (tokensOf text).reverse).length := by
    have hdepth := depth_add_strays [] (tokensOf text)
    rw [List.length_nil] at hdepth
    rw [goesOn_iff, endsInString_iff]
    refine or_congr Iff.rfl ?_
    omega
  refine ⟨hmore, fun hstrays => ?_⟩
  rw [hmore, hstrays, List.length_pos_iff]

/-- A string is closed and a square bracket is open behind the call. -/
theorem goesOn_of_open_bracket :
    let text := "f(\")\")["
    strays [] (tokensOf text) = 0 ∧
      (EndsInString text ∨ OpenBrackets.readAll [] (tokensOf text).reverse ≠ []) := by
  intro text
  have hstrays : strays [] (tokensOf text) = 0 := by decide +kernel
  have hgoes : goesOn text = true := by decide +kernel
  exact ⟨hstrays, ((goesOn_iff_more_open text).2 hstrays).1 hgoes⟩

/-- The stray parenthesis of the first line hides the open brace of the second. -/
theorem stray_hides_open_bracket :
    let text := "let x = 1);\nlet f = fn(y) \x7b"
    goesOn text = false ∧ OpenBrackets.readAll [] (tokensOf text).reverse = [.leftBrace] ∧
      ¬(goesOn text = true ↔ EndsInString text ∨ OpenBrackets.readAll [] (tokensOf text).reverse ≠ []) := by
  intro text
  have hgoes : goesOn text = false := by decide +kernel
  have hopen : OpenBrackets.readAll [] (tokensOf text).reverse = [.leftBrace] := by decide +kernel
  refine ⟨hgoes, hopen, fun h => ?_⟩
  have hgoes' : goesOn text = true := h.2 (.inr (by rw [hopen]; exact List.cons_ne_nil _ _))
  rw [hgoes] at hgoes'
  cases hgoes'

end MonkeyLanguage.Prompt
