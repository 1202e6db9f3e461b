import MonkeyLanguage.Prompt.Command
import MonkeyLanguage.Text.Letter
import MonkeyLanguage.Token.Lexeme

/-!
# Completing a word

Behind a slash at the start of the input the commands are offered, and elsewhere the bound names and the
builtins that go on from the word before the cursor.
-/

namespace MonkeyLanguage.Prompt

/-- A text to put in place of the characters before the cursor. -/
structure Completion where
  text : String
  /-- The number of characters that are replaced. -/
  replaced : Nat
  /-- What is shown beside the text. -/
  note : String
deriving DecidableEq, Repr

/--
The longest run of characters at the end that holds no blank, and either ASCII letters, digits and
underscores only or none of these.
-/
def lastRun (cs : List Char) : List Char :=
  match cs.reverse with
  | [] => []
  | c :: before =>
    if Text.isBlank c then []
    else
      let same := fun d => !Text.isBlank d && isNameChar d == isNameChar c
      ((c :: before).takeWhile same).reverse

/-- The names that go on from a word: the bound names, then the other builtins in order. -/
def candidates (names builtins : List String) (word : List Char) : List String :=
  let others := (builtins.mergeSort fun a b => a ≤ b).filter fun b => b ∉ names
  (names ++ others).filter fun name => word.isPrefixOf name.toList && word != name.toList

/-- The completions behind `before`, the text before the cursor. -/
def complete (names builtins : List String) (before : List Char) : List Completion :=
  if before.head? = some '/' then
    (commandHelp.filter fun command => before.isPrefixOf command.1.toList).map fun command =>
      ⟨command.1, before.length, command.2⟩
  else
    let word := lastRun before
    match word with
    | [] => []
    | c :: _ =>
      if Text.isAlphabetic c || c = '_' then
        (candidates names builtins word).map fun name =>
          ⟨name, word.length, if name ∈ builtins ∧ name ∉ names then "builtin" else ""⟩
      else []

end MonkeyLanguage.Prompt
