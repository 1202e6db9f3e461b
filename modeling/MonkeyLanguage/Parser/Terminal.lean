import MonkeyLanguage.Token.Basic

/-!
# The terminals of the grammar

A terminal is a pattern, and the kind of the tokens that it matches; blanks match one without a kind and are ignored.
`Terminal.match?` tries the terminals in turn at the head of a text: first those that match texts of any length, then
fixed texts, the longer ones first.  The first that matches takes as much of the text as it can.

`Terminal.cut` cuts a whole text so.  At a character where no terminal matches it ends.
-/

namespace MonkeyLanguage

/-- The character lies in one of the ranges. -/
def InRanges (ranges : List (Char × Char)) (c : Char) : Prop :=
  ∃ range ∈ ranges, range.1 ≤ c ∧ c ≤ range.2

instance (ranges : List (Char × Char)) (c : Char) : Decidable (InRanges ranges c) :=
  inferInstanceAs (Decidable (∃ range ∈ ranges, range.1 ≤ c ∧ c ≤ range.2))

/-- What a terminal looks like: a fixed text, a character of one sort and any number of another behind it, or
a text without a double quote between two double quotes. -/
inductive Pattern where
  | fixed (text : String)
  | run (first more : List (Char × Char))
  | quoted
deriving DecidableEq, Repr

/-- The longest text at the head that the pattern matches. -/
def Pattern.front? : Pattern → List Char → Option (List Char)
  | fixed text, cs => if text.toList.isPrefixOf cs then some text.toList else none
  | run first more, c :: cs => if InRanges first c then some (c :: cs.takeWhile (InRanges more ·)) else none
  | quoted, '"' :: cs => if '"' ∈ cs then some ('"' :: (cs.takeWhile (· ≠ '"') ++ ['"'])) else none
  | _, _ => none

/-- The characters that a name starts with. -/
def letterRanges : List (Char × Char) :=
  [('A', 'Z'), ('a', 'z'), ('_', '_')]

def digitRanges : List (Char × Char) :=
  [('0', '9')]

def blankRanges : List (Char × Char) :=
  [(' ', ' '), ('\t', '\t'), ('\r', '\r'), ('\n', '\n')]

/-- The fixed texts and the kinds of their tokens. -/
def symbols : List (String × Token.Kind) :=
  [("==", .equal), ("!=", .notEqual), ("=", .assign), ("!", .bang), ("+", .plus), ("-", .minus), ("*", .asterisk),
    ("/", .slash), ("<", .less), (">", .greater), (",", .comma), (";", .semicolon), (":", .colon),
    ("(", .leftParen), (")", .rightParen), ("\x7b", .leftBrace), ("\x7d", .rightBrace), ("[", .leftBracket),
    ("]", .rightBracket)]

/-- The terminals of the grammar with the kinds of their tokens; that of the blanks has none, as it is ignored. -/
def terminals : List (Option Token.Kind × Pattern) :=
  [(some .identifier, .run letterRanges (letterRanges ++ digitRanges)), (some .integer, .run digitRanges digitRanges),
    (some .string, .quoted), (none, .run blankRanges blankRanges)] ++
    symbols.map fun symbol => (some symbol.2, .fixed symbol.1)

/-- The words that are no names. -/
def keywords : List (String × Token.Kind) :=
  [("fn", .fnWord), ("let", .letWord), ("true", .trueWord), ("false", .falseWord), ("if", .ifWord),
    ("else", .elseWord), ("return", .returnWord)]

/-- The kind of a token with the text: that of its terminal, but for names that are keywords. -/
def retyped (text : List Char) : Token.Kind → Token.Kind
  | .identifier => ((keywords.find? (·.1 = String.ofList text)).map Prod.snd).getD .identifier
  | kind => kind

namespace Terminal

/-- The kind and text of the first terminal that matches at the head. -/
def match? (cs : List Char) : Option (Option Token.Kind × List Char) :=
  terminals.findSome? fun terminal =>
    (terminal.2.front? cs).map fun text => (terminal.1.map (retyped text), text)

theorem exists_front_of_match? {cs text : List Char} {kind : Option Token.Kind} (h : match? cs = some (kind, text)) :
    ∃ terminal ∈ terminals, terminal.2.front? cs = some text := by
  obtain ⟨terminal, hterminal, hmatch⟩ := List.exists_of_findSome?_eq_some h
  obtain ⟨_, hfront, hpair⟩ := Option.map_eq_some_iff.1 hmatch
  cases hpair
  exact ⟨terminal, hterminal, hfront⟩

theorem ne_nil_of_match? {cs text : List Char} {kind : Option Token.Kind} (h : match? cs = some (kind, text)) :
    text ≠ [] := by
  have hfixed : ∀ terminal ∈ terminals, terminal.2 ≠ .fixed "" := by decide
  obtain ⟨⟨_, pattern⟩, hterminal, hfront⟩ := exists_front_of_match? h
  revert hfront
  fun_cases Pattern.front? pattern cs with
  | case1 w =>
    rintro ⟨⟩ hempty
    exact hfixed _ hterminal (congrArg Pattern.fixed (String.toList_eq_nil_iff.1 hempty))
  | case3 => rintro ⟨⟩; exact List.cons_ne_nil _ _
  | case5 => rintro ⟨⟩; exact List.cons_ne_nil _ _
  | _ => rintro ⟨⟩

/-- The token that a match at `p` stands for.  The quotes around a string are no part of its value. -/
def token (kind : Token.Kind) (text : List Char) (p : Position) : Token :=
  ⟨kind, String.ofList (if kind = .string then text.tail.dropLast else text), p⟩

/-- The tokens into which the terminals cut a text that starts at `p`.  Where none matches stands an illegal
character, which is the last token. -/
def cut (p : Position) (cs : List Char) : List Token :=
  match cs with
  | [] => []
  | c :: tail =>
    match _h : match? (c :: tail) with
    | none => [⟨.illegal, String.ofList [c], p⟩]
    | some (none, text) => cut (p.advance text) ((c :: tail).drop text.length)
    | some (some kind, text) => token kind text p :: cut (p.advance text) ((c :: tail).drop text.length)
termination_by cs.length
decreasing_by
  all_goals
    have hpos := List.length_pos_iff.2 (ne_nil_of_match? _h)
    simp only [List.length_drop, List.length_cons]
    omega

end Terminal

end MonkeyLanguage
