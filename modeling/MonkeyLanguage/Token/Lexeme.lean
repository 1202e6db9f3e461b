import MonkeyLanguage.Token.Basic

/-!
# Lexemes

`Lexeme.first` reads the longest token text at the head of a text that does not start with a blank.
A character that starts no token is a token text of its own, of the kind `illegal`, and so is the
rest of the text from a double quote that is never closed.

`Lexeme.split` cuts a whole text into lexemes, each with the blanks before it.  It looks at no
position; `Token.Cursor` adds those.
-/

namespace MonkeyLanguage

/-- Whether the character only separates tokens. -/
def isGap (c : Char) : Bool :=
  c = ' ' || c = '\t' || c = '\n' || c = '\r'

def isNameStart (c : Char) : Bool :=
  c.isAlpha || c = '_'

def isNameChar (c : Char) : Bool :=
  isNameStart c || c.isDigit

/-- The kind of a character that is a token wherever it stands outside a string. -/
def punctuation? : Char → Option Token.Kind
  | '+' => some .plus
  | '-' => some .minus
  | '*' => some .asterisk
  | '/' => some .slash
  | '<' => some .less
  | '>' => some .greater
  | ',' => some .comma
  | ';' => some .semicolon
  | ':' => some .colon
  | '(' => some .leftParen
  | ')' => some .rightParen
  | '{' => some .leftBrace
  | '}' => some .rightBrace
  | '[' => some .leftBracket
  | ']' => some .rightBracket
  | _ => none

/-- The kind of a word: a keyword or a name. -/
def wordKind (word : List Char) : Token.Kind :=
  match String.ofList word with
  | "fn" => .fnWord
  | "let" => .letWord
  | "true" => .trueWord
  | "false" => .falseWord
  | "if" => .ifWord
  | "else" => .elseWord
  | "return" => .returnWord
  | _ => .identifier

/-- A token text with the blanks before it. -/
structure Lexeme where
  /-- The blanks before the token. -/
  gap : List Char
  kind : Token.Kind
  /-- The source text of the token, quotes included. -/
  text : List Char
deriving DecidableEq, Repr

namespace Lexeme

/-- The value of the token: its text, for a string without the quotes. -/
def value (l : Lexeme) : String :=
  String.ofList (if l.kind = .string then l.text.tail.dropLast else l.text)

/-- All that the lexeme covers of the source text. -/
def source (l : Lexeme) : List Char :=
  l.gap ++ l.text

/-- The kind and text of the token at the head of `c :: cs`, and what follows it. -/
def head (c : Char) (cs : List Char) : Token.Kind × List Char × List Char :=
  match punctuation? c with
  | some kind => (kind, [c], cs)
  | none =>
    if c = '=' then orEqual .assign .equal
    else if c = '!' then orEqual .bang .notEqual
    else if isNameStart c then
      let word := c :: cs.takeWhile isNameChar
      (wordKind word, word, cs.dropWhile isNameChar)
    else if c.isDigit then (.integer, c :: cs.takeWhile Char.isDigit, cs.dropWhile Char.isDigit)
    else if c = '"' then
      match cs.dropWhile (· ≠ '"') with
      | [] => (.illegal, c :: cs, [])
      | quote :: rest => (.string, c :: cs.takeWhile (· ≠ '"') ++ [quote], rest)
    else (.illegal, [c], cs)
where
  /-- The one-character token, or the two-character token if an equals sign follows. -/
  orEqual (single double : Token.Kind) : Token.Kind × List Char × List Char :=
    match cs with
    | '=' :: rest => (double, [c, '='], rest)
    | _ => (single, [c], cs)

/-- The first lexeme of a text and what follows it; `none` if only blanks are left. -/
def first? (cs : List Char) : Option (Lexeme × List Char) :=
  match cs.dropWhile isGap with
  | [] => none
  | c :: tail =>
    let token := head c tail
    some (⟨cs.takeWhile isGap, token.1, token.2.1⟩, token.2.2)

/-! ## Nothing is lost -/

theorem head_append (c : Char) (cs : List Char) : (head c cs).2.1 ++ (head c cs).2.2 = c :: cs := by
  have orEqual_append (single double : Token.Kind) :
      (head.orEqual c cs single double).2.1 ++ (head.orEqual c cs single double).2.2 = c :: cs := by
    unfold head.orEqual
    split <;> rfl
  unfold head
  split
  · rfl
  split
  · exact orEqual_append ..
  split
  · exact orEqual_append ..
  split
  · simp
  split
  · simp
  split
  · split
    · simp
    · next h =>
      have := List.takeWhile_append_dropWhile (p := (· ≠ '"')) (l := cs)
      rw [h] at this
      simpa using this
  · rfl

theorem head_text_ne_nil (c : Char) (cs : List Char) : (head c cs).2.1 ≠ [] := by
  have orEqual_ne_nil (single double : Token.Kind) :
      (head.orEqual c cs single double).2.1 ≠ [] := by
    unfold head.orEqual
    split <;> simp
  unfold head
  repeat' split
  all_goals first | exact orEqual_ne_nil _ _ | exact List.cons_ne_nil _ _

theorem first?_append {cs rest : List Char} {l : Lexeme} (h : first? cs = some (l, rest)) :
    l.source ++ rest = cs := by
  unfold first? at h
  split at h
  · cases h
  · next c tail hc =>
    cases h
    simp only [source, List.append_assoc, head_append]
    rw [← hc, List.takeWhile_append_dropWhile]

theorem first?_text_ne_nil {cs rest : List Char} {l : Lexeme} (h : first? cs = some (l, rest)) :
    l.text ≠ [] := by
  unfold first? at h
  split at h
  · cases h
  · cases h
    exact head_text_ne_nil _ _

theorem length_lt_of_first? {cs rest : List Char} {l : Lexeme} (h : first? cs = some (l, rest)) :
    rest.length < cs.length := by
  have hpos := List.length_pos_iff.2 (first?_text_ne_nil h)
  have hlen := congrArg List.length (first?_append h)
  simp only [source, List.length_append] at hlen
  omega

/-! ## Whole texts -/

/-- The lexemes of a text, in order. -/
def split (cs : List Char) : List Lexeme :=
  match _h : first? cs with
  | none => []
  | some (l, rest) => l :: split rest
termination_by cs.length
decreasing_by exact length_lt_of_first? _h

/-- The blanks behind the last lexeme. -/
def tailGap (cs : List Char) : List Char :=
  cs.drop ((split cs).flatMap source).length

theorem split_of_first?_eq_none {cs : List Char} (h : first? cs = none) : split cs = [] := by
  rw [split]
  split <;> simp_all

theorem split_of_first?_eq_some {cs rest : List Char} {l : Lexeme}
    (h : first? cs = some (l, rest)) : split cs = l :: split rest := by
  rw [split]
  split <;> simp_all

end Lexeme

end MonkeyLanguage
