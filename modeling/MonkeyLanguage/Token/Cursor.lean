import MonkeyLanguage.Token.Lexeme

/-!
# Reading tokens from a text

`tokenize` gives all tokens of a text, the last of which stands for its end.  A `Cursor` reads the same
tokens one at a time; once at the end it gives the end token again and again.
-/

namespace MonkeyLanguage

/-- The tokens of lexemes whose source starts at `p`. -/
def Token.ofLexemes (p : Position) : List Lexeme → List Token
  | [] => []
  | l :: ls => ⟨l.kind, l.value, p.advance l.gap⟩ :: ofLexemes (p.advance l.source) ls

/-- A place in a text up to which the tokens have been read. -/
structure Cursor where
  /-- The text still to be read. -/
  rest : List Char
  /-- The position of the first character of `rest`. -/
  position : Position
  /-- The number of characters already read. -/
  offset : Nat
  /-- Whether the end token has been given. -/
  done : Bool
deriving Repr

namespace Cursor

def ofString (s : String) : Cursor :=
  ⟨s.toList, .start, 0, false⟩

/-- The cursor behind `text`, which `rest` follows. -/
def skip (c : Cursor) (text rest : List Char) : Cursor :=
  { c with rest, position := c.position.advance text, offset := c.offset + text.length }

/-- The next token and the cursor behind it. -/
def next (c : Cursor) : Token × Cursor :=
  match Lexeme.first? c.rest with
  | some (l, rest) => (⟨l.kind, l.value, c.position.advance l.gap⟩, c.skip l.source rest)
  | none =>
    let c := c.skip c.rest []
    (.endAt c.position, { c with done := true })

/-- The tokens of `n` successive reads, each with the cursor behind it. -/
def pull : Nat → Cursor → List (Token × Cursor)
  | 0, _ => []
  | n + 1, c => c.next :: pull n c.next.2

/-- The tokens that are still to come before the end. -/
def tokens (c : Cursor) : List Token :=
  Token.ofLexemes c.position (Lexeme.split c.rest)

/-- The position of the end of the text. -/
def finish (c : Cursor) : Position :=
  c.position.advance c.rest

/-- All tokens still to come, the end token included unless it has been given. -/
def drain (c : Cursor) : List Token :=
  if c.done then [] else c.tokens ++ [.endAt c.finish]

end Cursor

/-- The tokens of a text, the end token last. -/
def tokenize (s : String) : List Token :=
  (Cursor.ofString s).drain

end MonkeyLanguage
