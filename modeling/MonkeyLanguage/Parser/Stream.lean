import MonkeyLanguage.Parser.Error
import MonkeyLanguage.Token.Cursor

/-!
# Parsers of a stream of tokens

A stream ends; reading on gives the end token and leaves the stream as it is.  A parser reads some
tokens and gives a result or an error.  Either way the stream tells how far it has read.
-/

namespace MonkeyLanguage

/-- Tokens, of which some have been read. -/
structure TokenStream where
  /-- The tokens already read, the last first. -/
  read : List Token
  /-- The tokens still to be read, without the end token. -/
  tokens : List Token
  /-- Where the text ends. -/
  finish : Position
deriving Repr

def TokenStream.ofString (s : String) : TokenStream :=
  ⟨[], (Cursor.ofString s).tokens, (Cursor.ofString s).finish⟩

/-- The next token, which is the end token once no other is left. -/
def TokenStream.peek (s : TokenStream) : Token :=
  s.tokens.headD (.endAt s.finish)

def TokenStream.tail (s : TokenStream) : TokenStream :=
  match s.tokens with
  | [] => s
  | token :: rest => { s with read := token :: s.read, tokens := rest }

/-- Reads tokens and gives a result or an error. -/
abbrev ParserM := EStateM ParseError TokenStream

namespace ParserM

/-- The kind of the next token, which stays unread. -/
def peekKind : ParserM Token.Kind :=
  return (← get).peek.kind

def next : ParserM Token :=
  modifyGet fun s => (s.peek, s.tail)

/-- Reads one token of the given kind and fails at any other. -/
def expect (kind : Token.Kind) : ParserM Token := do
  let token := (← get).peek
  if token.kind = kind then next
  else throw ⟨if token.kind = .illegal then .illegal else .expected kind, token⟩

/-- Reads one token if it has the given kind. -/
def skip (kind : Token.Kind) : ParserM Unit := do
  if (← peekKind) = kind then
    let _ ← next

end ParserM

end MonkeyLanguage
