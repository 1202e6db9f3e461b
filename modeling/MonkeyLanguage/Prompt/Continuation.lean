import MonkeyLanguage.Token.Cursor

/-!
# When an input goes on

An input goes on while it has more opening brackets than closing ones, or ends inside a string.
-/

namespace MonkeyLanguage.Prompt

/-- The opening brackets less the closing ones. -/
def depth (tokens : List Token) : Int :=
  tokens.foldl (fun n token =>
    if token.kind.isOpener then n + 1 else if token.kind.isCloser then n - 1 else n) 0

/-- Whether the token is the rest of a text from a double quote that is never closed. -/
def isOpenString (token : Token) : Bool :=
  token.kind = .illegal && token.value.toList.head? = some '"'

/-- Whether more text has to follow. -/
def goesOn (text : String) : Bool :=
  let tokens := tokenize text
  tokens.any isOpenString || 0 < depth tokens

/-- Whether the character is dropped from inputs: it comes in with pasted text and cannot be seen. -/
def isInvisible (c : Char) : Bool :=
  c = '\u200b' || c = '\u200c' || c = '\u200d' || c = '\ufeff' || c = '\u00a0' || c = '\r'

def normalize (text : String) : String :=
  String.ofList (text.toList.filter (!isInvisible ·))

end MonkeyLanguage.Prompt
