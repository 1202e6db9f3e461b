import MonkeyLanguage.Text.Position
import MonkeyLanguage.Text.Quoted

/-!
# Tokens

A token is a word of the language with its kind, its value and the position where it starts.  The
value is the source text, save that a string token holds the text between its quotes.
-/

namespace MonkeyLanguage

inductive Token.Kind where
  | illegal
  | eof
  | identifier
  | integer
  | string
  | assign
  | plus
  | minus
  | bang
  | asterisk
  | slash
  | less
  | greater
  | equal
  | notEqual
  | comma
  | semicolon
  | colon
  | leftParen
  | rightParen
  | leftBrace
  | rightBrace
  | leftBracket
  | rightBracket
  | fnWord
  | letWord
  | trueWord
  | falseWord
  | ifWord
  | elseWord
  | returnWord
deriving DecidableEq, Repr, Inhabited

namespace Token.Kind

def name : Kind → String
  | illegal => "ILLEGAL"
  | eof => "EOF"
  | identifier => "IDENT"
  | integer => "INT"
  | string => "STRING"
  | assign => "ASSIGN"
  | plus => "PLUS"
  | minus => "MINUS"
  | bang => "BANG"
  | asterisk => "ASTERISK"
  | slash => "SLASH"
  | less => "LT"
  | greater => "GT"
  | equal => "EQ"
  | notEqual => "NOT_EQ"
  | comma => "COMMA"
  | semicolon => "SEMICOLON"
  | colon => "COLON"
  | leftParen => "LPAREN"
  | rightParen => "RPAREN"
  | leftBrace => "LBRACE"
  | rightBrace => "RBRACE"
  | leftBracket => "LBRACKET"
  | rightBracket => "RBRACKET"
  | fnWord => "FUNCTION"
  | letWord => "LET"
  | trueWord => "TRUE"
  | falseWord => "FALSE"
  | ifWord => "IF"
  | elseWord => "ELSE"
  | returnWord => "RETURN"

def isOpener : Kind → Bool
  | leftParen | leftBrace | leftBracket => true
  | _ => false

def isCloser : Kind → Bool
  | rightParen | rightBrace | rightBracket => true
  | _ => false

/-- Whether the kind is a keyword, the two truth values among them. -/
def isKeyword : Kind → Bool
  | fnWord | letWord | trueWord | falseWord | ifWord | elseWord | returnWord => true
  | _ => false

end Token.Kind

/-- A word of the language. -/
structure Token where
  kind : Token.Kind
  value : String
  /-- Where the first character stands. -/
  position : Position
deriving DecidableEq, Repr, Inhabited

namespace Token

/-- The token that stands for the end of a text. -/
def endAt (p : Position) : Token :=
  ⟨.eof, "", p⟩

/-- The token as a message names it: its kind and its value, or the kind alone at the end. -/
def describe (t : Token) : String :=
  if t.kind = .eof then t.kind.name else t.kind.name ++ " " ++ Text.quoted t.value

/-- The token as a dump shows it. -/
def render (t : Token) : String :=
  s!"Tok({t.kind.name}, {Text.quoted t.value}, {t.position.line}:{t.position.column})"

end Token

end MonkeyLanguage
