/-!
# Line ends

Files and standard input may end their lines in a carriage return, alone or before a line feed.  They
are read as if each line ended in a line feed.
-/

namespace MonkeyLanguage.Text

/-- Reads every line end as a line feed. -/
def unifyNewlines : List Char → List Char
  | '\r' :: '\n' :: cs => '\n' :: unifyNewlines cs
  | '\r' :: cs => '\n' :: unifyNewlines cs
  | c :: cs => c :: unifyNewlines cs
  | [] => []

/-- The lines of a text, without their line feeds.  There is always a last line, which may be empty. -/
def lines : List Char → List (List Char)
  | [] => [[]]
  | c :: cs =>
    if c = '\n' then [] :: lines cs
    else
      match lines cs with
      | [] => [[c]]
      | line :: rest => (c :: line) :: rest

end MonkeyLanguage.Text
