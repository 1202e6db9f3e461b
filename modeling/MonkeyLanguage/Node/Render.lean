import MonkeyLanguage.Node.Basic

/-!
# Trees as source text

`Node.render` writes a tree with every operator application in parentheses, so that the text shows
how the operators bind.  The statements of a program follow each other directly; `Node.pretty` puts
each on a line of its own.
-/

namespace MonkeyLanguage.Node

def boolText (b : Bool) : String :=
  if b then "true" else "false"

mutual

/-- The source text of a tree. -/
def render : Node → String
  | absent => "None"
  | identifier x => x
  | integer n => toString n
  | boolean b => boolText b
  | string s => "\"" ++ s ++ "\""
  | unary op a => "(" ++ op ++ render a ++ ")"
  | binary a op b => "(" ++ render a ++ " " ++ op ++ " " ++ render b ++ ")"
  | ifElse c a absent => "if " ++ render c ++ " " ++ render a
  | ifElse c a b => "if " ++ render c ++ " " ++ render a ++ " else " ++ render b
  | function ps b => "fn(" ++ ", ".intercalate ps ++ ") " ++ render b
  | call f as => render f ++ "(" ++ ", ".intercalate (renderList as) ++ ")"
  | array as => "[" ++ ", ".intercalate (renderList as) ++ "]"
  | hash ps => "\x7b" ++ ", ".intercalate (renderPairs ps) ++ "\x7d"
  | index a b => "(" ++ render a ++ "[" ++ render b ++ "])"
  | letStatement x a => "let " ++ x ++ " = " ++ render a ++ ";"
  | returnStatement a => "return " ++ render a ++ ";"
  | expressionStatement a => render a
  | block [] => "\x7b \x7d"
  | block (s :: ss) => "\x7b " ++ " ".intercalate (render s :: renderList ss) ++ " \x7d"
  | program ss => "".intercalate (renderList ss)

def renderList : List Node → List String
  | [] => []
  | a :: as => render a :: renderList as

def renderPairs : List (Node × Node) → List String
  | [] => []
  | (k, v) :: ps => (render k ++ ": " ++ render v) :: renderPairs ps

end

theorem render_block_cons (s : Node) (ss : List Node) :
    render (block (s :: ss)) = "\x7b " ++ " ".intercalate (renderList (s :: ss)) ++ " \x7d" := by
  rw [render, renderList]

/-- The source text of statements, one on a line. -/
def pretty (statements : List Node) : String :=
  "\n".intercalate (renderList statements)

end MonkeyLanguage.Node
