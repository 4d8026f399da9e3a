import LineScript.Token.Basic

/-!
# Logical lines

A token list is cut into logical lines, each of which holds one statement. A line end counts only
outside of braces, so a block stays with the statement that owns it. The closing brace of an outermost
block also ends the line, unless the next token carries the statement on: `altfel` after a conditional,
`cat` or `pana` after `executa`. Empty lines are dropped.
-/

namespace LineScript

/-- A logical line: a first token and the ones after it. -/
structure Line where
  /-- The first token, which decides the kind of statement. -/
  first : Token
  /-- The other tokens. -/
  rest : List Token
  deriving DecidableEq, Repr, Inhabited

namespace Line

/-- The tokens of a line. -/
def tokens (l : Line) : List Token := l.first :: l.rest

/-- The line of the given tokens, or none when there are none. -/
def ofTokens : List Token → List Line
  | [] => []
  | t :: ts => [⟨t, ts⟩]

end Line

/-- Does a statement that begins with `first` go on with `next` after the end of a block? -/
def continuesAfterBlock (first : Token) (next : Option Token) : Bool :=
  match next with
  | none => false
  | some t =>
    if first.isKeyword .daca then t.isKeyword .altfel
    else if first.isKeyword .executa then t.isKeyword .cat || t.isKeyword .pana
    else false

/-- Cuts the tokens that follow the open line `read`, kept last first, at brace depth `depth`. A
closing brace without an opening one leaves the depth at zero. -/
def linesFrom (read : List Token) (depth : Nat) : List Token → List Line
  | [] => Line.ofTokens read.reverse
  | t :: rest =>
    match t.kind with
    | .lineEnd =>
      if depth = 0 then Line.ofTokens read.reverse ++ linesFrom [] 0 rest
      else linesFrom (t :: read) depth rest
    | .lbrace => linesFrom (t :: read) (depth + 1) rest
    | .rbrace =>
      if depth ≤ 1 && !continuesAfterBlock (read.getLastD t) rest.head? then
        Line.ofTokens (t :: read).reverse ++ linesFrom [] 0 rest
      else linesFrom (t :: read) (depth - 1) rest
    | _ => linesFrom (t :: read) depth rest

/-- The logical lines of a token list. -/
def splitLines (tokens : List Token) : List Line := linesFrom [] 0 tokens

end LineScript
