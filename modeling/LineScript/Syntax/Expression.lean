import LineScript.Syntax.Fault
import LineScript.Syntax.Tree

/-!
# Reading expressions

Expressions are read by precedence climbing: operators that bind at least as tightly as a given
strength are folded into the left operand, and the right operand takes only the strictly tighter ones,
so operators of equal strength group to the left.

Every function returns the expression with the tokens that follow it. The first argument bounds the
recursion; two steps for each token always suffice, and `expression` supplies them.
-/

namespace LineScript

/-- A name: a letter or an underscore, then letters, digits and underscores. -/
def isName : Bytes → Bool
  | [] => false
  | b :: rest =>
    (Bytes.isLetter b || b == 0x5f)
      && rest.all fun c => Bytes.isLetter c || Bytes.isDigit c || c == 0x5f

/-- An expression with the tokens after it, or the reason why there is none. -/
abbrev Reading := Except Fault (Expr × List Token)

/-- The negation of an operand: a numeric literal is negated itself, anything else is taken from
zero. -/
def negate (minus : Token) : Expr → Expr
  | .int t value => .int t (-value)
  | .float t value => .float t value.neg
  | operand => .binary minus (.int minus 0) .sub operand

/-- The literal that an integer token stands for. -/
def intLiteral (t : Token) : Except Fault Expr :=
  match Numeral.readInt t.lexeme with
  | .ok value => .ok (.int t value)
  | .error _ => .error (.intRange t.lexeme)

/-- The literal that a floating-point token stands for. -/
def floatLiteral (t : Token) : Except Fault Expr :=
  match Binary64.read? t.lexeme with
  | some value => .ok (.float t value)
  | none => .error (.floatForm t.lexeme)

mutual

/-- An expression whose outermost operators bind at least as tightly as `low`. -/
def climb : Nat → (low : Nat) → List Token → Reading
  | 0, _, _ => .error .expectedExpression
  | n + 1, low, tokens =>
    match primary n tokens with
    | .error fault => .error fault
    | .ok (left, rest) => climbFrom n low left rest

/-- Folds the operators that bind at least as tightly as `low` into the left operand. -/
def climbFrom : Nat → (low : Nat) → (left : Expr) → List Token → Reading
  | 0, _, _, _ => .error .expectedExpression
  | _ + 1, _, left, [] => .ok (left, [])
  | n + 1, low, left, t :: rest =>
    if t.kind = .operator then
      match BinOp.ofSymbol? t.lexeme with
      | none => .error (.operatorInExpression t.lexeme)
      | some op =>
        if op.strength < low then .ok (left, t :: rest)
        else
          match climb n (op.strength + 1) rest with
          | .error fault => .error fault
          | .ok (right, rest) => climbFrom n low (.binary t left op right) rest
    else .ok (left, t :: rest)

/-- An operand: a literal, a variable, a call, an expression in parentheses or a negated operand. -/
def primary : Nat → List Token → Reading
  | 0, _ => .error .expectedExpression
  | _ + 1, [] => .error .expectedExpression
  | n + 1, t :: rest =>
    match t.kind with
    | .int => (intLiteral t).map (·, rest)
    | .float => (floatLiteral t).map (·, rest)
    | .string => .ok (.text t t.lexeme, rest)
    | .keyword =>
      if t.lexeme = Keyword.adevarat.text then .ok (.bool t true, rest)
      else if t.lexeme = Keyword.fals.text then .ok (.bool t false, rest)
      else .error (.keywordInExpression t.lexeme)
    | .identifier =>
      if isName t.lexeme then
        match rest with
        | [] => .ok (.var t t.lexeme, [])
        | p :: rest' =>
          if p.kind = .lparen then
            match arguments n t.lexeme rest' with
            | .error fault => .error fault
            | .ok (args, rest) => .ok (.call t t.lexeme args, rest)
          else .ok (.var t t.lexeme, rest)
      else .error (.invalidName t.lexeme)
    | .lparen =>
      match climb n 0 rest with
      | .error fault => .error fault
      | .ok (_, []) => .error .unclosedParen
      | .ok (e, p :: rest) => if p.kind = .rparen then .ok (e, rest) else .error .unclosedParen
    | .operator =>
      if t.lexeme = BinOp.sub.symbol then
        match primary n rest with
        | .error fault => .error fault
        | .ok (operand, rest) => .ok (negate t operand, rest)
      else .error (.tokenInExpression t)
    | _ => .error (.tokenInExpression t)

/-- The arguments of a call, after its opening parenthesis and up to its closing one. -/
def arguments : Nat → (name : Bytes) → List Token → Except Fault (List Expr × List Token)
  | 0, _, _ => .error .expectedExpression
  | _ + 1, _, [] => .error .expectedExpression
  | n + 1, name, t :: rest =>
    if t.kind = .rparen then .ok ([], rest) else moreArguments n name (t :: rest)

/-- One argument and the ones after it. -/
def moreArguments : Nat → (name : Bytes) → List Token → Except Fault (List Expr × List Token)
  | 0, _, _ => .error .expectedExpression
  | n + 1, name, tokens =>
    match climb n 0 tokens with
    | .error fault => .error fault
    | .ok (_, []) => .error (.callSeparator name)
    | .ok (e, t :: rest) =>
      if t.kind = .comma then
        match moreArguments n name rest with
        | .error fault => .error fault
        | .ok (args, rest) => .ok (e :: args, rest)
      else if t.kind = .rparen then .ok ([e], rest)
      else .error (.callSeparator name)

end

/-- The expression at the start of a token list, and the tokens after it. -/
def expression (tokens : List Token) : Reading := climb (2 * tokens.length + 2) 0 tokens

/-- The expression that a whole token list is. -/
def fullExpression (tokens : List Token) : Except Fault Expr :=
  match expression tokens with
  | .error fault => .error fault
  | .ok (e, []) => .ok e
  | .ok (_, t :: _) => .error (.trailing t)

end LineScript
