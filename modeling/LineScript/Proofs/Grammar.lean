import LineScript.Syntax.Statement

/-!
# The grammar of scripts

The surface grammar as relations between token lists and trees, independent of how a script is read.
Every rule also fixes the token at which the node it builds is reported.

Expressions form three layers, one for each strength of operators, above the operands; the operators
of one layer group to the left. A statement is either *open*, and then the end of a line or of its
block has to end it, or *closed*, and then its own closing brace does. A list of statements may hold
any number of empty lines.
-/

namespace LineScript.Grammar

/-! ## Expressions -/

mutual

/-- Expressions whose outermost operators have at least strength `k`. Layer three has no operators
left: it holds the operands. -/
inductive Layer : (k : Nat) → List Token → Expr → Prop where
  /-- An expression of the next tighter layer. -/
  | lift {k : Nat} {ts : List Token} {e : Expr} (h : Layer (k + 1) ts e) : Layer k ts e
  /-- An operator of strength `k`; its left operand may be another one of the same strength. -/
  | fold {k : Nat} {ls rs : List Token} {t : Token} {l r : Expr} {op : BinOp}
      (hl : Layer k ls l) (ht : t.isOperator op.symbol) (hk : op.strength = k)
      (hr : Layer (k + 1) rs r) : Layer k (ls ++ t :: rs) (.binary t l op r)
  /-- An operand. -/
  | operand {ts : List Token} {e : Expr} (h : Operand ts e) : Layer 3 ts e

/-- Operands. -/
inductive Operand : List Token → Expr → Prop where
  /-- An integer literal. -/
  | int {t : Token} {value : Int64} (ht : t.kind = .int)
      (hv : Numeral.readInt t.lexeme = .ok value) : Operand [t] (.int t value)
  /-- A floating-point literal. -/
  | float {t : Token} {value : Binary64} (ht : t.kind = .float)
      (hv : Binary64.read? t.lexeme = some value) : Operand [t] (.float t value)
  /-- A string literal. -/
  | text {t : Token} (ht : t.kind = .string) : Operand [t] (.text t t.lexeme)
  /-- The word for truth. -/
  | true {t : Token} (ht : t.isKeyword .adevarat) : Operand [t] (.bool t true)
  /-- The word for falsehood. -/
  | false {t : Token} (ht : t.isKeyword .fals) : Operand [t] (.bool t false)
  /-- A variable. -/
  | var {t : Token} (ht : isNameToken t) : Operand [t] (.var t t.lexeme)
  /-- A call. -/
  | call {t l r : Token} {ts : List Token} {args : List Expr} (ht : isNameToken t)
      (hl : l.kind = .lparen) (h : Arguments ts args) (hr : r.kind = .rparen) :
      Operand (t :: l :: ts ++ [r]) (.call t t.lexeme args)
  /-- An expression in parentheses. -/
  | paren {l r : Token} {ts : List Token} {e : Expr} (hl : l.kind = .lparen) (h : Layer 0 ts e)
      (hr : r.kind = .rparen) : Operand (l :: ts ++ [r]) e
  /-- A negated operand. -/
  | minus {t : Token} {ts : List Token} {e : Expr} (ht : t.isOperator BinOp.sub.symbol)
      (h : Operand ts e) : Operand (t :: ts) (negate t e)

/-- The arguments of a call, separated by commas. -/
inductive Arguments : List Token → List Expr → Prop where
  /-- No argument. -/
  | none : Arguments [] []
  /-- The last argument. -/
  | last {ts : List Token} {e : Expr} (h : Layer 0 ts e) : Arguments ts [e]
  /-- An argument before another one. -/
  | more {ts us : List Token} {c : Token} {e a : Expr} {args : List Expr} (h : Layer 0 ts e)
      (hc : c.kind = .comma) (hs : Arguments us (a :: args)) :
      Arguments (ts ++ c :: us) (e :: a :: args)

end

/-- Expressions. -/
abbrev Expression : List Token → Expr → Prop := Layer 0

/-! ## Statements without blocks -/

/-- Declarations. -/
inductive Declaration : List Token → Stmt → Prop where
  /-- `var NAME`. -/
  | bare {first name : Token} (hf : first.isKeyword .var) (hn : isNameToken name) :
      Declaration [first, name] (.declare first name.lexeme none)
  /-- `var NAME = EXPRESSION`. -/
  | initialised {first name equals : Token} {ts : List Token} {e : Expr}
      (hf : first.isKeyword .var) (hn : isNameToken name) (he : equals.isOperator (bytes "="))
      (h : Expression ts e) :
      Declaration (first :: name :: equals :: ts) (.declare first name.lexeme (some e))

/-- Assignments. The compound forms stand for the operation that they abbreviate. -/
inductive Assignment : List Token → Stmt → Prop where
  /-- `NAME = EXPRESSION`. -/
  | plain {name equals : Token} {ts : List Token} {e : Expr} (hn : isNameToken name)
      (he : equals.isOperator (bytes "=")) (h : Expression ts e) :
      Assignment (name :: equals :: ts) (.assign name name.lexeme e)
  /-- `NAME op= EXPRESSION`, for the four operators of arithmetic without the remainder. -/
  | compound {name t : Token} {op : BinOp} {ts : List Token} {e : Expr} (hn : isNameToken name)
      (hop : op ∈ [BinOp.add, .sub, .mul, .div]) (ht : t.isOperator (op.symbol ++ bytes "="))
      (h : Expression ts e) :
      Assignment (name :: t :: ts)
        (.assign name name.lexeme (.binary t (.var name name.lexeme) op e))
  /-- `NAME++` and `NAME--`. -/
  | step {name t : Token} {op : BinOp} (hn : isNameToken name) (hop : op ∈ [BinOp.add, .sub])
      (ht : t.isOperator (op.symbol ++ op.symbol)) :
      Assignment [name, t]
        (.assign name name.lexeme (.binary t (.var name name.lexeme) op (.int t 1)))

/-- A reserved word that may be left out. -/
inductive Optional (word : Keyword) : List Token → Prop where
  /-- It is left out. -/
  | absent : Optional word []
  /-- It is there. -/
  | present {t : Token} (ht : t.isKeyword word) : Optional word [t]

/-- The header of a counting loop: a declaration or an assignment, a condition and an assignment. -/
inductive Header : List Token → Stmt → Expr → Stmt → Prop where
  | parts {is cs ss : List Token} {c c' : Token} {start step : Stmt} {e : Expr}
      (hi : Declaration is start ∨ Assignment is start) (hc : c.kind = .comma)
      (he : Expression cs e) (hc' : c'.kind = .comma) (hs : Assignment ss step) :
      Header (is ++ c :: cs ++ c' :: ss) start e step

/-! ## Statements and blocks -/

mutual

/-- Statements that the end of a line or of a block has to end. -/
inductive Open : List Token → Stmt → Prop where
  /-- A declaration. -/
  | declaration {ts : List Token} {s : Stmt} (h : Declaration ts s) : Open ts s
  /-- An assignment. -/
  | assignment {ts : List Token} {s : Stmt} (h : Assignment ts s) : Open ts s
  /-- `afiseaza EXPRESSION`. -/
  | print {first : Token} {ts : List Token} {e : Expr} (hf : first.isKeyword .afiseaza)
      (h : Expression ts e) : Open (first :: ts) (.print first e)
  /-- `citeste NAME`. -/
  | input {first name : Token} (hf : first.isKeyword .citeste) (hn : isNameToken name) :
      Open [first, name] (.input first name.lexeme)
  /-- A call whose result is dropped. -/
  | call {t l r : Token} {ts : List Token} {args : List Expr} (ht : isNameToken t)
      (hl : l.kind = .lparen) (h : Arguments ts args) (hr : r.kind = .rparen) :
      Open (t :: l :: ts ++ [r]) (.eval t (.call t t.lexeme args))
  /-- `executa BLOCK cat timp EXPRESSION`. -/
  | doWhile {first w w' : Token} {ts es : List Token} {body : Block} {e : Expr}
      (hf : first.isKeyword .executa) (hb : Braces ts body) (hw : w.isKeyword .cat)
      (hw' : w'.isKeyword .timp) (h : Expression es e) :
      Open (first :: ts ++ w :: w' :: es) (.doWhile first e body)
  /-- `executa BLOCK pana cand EXPRESSION`. -/
  | doUntil {first w w' : Token} {ts es : List Token} {body : Block} {e : Expr}
      (hf : first.isKeyword .executa) (hb : Braces ts body) (hw : w.isKeyword .pana)
      (hw' : w'.isKeyword .cand) (h : Expression es e) :
      Open (first :: ts ++ w :: w' :: es) (.doUntil first e body)

/-- Statements that their own closing brace ends. -/
inductive Closed : List Token → Stmt → Prop where
  /-- `daca CONDITION [atunci] BLOCK` with its alternatives. -/
  | branch {first : Token} {ts us : List Token} {e : Expr} {body : Block} {a : Alternative}
      (hf : first.isKeyword .daca) (h : Guarded .atunci ts e body) (ha : Alternatives us a) :
      Closed (first :: ts ++ us) (.branch first e body a)
  /-- `cat timp CONDITION [executa] BLOCK`. -/
  | whileLoop {first w : Token} {ts : List Token} {e : Expr} {body : Block}
      (hf : first.isKeyword .cat) (hw : w.isKeyword .timp) (h : Guarded .executa ts e body) :
      Closed (first :: w :: ts) (.whileLoop first e body)
  /-- `pentru START, CONDITION, STEP [executa] BLOCK`. -/
  | forLoop {first : Token} {hs ws ts : List Token} {start step : Stmt} {e : Expr} {body : Block}
      (hf : first.isKeyword .pentru) (hh : Header hs start e step) (hw : Optional .executa ws)
      (hb : Braces ts body) : Closed (first :: hs ++ ws ++ ts) (.forLoop first start e step body)

/-- The alternatives of a conditional. -/
inductive Alternatives : List Token → Alternative → Prop where
  /-- There are none. -/
  | absent : Alternatives [] .absent
  /-- `altfel BLOCK`. -/
  | block {w : Token} {ts : List Token} {body : Block} (hw : w.isKeyword .altfel)
      (hb : Braces ts body) : Alternatives (w :: ts) (.block body)
  /-- `altfel daca CONDITION [atunci] BLOCK` with further alternatives. -/
  | elseIf {w w' : Token} {ts us : List Token} {e : Expr} {body : Block} {a : Alternative}
      (hw : w.isKeyword .altfel) (hw' : w'.isKeyword .daca) (h : Guarded .atunci ts e body)
      (ha : Alternatives us a) : Alternatives (w :: w' :: ts ++ us) (.elseIf e body a)

/-- A condition, a reserved word that may be left out, and a block. -/
inductive Guarded : (word : Keyword) → List Token → Expr → Block → Prop where
  | mk {word : Keyword} {es ws ts : List Token} {e : Expr} {body : Block} (h : Expression es e)
      (hw : Optional word ws) (hb : Braces ts body) : Guarded word (es ++ ws ++ ts) e body

/-- Statements in braces. -/
inductive Braces : List Token → Block → Prop where
  | mk {l r : Token} {ts : List Token} {body : Block} (hl : l.kind = .lbrace)
      (h : Statements ts body) (hr : r.kind = .rbrace) : Braces (l :: ts ++ [r]) body

/-- Lists of statements. -/
inductive Statements : List Token → Block → Prop where
  /-- Nothing. -/
  | nil : Statements [] []
  /-- An empty line. -/
  | skip {t : Token} {ts : List Token} {body : Block} (ht : t.kind = .lineEnd)
      (h : Statements ts body) : Statements (t :: ts) body
  /-- An open statement that the end of its line ends. -/
  | ended {t : Token} {ts us : List Token} {s : Stmt} {body : Block} (hs : Open ts s)
      (ht : t.kind = .lineEnd) (h : Statements us body) : Statements (ts ++ t :: us) (s :: body)
  /-- An open statement that the end of the block ends. -/
  | last {ts : List Token} {s : Stmt} (hs : Open ts s) : Statements ts [s]
  /-- A closed statement. -/
  | closed {ts us : List Token} {s : Stmt} {body : Block} (hs : Closed ts s)
      (h : Statements us body) : Statements (ts ++ us) (s :: body)

end

end LineScript.Grammar
