import LineScript.Syntax.Tree

/-!
# Trees without their tokens

The tokens of a tree say where its nodes are reported. Two trees that differ in nothing else have
the same shape; `bare` keeps the shape and puts one fixed token everywhere.
-/

namespace LineScript

mutual

/-- An expression with all its tokens forgotten. -/
def Expr.bare : Expr → Expr
  | .int _ value => .int default value
  | .float _ value => .float default value
  | .text _ value => .text default value
  | .bool _ value => .bool default value
  | .var _ name => .var default name
  | .binary _ left op right => .binary default left.bare op right.bare
  | .call _ name args => .call default name (Expr.bareAll args)

/-- Several expressions with all their tokens forgotten. -/
def Expr.bareAll : List Expr → List Expr
  | [] => []
  | e :: es => e.bare :: Expr.bareAll es

end

mutual

/-- A statement with all its tokens forgotten. -/
def Stmt.bare : Stmt → Stmt
  | .declare _ name value => .declare default name (value.map Expr.bare)
  | .print _ value => .print default value.bare
  | .assign _ name value => .assign default name value.bare
  | .input _ name => .input default name
  | .eval _ value => .eval default value.bare
  | .branch _ condition body otherwise =>
    .branch default condition.bare (Stmt.bareAll body) otherwise.bare
  | .whileLoop _ condition body => .whileLoop default condition.bare (Stmt.bareAll body)
  | .doWhile _ condition body => .doWhile default condition.bare (Stmt.bareAll body)
  | .doUntil _ condition body => .doUntil default condition.bare (Stmt.bareAll body)
  | .forLoop _ start condition step body =>
    .forLoop default start.bare condition.bare step.bare (Stmt.bareAll body)

/-- Several statements with all their tokens forgotten. -/
def Stmt.bareAll : List Stmt → List Stmt
  | [] => []
  | s :: rest => s.bare :: Stmt.bareAll rest

/-- An alternative with all its tokens forgotten. -/
def Alternative.bare : Alternative → Alternative
  | .absent => .absent
  | .block body => .block (Stmt.bareAll body)
  | .elseIf condition body otherwise =>
    .elseIf condition.bare (Stmt.bareAll body) otherwise.bare

end

end LineScript
