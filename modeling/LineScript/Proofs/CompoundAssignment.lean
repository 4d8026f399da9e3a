import LineScript.Proofs.Interpretation
import LineScript.Proofs.ProgramReading
import LineScript.Proofs.Relocation

/-!
# Compound assignments

`x op= e` abbreviates `x = x op (e)`, and `x++` and `x--` abbreviate `x = x + 1` and `x = x - 1`. The
right side of a compound assignment may end in an operator that binds less tightly than `op`, so the
long form needs the parentheses; with them it is read as the same tree, whatever stands inside.

The two forms have their tokens in different places. No evaluation looks at a token, and an
assignment looks only at the line of its first one, for its failures.
-/

namespace LineScript

open Grammar

/-! ## Trees that differ in their tokens -/

mutual

/-- Evaluation does not look at tokens. -/
theorem eval_bare (env : Env) : ∀ e : Expr, eval env e.bare = eval env e
  | .int _ _ | .float _ _ | .text _ _ | .bool _ _ | .var _ _ => by simp only [Expr.bare, eval]
  | .binary _ left _ right => by
    simp only [Expr.bare, eval, eval_bare env left, eval_bare env right]
  | .call _ _ args => by simp only [Expr.bare, eval, evalAll_bareAll env args]

theorem evalAll_bareAll (env : Env) : ∀ es : List Expr,
    evalAll env (Expr.bareAll es) = evalAll env es
  | [] => rfl
  | e :: es => by simp only [Expr.bareAll, evalAll, eval_bare env e, evalAll_bareAll env es]

end

mutual

theorem Expr.bare_relocate (f : Int → Int) : ∀ e : Expr, (e.relocate f).bare = e.bare
  | .int _ _ | .float _ _ | .text _ _ | .bool _ _ | .var _ _ => by simp only [relocate, bare]
  | .binary _ left _ right => by
    simp only [relocate, bare, left.bare_relocate f, right.bare_relocate f]
  | .call _ _ args => by simp only [relocate, bare, bareAll_relocateAll f args]

theorem Expr.bareAll_relocateAll (f : Int → Int) : ∀ es : List Expr,
    bareAll (relocateAll f es) = bareAll es
  | [] => rfl
  | e :: es => by simp only [relocateAll, bareAll, e.bare_relocate f, bareAll_relocateAll f es]

end

theorem exec_assign (env : Env) (rounds : Nat) (t : Token) (name : Bytes) (e : Expr) :
    exec env rounds (.assign t name e) =
      Action.atLine t.line (takeStep env >>= fun _ => assign env name e) := by
  rw [exec, Action.atLine_bind]

/-- Two token lists that are read without a diagnostic, each into one statement. The statements
differ in nothing but their tokens, and they do the same: a failure is reported on the line of the
statement that was executed, and all else is equal. -/
structure ReadAlike (ts us : List Token) (s s' : Stmt) : Prop where
  left : parse ts = ⟨[s], []⟩
  right : parse us = ⟨[s'], []⟩
  bare : s'.bare = s.bare
  runs : ∀ env rounds, ∃ work : Action Unit,
    exec env rounds s = work.atLine s.token.line ∧ exec env rounds s' = work.atLine s'.token.line

/-- On one line the two are executed identically. -/
theorem ReadAlike.exec_eq {ts us : List Token} {s s' : Stmt} (h : ReadAlike ts us s s')
    (hline : s'.token.line = s.token.line) (env : Env) (rounds : Nat) :
    exec env rounds s' = exec env rounds s := by
  obtain ⟨work, hs, hs'⟩ := h.runs env rounds
  rw [hs, hs', hline]

/-! ## Reading one assignment -/

theorem Grammar.Assignment.parse_eq {ts : List Token} {s : Stmt} (h : Assignment ts s) :
    parse ts = ⟨[s], []⟩ :=
  (rightBelow_blockAt (ts.length + 1) ts [s] (Nat.lt_succ_self _)).mpr (.last (.assignment h))

theorem Grammar.Assignment.readAlike {ts us : List Token} {t t' : Token} {name name' : Bytes}
    {e e' : Expr} (h : Assignment ts (.assign t name e)) (h' : Assignment us (.assign t' name' e'))
    (hname : name' = name) (hbare : e'.bare = e.bare) :
    ReadAlike ts us (.assign t name e) (.assign t' name' e') := by
  subst hname
  refine ⟨h.parse_eq, h'.parse_eq, by simp only [Stmt.bare, hbare], ?_⟩
  intro env rounds
  have hvalue : assign env name' e' = assign env name' e := by
    rw [assign, assign, ← eval_bare env e', hbare, eval_bare]
  refine ⟨takeStep env >>= fun _ => assign env name' e, exec_assign .., ?_⟩
  rw [exec_assign, hvalue]
  rfl

/-- A variable and an operand around an operator are an expression, however tightly the operator
binds: nothing in the operand can be taken away from it. -/
theorem Grammar.Operand.after_variable {y o : Token} {op : BinOp} {ts : List Token} {e : Expr}
    (hy : isNameToken y) (ho : o.isOperator op.symbol) (h : Operand ts e) :
    Expression (y :: o :: ts) (.binary o (.var y y.lexeme) op e) := by
  have hlt : op.strength < 3 := op.strength_lt
  have hleft : Layer op.strength [y] (.var y y.lexeme) :=
    (Layer.operand (.var hy)).lower (Nat.le_of_lt hlt)
  have hright : Layer (op.strength + 1) ts e := (Layer.operand h).lower hlt
  exact (Layer.fold hleft ho rfl hright).lower (Nat.zero_le _)

/-- An expression in parentheses stays one when its tokens are moved to other lines. -/
theorem paren_relocate {l r : Token} {es : List Token} {e : Expr} (f : Int → Int)
    (hl : l.kind = .lparen) (hr : r.kind = .rparen) (h : fullExpression es = .ok e) :
    Operand (l :: es.map (Token.relocate f) ++ [r]) (e.relocate f) := by
  have hmoved : fullExpression (es.map (Token.relocate f)) = .ok (e.relocate f) := by
    rw [fullExpression_relocate, h]
    rfl
  exact .paren hl (fullExpression_eq_ok_iff.mp hmoved) hr

/-! ## The abbreviations -/

/-- A compound assignment is its expansion, and an increment or a decrement is the addition or
subtraction of one. The long form may stand on other lines, with `f` moving the right side. -/
theorem compoundAssignment_as_expansion {x x' y equals : Token} (hx : isNameToken x)
    (hx' : isNameToken x') (hy : isNameToken y) (hname' : x'.lexeme = x.lexeme)
    (hname : y.lexeme = x.lexeme) (hequals : equals.isOperator (bytes "=")) :
    (∀ op ∈ [BinOp.add, .sub, .mul, .div], ∀ t o l r : Token,
      t.isOperator (op.symbol ++ bytes "=") → o.isOperator op.symbol →
      l.kind = .lparen → r.kind = .rparen →
      ∀ (f : Int → Int) (es : List Token) (e : Expr), fullExpression es = .ok e →
        ReadAlike (x :: t :: es)
          (x' :: equals :: y :: o :: l :: es.map (Token.relocate f) ++ [r])
          (.assign x x.lexeme (.binary t (.var x x.lexeme) op e))
          (.assign x' x'.lexeme (.binary o (.var y y.lexeme) op (e.relocate f)))) ∧
      ∀ op ∈ [BinOp.add, .sub], ∀ t o one : Token,
        t.isOperator (op.symbol ++ op.symbol) → o.isOperator op.symbol →
        one.kind = .int → one.lexeme = bytes "1" →
        ReadAlike [x, t] [x', equals, y, o, one]
          (.assign x x.lexeme (.binary t (.var x x.lexeme) op (.int t 1)))
          (.assign x' x'.lexeme (.binary o (.var y y.lexeme) op (.int one 1))) := by
  constructor
  · intro op hop t o l r ht ho hl hr f es e he
    have hshort := Assignment.compound hx hop ht (fullExpression_eq_ok_iff.mp he)
    have hlong := Assignment.plain hx' hequals ((paren_relocate f hl hr he).after_variable hy ho)
    refine hshort.readAlike hlong hname' ?_
    simp only [Expr.bare, hname, Expr.bare_relocate]
  · intro op hop t o one ht ho hkind hone
    have hvalue : Numeral.readInt one.lexeme = .ok 1 := by
      rw [hone]
      rfl
    have hshort := Assignment.step hx hop ht
    have hlong := Assignment.plain hx' hequals ((Operand.int hkind hvalue).after_variable hy ho)
    refine hshort.readAlike hlong hname' ?_
    simp only [Expr.bare, hname]

/-- `x *= a < b - 1` on line 2, whose right side binds less tightly than the product, against its
expansion on line 5; and `x--` against its own on the same line, so that they run identically. -/
theorem compoundAssignment_as_expansion_comparison :
    let name (text : String) (line : Int) : Token := ⟨.identifier, bytes text, line⟩
    let sign (text : String) : Token := ⟨.operator, bytes text, 2⟩
    let x (line : Int) : Expr := .var (name "x" line) (bytes "x")
    let one : Token := ⟨.int, bytes "1", 2⟩
    let es : List Token := [name "a" 2, sign "<", name "b" 2, sign "-", one]
    let e : Expr := .binary (sign "<") (.var (name "a" 2) (bytes "a")) .lt
      (.binary (sign "-") (.var (name "b" 2) (bytes "b")) .sub (.int one 1))
    let decrement : Stmt :=
      .assign (name "x" 2) (bytes "x") (.binary (sign "--") (x 2) .sub (.int (sign "--") 1))
    let subtraction : Stmt :=
      .assign (name "x" 2) (bytes "x") (.binary (sign "-") (x 2) .sub (.int one 1))
    fullExpression es = .ok e ∧
      ReadAlike (name "x" 2 :: sign "*=" :: es)
        (name "x" 5 :: sign "=" :: name "x" 5 :: sign "*" :: ⟨.lparen, bytes "(", 5⟩ ::
          es.map (Token.relocate (· + 3)) ++ [⟨.rparen, bytes ")", 5⟩])
        (.assign (name "x" 2) (bytes "x") (.binary (sign "*=") (x 2) .mul e))
        (.assign (name "x" 5) (bytes "x")
          (.binary (sign "*") (x 5) .mul (e.relocate (· + 3)))) ∧
      ReadAlike [name "x" 2, sign "--"] [name "x" 2, sign "=", name "x" 2, sign "-", one]
        decrement subtraction ∧
      ∀ env rounds, exec env rounds subtraction = exec env rounds decrement := by
  intro name sign x one es e decrement subtraction
  have hx : ∀ line, isNameToken (name "x" line) := fun _ => rfl
  have hequals : (sign "=").isOperator (bytes "=") := by decide
  have he : fullExpression es = .ok e := rfl
  have hlong := (compoundAssignment_as_expansion (hx 2) (hx 5) (hx 5) rfl rfl hequals).1 .mul
    (by decide) (sign "*=") (sign "*") ⟨.lparen, bytes "(", 5⟩ ⟨.rparen, bytes ")", 5⟩ (by decide)
    (by decide) rfl rfl (· + 3) es e he
  have hstep := (compoundAssignment_as_expansion (hx 2) (hx 2) (hx 2) rfl rfl hequals).2 .sub
    (by decide) (sign "--") (sign "-") one (by decide) (by decide) rfl rfl
  exact ⟨he, hlong, hstep, hstep.exec_eq rfl⟩

end LineScript
