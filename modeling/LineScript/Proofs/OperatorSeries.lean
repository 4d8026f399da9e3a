import LineScript.Proofs.ExpressionReading

/-!
# Series of operands

The grammar of expressions once more, as it is usually written down: a series of operands with
operators of one strength between them, on three levels, and what is between the operators on the
last level. A series is folded to the left into a tree. The layers of `Grammar.Layer` recur on their
left instead; both grammars derive the same trees (`level_iff_layer`), and so reading an expression
follows this one too.
-/

namespace LineScript.Grammar

/-- The operators of each level, loosest first. -/
def levelOperators : (k : Nat) → List BinOp
  | 0 => [.eq, .ne, .lt, .gt, .le, .ge]
  | 1 => [.add, .sub]
  | 2 => [.mul, .div, .mod]
  | _ => []

/-- The operands of a series after the first, each with the operator before it. -/
abbrev Tail := List (Token × BinOp × Expr)

/-- The tree of a series. -/
def foldLeft (first : Expr) (tail : Tail) : Expr :=
  tail.foldl (fun left (t, op, right) => .binary t left op right) first

mutual

/-- Expressions of level `k`. Levels zero to two are series of the next level; level three has no
operators any more. -/
inductive Level : (k : Nat) → List Token → Expr → Prop where
  | series {k : Nat} {ts us : List Token} {first : Expr} {tail : Tail} (hk : k < 3)
      (h : Level (k + 1) ts first) (hs : Repeated k us tail) :
      Level k (ts ++ us) (foldLeft first tail)
  | primary {ts : List Token} {e : Expr} (h : Primary ts e) : Level 3 ts e

/-- Any number of operators of level `k`, each with the operand after it. -/
inductive Repeated : (k : Nat) → List Token → Tail → Prop where
  | none {k : Nat} : Repeated k [] []
  | next {k : Nat} {ts us : List Token} {t : Token} {op : BinOp} {e : Expr} {tail : Tail}
      (ht : t.isOperator op.symbol) (hop : op ∈ levelOperators k) (h : Level (k + 1) ts e)
      (hs : Repeated k us tail) : Repeated k (t :: ts ++ us) ((t, op, e) :: tail)

/-- What stands between operators. -/
inductive Primary : List Token → Expr → Prop where
  | int {t : Token} {value : Int64} (ht : t.kind = .int)
      (hv : Numeral.readInt t.lexeme = .ok value) : Primary [t] (.int t value)
  | float {t : Token} {value : Binary64} (ht : t.kind = .float)
      (hv : Binary64.read? t.lexeme = some value) : Primary [t] (.float t value)
  | text {t : Token} (ht : t.kind = .string) : Primary [t] (.text t t.lexeme)
  | true {t : Token} (ht : t.isKeyword .adevarat) : Primary [t] (.bool t true)
  | false {t : Token} (ht : t.isKeyword .fals) : Primary [t] (.bool t false)
  | var {t : Token} (ht : isNameToken t) : Primary [t] (.var t t.lexeme)
  | call {t l r : Token} (ht : isNameToken t) (hl : l.kind = .lparen) (hr : r.kind = .rparen) :
      Primary [t, l, r] (.call t t.lexeme [])
  | callWith {t l r : Token} {ts : List Token} {args : List Expr} (ht : isNameToken t)
      (hl : l.kind = .lparen) (h : Listed ts args) (hr : r.kind = .rparen) :
      Primary (t :: l :: ts ++ [r]) (.call t t.lexeme args)
  | paren {l r : Token} {ts : List Token} {e : Expr} (hl : l.kind = .lparen) (h : Level 0 ts e)
      (hr : r.kind = .rparen) : Primary (l :: ts ++ [r]) e
  /-- The negative of an integer literal is a literal. -/
  | minusInt {t u : Token} {ts : List Token} {value : Int64} (ht : t.isOperator BinOp.sub.symbol)
      (h : Primary ts (.int u value)) : Primary (t :: ts) (.int u (-value))
  /-- The negative of a floating-point literal is a literal. -/
  | minusFloat {t u : Token} {ts : List Token} {value : Binary64}
      (ht : t.isOperator BinOp.sub.symbol) (h : Primary ts (.float u value)) :
      Primary (t :: ts) (.float u value.neg)
  /-- Anything else is taken from zero. -/
  | minus {t : Token} {ts : List Token} {e : Expr} (ht : t.isOperator BinOp.sub.symbol)
      (h : Primary ts e) (hint : ∀ u value, e ≠ .int u value)
      (hfloat : ∀ u value, e ≠ .float u value) :
      Primary (t :: ts) (.binary t (.int t 0) .sub e)

/-- One expression or more, separated by commas. -/
inductive Listed : List Token → List Expr → Prop where
  | one {ts : List Token} {e : Expr} (h : Level 0 ts e) : Listed ts [e]
  | more {ts us : List Token} {c : Token} {e : Expr} {es : List Expr} (h : Level 0 ts e)
      (hc : c.kind = .comma) (hs : Listed us es) : Listed (ts ++ c :: us) (e :: es)

end

theorem mem_levelOperators {op : BinOp} {k : Nat} : op ∈ levelOperators k ↔ op.strength = k := by
  match k with
  | 0 | 1 | 2 => cases op <;> decide
  | k + 3 =>
    have hlt := op.strength_lt
    have hne : op.strength ≠ k + 3 := by omega
    simp [levelOperators, hne]

theorem foldLeft_append (first : Expr) (tail : Tail) (t : Token) (op : BinOp) (e : Expr) :
    foldLeft first (tail ++ [(t, op, e)]) = .binary t (foldLeft first tail) op e := by
  simp [foldLeft]

theorem Listed.ne_nil {ts : List Token} {es : List Expr} (h : Listed ts es) : es ≠ [] := by
  cases h <;> simp

/-! ## From series to layers -/

mutual

theorem Level.layer {k : Nat} {ts : List Token} {e : Expr} : Level k ts e → Layer k ts e
  | .series _ h hs => hs.layer _ _ h.layer.lift
  | .primary h => .operand h.operand

/-- The operators of a series are added one by one to what stands before them. -/
theorem Repeated.layer {k : Nat} {us : List Token} {tail : Tail} :
    Repeated k us tail → ∀ (ls : List Token) (left : Expr), Layer k ls left →
      Layer k (ls ++ us) (foldLeft left tail)
  | .none => by
    intro ls left hl
    simpa [foldLeft] using hl
  | @Repeated.next k ts us t op e tail ht hop h hs => by
    intro ls left hl
    have hfold := Layer.fold hl ht (mem_levelOperators.mp hop) h.layer
    have hrest := hs.layer _ _ hfold
    simpa [foldLeft] using hrest

/-- What a reader makes of an operand is what the grammar makes of it: the sign of a literal goes
into the literal, and any other negation is a subtraction from zero. -/
theorem Primary.operand {ts : List Token} {e : Expr} : Primary ts e → Operand ts e
  | .int ht hv => .int ht hv
  | .float ht hv => .float ht hv
  | .text ht => .text ht
  | .true ht => .true ht
  | .false ht => .false ht
  | .var ht => .var ht
  | .call ht hl hr => .call ht hl .none hr
  | .callWith ht hl h hr => .call ht hl h.arguments hr
  | .paren hl h hr => .paren hl h.layer hr
  | .minusInt ht h => .minus ht h.operand
  | .minusFloat ht h => .minus ht h.operand
  | @Primary.minus t ts e ht h hint hfloat => by
    have hnegate : negate t e = .binary t (.int t 0) .sub e := by
      cases e with
      | int u value => exact absurd rfl (hint u value)
      | float u value => exact absurd rfl (hfloat u value)
      | text | bool | var | binary | call => rfl
    rw [← hnegate]
    exact .minus ht h.operand

theorem Listed.arguments {ts : List Token} {es : List Expr} : Listed ts es → Arguments ts es
  | .one h => .last h.layer
  | @Listed.more ts us c e es h hc hs => by
    have hrest := hs.arguments
    cases es with
    | nil => exact absurd rfl hs.ne_nil
    | cons a es => exact .more h.layer hc hrest

end

/-! ## From layers to series -/

theorem Level.le_three {k : Nat} {ts : List Token} {e : Expr} (h : Level k ts e) : k ≤ 3 := by
  cases h with
  | series hk _ _ => omega
  | primary _ => omega

theorem Repeated.append {k : Nat} {us ts : List Token} {tail : Tail} {t : Token} {op : BinOp}
    {e : Expr} (h : Repeated k us tail) (ht : t.isOperator op.symbol)
    (hop : op ∈ levelOperators k) (he : Level (k + 1) ts e) :
    Repeated k (us ++ t :: ts) (tail ++ [(t, op, e)]) := by
  induction tail generalizing us with
  | nil =>
    cases h
    simpa using Repeated.next ht hop he .none
  | cons step tail ih =>
    cases h with
    | next ht' hop' h' hs =>
      have hrest := Repeated.next ht' hop' h' (ih hs)
      simpa using hrest

/-- A series goes on with another operator of its level. -/
theorem Level.append {k : Nat} {ls rs : List Token} {t : Token} {op : BinOp} {l r : Expr}
    (hl : Level k ls l) (ht : t.isOperator op.symbol) (hk : op.strength = k)
    (hr : Level (k + 1) rs r) : Level k (ls ++ t :: rs) (.binary t l op r) := by
  cases hl with
  | @series _ ts us first tail hlt h hs =>
    have hseries := Level.series hlt h (hs.append ht (mem_levelOperators.mpr hk) hr)
    rw [foldLeft_append, ← List.append_assoc] at hseries
    exact hseries
  | primary h =>
    have hlt := op.strength_lt
    omega

mutual

theorem Layer.level {k : Nat} {ts : List Token} {e : Expr} : Layer k ts e → Level k ts e
  | @Layer.lift k ts e h => by
    have hle := h.level.le_three
    have hseries := Level.series (by omega) h.level .none
    simpa [foldLeft] using hseries
  | .fold hl ht hk hr => hl.level.append ht hk hr.level
  | .operand h => .primary h.primary

theorem Operand.primary {ts : List Token} {e : Expr} : Operand ts e → Primary ts e
  | .int ht hv => .int ht hv
  | .float ht hv => .float ht hv
  | .text ht => .text ht
  | .true ht => .true ht
  | .false ht => .false ht
  | .var ht => .var ht
  | @Operand.call t l r ts args ht hl h hr => by
    rcases h.listed with ⟨rfl, rfl⟩ | hlisted
    · exact .call ht hl hr
    · exact .callWith ht hl hlisted hr
  | .paren hl h hr => .paren hl h.level hr
  | @Operand.minus t ts e ht h => by
    have hprimary := h.primary
    cases e with
    | int u value => exact .minusInt ht hprimary
    | float u value => exact .minusFloat ht hprimary
    | text | bool | var | binary | call => exact .minus ht hprimary nofun nofun

theorem Arguments.listed {ts : List Token} {es : List Expr} :
    Arguments ts es → (ts = [] ∧ es = []) ∨ Listed ts es
  | .none => .inl ⟨rfl, rfl⟩
  | .last h => .inr (.one h.level)
  | .more h hc hs => by
    rcases hs.listed with ⟨-, hnil⟩ | hlisted
    · cases hnil
    · exact .inr (.more h.level hc hlisted)

end

theorem level_iff_layer {k : Nat} {ts : List Token} {e : Expr} : Level k ts e ↔ Layer k ts e :=
  ⟨Level.layer, Layer.level⟩

end LineScript.Grammar

namespace LineScript

open Grammar

/-- Precedence climbing reads exactly the series of operands on three levels and builds their trees,
folded to the left. No token list has two trees. -/
theorem fullExpression_eq_ok_iff_level (ts : List Token) :
    (∀ e, fullExpression ts = .ok e ↔ Level 0 ts e) ∧
      ∀ e e', Level 0 ts e → Level 0 ts e' → e = e' := by
  have hreads : ∀ e, fullExpression ts = .ok e ↔ Level 0 ts e := by
    intro e
    rw [fullExpression_eq_ok_iff, level_iff_layer]
  refine ⟨hreads, fun e e' he he' => ?_⟩
  have hok : Except.ok e = Except.ok e' := ((hreads e).mpr he).symm.trans ((hreads e').mpr he')
  exact Except.ok.inj hok

/-- Differences group to the left and products before them, a minus sign is part of the literal
after it, and there is no other tree. -/
theorem fullExpression_eq_ok_iff_level_difference :
    let one : Token := ⟨.int, bytes "1", 1⟩
    let minus : Token := ⟨.operator, bytes "-", 1⟩
    let times : Token := ⟨.operator, bytes "*", 1⟩
    let x : Token := ⟨.identifier, bytes "x", 1⟩
    let ts := [one, minus, one, minus, x, times, minus, one]
    let e : Expr := .binary minus (.binary minus (.int one 1) .sub (.int one 1)) .sub
      (.binary times (.var x (bytes "x")) .mul (.int one (-1)))
    fullExpression ts = .ok e ∧ Level 0 ts e ∧ ∀ e', Level 0 ts e' → e' = e := by
  intro one minus times x ts e
  obtain ⟨hreads, hunique⟩ := fullExpression_eq_ok_iff_level ts
  have hok : fullExpression ts = .ok e := by rfl
  have hlevel : Level 0 ts e := (hreads e).mp hok
  exact ⟨hok, hlevel, fun e' he' => hunique e' e he' hlevel⟩

end LineScript
