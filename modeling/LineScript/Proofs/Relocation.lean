import LineScript.Proofs.WellFormed

/-!
# Moving tokens to other lines

The readers look at the kind and the lexeme of a token and never at its line. So tokens that are
moved to other lines are read into the same trees and the same diagnostics, moved in the same way;
moving is done by any function on line numbers.

Reading a block depends on nothing but its own tokens, and the bound on the depth of nesting does
not matter once it is large enough. That is the same statement for tokens that stay where they are,
so both are proved together.
-/

namespace LineScript

/-! ## Moving -/

section Definitions

variable (f : Int → Int)

/-- A token moved to another line. -/
def Token.relocate (t : Token) : Token := { t with line := f t.line }

mutual

/-- An expression moved to other lines. -/
def Expr.relocate : Expr → Expr
  | .int t value => .int (t.relocate f) value
  | .float t value => .float (t.relocate f) value
  | .text t value => .text (t.relocate f) value
  | .bool t value => .bool (t.relocate f) value
  | .var t name => .var (t.relocate f) name
  | .binary t left op right => .binary (t.relocate f) left.relocate op right.relocate
  | .call t name args => .call (t.relocate f) name (Expr.relocateAll args)

/-- Several expressions moved to other lines. -/
def Expr.relocateAll : List Expr → List Expr
  | [] => []
  | e :: es => e.relocate :: Expr.relocateAll es

end

mutual

/-- A statement moved to other lines. -/
def Stmt.relocate : Stmt → Stmt
  | .declare t name value => .declare (t.relocate f) name (value.map (Expr.relocate f))
  | .print t e => .print (t.relocate f) (e.relocate f)
  | .assign t name e => .assign (t.relocate f) name (e.relocate f)
  | .input t name => .input (t.relocate f) name
  | .eval t e => .eval (t.relocate f) (e.relocate f)
  | .branch t c body otherwise =>
    .branch (t.relocate f) (c.relocate f) (Stmt.relocateAll body) otherwise.relocate
  | .whileLoop t c body => .whileLoop (t.relocate f) (c.relocate f) (Stmt.relocateAll body)
  | .doWhile t c body => .doWhile (t.relocate f) (c.relocate f) (Stmt.relocateAll body)
  | .doUntil t c body => .doUntil (t.relocate f) (c.relocate f) (Stmt.relocateAll body)
  | .forLoop t start c step body =>
    .forLoop (t.relocate f) start.relocate (c.relocate f) step.relocate (Stmt.relocateAll body)

/-- Several statements moved to other lines. -/
def Stmt.relocateAll : List Stmt → List Stmt
  | [] => []
  | s :: rest => s.relocate :: Stmt.relocateAll rest

/-- An alternative moved to other lines. -/
def Alternative.relocate : Alternative → Alternative
  | .absent => .absent
  | .block body => .block (Stmt.relocateAll body)
  | .elseIf c body otherwise => .elseIf (c.relocate f) (Stmt.relocateAll body) otherwise.relocate

end

/-- A fault with the tokens that it names moved to other lines. -/
def Fault.relocate : Fault → Fault
  | .inputExtra extra name => .inputExtra (extra.relocate f) name
  | .stepExtra extra name symbol => .stepExtra (extra.relocate f) name symbol
  | .tokenAtStart t => .tokenAtStart (t.relocate f)
  | .inHeader part fault => .inHeader part fault.relocate
  | .trailing t => .trailing (t.relocate f)
  | .braceFound t => .braceFound (t.relocate f)
  | .tokenInExpression t => .tokenInExpression (t.relocate f)
  | fault => fault

/-- A line moved to other lines of the source. -/
def Line.relocate (l : Line) : Line := ⟨l.first.relocate f, l.rest.map (Token.relocate f)⟩

/-- A diagnostic moved to other lines. -/
def Diagnostic.relocate (d : Diagnostic) : Diagnostic := ⟨d.line.relocate f, d.fault.relocate f⟩

/-- What was read, moved to other lines. -/
def Parsed.relocate (p : Parsed) : Parsed :=
  ⟨Stmt.relocateAll f p.statements, p.diagnostics.map (Diagnostic.relocate f)⟩

/-- A result moved to other lines, where `g` moves what was read. -/
def relocateResult {α β : Type} (g : α → β) : Except Fault α → Except Fault β
  | .ok a => .ok (g a)
  | .error fault => .error (fault.relocate f)

/-- A result with the tokens after it. -/
def relocateReading {α β : Type} (g : α → β) :
    Except Fault (α × List Token) → Except Fault (β × List Token) :=
  relocateResult f fun p => (g p.1, p.2.map (Token.relocate f))

/-- An attempt moved to other lines. -/
def Attempt.relocate {α β : Type} (g : α → β) (x : Attempt α) : Attempt β :=
  ⟨x.diagnostics.map (Diagnostic.relocate f), relocateResult f g x.result⟩

end Definitions

variable {f : Int → Int}

/-! ## What moving keeps -/

namespace Token

@[simp] theorem kind_relocate (t : Token) : (t.relocate f).kind = t.kind := rfl

@[simp] theorem lexeme_relocate (t : Token) : (t.relocate f).lexeme = t.lexeme := rfl

@[simp] theorem isKeyword_relocate (word : Keyword) (t : Token) :
    (t.relocate f).isKeyword word = t.isKeyword word := rfl

@[simp] theorem isOperator_relocate (symbol : Bytes) (t : Token) :
    (t.relocate f).isOperator symbol = t.isOperator symbol := rfl

@[simp] theorem source_relocate (t : Token) : (t.relocate f).source = t.source := rfl

end Token

@[simp] theorem isNameToken_relocate (t : Token) : isNameToken (t.relocate f) = isNameToken t := rfl

theorem Stmt.relocateAll_append (b c : Block) :
    Stmt.relocateAll f (b ++ c) = Stmt.relocateAll f b ++ Stmt.relocateAll f c := by
  induction b with
  | nil => rfl
  | cons s b ih => simp [Stmt.relocateAll, ih]

/-- A moved fault has the same message. -/
@[simp] theorem Fault.message_relocate (fault : Fault) :
    (fault.relocate f).message = fault.message := by
  induction fault with
  | inHeader part fault ih =>
    cases part <;> simp only [Fault.relocate, Fault.message, ih]
  | _ => rfl

/-- A moved diagnostic differs from the one before in its line number only. -/
theorem Diagnostic.relocate_shows (d : Diagnostic) :
    (d.relocate f).lineNumber = f d.lineNumber ∧ (d.relocate f).source = d.source ∧
      (d.relocate f).fault.message = d.fault.message := by
  refine ⟨rfl, ?_, Fault.message_relocate d.fault⟩
  simp [Diagnostic.source, Diagnostic.relocate, Line.relocate, Line.tokens, Function.comp_def]

/-! ## Staying in place -/

mutual

theorem Expr.relocate_id : ∀ e : Expr, e.relocate id = e
  | .int _ _ | .float _ _ | .text _ _ | .bool _ _ | .var _ _ => rfl
  | .binary _ left _ right => by rw [Expr.relocate, left.relocate_id, right.relocate_id]; rfl
  | .call _ _ args => by rw [Expr.relocate, Expr.relocateAll_id args]; rfl

theorem Expr.relocateAll_id : ∀ es : List Expr, Expr.relocateAll id es = es
  | [] => rfl
  | e :: es => by rw [Expr.relocateAll, e.relocate_id, Expr.relocateAll_id es]

end

mutual

theorem Stmt.relocate_id : ∀ s : Stmt, s.relocate id = s
  | .declare _ _ none | .input _ _ => rfl
  | .declare _ _ (some e) | .print _ e | .assign _ _ e | .eval _ e => by
    simp only [Stmt.relocate, Option.map, e.relocate_id]; rfl
  | .branch _ c body otherwise => by
    rw [Stmt.relocate, c.relocate_id, Stmt.relocateAll_id body, otherwise.relocate_id]; rfl
  | .whileLoop _ c body | .doWhile _ c body | .doUntil _ c body => by
    rw [Stmt.relocate, c.relocate_id, Stmt.relocateAll_id body]; rfl
  | .forLoop _ start c step body => by
    rw [Stmt.relocate, start.relocate_id, c.relocate_id, step.relocate_id,
      Stmt.relocateAll_id body]; rfl

theorem Stmt.relocateAll_id : ∀ b : List Stmt, Stmt.relocateAll id b = b
  | [] => rfl
  | s :: rest => by rw [Stmt.relocateAll, s.relocate_id, Stmt.relocateAll_id rest]

theorem Alternative.relocate_id : ∀ a : Alternative, a.relocate id = a
  | .absent => rfl
  | .block body => by rw [Alternative.relocate, Stmt.relocateAll_id body]
  | .elseIf c body otherwise => by
    rw [Alternative.relocate, c.relocate_id, Stmt.relocateAll_id body, otherwise.relocate_id]

end

theorem map_relocate_id (ts : List Token) : ts.map (Token.relocate id) = ts := List.map_id ts

theorem Fault.relocate_id (fault : Fault) : fault.relocate id = fault := by
  induction fault with
  | inHeader part fault ih => rw [Fault.relocate, ih]
  | _ => rfl

theorem Diagnostic.relocate_id (d : Diagnostic) : d.relocate id = d := by
  obtain ⟨⟨first, rest⟩, fault⟩ := d
  rw [Diagnostic.relocate, Line.relocate, map_relocate_id, Fault.relocate_id]
  rfl

theorem Parsed.relocate_id (p : Parsed) : p.relocate id = p := by
  have hd : p.diagnostics.map (Diagnostic.relocate id) = p.diagnostics := by
    rw [funext Diagnostic.relocate_id]
    exact List.map_id p.diagnostics
  rw [Parsed.relocate, Stmt.relocateAll_id, hd]

/-! ## Reading expressions -/

theorem negate_relocate (minus : Token) (e : Expr) :
    negate (minus.relocate f) (e.relocate f) = (negate minus e).relocate f := by
  cases e <;> rfl

theorem intLiteral_relocate (t : Token) :
    intLiteral (t.relocate f) = relocateResult f (Expr.relocate f) (intLiteral t) := by
  unfold intLiteral
  simp only [Token.lexeme_relocate]
  split <;> rfl

theorem floatLiteral_relocate (t : Token) :
    floatLiteral (t.relocate f) = relocateResult f (Expr.relocate f) (floatLiteral t) := by
  unfold floatLiteral
  simp only [Token.lexeme_relocate]
  split <;> rfl

/-- A literal in front of other tokens. -/
theorem map_relocateResult {r r' : Except Fault Expr}
    (h : r' = relocateResult f (Expr.relocate f) r) (rest : List Token) :
    r'.map (·, rest.map (Token.relocate f)) =
      relocateReading f (Expr.relocate f) (r.map (·, rest)) := by
  subst h
  cases r <;> rfl

mutual

theorem climb_relocate : ∀ (n low : Nat) (ts : List Token),
    climb n low (ts.map (Token.relocate f)) =
      relocateReading f (Expr.relocate f) (climb n low ts)
  | 0, _, _ => rfl
  | n + 1, low, ts => by
    rw [climb, climb, primary_relocate n ts]
    cases primary n ts with
    | error fault => rfl
    | ok p => exact climbFrom_relocate n low p.1 p.2

/-- Operators are chosen by their kinds and symbols, and never by where they stand. -/
theorem climbFrom_relocate : ∀ (n low : Nat) (left : Expr) (ts : List Token),
    climbFrom n low (left.relocate f) (ts.map (Token.relocate f)) =
      relocateReading f (Expr.relocate f) (climbFrom n low left ts)
  | 0, _, _, _ => rfl
  | _ + 1, _, _, [] => rfl
  | n + 1, low, left, t :: rest => by
    simp only [List.map_cons, climbFrom, Token.kind_relocate, Token.lexeme_relocate]
    by_cases hop : t.kind = .operator
    · simp only [hop, ↓reduceIte]
      cases BinOp.ofSymbol? t.lexeme with
      | none => rfl
      | some op =>
        by_cases hlow : op.strength < low
        · simp only [hlow, ↓reduceIte]
          rfl
        · simp only [hlow, ↓reduceIte]
          rw [climb_relocate n (op.strength + 1) rest]
          cases climb n (op.strength + 1) rest with
          | error fault => rfl
          | ok p => exact climbFrom_relocate n low (.binary t left op p.1) p.2
    · simp only [hop, ↓reduceIte]
      rfl

/-- An operand is read from the kinds and lexemes of its tokens, so that moving the tokens moves the
operand, or the fault, and nothing else. -/
theorem primary_relocate : ∀ (n : Nat) (ts : List Token),
    primary n (ts.map (Token.relocate f)) = relocateReading f (Expr.relocate f) (primary n ts)
  | 0, _ => rfl
  | _ + 1, [] => rfl
  | n + 1, t :: rest => by
    simp only [List.map_cons, primary, Token.kind_relocate, Token.lexeme_relocate]
    cases t.kind with
    | int => exact map_relocateResult (intLiteral_relocate t) rest
    | float => exact map_relocateResult (floatLiteral_relocate t) rest
    | keyword =>
      by_cases htrue : t.lexeme = Keyword.adevarat.text
      · simp only [htrue, ↓reduceIte]
        rfl
      · by_cases hfalse : t.lexeme = Keyword.fals.text
        · simp only [hfalse, ↓reduceIte]
          rfl
        · simp only [htrue, hfalse, ↓reduceIte]
          rfl
    | identifier =>
      by_cases hname : isName t.lexeme
      · cases rest with
        | nil =>
          simp only [hname, ↓reduceIte]
          rfl
        | cons p rest =>
          by_cases hp : p.kind = .lparen
          · simp only [hname, hp, List.map_cons, Token.kind_relocate, ↓reduceIte]
            rw [arguments_relocate n t.lexeme rest]
            cases arguments n t.lexeme rest <;> rfl
          · simp only [hname, hp, List.map_cons, Token.kind_relocate, ↓reduceIte]
            rfl
      · simp only [hname, Bool.false_eq_true, ↓reduceIte]
        rfl
    | lparen =>
      dsimp only
      rw [climb_relocate n 0 rest]
      cases climb n 0 rest with
      | error fault => rfl
      | ok q =>
        obtain ⟨e, after⟩ := q
        cases after with
        | nil => rfl
        | cons p after =>
          by_cases hp : p.kind = .rparen
          · simp only [relocateReading, relocateResult, List.map_cons, Token.kind_relocate, hp,
              ↓reduceIte]
          · simp only [relocateReading, relocateResult, List.map_cons, Token.kind_relocate, hp,
              ↓reduceIte]
            rfl
    | operator =>
      by_cases hminus : t.lexeme = BinOp.sub.symbol
      · simp only [hminus, ↓reduceIte]
        rw [primary_relocate n rest]
        cases primary n rest with
        | error fault => rfl
        | ok p => simp only [relocateReading, relocateResult, negate_relocate]
      · simp only [hminus, ↓reduceIte]
        rfl
    | _ => rfl

theorem arguments_relocate : ∀ (n : Nat) (name : Bytes) (ts : List Token),
    arguments n name (ts.map (Token.relocate f)) =
      relocateReading f (Expr.relocateAll f) (arguments n name ts)
  | 0, _, _ => rfl
  | _ + 1, _, [] => rfl
  | n + 1, name, t :: rest => by
    simp only [List.map_cons, arguments, Token.kind_relocate]
    by_cases ht : t.kind = .rparen
    · simp only [ht, ↓reduceIte]
      rfl
    · simp only [ht, ↓reduceIte]
      exact moreArguments_relocate n name (t :: rest)

/-- The arguments after the first, up to the closing parenthesis. -/
theorem moreArguments_relocate : ∀ (n : Nat) (name : Bytes) (ts : List Token),
    moreArguments n name (ts.map (Token.relocate f)) =
      relocateReading f (Expr.relocateAll f) (moreArguments n name ts)
  | 0, _, _ => rfl
  | n + 1, name, ts => by
    rw [moreArguments, moreArguments, climb_relocate n 0 ts]
    cases climb n 0 ts with
    | error fault => rfl
    | ok q =>
      obtain ⟨e, after⟩ := q
      cases after with
      | nil => rfl
      | cons t rest =>
        simp only [relocateReading, relocateResult, List.map_cons, Token.kind_relocate]
        by_cases hc : t.kind = .comma
        · simp only [hc, ↓reduceIte]
          rw [moreArguments_relocate n name rest]
          cases moreArguments n name rest <;> rfl
        · by_cases hr : t.kind = .rparen
          · simp only [hr, reduceCtorEq, ↓reduceIte]
            rfl
          · simp only [hc, hr, ↓reduceIte]
            rfl

end

theorem expression_relocate (ts : List Token) :
    expression (ts.map (Token.relocate f)) =
      relocateReading f (Expr.relocate f) (expression ts) := by
  rw [expression, expression, List.length_map]
  exact climb_relocate _ 0 ts

theorem fullExpression_relocate (ts : List Token) :
    fullExpression (ts.map (Token.relocate f)) =
      relocateResult f (Expr.relocate f) (fullExpression ts) := by
  rw [fullExpression, fullExpression, expression_relocate]
  cases expression ts with
  | error fault => rfl
  | ok p =>
    obtain ⟨e, rest⟩ := p
    cases rest <;> rfl

/-! ## Reading statements without blocks -/

/-- An expression that is all a statement still needs. -/
theorem fullExpression_map_relocate {g g' : Expr → Stmt}
    (hg : ∀ e, g' (e.relocate f) = (g e).relocate f) (ts : List Token) :
    (fullExpression (ts.map (Token.relocate f))).map g' =
      relocateResult f (Stmt.relocate f) ((fullExpression ts).map g) := by
  rw [fullExpression_relocate]
  cases fullExpression ts with
  | error fault => rfl
  | ok e => exact congrArg Except.ok (hg e)

theorem declaration_relocate (first : Token) (ts : List Token) :
    declaration (first.relocate f) (ts.map (Token.relocate f)) =
      relocateResult f (Stmt.relocate f) (declaration first ts) := by
  cases ts with
  | nil => rfl
  | cons name rest =>
    by_cases hname : isNameToken name
    · cases rest with
      | nil => simp [declaration, hname, relocateResult, Stmt.relocate]
      | cons equals value =>
        by_cases hequals : equals.isOperator (bytes "=")
        · by_cases hvalue : value = []
          · simp [declaration, hname, hequals, hvalue, relocateResult, Fault.relocate]
          · simp only [List.map_cons, declaration, isNameToken_relocate, hname,
              Token.isOperator_relocate, hequals, List.isEmpty_iff, List.map_eq_nil_iff, hvalue,
              Bool.not_true, Bool.false_eq_true, ↓reduceIte]
            exact fullExpression_map_relocate (fun _ => rfl) value
        · simp [declaration, hname, hequals, relocateResult, Fault.relocate]
    · simp [declaration, hname, relocateResult, Fault.relocate]

theorem printing_relocate (first : Token) (ts : List Token) :
    printing (first.relocate f) (ts.map (Token.relocate f)) =
      relocateResult f (Stmt.relocate f) (printing first ts) := by
  by_cases hts : ts = []
  · subst hts
    rfl
  · simp only [printing, List.isEmpty_iff, List.map_eq_nil_iff, hts, ↓reduceIte]
    exact fullExpression_map_relocate (fun _ => rfl) ts

theorem inputting_relocate (first : Token) (ts : List Token) :
    inputting (first.relocate f) (ts.map (Token.relocate f)) =
      relocateResult f (Stmt.relocate f) (inputting first ts) := by
  cases ts with
  | nil => rfl
  | cons name rest =>
    by_cases hname : isNameToken name
    · cases rest <;> simp [inputting, hname, relocateResult, Stmt.relocate, Fault.relocate]
    · simp [inputting, hname, relocateResult, Fault.relocate]

/-- Which kind of assignment it is depends only on the symbol of its operator. -/
theorem assignment_relocate (name op : Token) (ts : List Token) :
    assignment (name.relocate f) (op.relocate f) (ts.map (Token.relocate f)) =
      relocateResult f (Stmt.relocate f) (assignment name op ts) := by
  unfold assignment
  simp only [Token.kind_relocate, Token.lexeme_relocate, List.isEmpty_iff, List.map_eq_nil_iff]
  by_cases hop : op.kind = .operator
  · by_cases hts : ts = []
    · subst hts
      by_cases hequals : op.lexeme = bytes "="
      · simp [hop, hequals, relocateResult, Fault.relocate]
      · cases hc : compoundOp? op.lexeme with
        | some binop => simp [hop, hequals, relocateResult, Fault.relocate]
        | none =>
          cases hs : stepOp? op.lexeme <;>
            simp [hop, hequals, relocateResult, Fault.relocate, Stmt.relocate, Expr.relocate]
    · by_cases hequals : op.lexeme = bytes "="
      · simp only [hop, hequals, hts, ne_eq, not_true_eq_false, ↓reduceIte]
        exact fullExpression_map_relocate (fun _ => rfl) ts
      · cases hc : compoundOp? op.lexeme with
        | some binop =>
          simp only [hop, hequals, hts, ne_eq, not_true_eq_false, ↓reduceIte]
          exact fullExpression_map_relocate (fun _ => rfl) ts
        | none =>
          obtain ⟨extra, rest, rfl⟩ := List.exists_cons_of_ne_nil hts
          cases hs : stepOp? op.lexeme <;> simp [hop, hequals, relocateResult, Fault.relocate]
  · simp [hop, relocateResult, Fault.relocate]

theorem assignmentOrCall_relocate (name : Token) (ts : List Token) :
    assignmentOrCall (name.relocate f) (ts.map (Token.relocate f)) =
      relocateResult f (Stmt.relocate f) (assignmentOrCall name ts) := by
  by_cases hname : isName name.lexeme
  · cases ts with
    | nil => simp [assignmentOrCall, hname, relocateResult, Fault.relocate]
    | cons op rest =>
      by_cases hop : op.kind = .lparen
      · have hcall := fullExpression_relocate (f := f) (name :: op :: rest)
        simp only [assignmentOrCall, List.map_cons, Token.lexeme_relocate, Token.kind_relocate,
          hname, hop, Bool.not_true, Bool.false_eq_true, ↓reduceIte] at hcall ⊢
        rw [hcall]
        cases fullExpression (name :: op :: rest) with
        | error fault => rfl
        | ok e => cases e <;> rfl
      · simp only [assignmentOrCall, List.map_cons, Token.lexeme_relocate, Token.kind_relocate,
          hname, hop, Bool.not_true, Bool.false_eq_true, ↓reduceIte]
        exact assignment_relocate name op rest
  · simp [assignmentOrCall, hname, relocateResult, Fault.relocate]

theorem headerStatement_relocate (ts : List Token) :
    headerStatement (ts.map (Token.relocate f)) =
      relocateResult f (Stmt.relocate f) (headerStatement ts) := by
  cases ts with
  | nil => rfl
  | cons t rest =>
    simp only [List.map_cons, headerStatement, Token.isKeyword_relocate, Token.kind_relocate]
    by_cases hvar : t.isKeyword .var
    · simp only [hvar, ↓reduceIte]
      exact declaration_relocate t rest
    · by_cases hname : t.kind = .identifier
      · simp only [hvar, hname, Bool.false_eq_true, ↓reduceIte]
        rw [assignmentOrCall_relocate]
        cases assignmentOrCall t rest with
        | error fault => rfl
        | ok s => cases s <;> rfl
      · simp only [hvar, hname, Bool.false_eq_true, ↓reduceIte]
        rfl

theorem parenDepth_relocate (depth : Int) (t : Token) :
    parenDepth depth (t.relocate f) = parenDepth depth t := rfl

theorem splitCommas_relocate (depth : Int) (ts : List Token) :
    splitCommas depth (ts.map (Token.relocate f)) =
      (splitCommas depth ts).map (List.map (Token.relocate f)) := by
  induction ts generalizing depth with
  | nil => rfl
  | cons t rest ih =>
    simp only [List.map_cons, splitCommas, parenDepth_relocate, ih, Token.kind_relocate]
    cases splitCommas (parenDepth depth t) rest with
    | nil => rfl
    | cons part parts =>
      by_cases hc : t.kind = .comma <;> by_cases hd : depth = 0 <;> simp [hc, hd]

theorem inPart_relocate {α β : Type} {g : α → β} {r : Except Fault α} {r' : Except Fault β}
    (h : r' = relocateResult f g r) (part : HeaderPart) :
    inPart part r' = relocateResult f g (inPart part r) := by
  subst h
  cases r <;> rfl

theorem exceptBind_relocate {α α' β β' : Type} {g : α → α'} {g' : β → β'} {r : Except Fault α}
    {r' : Except Fault α'} {k : α → Except Fault β} {k' : α' → Except Fault β'}
    (h : r' = relocateResult f g r) (hk : ∀ a, k' (g a) = relocateResult f g' (k a)) :
    (r' >>= k') = relocateResult f g' (r >>= k) := by
  subst h
  cases r with
  | error fault => rfl
  | ok a => exact hk a

theorem header_relocate (ts : List Token) :
    header (ts.map (Token.relocate f)) =
      relocateResult f (fun p => (p.1.relocate f, p.2.1.relocate f, p.2.2.relocate f))
        (header ts) := by
  unfold header
  rw [splitCommas_relocate]
  match splitCommas 0 ts with
  | [] | [_] | [_, _] | _ :: _ :: _ :: _ :: _ => rfl
  | [start, condition, step] =>
    simp only [List.map_cons, List.map_nil, List.isEmpty_map]
    by_cases he : (start.isEmpty || condition.isEmpty || step.isEmpty) = true
    · simp only [he, ↓reduceIte]
      rfl
    · simp only [he, Bool.false_eq_true, ↓reduceIte]
      refine exceptBind_relocate (inPart_relocate (headerStatement_relocate start) _) fun s => ?_
      refine exceptBind_relocate (inPart_relocate (fullExpression_relocate condition) _) fun e => ?_
      refine exceptBind_relocate (inPart_relocate (headerStatement_relocate step) _) fun u => ?_
      cases u <;> rfl

/-! ## Reading statements with blocks -/

namespace Attempt

variable {α α' β β' : Type} {g : α → α'} {g' : β → β'}

theorem lift_relocate {r : Except Fault α} {r' : Except Fault α'} (h : r' = relocateResult f g r) :
    (liftM r' : Attempt α') = Attempt.relocate f g (liftM r) := by
  subst h
  rfl

/-- Two attempts in sequence are moved when each of them is. -/
theorem bind_relocate {x : Attempt α} {x' : Attempt α'} {k : α → Attempt β} {k' : α' → Attempt β'}
    (hx : x' = x.relocate f g)
    (hk : ∀ a, x.result = .ok a → k' (g a) = (k a).relocate f g') :
    (x' >>= k') = (x >>= k).relocate f g' := by
  subst hx
  obtain ⟨ds, r⟩ := x
  cases r with
  | error fault => rfl
  | ok a =>
    have hka := hk a rfl
    simp only [Bind.bind, Attempt.relocate, relocateResult, List.map_append] at hka ⊢
    rw [hka]

end Attempt

open Attempt

/-- Two readers of blocks that agree up to moving, on all the stretches of a token list. -/
def MovesWithin (f : Int → Int) (body body' : List Token → Parsed) (ts : List Token) : Prop :=
  ∀ inside, inside <:+: ts → body' (inside.map (Token.relocate f)) = (body inside).relocate f

section Readers

variable {body body' : List Token → Parsed} {ts us : List Token}

theorem MovesWithin.mono (h : MovesWithin f body body' ts) (hus : us <:+: ts) :
    MovesWithin f body body' us :=
  fun inside hi => h inside (hi.trans hus)

/-- What is left after a block is a stretch of what was there before it. -/
theorem conditionalBlock_suffix {word : Keyword} {p : Expr × Block × List Token}
    (h : (conditionalBlock body word ts).result = .ok p) : p.2.2 <:+ ts :=
  have htrivial : SoundWithin (fun _ => True) (fun _ => True) body ts :=
    fun _ _ => ⟨trivial, fun _ _ => trivial⟩
  ((conditionalBlock_yields htrivial word).result p h).2.2

theorem splitBlock_relocate (depth : Nat) (ts : List Token) :
    splitBlock depth (ts.map (Token.relocate f)) =
      (splitBlock depth ts).map fun p =>
        (p.1.map (Token.relocate f), p.2.map (Token.relocate f)) := by
  induction ts generalizing depth with
  | nil => rfl
  | cons t rest ih =>
    simp only [List.map_cons, splitBlock, Token.kind_relocate, ih]
    by_cases hr : t.kind = .rbrace
    · cases depth with
      | zero => simp [hr]
      | succ depth => simp [hr, Function.comp_def]
    · by_cases hl : t.kind = .lbrace <;> simp [hr, hl, Function.comp_def]

theorem block_relocate (h : MovesWithin f body body' ts) :
    block body' (ts.map (Token.relocate f)) =
      (block body ts).relocate f fun p => (Stmt.relocateAll f p.1, p.2.map (Token.relocate f)) := by
  cases ts with
  | nil => rfl
  | cons t rest =>
    simp only [List.map_cons, block, Token.kind_relocate, splitBlock_relocate]
    by_cases hl : t.kind = .lbrace
    · cases hs : splitBlock 0 rest with
      | none => simp only [hl, Option.map_none, ↓reduceIte]; rfl
      | some p =>
        obtain ⟨inside, after⟩ := p
        obtain ⟨r, rfl, -⟩ := splitBlock_sound hs
        have hin := h inside ⟨[t], r :: after, by simp⟩
        simp only [hl, Option.map_some, ↓reduceIte, hin]
        rfl
    · simp only [hl, ↓reduceIte]
      rfl

theorem skipKeyword_relocate (word : Keyword) (ts : List Token) :
    skipKeyword word (ts.map (Token.relocate f)) =
      (skipKeyword word ts).map (Token.relocate f) := by
  cases ts with
  | nil => rfl
  | cons t rest => by_cases ht : t.isKeyword word <;> simp [skipKeyword, ht]

theorem conditionalBlock_relocate (h : MovesWithin f body body' ts) (word : Keyword) :
    conditionalBlock body' word (ts.map (Token.relocate f)) =
      (conditionalBlock body word ts).relocate f fun p =>
        (p.1.relocate f, Stmt.relocateAll f p.2.1, p.2.2.map (Token.relocate f)) := by
  cases ts with
  | nil => rfl
  | cons t rest =>
    simp only [List.map_cons, conditionalBlock, Token.isKeyword_relocate, Token.kind_relocate]
    by_cases ht : (t.isKeyword word || t.kind == .lbrace) = true
    · simp only [ht, ↓reduceIte]
      rfl
    · simp only [ht, Bool.false_eq_true, ↓reduceIte]
      refine bind_relocate (lift_relocate (expression_relocate (t :: rest))) fun p hp => ?_
      obtain ⟨used, hused, -⟩ := expression_sound hp
      have hafter : p.2 <:+ t :: rest := ⟨used, hused.symm⟩
      have hskip := (skipKeyword_suffix word p.2).trans hafter
      dsimp only
      rw [skipKeyword_relocate]
      exact bind_relocate (block_relocate (h.mono hskip.isInfix)) fun _ _ => rfl

theorem expectEnd_relocate (ts : List Token) :
    expectEnd (ts.map (Token.relocate f)) = (expectEnd ts).relocate f id := by
  cases ts <;> rfl

/-- The alternatives of a conditional, by induction on how many of them may follow. -/
theorem alternatives_relocate (h : MovesWithin f body body' ts) (n : Nat) :
    alternatives body' n (ts.map (Token.relocate f)) =
      (alternatives body n ts).relocate f fun p =>
        (p.1.relocate f, p.2.map (Token.relocate f)) := by
  induction n generalizing ts with
  | zero => rfl
  | succ n ih =>
    cases ts with
    | nil => rfl
    | cons t rest =>
      simp only [List.map_cons, alternatives, Token.isKeyword_relocate]
      by_cases ht : t.isKeyword .altfel
      · simp only [ht, ↓reduceIte]
        cases rest with
        | nil => rfl
        | cons u rest =>
          simp only [List.map_cons, Token.isKeyword_relocate]
          by_cases hu : u.isKeyword .daca
          · simp only [hu, ↓reduceIte]
            have hrest : MovesWithin f body body' rest :=
              h.mono ((List.suffix_cons u rest).trans (List.suffix_cons t _)).isInfix
            refine bind_relocate (conditionalBlock_relocate hrest .atunci) fun p hp => ?_
            -- what is left of the tokens holds only blocks that were in them
            have hafter := hrest.mono (conditionalBlock_suffix hp).isInfix
            exact bind_relocate (ih hafter) fun _ _ => rfl
          · simp only [hu, Bool.false_eq_true, ↓reduceIte]
            have hrest := h.mono (List.suffix_cons t (u :: rest)).isInfix
            exact bind_relocate (block_relocate hrest) fun _ _ => rfl
      · simp only [ht, Bool.false_eq_true, ↓reduceIte]
        rfl

theorem conditional_relocate (h : MovesWithin f body body' ts) (first : Token) :
    conditional body' (first.relocate f) (ts.map (Token.relocate f)) =
      (conditional body first ts).relocate f (Stmt.relocate f) := by
  refine bind_relocate (conditionalBlock_relocate h .atunci) fun ⟨e, b, after⟩ hp => ?_
  have hafter := h.mono (conditionalBlock_suffix hp).isInfix
  dsimp only
  rw [List.length_map]
  refine bind_relocate (alternatives_relocate hafter after.length) fun ⟨a, last⟩ _ => ?_
  exact bind_relocate (expectEnd_relocate last) fun _ _ => rfl

theorem partner_relocate (word after : Keyword) (ts : List Token) :
    partner word after (ts.map (Token.relocate f)) =
      relocateResult f (List.map (Token.relocate f)) (partner word after ts) := by
  cases ts with
  | nil => rfl
  | cons t rest =>
    by_cases ht : t.isKeyword word <;> simp [partner, ht, relocateResult, Fault.relocate]

theorem whileStatement_relocate (h : MovesWithin f body body' ts) (first : Token) :
    whileStatement body' (first.relocate f) (ts.map (Token.relocate f)) =
      (whileStatement body first ts).relocate f (Stmt.relocate f) := by
  refine bind_relocate (lift_relocate (partner_relocate .timp .cat ts)) fun rest hrest => ?_
  have hmoves := h.mono (partner_suffix hrest).isInfix
  refine bind_relocate (conditionalBlock_relocate hmoves .executa) fun ⟨e, b, last⟩ _ => ?_
  exact bind_relocate (expectEnd_relocate last) fun _ _ => rfl

theorem doStatement_relocate (h : MovesWithin f body body' ts) (first : Token) :
    doStatement body' (first.relocate f) (ts.map (Token.relocate f)) =
      (doStatement body first ts).relocate f (Stmt.relocate f) := by
  refine bind_relocate (block_relocate h) fun ⟨b, after⟩ _ => ?_
  cases after with
  | nil => rfl
  | cons t rest =>
    simp only [List.map_cons, Token.isKeyword_relocate]
    by_cases hcat : t.isKeyword .cat
    · simp only [hcat, ↓reduceIte]
      refine bind_relocate (lift_relocate (partner_relocate .timp .cat rest)) fun last _ => ?_
      exact bind_relocate (lift_relocate (fullExpression_relocate last)) fun _ _ => rfl
    · by_cases hpana : t.isKeyword .pana
      · simp only [hcat, hpana, Bool.false_eq_true, ↓reduceIte]
        refine bind_relocate (lift_relocate (partner_relocate .cand .pana rest)) fun last _ => ?_
        exact bind_relocate (lift_relocate (fullExpression_relocate last)) fun _ _ => rfl
      · simp only [hcat, hpana, Bool.false_eq_true, ↓reduceIte]
        rfl

theorem splitHeader_relocate (depth : Int) (ts : List Token) :
    splitHeader depth (ts.map (Token.relocate f)) =
      ((splitHeader depth ts).1.map (Token.relocate f),
        (splitHeader depth ts).2.map (Token.relocate f)) := by
  induction ts generalizing depth with
  | nil => rfl
  | cons t rest ih =>
    simp only [List.map_cons, splitHeader, parenDepth_relocate, Token.isKeyword_relocate,
      Token.kind_relocate, ih]
    by_cases hd : parenDepth depth t = 0
    · by_cases hk : t.isKeyword .executa
      · simp [hd, hk]
      · by_cases hl : t.kind = .lbrace <;> simp [hd, hk, hl]
    · simp [hd]

theorem forStatement_relocate (h : MovesWithin f body body' ts) (first : Token) :
    forStatement body' (first.relocate f) (ts.map (Token.relocate f)) =
      (forStatement body first ts).relocate f (Stmt.relocate f) := by
  unfold forStatement
  rw [splitHeader_relocate]
  cases hsplit : splitHeader 0 ts with
  | mk parts rest =>
    have hrest : rest <:+ ts := ⟨parts, (splitHeader_sound hsplit).symm⟩
    refine bind_relocate (lift_relocate (header_relocate parts)) fun ⟨start, e, step⟩ _ => ?_
    dsimp only
    rw [skipKeyword_relocate]
    have hskip := (skipKeyword_suffix .executa rest).trans hrest
    refine bind_relocate (block_relocate (h.mono hskip.isInfix)) fun ⟨b, last⟩ _ => ?_
    exact bind_relocate (expectEnd_relocate last) fun _ _ => rfl

/-- A moved line is read into the moved statement. -/
theorem statement_relocate {line : Line} (h : MovesWithin f body body' line.rest) :
    statement body' (line.relocate f) =
      (statement body line).relocate f (Stmt.relocate f) := by
  obtain ⟨first, rest⟩ := line
  simp only [statement, Line.relocate, Token.kind_relocate, Token.lexeme_relocate]
  cases first.kind with
  | keyword =>
    cases Keyword.ofText? first.lexeme with
    | none => rfl
    | some word =>
      cases word with
      | var => exact lift_relocate (declaration_relocate first rest)
      | afiseaza => exact lift_relocate (printing_relocate first rest)
      | citeste => exact lift_relocate (inputting_relocate first rest)
      | daca => exact conditional_relocate h first
      | cat => exact whileStatement_relocate h first
      | executa => exact doStatement_relocate h first
      | pentru => exact forStatement_relocate h first
      | _ => rfl
  | identifier => exact lift_relocate (assignmentOrCall_relocate first rest)
  | _ => rfl

end Readers

/-! ## Reading programs -/

theorem Parsed.relocate_append (x y : Parsed) :
    (x.append y).relocate f = (x.relocate f).append (y.relocate f) := by
  simp [Parsed.relocate, Parsed.append, Stmt.relocateAll_append]

theorem ofLine_relocate {body body' : List Token → Parsed} {l : Line}
    (h : MovesWithin f body body' l.rest) :
    Parsed.ofLine body' (l.relocate f) = (Parsed.ofLine body l).relocate f := by
  rw [Parsed.ofLine, Parsed.ofLine, statement_relocate h]
  obtain ⟨ds, r⟩ := statement body l
  cases r with
  | error fault => simp [Attempt.relocate, relocateResult, Parsed.relocate, Stmt.relocateAll,
      Diagnostic.relocate]
  | ok s => rfl

theorem ofLines_relocate {body body' : List Token → Parsed} {ls : List Line}
    (h : ∀ l ∈ ls, MovesWithin f body body' l.rest) :
    Parsed.ofLines body' (ls.map (Line.relocate f)) = (Parsed.ofLines body ls).relocate f := by
  induction ls with
  | nil => rfl
  | cons l ls ih =>
    have hl := ofLine_relocate (h l List.mem_cons_self)
    have hls := ih fun k hk => h k (List.mem_cons_of_mem l hk)
    calc Parsed.ofLines body' ((l :: ls).map (Line.relocate f))
      _ = (Parsed.ofLine body' (l.relocate f)).append
            (Parsed.ofLines body' (ls.map (Line.relocate f))) := rfl
      _ = ((Parsed.ofLine body l).relocate f).append ((Parsed.ofLines body ls).relocate f) := by
        rw [hl, hls]
      _ = (Parsed.ofLines body (l :: ls)).relocate f := (Parsed.relocate_append _ _).symm

theorem Line.ofTokens_relocate (ts : List Token) :
    Line.ofTokens (ts.map (Token.relocate f)) = (Line.ofTokens ts).map (Line.relocate f) := by
  cases ts <;> rfl

theorem continuesAfterBlock_relocate (first : Token) (next : Option Token) :
    continuesAfterBlock (first.relocate f) (next.map (Token.relocate f)) =
      continuesAfterBlock first next := by
  cases next <;> rfl

/-- The lines of moved tokens are the moved lines. -/
theorem linesFrom_relocate (read : List Token) (depth : Nat) (ts : List Token) :
    linesFrom (read.map (Token.relocate f)) depth (ts.map (Token.relocate f)) =
      (linesFrom read depth ts).map (Line.relocate f) := by
  induction ts generalizing read depth with
  | nil => rw [List.map_nil, linesFrom, linesFrom, ← List.map_reverse, Line.ofTokens_relocate]
  | cons t rest ih =>
    have hkeep := ih (t :: read)
    have hcut := ih [] 0
    rw [List.map_cons] at hkeep
    simp only [List.map_cons, linesFrom, Token.kind_relocate]
    cases t.kind with
    | lineEnd =>
      by_cases hd : depth = 0
      · simp only [hd, ↓reduceIte, List.map_append, ← List.map_reverse, Line.ofTokens_relocate]
        rw [← hcut, List.map_nil]
      · simp only [hd, ↓reduceIte]
        exact hkeep depth
    | lbrace => exact hkeep (depth + 1)
    | rbrace =>
      -- `read` is kept backwards: the first token of the line is its last one
      have hfirst : (read.map (Token.relocate f)).getLastD (t.relocate f) =
          (read.getLastD t).relocate f := by
        rw [List.getLastD_eq_getLast?, List.getLastD_eq_getLast?, List.getLast?_map,
          Option.getD_map]
      have hends : continuesAfterBlock ((read.map (Token.relocate f)).getLastD (t.relocate f))
          (rest.map (Token.relocate f)).head? =
            continuesAfterBlock (read.getLastD t) rest.head? := by
        rw [hfirst, List.head?_map, continuesAfterBlock_relocate]
      dsimp only
      rw [hends]
      split
      · rw [List.map_append, ← hcut, ← Line.ofTokens_relocate]
        simp
      · exact hkeep (depth - 1)
    | _ => exact hkeep depth

theorem splitLines_relocate (ts : List Token) :
    splitLines (ts.map (Token.relocate f)) = (splitLines ts).map (Line.relocate f) :=
  linesFrom_relocate [] 0 ts

/-- A block is shorter than the tokens whose line holds it. -/
theorem length_lt_of_within_line {ts inside : List Token} {l : Line} (hl : l ∈ splitLines ts)
    (hinside : inside <:+: l.rest) : inside.length < ts.length := by
  have hline := (splitLines_within hl).length_le
  have hblock := hinside.length_le
  simp only [Line.tokens, List.length_cons] at hline
  omega

/-- Blocks are read without regard to where their tokens stand, and under every bound on the depth
of nesting that is greater than their length. -/
theorem blockAt_relocate {n n' : Nat} {ts : List Token} (h : ts.length < n) (h' : ts.length < n') :
    blockAt n' (ts.map (Token.relocate f)) = (blockAt n ts).relocate f := by
  induction n generalizing n' ts with
  | zero => exact absurd h (Nat.not_lt_zero _)
  | succ n ih =>
    obtain ⟨n', rfl⟩ : ∃ k, n' = k + 1 := ⟨n' - 1, by omega⟩
    rw [blockAt, blockAt, splitLines_relocate]
    refine ofLines_relocate fun l hl inside hinside => ?_
    have hlength := length_lt_of_within_line hl hinside
    exact ih (by omega) (by omega)

/-- Moved tokens are read into the moved program, with the moved diagnostics. -/
theorem parse_relocate (ts : List Token) :
    parse (ts.map (Token.relocate f)) = (parse ts).relocate f :=
  blockAt_relocate (Nat.lt_succ_self _) (by simp)

/-- A block is read like a program. -/
theorem blockAt_eq_parse {n : Nat} {ts : List Token} (h : ts.length < n) :
    blockAt n ts = parse ts := by
  have hmoved := blockAt_relocate (f := id) (Nat.lt_succ_self ts.length) h
  rwa [map_relocate_id, Parsed.relocate_id] at hmoved

/-- A program is read line by line, and its blocks like programs. -/
theorem parse_eq_ofLines (ts : List Token) : parse ts = Parsed.ofLines parse (splitLines ts) := by
  have hbody : ∀ l ∈ splitLines ts, MovesWithin id parse (blockAt ts.length) l.rest := by
    intro l hl inside hinside
    rw [map_relocate_id, Parsed.relocate_id]
    exact blockAt_eq_parse (length_lt_of_within_line hl hinside)
  -- tokens that are not moved compare the two readers of blocks with each other
  have hlines := ofLines_relocate hbody
  rwa [← splitLines_relocate, map_relocate_id, Parsed.relocate_id] at hlines

end LineScript
