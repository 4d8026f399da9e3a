import LineScript.Proofs.ExpressionReading

/-!
# Reading statements follows the grammar

The statements of one line that have no block, and the header of a counting loop: each reader
succeeds on exactly the tokens that the grammar derives, with the tree that it derives. A reader
that collects diagnostics is right when it returns its tree without any.
-/

namespace LineScript

open Grammar

/-! ## Attempts -/

namespace Attempt

variable {α β : Type}

/-- Two attempts in a row succeed without a diagnostic just if both do. -/
theorem bind_eq_pure_iff {x : Attempt α} {f : α → Attempt β} {b : β} :
    (x >>= f) = pure b ↔ ∃ a, x = pure a ∧ f a = pure b := by
  obtain ⟨ds, r⟩ := x
  cases r with
  | error fault =>
    constructor
    · intro h
      cases congrArg Attempt.result h
    · rintro ⟨a, ha, -⟩
      cases congrArg Attempt.result ha
  | ok a =>
    constructor
    · intro h
      have hd : ds ++ (f a).diagnostics = [] := congrArg Attempt.diagnostics h
      have hr : (f a).result = .ok b := congrArg Attempt.result h
      obtain ⟨hd, hf⟩ := List.append_eq_nil_iff.mp hd
      subst hd
      refine ⟨a, rfl, ?_⟩
      cases hfa : f a with
      | mk ds' r' =>
        rw [hfa] at hf hr
        simp only at hf hr
        rw [hf, hr]
        rfl
    · rintro ⟨a', ha, hf⟩
      have hd : ds = [] := congrArg Attempt.diagnostics ha
      have haa : a = a' := Except.ok.inj (congrArg Attempt.result ha)
      subst hd haa
      show (⟨[] ++ (f a).diagnostics, (f a).result⟩ : Attempt β) = pure b
      rw [hf]
      rfl

theorem bind_of_pure {x : Attempt α} {a : α} (h : x = pure a) (f : α → Attempt β) :
    (x >>= f) = f a := by
  rw [h]
  rfl

/-- The diagnostics of two attempts in sequence add up. -/
theorem bind_eq_ok {x : Attempt α} {f : α → Attempt β} {ds ds' : List Diagnostic} {a : α} {b : β}
    (hx : x = ⟨ds, .ok a⟩) (hf : f a = ⟨ds', .ok b⟩) : (x >>= f) = ⟨ds ++ ds', .ok b⟩ := by
  subst hx
  show (⟨ds ++ (f a).diagnostics, (f a).result⟩ : Attempt β) = _
  rw [hf]

/-- There are no more diagnostics when nothing is left to be read. -/
theorem bind_eq_ok_of_pure {x : Attempt α} {f : α → Attempt β} {ds : List Diagnostic} {a : α}
    {b : β} (hx : x = ⟨ds, .ok a⟩) (hf : f a = pure b) : (x >>= f) = ⟨ds, .ok b⟩ := by
  rw [bind_eq_ok hx hf, List.append_nil]

theorem lift_eq_pure_iff {r : Except Fault α} {a : α} :
    (liftM r : Attempt α) = pure a ↔ r = .ok a := by
  constructor
  · intro h
    exact congrArg Attempt.result h
  · rintro rfl
    rfl

theorem refuse_ne_pure {fault : Fault} {a : α} : refuse fault ≠ pure a := by
  intro h
  cases congrArg Attempt.result h

theorem pure_eq_pure_iff {a b : α} : (pure a : Attempt α) = pure b ↔ a = b := by
  constructor
  · intro h
    exact Except.ok.inj (congrArg Attempt.result h)
  · rintro rfl
    rfl

end Attempt

open Attempt

/-! ## Statements without blocks -/

/-- What `var` begins. -/
theorem declaration_eq_ok_iff {first : Token} {rest : List Token} {s : Stmt}
    (hf : first.isKeyword .var) :
    declaration first rest = .ok s ↔ Declaration (first :: rest) s := by
  constructor
  · intro h
    unfold declaration at h
    split at h
    · cases h
    · next name rest =>
      split at h
      · cases h
      · next hn =>
        simp only [Bool.not_eq_true', Bool.not_eq_false] at hn
        split at h
        · rw [← Except.ok.inj h]
          exact .bare hf hn
        · next equals value =>
          split at h
          · cases h
          · next he =>
            simp only [Bool.not_eq_true', Bool.not_eq_false] at he
            split at h
            · cases h
            · obtain ⟨e, hval, rfl⟩ := exceptMap_eq_ok.mp h
              exact .initialised hf hn he (fullExpression_eq_ok_iff.mp hval)
  · intro h
    cases h with
    | bare _ hn => simp [declaration, hn]
    | initialised _ hn he h =>
      simp [declaration, hn, he, h.isEmpty, fullExpression_eq_ok_iff.mpr h, Except.map]

theorem printing_eq_ok_iff {first : Token} {rest : List Token} {s : Stmt} :
    printing first rest = .ok s ↔ ∃ e, Expression rest e ∧ s = .print first e := by
  unfold printing
  constructor
  · intro h
    split at h
    · cases h
    · obtain ⟨e, he, rfl⟩ := exceptMap_eq_ok.mp h
      exact ⟨e, fullExpression_eq_ok_iff.mp he, rfl⟩
  · rintro ⟨e, he, rfl⟩
    simp [he.isEmpty, fullExpression_eq_ok_iff.mpr he, Except.map]

theorem inputting_eq_ok_iff {first : Token} {rest : List Token} {s : Stmt} :
    inputting first rest = .ok s ↔
      ∃ name, rest = [name] ∧ isNameToken name ∧ s = .input first name.lexeme := by
  constructor
  · intro h
    unfold inputting at h
    split at h
    · cases h
    · next name rest =>
      split at h
      · cases h
      · next hn =>
        simp only [Bool.not_eq_true', Bool.not_eq_false] at hn
        split at h
        · exact ⟨name, rfl, hn, (Except.ok.inj h).symm⟩
        · cases h
  · rintro ⟨name, rfl, hn, rfl⟩
    simp [inputting, hn]

/-- The operators of compound assignments. -/
theorem compoundOp?_eq_some_iff {symbol : Bytes} {op : BinOp} :
    compoundOp? symbol = some op ↔
      op ∈ [BinOp.add, .sub, .mul, .div] ∧ symbol = op.symbol ++ bytes "=" := by
  constructor
  · intro h
    have hmem := List.mem_of_find?_eq_some h
    have hsym := List.find?_some h
    exact ⟨hmem, (beq_iff_eq.mp hsym).symm⟩
  · rintro ⟨hmem, rfl⟩
    simp only [List.mem_cons, List.not_mem_nil, or_false] at hmem
    rcases hmem with rfl | rfl | rfl | rfl <;> decide

/-- The operators of increments and decrements. -/
theorem stepOp?_eq_some_iff {symbol : Bytes} {op : BinOp} :
    stepOp? symbol = some op ↔ op ∈ [BinOp.add, .sub] ∧ symbol = op.symbol ++ op.symbol := by
  constructor
  · intro h
    have hmem := List.mem_of_find?_eq_some h
    have hsym := List.find?_some h
    exact ⟨hmem, (beq_iff_eq.mp hsym).symm⟩
  · rintro ⟨hmem, rfl⟩
    simp only [List.mem_cons, List.not_mem_nil, or_false] at hmem
    rcases hmem with rfl | rfl <;> decide

theorem BinOp.symbol_ne_nil (op : BinOp) : op.symbol ≠ [] := by
  cases op <;> decide

/-- Increments and decrements are told apart from the other assignments by their operator. -/
theorem step_symbol_ne {op : BinOp} (hop : op ∈ [BinOp.add, .sub]) :
    op.symbol ++ op.symbol ≠ bytes "=" ∧ compoundOp? (op.symbol ++ op.symbol) = none := by
  simp only [List.mem_cons, List.not_mem_nil, or_false] at hop
  rcases hop with rfl | rfl <;> decide

/-- What a name and another token begin, unless that token opens a call. -/
theorem assignment_eq_ok_iff {name op : Token} {rest : List Token} {s : Stmt}
    (hn : isNameToken name) :
    assignment name op rest = .ok s ↔ Assignment (name :: op :: rest) s := by
  constructor
  · intro h
    unfold assignment at h
    simp only [ne_eq, ite_not] at h
    split at h
    · next hk =>
      split at h
      · next he =>
        split at h
        · cases h
        · obtain ⟨e, hval, rfl⟩ := exceptMap_eq_ok.mp h
          exact .plain hn (Token.isOperator_iff.mpr ⟨hk, he⟩) (fullExpression_eq_ok_iff.mp hval)
      · split at h
        · next binop hop =>
          obtain ⟨hmem, hsym⟩ := compoundOp?_eq_some_iff.mp hop
          split at h
          · cases h
          · obtain ⟨e, hval, rfl⟩ := exceptMap_eq_ok.mp h
            exact .compound hn hmem (Token.isOperator_iff.mpr ⟨hk, hsym⟩)
              (fullExpression_eq_ok_iff.mp hval)
        · split at h
          · next binop hop =>
            obtain ⟨hmem, hsym⟩ := stepOp?_eq_some_iff.mp hop
            split at h
            · rw [← Except.ok.inj h]
              exact .step hn hmem (Token.isOperator_iff.mpr ⟨hk, hsym⟩)
            · cases h
          · cases h
    · cases h
  · intro h
    cases h with
    | plain _ he h =>
      obtain ⟨hk, hsym⟩ := Token.isOperator_iff.mp he
      simp [assignment, hk, hsym, h.isEmpty, fullExpression_eq_ok_iff.mpr h, Except.map]
    | compound _ hop ht h =>
      obtain ⟨hk, hsym⟩ := Token.isOperator_iff.mp ht
      have hc := compoundOp?_eq_some_iff.mpr ⟨hop, rfl⟩
      simp [assignment, hk, hsym, BinOp.symbol_ne_nil, hc, h.isEmpty,
        fullExpression_eq_ok_iff.mpr h, Except.map]
    | step _ hop ht =>
      obtain ⟨hk, hsym⟩ := Token.isOperator_iff.mp ht
      obtain ⟨hne, hnone⟩ := step_symbol_ne hop
      have hs := stepOp?_eq_some_iff.mpr ⟨hop, rfl⟩
      simp [assignment, hk, hsym, hne, hnone, hs]

/-- Outside of the operands every tree has an operator at its root. -/
theorem Grammar.Layer.operand_of_ne {k : Nat} {ts : List Token} {e : Expr} :
    Layer k ts e → (∀ t l op r, e ≠ .binary t l op r) → Operand ts e
  | .lift h, hne => h.operand_of_ne hne
  | .fold _ _ _ _, hne => absurd rfl (hne _ _ _ _)
  | .operand h, _ => h

/-- No negation is a call. -/
theorem negate_ne_call (minus : Token) (e : Expr) (t : Token) (f : Bytes) (args : List Expr) :
    negate minus e ≠ .call t f args := by
  cases e <;> simp [negate]

/-- The expressions that begin with a name and a parenthesis and whose tree is a call are the calls
of that name. -/
theorem expression_call_iff {name l t : Token} {rest : List Token} {f : Bytes} {args : List Expr}
    (hn : isNameToken name) (hl : l.kind = .lparen) :
    Expression (name :: l :: rest) (.call t f args) ↔
      ∃ ts r, rest = ts ++ [r] ∧ Arguments ts args ∧ r.kind = .rparen ∧ t = name ∧
        f = name.lexeme := by
  have hk := (isNameToken_iff.mp hn).1
  constructor
  · intro h
    have hop := h.operand_of_ne (by simp)
    generalize hts : name :: l :: rest = ts at hop
    generalize he : Expr.call t f args = e at hop
    cases hop with
    | call _ _ ha hr =>
      cases hts
      cases he
      exact ⟨_, _, rfl, ha, hr, rfl, rfl⟩
    | paren hl' _ _ =>
      rw [← (List.cons.inj hts).1, hk] at hl'
      cases hl'
    | minus _ _ => exact absurd he.symm (negate_ne_call _ _ _ _ _)
    | int => cases he
    | float => cases he
    | text => cases he
    | true => cases he
    | false => cases he
    | var => cases he
  · rintro ⟨ts, r, rfl, ha, hr, rfl, rfl⟩
    exact (Layer.operand (.call hn hl ha hr)).lower (by omega)

/-- What a name begins: an assignment or a call. -/
theorem assignmentOrCall_eq_ok_iff {name : Token} {rest : List Token} {s : Stmt}
    (hk : name.kind = .identifier) :
    assignmentOrCall name rest = .ok s ↔
      Assignment (name :: rest) s ∨
        ∃ l ts r args, rest = l :: ts ++ [r] ∧ isNameToken name ∧ l.kind = .lparen ∧
          Arguments ts args ∧ r.kind = .rparen ∧ s = .eval name (.call name name.lexeme args) := by
  constructor
  · intro h
    unfold assignmentOrCall at h
    split at h
    · cases h
    · next hname =>
      simp only [Bool.not_eq_true', Bool.not_eq_false] at hname
      have hn : isNameToken name := isNameToken_iff.mpr ⟨hk, hname⟩
      split at h
      · cases h
      · next op tail =>
        split at h
        · next hl =>
          split at h
          · cases h
          · next t f args hfull =>
            obtain ⟨ts, r, rfl, ha, hr, rfl, rfl⟩ :=
              (expression_call_iff hn hl).mp (fullExpression_eq_ok_iff.mp hfull)
            exact Or.inr ⟨op, ts, r, args, rfl, hn, hl, ha, hr, (Except.ok.inj h).symm⟩
          · cases h
        · exact Or.inl ((assignment_eq_ok_iff hn).mp h)
  · rintro (h | ⟨l, ts, r, args, rfl, hn, hl, ha, hr, rfl⟩)
    · obtain ⟨op, tail, hn, rfl, hop⟩ : ∃ op tail, isNameToken name ∧ rest = op :: tail ∧
          op.kind = .operator := by
        cases h with
        | plain hn he _ => exact ⟨_, _, hn, rfl, (Token.isOperator_iff.mp he).1⟩
        | compound hn _ ht _ => exact ⟨_, _, hn, rfl, (Token.isOperator_iff.mp ht).1⟩
        | step hn _ ht => exact ⟨_, _, hn, rfl, (Token.isOperator_iff.mp ht).1⟩
      have hname := (isNameToken_iff.mp hn).2
      simp [assignmentOrCall, hname, hop, (assignment_eq_ok_iff hn).mpr h]
    · have hname := (isNameToken_iff.mp hn).2
      have hfull : fullExpression (name :: l :: (ts ++ [r])) = .ok (.call name name.lexeme args) :=
        fullExpression_eq_ok_iff.mpr
          ((expression_call_iff hn hl).mpr ⟨ts, r, rfl, ha, hr, rfl, rfl⟩)
      simp [assignmentOrCall, hname, hl, hfull]

/-! ## Headers of counting loops -/

/-- The statements that may stand in the header of a counting loop are declarations and assignments.
-/
theorem headerStatement_eq_ok_iff {ts : List Token} {s : Stmt} :
    headerStatement ts = .ok s ↔ Declaration ts s ∨ Assignment ts s := by
  constructor
  · intro h
    unfold headerStatement at h
    split at h
    · cases h
    · next t rest =>
      split at h
      · next hv => exact Or.inl ((declaration_eq_ok_iff hv).mp h)
      · split at h
        · next hk =>
          split at h
          · cases h
          · next token name value ha =>
            rcases (assignmentOrCall_eq_ok_iff hk).mp ha with hs | ⟨_, _, _, _, _, _, _, _, _, hs⟩
            · rw [← Except.ok.inj h]
              exact Or.inr hs
            · cases hs
          · cases h
        · cases h
  · rintro (h | h)
    · obtain ⟨first, rest, rfl, hf⟩ : ∃ first rest, ts = first :: rest ∧ first.isKeyword .var := by
        cases h with
        | bare hf _ => exact ⟨_, _, rfl, hf⟩
        | initialised hf _ _ _ => exact ⟨_, _, rfl, hf⟩
      simp [headerStatement, hf, (declaration_eq_ok_iff hf).mpr h]
    · obtain ⟨name, rest, token, x, e, rfl, hn, rfl⟩ : ∃ name rest token x e, ts = name :: rest ∧
          isNameToken name ∧ s = .assign token x e := by
        cases h with
        | plain hn _ _ => exact ⟨_, _, _, _, _, rfl, hn, rfl⟩
        | compound hn _ _ _ => exact ⟨_, _, _, _, _, rfl, hn, rfl⟩
        | step hn _ _ => exact ⟨_, _, _, _, _, rfl, hn, rfl⟩
      have hk := (isNameToken_iff.mp hn).1
      have hv : name.isKeyword .var = false := by simp [Token.isKeyword, hk]
      simp [headerStatement, hv, hk, (assignmentOrCall_eq_ok_iff hk).mpr (Or.inl h)]

theorem inPart_eq_ok_iff {α : Type} {part : HeaderPart} {r : Except Fault α} {a : α} :
    inPart part r = .ok a ↔ r = .ok a := by
  cases r with
  | error f => constructor <;> (intro h; cases h)
  | ok x => exact Iff.rfl

theorem exceptBind_eq_ok {ε α β : Type} {x : Except ε α} {f : α → Except ε β} {b : β} :
    (x >>= f) = .ok b ↔ ∃ a, x = .ok a ∧ f a = .ok b := by
  cases x <;> simp [bind, Except.bind]

/-- Enclosed tokens do not end the header. -/
theorem Grammar.Enclosed.not_endsHeader {low : Nat} {ts : List Token} (h : Enclosed low ts) :
    ∀ t ∈ ts, ¬ EndsHeader t := by
  rintro t ht (hw | hl)
  · exact h.words t ht hw
  · exact (h.plain t ht).1 hl

/-- Three enclosed parts are told apart by the commas between them. -/
theorem splitCommas_three {is cs ss : List Token} {c c' : Token} (hi : Enclosed 0 is)
    (hc : c.kind = .comma) (he : Enclosed 0 cs) (hc' : c'.kind = .comma) (hs : Enclosed 0 ss) :
    splitCommas 0 (is ++ c :: cs ++ c' :: ss) = [is, cs, ss] := by
  have hlast : splitCommas 0 ss = [ss] := by
    have : splitCommas 0 (ss ++ []) = [ss ++ []] := splitCommas_append (hs.parens 0 (by omega)) rfl
    simpa using this
  have hmid : splitCommas 0 (cs ++ c' :: ss) = [cs, ss] := by
    have := splitCommas_append (he.parens 0 (by omega)) (splitCommas_comma hc' ss)
    simpa [hlast] using this
  have hall := splitCommas_append (hi.parens 0 (by omega)) (splitCommas_comma hc (cs ++ c' :: ss))
  simpa [hmid] using hall

/-- The header of a counting loop is read as the grammar has it. -/
theorem header_eq_ok_iff {ts : List Token} {start step : Stmt} {e : Expr} :
    header ts = .ok (start, e, step) ↔ Header ts start e step := by
  constructor
  · intro h
    unfold header at h
    split at h
    · next is cs ss hparts =>
      split at h
      · cases h
      · obtain ⟨start', hi, h⟩ := exceptBind_eq_ok.mp h
        obtain ⟨e', he, h⟩ := exceptBind_eq_ok.mp h
        obtain ⟨step', hs, h⟩ := exceptBind_eq_ok.mp h
        rw [inPart_eq_ok_iff] at hi he hs
        rcases splitCommas_sound hparts with ⟨hnil, -⟩ | ⟨c, rest, _, hc, rfl, hparts'⟩
        · cases hnil
        rcases splitCommas_sound hparts' with ⟨hnil, -⟩ | ⟨c', rest', _, hc', rfl, hparts''⟩
        · cases hnil
        rcases splitCommas_sound hparts'' with ⟨-, rfl⟩ | ⟨_, _, _, _, _, hnil⟩
        · have hi' := headerStatement_eq_ok_iff.mp hi
          have he' := fullExpression_eq_ok_iff.mp he
          rcases headerStatement_eq_ok_iff.mp hs with hd | ha
          · -- a step that declares is refused
            cases hd <;> cases h
          · have hstep : (start', e', step') = (start, e, step) := by
              cases ha <;> exact Except.ok.inj h
            cases hstep
            have := Header.parts hi' hc he' hc' ha
            simpa using this
        · exact absurd hnil (splitCommas_ne_nil _ _)
    · cases h
  · intro h
    obtain ⟨hi, hc, he, hc', hs⟩ := h
    have hi' : Enclosed 0 _ := hi.elim Declaration.enclosed Assignment.enclosed
    have hne : ∀ {us : List Token} {s : Stmt}, headerStatement us = .ok s → us.isEmpty = false := by
      intro us s h
      cases us with
      | nil => cases h
      | cons => rfl
    have hstart := headerStatement_eq_ok_iff.mpr hi
    have hstep := headerStatement_eq_ok_iff.mpr (Or.inr hs)
    have hcond := fullExpression_eq_ok_iff.mpr he
    unfold header
    rw [splitCommas_three hi' hc (he.enclosed 0) hc' hs.enclosed]
    simp only [hne hstart, he.isEmpty, hne hstep, Bool.or_false, Bool.false_eq_true, if_false]
    rw [hstart, hstep, hcond]
    cases hs <;> rfl

end LineScript
