import LineScript.Proofs.Grammar
import LineScript.Proofs.LineGrouping

/-!
# What phrases of the grammar look like

Facts about the tokens of a derivation that do not depend on how it is read: with which tokens a
phrase begins and ends, that its parentheses and braces are matched, and that a comma or the end of
a line occurs only where the grammar hides it inside parentheses or braces.
-/

namespace LineScript

/-! ## Tokens -/

theorem Token.isOperator_iff {symbol : Bytes} {t : Token} :
    t.isOperator symbol ↔ t.kind = .operator ∧ t.lexeme = symbol := by
  simp [Token.isOperator]

theorem Token.isKeyword_iff {word : Keyword} {t : Token} :
    t.isKeyword word ↔ t.kind = .keyword ∧ t.lexeme = word.text := by
  simp [Token.isKeyword]

theorem isNameToken_iff {t : Token} :
    isNameToken t ↔ t.kind = .identifier ∧ isName t.lexeme := by
  simp [isNameToken]

/-- The spelling of an operator stands for that operator. -/
@[simp] theorem BinOp.ofSymbol?_symbol (op : BinOp) : BinOp.ofSymbol? op.symbol = some op := by
  cases op <;> decide

/-- No two operators are spelled alike. -/
theorem BinOp.symbol_of_ofSymbol? {symbol : Bytes} {op : BinOp}
    (h : BinOp.ofSymbol? symbol = some op) : op.symbol = symbol := by
  have := List.find?_some h
  simpa using this

/-- Products bind tightest. -/
theorem BinOp.strength_lt (op : BinOp) : op.strength < 3 := by
  cases op <;> decide

/-- The spelling of a reserved word stands for that word. -/
@[simp] theorem Keyword.ofText?_text (word : Keyword) : Keyword.ofText? word.text = some word := by
  cases word <;> decide

/-- No two reserved words are spelled alike. -/
theorem Keyword.text_of_ofText? {text : Bytes} {word : Keyword}
    (h : Keyword.ofText? text = some word) : word.text = text := by
  have := List.find?_some h
  simpa using this

theorem Keyword.text_injective {v w : Keyword} (h : v.text = w.text) : v = w := by
  have hv := Keyword.ofText?_text v
  rw [h, Keyword.ofText?_text] at hv
  exact (Option.some.inj hv).symm

/-- A token is one reserved word at most. -/
theorem Token.isKeyword_unique {v w : Keyword} {t : Token} (hv : t.isKeyword v)
    (hw : t.isKeyword w) : v = w := by
  rw [Token.isKeyword_iff] at hv hw
  exact Keyword.text_injective (hv.2.symm.trans hw.2)

/-! ## The beginning of an expression -/

namespace Grammar

/-- Tighter expressions are expressions of every looser layer. -/
theorem Layer.lower {k low : Nat} {ts : List Token} {e : Expr} (h : Layer k ts e) (hle : low ≤ k) :
    Layer low ts e := by
  induction k with
  | zero => exact Nat.le_zero.mp hle ▸ h
  | succ k ih =>
    rcases Nat.lt_or_eq_of_le hle with hlt | rfl
    · exact ih h.lift (Nat.lt_succ_iff.mp hlt)
    · exact h

/-- A token with which an expression can begin. -/
structure Begins (t : Token) : Prop where
  /-- The only reserved words are those for truth and falsehood. -/
  words : ∀ word, t.isKeyword word → word = .adevarat ∨ word = .fals
  /-- It opens no block. -/
  not_lbrace : t.kind ≠ .lbrace
  /-- It closes no call. -/
  not_rparen : t.kind ≠ .rparen

theorem begins_of_kind {t : Token}
    (hk : t.kind ∈ [Kind.identifier, .int, .float, .string, .operator, .lparen]) : Begins t := by
  simp only [List.mem_cons, List.not_mem_nil, or_false] at hk
  refine ⟨?_, ?_, ?_⟩
  · intro word hw
    have hkey := (Token.isKeyword_iff.mp hw).1
    simp [hkey] at hk
  · rcases hk with hk | hk | hk | hk | hk | hk <;> simp [hk]
  · rcases hk with hk | hk | hk | hk | hk | hk <;> simp [hk]

theorem begins_of_isKeyword {t : Token} {word : Keyword} (ht : t.isKeyword word)
    (hw : word = .adevarat ∨ word = .fals) : Begins t := by
  have hk := (Token.isKeyword_iff.mp ht).1
  refine ⟨?_, by simp [hk], by simp [hk]⟩
  intro w h
  rw [Token.isKeyword_unique h ht]
  exact hw

theorem Operand.begins {ts : List Token} {e : Expr} (h : Operand ts e) :
    ∃ t us, ts = t :: us ∧ Begins t := by
  cases h with
  | int ht _ => exact ⟨_, _, rfl, begins_of_kind (by simp [ht])⟩
  | float ht _ => exact ⟨_, _, rfl, begins_of_kind (by simp [ht])⟩
  | text ht => exact ⟨_, _, rfl, begins_of_kind (by simp [ht])⟩
  | true ht => exact ⟨_, _, rfl, begins_of_isKeyword ht (Or.inl rfl)⟩
  | false ht => exact ⟨_, _, rfl, begins_of_isKeyword ht (Or.inr rfl)⟩
  | var ht => exact ⟨_, _, rfl, begins_of_kind (by simp [(isNameToken_iff.mp ht).1])⟩
  | call ht _ _ _ => exact ⟨_, _, rfl, begins_of_kind (by simp [(isNameToken_iff.mp ht).1])⟩
  | paren hl _ _ => exact ⟨_, _, rfl, begins_of_kind (by simp [hl])⟩
  | minus ht _ => exact ⟨_, _, rfl, begins_of_kind (by simp [(Token.isOperator_iff.mp ht).1])⟩

/-- An expression has a first token, with which an expression can begin. -/
theorem Layer.begins {k : Nat} {ts : List Token} {e : Expr} :
    Layer k ts e → ∃ t us, ts = t :: us ∧ Begins t
  | .lift h => h.begins
  | .fold hl _ _ _ => by
    obtain ⟨t, us, rfl, ht⟩ := hl.begins
    exact ⟨t, _, rfl, ht⟩
  | .operand h => h.begins

theorem Layer.length_pos {k : Nat} {ts : List Token} {e : Expr} (h : Layer k ts e) :
    0 < ts.length := by
  obtain ⟨t, us, rfl, -⟩ := h.begins
  simp

theorem Layer.isEmpty {k : Nat} {ts : List Token} {e : Expr} (h : Layer k ts e) :
    ts.isEmpty = false := by
  obtain ⟨t, us, rfl, -⟩ := h.begins
  rfl

/-- Arguments begin like an expression, unless there are none. -/
theorem Arguments.begins {ts : List Token} {args : List Expr} (h : Arguments ts args) :
    (ts = [] ∧ args = []) ∨ (args ≠ [] ∧ ∃ t us, ts = t :: us ∧ Begins t) := by
  cases h with
  | none => exact Or.inl ⟨rfl, rfl⟩
  | last h => exact Or.inr ⟨by simp, h.begins⟩
  | more h _ _ =>
    obtain ⟨t, us, rfl, ht⟩ := h.begins
    exact Or.inr ⟨by simp, t, _, rfl, ht⟩

/-! ## The tokens of an expression -/

/-- Tokens without braces and line ends, whose parentheses are matched and whose commas stand in
parentheses, given that at least `low` parentheses are open already. -/
structure Enclosed (low : Nat) (ts : List Token) : Prop where
  /-- No token is a brace or the end of a line. -/
  plain : ∀ t ∈ ts, Plain t
  /-- No token is the word that begins the body of a loop. -/
  words : ∀ t ∈ ts, ¬ t.isKeyword .executa
  /-- Parentheses are matched. -/
  parens : ∀ depth, low ≤ depth → parenDepth? depth ts = some depth

theorem Enclosed.append {low : Nat} {ts us : List Token} (h : Enclosed low ts)
    (h' : Enclosed low us) : Enclosed low (ts ++ us) := by
  refine ⟨?_, ?_, ?_⟩
  · intro t ht
    rcases List.mem_append.mp ht with ht | ht
    · exact h.plain t ht
    · exact h'.plain t ht
  · intro t ht
    rcases List.mem_append.mp ht with ht | ht
    · exact h.words t ht
    · exact h'.words t ht
  · intro depth hd
    rw [parenDepth?_append, h.parens depth hd]
    exact h'.parens depth hd

theorem Enclosed.mono {low high : Nat} {ts : List Token} (h : Enclosed low ts) (hle : low ≤ high) :
    Enclosed high ts :=
  ⟨h.plain, h.words, fun depth hd => h.parens depth (Nat.le_trans hle hd)⟩

/-- A token that counts for nothing. -/
theorem enclosed_single {low : Nat} {t : Token} (ht : ¬ t.isKeyword .executa)
    (hk : t.kind ∈ [Kind.keyword, .identifier, .int, .float, .string, .operator]) :
    Enclosed low [t] := by
  simp only [List.mem_cons, List.not_mem_nil, or_false] at hk
  refine ⟨?_, by simpa using ht, ?_⟩
  · intro u hu
    rw [List.mem_singleton.mp hu]
    refine ⟨?_, ?_, ?_⟩ <;> rcases hk with hk | hk | hk | hk | hk | hk <;> simp [hk]
  · intro depth _
    cases depth <;> rcases hk with hk | hk | hk | hk | hk | hk <;>
      simp [parenDepth?_cons, parenDepth?_nil, parenStep?, hk]

/-- A comma counts for nothing inside parentheses. -/
theorem enclosed_comma {c : Token} (hc : c.kind = .comma) : Enclosed 1 [c] := by
  refine ⟨?_, ?_, ?_⟩
  · intro t ht
    rw [List.mem_singleton.mp ht]
    exact ⟨by simp [hc], by simp [hc], by simp [hc]⟩
  · intro t ht
    rw [List.mem_singleton.mp ht, Token.isKeyword_iff]
    simp [hc]
  · intro depth hd
    obtain ⟨depth, rfl⟩ : ∃ depth', depth = depth' + 1 := ⟨depth - 1, by omega⟩
    simp [parenDepth?_cons, parenDepth?_nil, parenStep?, hc]

/-- Parentheses hide the commas between them. -/
theorem Enclosed.inParens {low : Nat} {l r : Token} {ts : List Token} (hl : l.kind = .lparen)
    (h : Enclosed 1 ts) (hr : r.kind = .rparen) : Enclosed low (l :: ts ++ [r]) := by
  refine ⟨?_, ?_, ?_⟩
  · intro t ht
    rcases List.mem_append.mp ht with ht | ht
    · rcases List.mem_cons.mp ht with rfl | ht
      · exact ⟨by simp [hl], by simp [hl], by simp [hl]⟩
      · exact h.plain t ht
    · rw [List.mem_singleton.mp ht]
      exact ⟨by simp [hr], by simp [hr], by simp [hr]⟩
  · intro t ht
    rcases List.mem_append.mp ht with ht | ht
    · rcases List.mem_cons.mp ht with rfl | ht
      · simp [Token.isKeyword_iff, hl]
      · exact h.words t ht
    · rw [List.mem_singleton.mp ht, Token.isKeyword_iff]
      simp [hr]
  · intro depth _
    have hopen : parenStep? depth l = some (depth + 1) := by simp [parenStep?, hl]
    have hclose : parenDepth? (depth + 1) [r] = some depth := by
      simp [parenDepth?_cons, parenDepth?_nil, parenStep?, hr]
    rw [List.cons_append, parenDepth?_cons, hopen, Option.bind_some, parenDepth?_append,
      h.parens (depth + 1) (by omega)]
    exact hclose

theorem enclosed_operator {low : Nat} {symbol : Bytes} {t : Token} (ht : t.isOperator symbol) :
    Enclosed low [t] := by
  have hk := (Token.isOperator_iff.mp ht).1
  exact enclosed_single (by simp [Token.isKeyword_iff, hk]) (by simp [hk])

theorem enclosed_name {low : Nat} {t : Token} (ht : isNameToken t) : Enclosed low [t] := by
  have hk := (isNameToken_iff.mp ht).1
  exact enclosed_single (by simp [Token.isKeyword_iff, hk]) (by simp [hk])

theorem enclosed_keyword {low : Nat} {word : Keyword} {t : Token} (ht : t.isKeyword word)
    (hw : word ≠ .executa) : Enclosed low [t] := by
  have hk := (Token.isKeyword_iff.mp ht).1
  exact enclosed_single (fun h => hw (Token.isKeyword_unique ht h)) (by simp [hk])

mutual

/-- The tokens of an expression are enclosed. -/
theorem Layer.enclosed {k : Nat} {ts : List Token} {e : Expr} :
    Layer k ts e → ∀ low, Enclosed low ts
  | .lift h => fun low => h.enclosed low
  | .fold hl ht _ hr => fun low => by
    exact (hl.enclosed low).append ((enclosed_operator ht).append (hr.enclosed low))
  | .operand h => fun low => h.enclosed low

theorem Operand.enclosed {ts : List Token} {e : Expr} :
    Operand ts e → ∀ low, Enclosed low ts
  | .int ht _ => fun _ => enclosed_single (by simp [Token.isKeyword_iff, ht]) (by simp [ht])
  | .float ht _ => fun _ => enclosed_single (by simp [Token.isKeyword_iff, ht]) (by simp [ht])
  | .text ht => fun _ => enclosed_single (by simp [Token.isKeyword_iff, ht]) (by simp [ht])
  | .true ht => fun _ => enclosed_keyword ht (by decide)
  | .false ht => fun _ => enclosed_keyword ht (by decide)
  | .var ht => fun _ => enclosed_name ht
  | .call ht hl h hr => fun _ => (enclosed_name ht).append (h.enclosed.inParens hl hr)
  | .paren hl h hr => fun _ => (h.enclosed 1).inParens hl hr
  | .minus ht h => fun low => (enclosed_operator ht).append (h.enclosed low)

theorem Arguments.enclosed {ts : List Token} {args : List Expr} : Arguments ts args → Enclosed 1 ts
  | .none => ⟨by simp, by simp, fun _ _ => rfl⟩
  | .last h => h.enclosed 1
  | .more h hc hs => (h.enclosed 1).append ((enclosed_comma hc).append hs.enclosed)

end

/-! ## Statements without blocks -/

theorem Declaration.enclosed {ts : List Token} {s : Stmt} (h : Declaration ts s) :
    Enclosed 0 ts := by
  cases h with
  | bare hf hn => exact (enclosed_keyword hf (by decide)).append (enclosed_name hn)
  | initialised hf hn he h =>
    exact (enclosed_keyword hf (by decide)).append
      ((enclosed_name hn).append ((enclosed_operator he).append (h.enclosed 0)))

theorem Assignment.enclosed {ts : List Token} {s : Stmt} (h : Assignment ts s) :
    Enclosed 0 ts := by
  cases h with
  | plain hn he h => exact (enclosed_name hn).append ((enclosed_operator he).append (h.enclosed 0))
  | compound hn _ ht h =>
    exact (enclosed_name hn).append ((enclosed_operator ht).append (h.enclosed 0))
  | step hn _ ht => exact (enclosed_name hn).append (enclosed_operator ht)

theorem Header.plain {ts : List Token} {start step : Stmt} {e : Expr} (h : Header ts start e step) :
    ∀ t ∈ ts, Plain t := by
  obtain ⟨hi, hc, he, hc', hs⟩ := h
  have hstart : Enclosed 0 _ := hi.elim Declaration.enclosed Assignment.enclosed
  have hfront := (hstart.mono (by omega)).append ((enclosed_comma hc).append (he.enclosed 1))
  have hall := hfront.append ((enclosed_comma hc').append (hs.enclosed.mono (by omega)))
  simpa using hall.plain

theorem Optional.plain {word : Keyword} {ws : List Token} (h : Optional word ws) :
    ∀ t ∈ ws, Plain t := by
  intro t ht
  cases h with
  | absent => simp at ht
  | present hw =>
    have hk := (Token.isKeyword_iff.mp hw).1
    rw [List.mem_singleton.mp ht]
    exact ⟨by simp [hk], by simp [hk], by simp [hk]⟩

/-! ## Statements and blocks -/

theorem not_altfel_of_isKeyword {t : Token} {word : Keyword} (ht : t.isKeyword word)
    (hne : word ≠ .altfel) : ¬ t.isKeyword .altfel :=
  fun h => hne (Token.isKeyword_unique ht h)

theorem not_altfel_of_isNameToken {t : Token} (ht : isNameToken t) : ¬ t.isKeyword .altfel := by
  intro h
  have hk := (isNameToken_iff.mp ht).1
  rw [(Token.isKeyword_iff.mp h).1] at hk
  cases hk

/-- No statement begins with the word for alternatives, so a conditional ends before any
statement. -/
theorem Open.first {ts : List Token} {s : Stmt} (h : Open ts s) :
    ∃ t us, ts = t :: us ∧ ¬ t.isKeyword .altfel := by
  cases h with
  | declaration h =>
    cases h with
    | bare hf _ => exact ⟨_, _, rfl, not_altfel_of_isKeyword hf (by decide)⟩
    | initialised hf _ _ _ => exact ⟨_, _, rfl, not_altfel_of_isKeyword hf (by decide)⟩
  | assignment h =>
    cases h with
    | plain hn _ _ => exact ⟨_, _, rfl, not_altfel_of_isNameToken hn⟩
    | compound hn _ _ _ => exact ⟨_, _, rfl, not_altfel_of_isNameToken hn⟩
    | step hn _ _ => exact ⟨_, _, rfl, not_altfel_of_isNameToken hn⟩
  | print hf _ => exact ⟨_, _, rfl, not_altfel_of_isKeyword hf (by decide)⟩
  | input hf _ => exact ⟨_, _, rfl, not_altfel_of_isKeyword hf (by decide)⟩
  | call ht _ _ _ => exact ⟨_, _, rfl, not_altfel_of_isNameToken ht⟩
  | doWhile hf _ _ _ _ => exact ⟨_, _, rfl, not_altfel_of_isKeyword hf (by decide)⟩
  | doUntil hf _ _ _ _ => exact ⟨_, _, rfl, not_altfel_of_isKeyword hf (by decide)⟩

theorem Closed.first {ts : List Token} {s : Stmt} (h : Closed ts s) :
    ∃ t us, ts = t :: us ∧ ¬ t.isKeyword .altfel := by
  cases h with
  | branch hf _ _ => exact ⟨_, _, rfl, not_altfel_of_isKeyword hf (by decide)⟩
  | whileLoop hf _ _ => exact ⟨_, _, rfl, not_altfel_of_isKeyword hf (by decide)⟩
  | forLoop hf _ _ _ => exact ⟨_, _, rfl, not_altfel_of_isKeyword hf (by decide)⟩

/-- No statement begins with `altfel`, so a series of statements does not either. -/
theorem Statements.head {ts : List Token} {body : Block} (h : Statements ts body) :
    ∀ t ∈ ts.head?, ¬ t.isKeyword .altfel := by
  have hcons : ∀ {ts : List Token} (us : List Token),
      (∃ t vs, ts = t :: vs ∧ ¬ t.isKeyword .altfel) →
      ∀ t ∈ (ts ++ us).head?, ¬ t.isKeyword .altfel := by
    rintro _ us ⟨t, vs, rfl, ht⟩ u hu
    simp only [List.cons_append, List.head?_cons, Option.mem_def, Option.some.injEq] at hu
    exact hu ▸ ht
  cases h with
  | nil => simp
  | skip ht _ =>
    intro t hmem
    simp only [List.head?_cons, Option.mem_def, Option.some.injEq] at hmem
    rw [← hmem, Token.isKeyword_iff]
    simp [ht]
  | ended hs _ _ => exact hcons _ hs.first
  | last hs =>
    have := hcons [] hs.first
    rwa [List.append_nil] at this
  | closed hs _ => exact hcons _ hs.first

/-- Enclosed tokens do not end with a closing brace. -/
theorem Enclosed.getLast {low : Nat} {ts us : List Token} {t : Token} (h : Enclosed low ts)
    (hts : ts = us ++ [t]) : t.kind ≠ .rbrace := by
  have ht : t ∈ ts := by simp [hts]
  exact (h.plain t ht).2.1

/-- An open statement does not end with a closing brace. -/
theorem Open.last {ts us : List Token} {s : Stmt} {t : Token} (h : Open ts s)
    (hts : ts = us ++ [t]) : t.kind ≠ .rbrace := by
  -- where an expression ends the statement, the last token is the last one of the expression
  have hexpr : ∀ (vs : List Token) {es : List Token} {e : Expr}, Expression es e →
      vs ++ es = us ++ [t] → t.kind ≠ .rbrace := by
    intro vs es e he heq
    obtain ⟨es', u, rfl⟩ : ∃ es' u, es = es' ++ [u] := by
      rcases List.eq_nil_or_concat es with rfl | ⟨es', u, h⟩
      · exact absurd he.length_pos (by simp)
      · exact ⟨es', u, by simpa using h⟩
    rw [← List.append_assoc] at heq
    obtain ⟨-, hu⟩ := List.append_inj' heq rfl
    rw [← List.head_eq_of_cons_eq hu]
    exact (he.enclosed 0).getLast rfl
  cases h with
  | declaration h => exact h.enclosed.getLast hts
  | assignment h => exact h.enclosed.getLast hts
  | @print first ts e hf h => exact hexpr [first] h hts
  | input hf hn =>
    exact ((enclosed_keyword hf (by decide) : Enclosed 0 _).append (enclosed_name hn)).getLast hts
  | call ht hl h hr =>
    exact ((enclosed_name ht : Enclosed 0 _).append (h.enclosed.inParens hl hr)).getLast hts
  | @doWhile first w w' ts es body e hf hb hw hw' h =>
    exact hexpr (first :: ts ++ [w, w']) h (by simpa using hts)
  | @doUntil first w w' ts es body e hf hb hw hw' h =>
    exact hexpr (first :: ts ++ [w, w']) h (by simpa using hts)

theorem Enclosed.balanced {low : Nat} {ts : List Token} (h : Enclosed low ts) : Balanced ts :=
  balanced_of_plain h.plain

theorem balanced_keyword {word : Keyword} {t : Token} (ht : t.isKeyword word) : Balanced [t] := by
  have hk := (Token.isKeyword_iff.mp ht).1
  exact balanced_nil.cons (by simp [hk]) (by simp [hk])

mutual

theorem Open.balanced {ts : List Token} {s : Stmt} : Open ts s → Balanced ts
  | .declaration h => h.enclosed.balanced
  | .assignment h => h.enclosed.balanced
  | .print hf h => (balanced_keyword hf).append (h.enclosed 0).balanced
  | .input hf hn => (balanced_keyword hf).append (enclosed_name hn : Enclosed 0 _).balanced
  | .call ht hl h hr =>
    ((enclosed_name ht : Enclosed 0 _).append (h.enclosed.inParens hl hr)).balanced
  | .doWhile hf hb hw hw' h =>
    ((balanced_keyword hf).append hb.balanced).append
      ((balanced_keyword hw).append ((balanced_keyword hw').append (h.enclosed 0).balanced))
  | .doUntil hf hb hw hw' h =>
    ((balanced_keyword hf).append hb.balanced).append
      ((balanced_keyword hw).append ((balanced_keyword hw').append (h.enclosed 0).balanced))

theorem Closed.balanced {ts : List Token} {s : Stmt} : Closed ts s → Balanced ts
  | .branch hf h ha => ((balanced_keyword hf).append h.balanced).append ha.balanced
  | .whileLoop hf hw h => (balanced_keyword hf).append ((balanced_keyword hw).append h.balanced)
  | .forLoop hf hh hw hb =>
    (((balanced_keyword hf).append (balanced_of_plain hh.plain)).append
      (balanced_of_plain hw.plain)).append hb.balanced

theorem Alternatives.balanced {ts : List Token} {a : Alternative} : Alternatives ts a → Balanced ts
  | .absent => balanced_nil
  | .block hw hb => (balanced_keyword hw).append hb.balanced
  | .elseIf hw hw' h ha =>
    ((balanced_keyword hw).append ((balanced_keyword hw').append h.balanced)).append ha.balanced

theorem Guarded.balanced {word : Keyword} {ts : List Token} {e : Expr} {body : Block} :
    Guarded word ts e body → Balanced ts
  | .mk h hw hb => ((h.enclosed 0).balanced.append (balanced_of_plain hw.plain)).append hb.balanced

theorem Braces.balanced {ts : List Token} {body : Block} : Braces ts body → Balanced ts
  | .mk hl h hr => h.balanced.braces hl hr

/-- The braces of a list of statements are matched. -/
theorem Statements.balanced {ts : List Token} {body : Block} : Statements ts body → Balanced ts
  | .nil => balanced_nil
  | .skip ht h => h.balanced.cons (by simp [ht]) (by simp [ht])
  | .ended hs ht h => hs.balanced.append (h.balanced.cons (by simp [ht]) (by simp [ht]))
  | .last hs => hs.balanced
  | .closed hs h => hs.balanced.append h.balanced

end

end Grammar

end LineScript
