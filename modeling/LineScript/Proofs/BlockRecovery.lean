import LineScript.Proofs.LineIsolation
import LineScript.Proofs.ProgramReading

/-!
# Recovery inside of blocks

A block whose braces are matched is read like a program of its own, however malformed its lines are:
the statement around it takes the statements that could be read, and reports the diagnostics of the
block as its own. `Compound` describes the statements with blocks in this way. It differs from the
grammar in the blocks only, which are any tokens here and stand for what is read from them.
-/

namespace LineScript

namespace Recovery

open Grammar Attempt

/-! ## Matched braces -/

/-- The number of opening braces. -/
def opening (ts : List Token) : Nat := ts.countP fun t => t.kind = .lbrace

/-- The number of closing braces. -/
def closing (ts : List Token) : Nat := ts.countP fun t => t.kind = .rbrace

/-- Every brace is matched: no beginning of the tokens closes more braces than it opens, and all
together close as many as they open. -/
def Matched (ts : List Token) : Prop :=
  (∀ n ≤ ts.length, closing (ts.take n) ≤ opening (ts.take n)) ∧ opening ts = closing ts

instance (ts : List Token) : Decidable (Matched ts) := inferInstanceAs (Decidable (_ ∧ _))

theorem opening_cons (t : Token) (ts : List Token) :
    opening (t :: ts) = opening ts + if t.kind = .lbrace then 1 else 0 := by
  simp [opening, List.countP_cons]

theorem closing_cons (t : Token) (ts : List Token) :
    closing (t :: ts) = closing ts + if t.kind = .rbrace then 1 else 0 := by
  simp [closing, List.countP_cons]

/-- The depth of braces is the number of those that are open, as long as none closes too many. -/
theorem braceDepth?_eq_counts {depth : Nat} {ts : List Token}
    (h : ∀ n ≤ ts.length, closing (ts.take n) ≤ depth + opening (ts.take n)) :
    braceDepth? depth ts = some (depth + opening ts - closing ts) := by
  induction ts generalizing depth with
  | nil => rfl
  | cons t ts ih =>
    have hrest : ∀ n ≤ ts.length,
        closing (t :: ts.take n) ≤ depth + opening (t :: ts.take n) :=
      fun n hn => h (n + 1) (by simpa using hn)
    simp only [opening_cons, closing_cons] at hrest
    rw [braceDepth?_cons, opening_cons, closing_cons]
    by_cases hl : t.kind = .lbrace
    · have hstep : braceStep? depth t = some (depth + 1) := by simp [braceStep?, hl]
      simp only [hl, reduceCtorEq, ↓reduceIte, Nat.add_zero] at hrest ⊢
      rw [hstep, Option.bind_some, ih fun n hn => by have := hrest n hn; omega]
      congr 1
      omega
    by_cases hr : t.kind = .rbrace
    · simp only [hr, reduceCtorEq, ↓reduceIte, Nat.add_zero] at hrest ⊢
      -- the brace closes one that was open before
      have hopen : 1 ≤ depth := by simpa [opening, closing] using hrest 0 (Nat.zero_le _)
      obtain ⟨depth, rfl⟩ : ∃ depth', depth = depth' + 1 := ⟨depth - 1, by omega⟩
      have hstep : braceStep? (depth + 1) t = some depth := by simp [braceStep?, hr]
      rw [hstep, Option.bind_some, ih fun n hn => by have := hrest n hn; omega]
      congr 1
      omega
    · have hstep : braceStep? depth t = some depth := by simp [braceStep?, hl, hr]
      simp only [hl, hr, ↓reduceIte, Nat.add_zero] at hrest ⊢
      rw [hstep, Option.bind_some, ih hrest]

theorem Matched.balanced {ts : List Token} (h : Matched ts) : Balanced ts := by
  obtain ⟨hbeginnings, htotal⟩ := h
  have hdepth : braceDepth? 0 ts = some (0 + opening ts - closing ts) :=
    braceDepth?_eq_counts fun n hn => by simpa using hbeginnings n hn
  rw [Balanced, hdepth, htotal, Nat.zero_add, Nat.sub_self]

/-! ## Statements around any blocks -/

/-- Tokens in braces stand for what is read from them. -/
inductive Braced : List Token → Parsed → Prop where
  | mk {l r : Token} {ts : List Token} (hl : l.kind = .lbrace) (h : Matched ts)
      (hr : r.kind = .rbrace) : Braced (l :: ts ++ [r]) (parse ts)

/-- A condition, a reserved word that may be left out, and a block. -/
inductive Guarded (word : Keyword) : List Token → Expr → Parsed → Prop where
  | mk {es ws us : List Token} {e : Expr} {p : Parsed} (he : fullExpression es = .ok e)
      (hw : Optional word ws) (hb : Braced us p) : Guarded word (es ++ ws ++ us) e p

/-- The alternatives of a conditional, with the diagnostics of their blocks in order. -/
inductive Arms : List Token → Alternative → List Diagnostic → Prop where
  /-- There are none. -/
  | absent : Arms [] .absent []
  /-- `altfel BLOCK`. -/
  | block {w : Token} {us : List Token} {p : Parsed} (hw : w.isKeyword .altfel)
      (hb : Braced us p) : Arms (w :: us) (.block p.statements) p.diagnostics
  /-- `altfel daca CONDITION [atunci] BLOCK` with further alternatives. -/
  | elseIf {w w' : Token} {us vs : List Token} {e : Expr} {p : Parsed} {a : Alternative}
      {ds : List Diagnostic} (hw : w.isKeyword .altfel) (hw' : w'.isKeyword .daca)
      (hg : Guarded .atunci us e p) (ha : Arms vs a ds) :
      Arms (w :: w' :: us ++ vs) (.elseIf e p.statements a) (p.diagnostics ++ ds)

/-- A statement with blocks, with the diagnostics of its blocks in order. -/
inductive Compound : List Token → Stmt → List Diagnostic → Prop where
  /-- `daca CONDITION [atunci] BLOCK` with its alternatives. -/
  | branch {first : Token} {us vs : List Token} {e : Expr} {p : Parsed} {a : Alternative}
      {ds : List Diagnostic} (hf : first.isKeyword .daca) (hg : Guarded .atunci us e p)
      (ha : Arms vs a ds) :
      Compound (first :: us ++ vs) (.branch first e p.statements a) (p.diagnostics ++ ds)
  /-- `cat timp CONDITION [executa] BLOCK`. -/
  | whileLoop {first w : Token} {us : List Token} {e : Expr} {p : Parsed}
      (hf : first.isKeyword .cat) (hw : w.isKeyword .timp) (hg : Guarded .executa us e p) :
      Compound (first :: w :: us) (.whileLoop first e p.statements) p.diagnostics
  /-- `executa BLOCK cat timp CONDITION`. -/
  | doWhile {first w w' : Token} {us es : List Token} {e : Expr} {p : Parsed}
      (hf : first.isKeyword .executa) (hb : Braced us p) (hw : w.isKeyword .cat)
      (hw' : w'.isKeyword .timp) (he : fullExpression es = .ok e) :
      Compound (first :: us ++ w :: w' :: es) (.doWhile first e p.statements) p.diagnostics
  /-- `executa BLOCK pana cand CONDITION`. -/
  | doUntil {first w w' : Token} {us es : List Token} {e : Expr} {p : Parsed}
      (hf : first.isKeyword .executa) (hb : Braced us p) (hw : w.isKeyword .pana)
      (hw' : w'.isKeyword .cand) (he : fullExpression es = .ok e) :
      Compound (first :: us ++ w :: w' :: es) (.doUntil first e p.statements) p.diagnostics
  /-- `pentru START, CONDITION, STEP [executa] BLOCK`. -/
  | forLoop {first : Token} {hs ws us : List Token} {start step : Stmt} {e : Expr} {p : Parsed}
      (hf : first.isKeyword .pentru) (hh : header hs = .ok (start, e, step))
      (hw : Optional .executa ws) (hb : Braced us p) :
      Compound (first :: hs ++ ws ++ us) (.forLoop first start e step p.statements) p.diagnostics

/-! ## Reading them -/

theorem Braced.block_eq {us : List Token} {p : Parsed} (h : Braced us p) (rest : List Token) :
    block parse (us ++ rest) = ⟨p.diagnostics, .ok (p.statements, rest)⟩ := by
  obtain ⟨hl, h, hr⟩ := h
  simp [block, hl, splitBlock_eq h.balanced hr]

theorem Guarded.conditionalBlock_eq {word : Keyword} (hword : word ≠ .adevarat ∧ word ≠ .fals)
    {us : List Token} {e : Expr} {p : Parsed} (h : Guarded word us e p) (rest : List Token) :
    conditionalBlock parse word (us ++ rest) =
      ⟨p.diagnostics, .ok (e, p.statements, rest)⟩ := by
  obtain ⟨he, hw, hb⟩ := h
  have hblock := hb.block_eq rest
  obtain ⟨hl, -, -⟩ := hb
  rw [List.append_assoc, List.cons_append, List.cons_append,
    conditionalBlock_condition hword (fullExpression_eq_ok_iff.mp he) hw hl]
  exact bind_eq_ok_of_pure hblock rfl

theorem Arms.alternatives_eq {us : List Token} {a : Alternative} {ds : List Diagnostic}
    (h : Arms us a ds) {n : Nat} (hn : us.length ≤ n) :
    alternatives parse n us = ⟨ds, .ok (a, [])⟩ := by
  induction h generalizing n with
  | absent => cases n <;> rfl
  | @block w us p hw hb =>
    have hrun := hb.block_eq []
    rw [List.append_nil] at hrun
    obtain @⟨l, r, ts, hl, -, -⟩ := hb
    have hd : l.isKeyword .daca = false := by simp [Token.isKeyword, hl]
    obtain ⟨n, rfl⟩ : ∃ k, n = k + 1 := ⟨n - 1, by simp at hn; omega⟩
    simp only [alternatives, hw, List.cons_append, hd, Bool.false_eq_true, ↓reduceIte] at hrun ⊢
    exact bind_eq_ok_of_pure hrun rfl
  | @elseIf w w' us vs e p a ds hw hw' hg ha ih =>
    simp only [List.cons_append, List.length_cons, List.length_append] at hn
    obtain ⟨n, rfl⟩ : ∃ k, n = k + 1 := ⟨n - 1, by omega⟩
    have hrest := ih (n := n) (by omega)
    simp only [alternatives, List.cons_append, hw, hw', ↓reduceIte]
    exact bind_eq_ok (hg.conditionalBlock_eq (by decide) vs) (bind_eq_ok_of_pure hrest rfl)

/-- The loops whose condition comes last: their block, then two words and the condition. -/
theorem Braced.doStatement_eq {us es : List Token} {p : Parsed} {e : Expr} {w w' : Token}
    (hb : Braced us p) (he : fullExpression es = .ok e) (first : Token) :
    (w.isKeyword .cat → w'.isKeyword .timp →
      doStatement parse first (us ++ w :: w' :: es) =
        ⟨p.diagnostics, .ok (.doWhile first e p.statements)⟩) ∧
    (w.isKeyword .pana → w'.isKeyword .cand →
      doStatement parse first (us ++ w :: w' :: es) =
        ⟨p.diagnostics, .ok (.doUntil first e p.statements)⟩) := by
  have hcondition : (liftM (fullExpression es) : Attempt Expr) = pure e := lift_eq_pure_iff.mpr he
  constructor
  · intro hw hw'
    refine bind_eq_ok_of_pure (hb.block_eq (w :: w' :: es)) ?_
    simp only [hw, partner, hw', ↓reduceIte]
    rw [bind_of_pure (lift_eq_pure_iff.mpr rfl), bind_of_pure hcondition]
  · intro hw hw'
    have hcat : w.isKeyword .cat = false :=
      Bool.eq_false_iff.mpr fun h => by cases Token.isKeyword_unique hw h
    refine bind_eq_ok_of_pure (hb.block_eq (w :: w' :: es)) ?_
    simp only [hcat, hw, partner, hw', Bool.false_eq_true, ↓reduceIte]
    rw [bind_of_pure (lift_eq_pure_iff.mpr rfl), bind_of_pure hcondition]

/-- The reader makes the one statement of these tokens and reports what is wrong within its blocks,
in order. -/
theorem Compound.statement_eq {ts : List Token} {s : Stmt} {ds : List Diagnostic}
    (h : Compound ts s ds) :
    ∃ first rest, ts = first :: rest ∧ statement parse ⟨first, rest⟩ = ⟨ds, .ok s⟩ := by
  cases h with
  | @branch first us vs e p a ds hf hg ha =>
    refine ⟨first, us ++ vs, rfl, ?_⟩
    obtain ⟨hk, hw⟩ := statement_keyword hf
    simp only [statement, hk, hw]
    refine bind_eq_ok (hg.conditionalBlock_eq (by decide) vs) ?_
    exact bind_eq_ok_of_pure (ha.alternatives_eq (Nat.le_refl _)) rfl
  | @whileLoop first w us e p hf hw' hg =>
    refine ⟨first, w :: us, rfl, ?_⟩
    obtain ⟨hk, hw⟩ := statement_keyword hf
    have hrun := hg.conditionalBlock_eq (by decide) []
    rw [List.append_nil] at hrun
    simp only [statement, hk, hw, whileStatement, partner, hw', ↓reduceIte]
    rw [bind_of_pure (lift_eq_pure_iff.mpr rfl)]
    exact bind_eq_ok_of_pure hrun rfl
  | @doWhile first w w' us es e p hf hb hw₁ hw₂ he =>
    refine ⟨first, us ++ w :: w' :: es, rfl, ?_⟩
    obtain ⟨hk, hw⟩ := statement_keyword hf
    simp only [statement, hk, hw]
    exact (hb.doStatement_eq he first).1 hw₁ hw₂
  | @doUntil first w w' us es e p hf hb hw₁ hw₂ he =>
    refine ⟨first, us ++ w :: w' :: es, rfl, ?_⟩
    obtain ⟨hk, hw⟩ := statement_keyword hf
    simp only [statement, hk, hw]
    exact (hb.doStatement_eq he first).2 hw₁ hw₂
  | @forLoop first hs ws us start step e p hf hh hw' hb =>
    refine ⟨first, hs ++ ws ++ us, by simp, ?_⟩
    obtain ⟨hk, hw⟩ := statement_keyword hf
    have hrun := hb.block_eq []
    rw [List.append_nil] at hrun
    obtain @⟨l, r, ts, hl, -, -⟩ := hb
    simp only [statement, hk, hw, forStatement]
    rw [List.cons_append, splitHeader_block (header_eq_ok_iff.mp hh) hw' hl,
      bind_of_pure (lift_eq_pure_iff.mpr hh)]
    dsimp only
    rw [skipKeyword_append hw' hl]
    exact bind_eq_ok_of_pure hrun rfl

/-! ## Each of them is one line -/

theorem Guarded.linesAfter_eq {word : Keyword} {us : List Token} {e : Expr} {p : Parsed}
    (h : Guarded word us e p) (first : Token) (more rest : List Token) :
    linesAfter (first :: more) 0 (us ++ rest) =
      if continuesAfterBlock first rest.head? then linesAfter (first :: more ++ us) 0 rest
      else Line.ofTokens (first :: more ++ us) ++ splitLines rest := by
  obtain ⟨he, hw, ⟨hl, h, hr⟩⟩ := h
  exact linesAfter_guarded (fullExpression_eq_ok_iff.mp he) hw hl h.balanced hr first more rest

/-- After a block of a conditional the line takes all the alternatives. -/
theorem Arms.linesAfter_eq {us : List Token} {a : Alternative} {ds : List Diagnostic}
    (h : Arms us a ds) (first : Token) (more : List Token) (hf : first.isKeyword .daca) :
    (if continuesAfterBlock first us.head? then linesAfter (first :: more) 0 us
      else Line.ofTokens (first :: more) ++ splitLines us) =
        Line.ofTokens (first :: more ++ us) := by
  induction h generalizing more with
  | absent => simp [continuesAfterBlock, splitLines_eq, linesAfter_nil, Line.ofTokens]
  | @block w us p hw hb =>
    have hgo : continuesAfterBlock first (w :: us).head? :=
      (continuesAfterBlock_daca hf).mpr ⟨w, rfl, hw⟩
    obtain @⟨l, r, ts, hl, h, hr⟩ := hb
    have hblock := linesAfter_braces hl h.balanced hr first (more ++ [w]) []
    rw [List.append_nil] at hblock
    rw [if_pos hgo, linesAfter_plain (plain_of_isKeyword hw), List.cons_append, hblock]
    simp [continuesAfterBlock, splitLines_eq, linesAfter_nil, Line.ofTokens]
  | @elseIf w w' us vs e p a ds hw hw' hg ha ih =>
    have hgo : continuesAfterBlock first (w :: w' :: us ++ vs).head? :=
      (continuesAfterBlock_daca hf).mpr ⟨w, rfl, hw⟩
    have hrest := ih (more ++ [w] ++ [w'] ++ us)
    rw [if_pos hgo, List.cons_append, List.cons_append, linesAfter_plain (plain_of_isKeyword hw),
      linesAfter_plain (plain_of_isKeyword hw'), List.cons_append, List.cons_append,
      hg.linesAfter_eq]
    simpa using hrest

/-- A loop whose condition comes last goes on after its block. -/
theorem Braced.splitLines_eq {first w w' : Token} {us es : List Token} {e : Expr} {p : Parsed}
    {word word' : Keyword} (hb : Braced us p) (hf : first.isKeyword .executa)
    (hw : w.isKeyword word) (hword : word = .cat ∨ word = .pana) (hw' : w'.isKeyword word')
    (he : fullExpression es = .ok e) :
    splitLines (first :: us ++ w :: w' :: es) = Line.ofTokens (first :: us ++ w :: w' :: es) := by
  obtain ⟨hl, h, hr⟩ := hb
  have hlines := splitLines_executa hf hl h.balanced hr hw hword hw'
    (fullExpression_eq_ok_iff.mp he) []
  rwa [List.append_nil, linesAfter_nil] at hlines

/-- Neither the ends of lines within the blocks nor their closing braces cut the statement in two.
-/
theorem Compound.splitLines_eq {ts : List Token} {s : Stmt} {ds : List Diagnostic}
    (h : Compound ts s ds) : splitLines ts = Line.ofTokens ts := by
  cases h with
  | @branch first us vs e p a ds hf hg ha =>
    have harms := ha.linesAfter_eq first us hf
    rw [List.cons_append, LineScript.splitLines_eq, linesAfter_plain (plain_of_isKeyword hf),
      List.nil_append, hg.linesAfter_eq]
    simpa using harms
  | @whileLoop first w us e p hf hw hg =>
    have hloop := hg.linesAfter_eq first [w] []
    rw [List.append_nil, continuesAfterBlock_other hf (by decide) (by decide)] at hloop
    rw [LineScript.splitLines_eq, linesAfter_plain (plain_of_isKeyword hf),
      linesAfter_plain (plain_of_isKeyword hw), List.nil_append, List.singleton_append, hloop]
    simp [LineScript.splitLines_eq, linesAfter_nil, Line.ofTokens]
  | doWhile hf hb hw hw' he => exact hb.splitLines_eq hf hw (Or.inl rfl) hw' he
  | doUntil hf hb hw hw' he => exact hb.splitLines_eq hf hw (Or.inr rfl) hw' he
  | @forLoop first hs ws us start step e p hf hh hw hb =>
    have hplain : ∀ t ∈ hs ++ ws, Plain t := by
      intro t ht
      rcases List.mem_append.mp ht with ht | ht
      · exact (header_eq_ok_iff.mp hh).plain t ht
      · exact hw.plain t ht
    obtain @⟨l, r, ts, hl, h, hr⟩ := hb
    have hblock := linesAfter_braces hl h.balanced hr first (hs ++ ws) []
    rw [List.append_nil, continuesAfterBlock_other hf (by decide) (by decide)] at hblock
    have hassoc : first :: hs ++ ws ++ (l :: ts ++ [r]) =
        first :: (hs ++ ws ++ (l :: ts ++ [r])) := by
      simp
    rw [hassoc, LineScript.splitLines_eq, linesAfter_plain (plain_of_isKeyword hf),
      linesAfter_append hplain, List.nil_append, List.singleton_append, hblock]
    simp [LineScript.splitLines_eq, linesAfter_nil, Line.ofTokens]

end Recovery

/-- Blocks are recovered like programs. A statement with blocks is read as one statement, each of
its blocks holds the statements that are read from the tokens between its braces, and the
diagnostics of its blocks are reported in order and no others. -/
theorem parse_recovers_blocks {ts : List Token} {s : Stmt} {ds : List Diagnostic}
    (h : Recovery.Compound ts s ds) : parse ts = ⟨[s], ds⟩ := by
  obtain ⟨first, rest, rfl, hs⟩ := h.statement_eq
  rw [parse_eq_ofLines, h.splitLines_eq]
  simp [Line.ofTokens, Parsed.ofLines, Parsed.ofLine, Parsed.append, Parsed.empty, hs]

/-- Empty braces are no statement: a loop reports them and keeps the other line of its body. -/
theorem parse_recovers_blocks_while :
    let word : String → Token := fun text => ⟨.keyword, bytes text, 1⟩
    let l : Token := ⟨.lbrace, bytes "\x7b", 1⟩
    let r : Token := ⟨.rbrace, bytes "\x7d", 1⟩
    let inside := [l, r, word "citeste", ⟨.identifier, bytes "x", 1⟩]
    Recovery.Matched inside ∧
      parse ([word "cat", word "timp"] ++ [word "adevarat"] ++ [l] ++ inside ++ [r]) =
        ⟨[.whileLoop (word "cat") (.bool (word "adevarat") true)
          [.input (word "citeste") (bytes "x")]], [⟨⟨l, [r]⟩, .tokenAtStart l⟩]⟩ := by
  intro word l r inside
  have hmatched : Recovery.Matched inside := by decide
  have hcondition : fullExpression [word "adevarat"] = .ok (.bool (word "adevarat") true) := rfl
  have hbody : Recovery.Braced (l :: inside ++ [r]) (parse inside) := .mk rfl hmatched rfl
  have hcat : (word "cat").isKeyword .cat := by decide
  have htimp : (word "timp").isKeyword .timp := by decide
  have hloop := parse_recovers_blocks (.whileLoop hcat htimp (.mk hcondition .absent hbody))
  exact ⟨hmatched, hloop.trans rfl⟩

end LineScript
