import LineScript.Proofs.StatementReading

/-!
# Trees that the reader builds

Whatever tokens are read, and however many lines are refused, the program that comes out is well
formed: its names are names, its operators are the eleven of the language, a statement that
evaluates an expression calls a function, and a counting loop starts with a declaration or an
assignment and steps by an assignment. That only a declaration can be without its expression is part
of the type of trees.

A reader that collects diagnostics is described by what it yields (`Attempt.Yields`): a property of
all its diagnostics, and a property of its result if it has one. Blocks inside a line are stretches
of that line, and all that a reader knows about a block it knows from such a stretch.
-/

namespace LineScript

open Grammar

/-! ## Well-formed trees -/

/-- A byte with which a name can begin: `A` to `Z`, `a` to `z` or the underscore. -/
def IsNameStart (b : UInt8) : Prop := (0x41 ≤ b ∧ b ≤ 0x5a) ∨ (0x61 ≤ b ∧ b ≤ 0x7a) ∨ b = 0x5f

/-- A byte with which a name can go on: one of these or a digit. -/
def IsNamePart (b : UInt8) : Prop := IsNameStart b ∨ (0x30 ≤ b ∧ b ≤ 0x39)

/-- A name: a byte with which one can begin, then bytes with which one can go on. -/
def Identifier (name : Bytes) : Prop :=
  ∃ b rest, name = b :: rest ∧ IsNameStart b ∧ ∀ c ∈ rest, IsNamePart c

/-- The spellings of the operators that join two expressions. -/
def operatorSpellings : List Bytes :=
  [bytes "==", bytes "!=", bytes "<", bytes ">", bytes "<=", bytes ">=", bytes "+", bytes "-",
    bytes "*", bytes "/", bytes "%"]

mutual

/-- A well-formed expression. -/
def Expr.WellFormed : Expr → Prop
  | .int _ _ | .float _ _ | .text _ _ | .bool _ _ => True
  | .var _ name => Identifier name
  | .binary _ left op right =>
    op.symbol ∈ operatorSpellings ∧ left.WellFormed ∧ right.WellFormed
  | .call _ name args => Identifier name ∧ Expr.AllWellFormed args

/-- Several well-formed expressions. -/
def Expr.AllWellFormed : List Expr → Prop
  | [] => True
  | e :: es => e.WellFormed ∧ Expr.AllWellFormed es

end

/-- Is the expression a call? -/
def Expr.IsCall (e : Expr) : Prop := ∃ t name args, e = .call t name args

/-- Is the statement a declaration? -/
def Stmt.IsDeclaration (s : Stmt) : Prop := ∃ t name value, s = .declare t name value

/-- Is the statement an assignment? -/
def Stmt.IsAssignment (s : Stmt) : Prop := ∃ t name value, s = .assign t name value

mutual

/-- A well-formed statement. -/
def Stmt.WellFormed : Stmt → Prop
  | .declare _ name none => Identifier name
  | .declare _ name (some e) => Identifier name ∧ e.WellFormed
  | .print _ e => e.WellFormed
  | .assign _ name e => Identifier name ∧ e.WellFormed
  | .input _ name => Identifier name
  | .eval _ e => e.IsCall ∧ e.WellFormed
  | .branch _ c body otherwise => c.WellFormed ∧ Stmt.AllWellFormed body ∧ otherwise.WellFormed
  | .whileLoop _ c body | .doWhile _ c body | .doUntil _ c body =>
    c.WellFormed ∧ Stmt.AllWellFormed body
  | .forLoop _ start c step body =>
    (start.IsDeclaration ∨ start.IsAssignment) ∧ step.IsAssignment ∧ start.WellFormed ∧
      c.WellFormed ∧ step.WellFormed ∧ Stmt.AllWellFormed body

/-- Several well-formed statements. -/
def Stmt.AllWellFormed : List Stmt → Prop
  | [] => True
  | s :: rest => s.WellFormed ∧ Stmt.AllWellFormed rest

/-- A well-formed alternative. -/
def Alternative.WellFormed : Alternative → Prop
  | .absent => True
  | .block body => Stmt.AllWellFormed body
  | .elseIf c body otherwise => c.WellFormed ∧ Stmt.AllWellFormed body ∧ otherwise.WellFormed

end

/-! ## Names and operators -/

theorem isNameStart_iff {b : UInt8} : (Bytes.isLetter b || b == 0x5f) = true ↔ IsNameStart b := by
  simp [IsNameStart, Bytes.isLetter, or_assoc]

theorem isNamePart_iff {b : UInt8} :
    (Bytes.isLetter b || Bytes.isDigit b || b == 0x5f) = true ↔ IsNamePart b := by
  rw [IsNamePart, ← isNameStart_iff]
  simp [Bytes.isDigit, or_right_comm]

theorem isName_iff {name : Bytes} : isName name ↔ Identifier name := by
  cases name with
  | nil => simp [isName, Identifier]
  | cons b rest =>
    rw [isName, Bool.and_eq_true, List.all_eq_true, isNameStart_iff]
    simp only [isNamePart_iff]
    constructor
    · rintro ⟨hb, hrest⟩
      exact ⟨b, rest, rfl, hb, hrest⟩
    · rintro ⟨_, _, heq, hb, hrest⟩
      cases heq
      exact ⟨hb, hrest⟩

theorem identifier_of_isNameToken {t : Token} (h : isNameToken t) : Identifier t.lexeme :=
  isName_iff.mp (isNameToken_iff.mp h).2

theorem BinOp.symbol_mem (op : BinOp) : op.symbol ∈ operatorSpellings := by
  cases op <;> decide

/-! ## Phrases of the grammar -/

theorem negate_wellFormed {minus : Token} {e : Expr} (h : e.WellFormed) :
    (negate minus e).WellFormed := by
  have hzero : (Expr.binary minus (.int minus 0) .sub e).WellFormed :=
    ⟨BinOp.symbol_mem .sub, trivial, h⟩
  cases e with
  | int | float => trivial
  | text | bool | var | binary | call => exact hzero

namespace Grammar

mutual

/-- The trees of expressions are well formed. -/
theorem Layer.wellFormed {k : Nat} {ts : List Token} {e : Expr} : Layer k ts e → e.WellFormed
  | .lift h => h.wellFormed
  | .fold hl _ _ hr => ⟨BinOp.symbol_mem _, hl.wellFormed, hr.wellFormed⟩
  | .operand h => h.wellFormed

theorem Operand.wellFormed {ts : List Token} {e : Expr} : Operand ts e → e.WellFormed
  | .int _ _ | .float _ _ | .text _ | .true _ | .false _ => trivial
  | .var ht => identifier_of_isNameToken ht
  | .call ht _ h _ => ⟨identifier_of_isNameToken ht, h.wellFormed⟩
  | .paren _ h _ => h.wellFormed
  | .minus _ h => negate_wellFormed h.wellFormed

theorem Arguments.wellFormed {ts : List Token} {args : List Expr} :
    Arguments ts args → Expr.AllWellFormed args
  | .none => trivial
  | .last h => ⟨h.wellFormed, trivial⟩
  | .more h _ hs => ⟨h.wellFormed, hs.wellFormed⟩

end

theorem Declaration.wellFormed {ts : List Token} {s : Stmt} (h : Declaration ts s) :
    s.IsDeclaration ∧ s.WellFormed := by
  cases h with
  | bare _ hn => exact ⟨⟨_, _, _, rfl⟩, identifier_of_isNameToken hn⟩
  | initialised _ hn _ h => exact ⟨⟨_, _, _, rfl⟩, identifier_of_isNameToken hn, h.wellFormed⟩

theorem Assignment.wellFormed {ts : List Token} {s : Stmt} (h : Assignment ts s) :
    s.IsAssignment ∧ s.WellFormed := by
  cases h with
  | plain hn _ h => exact ⟨⟨_, _, _, rfl⟩, identifier_of_isNameToken hn, h.wellFormed⟩
  | compound hn _ _ h =>
    have hname := identifier_of_isNameToken hn
    exact ⟨⟨_, _, _, rfl⟩, hname, BinOp.symbol_mem _, hname, h.wellFormed⟩
  | step hn _ _ =>
    have hname := identifier_of_isNameToken hn
    exact ⟨⟨_, _, _, rfl⟩, hname, BinOp.symbol_mem _, hname, trivial⟩

end Grammar

/-! ## What readers yield -/

namespace Attempt

variable {α β : Type} {Q : Diagnostic → Prop} {P : α → Prop}

/-- All diagnostics satisfy `Q`, and the result satisfies `P` if there is one. -/
structure Yields (Q : Diagnostic → Prop) (P : α → Prop) (x : Attempt α) : Prop where
  diagnostics : ∀ d ∈ x.diagnostics, Q d
  result : ∀ a, x.result = .ok a → P a

theorem Yields.pure {a : α} (h : P a) : Yields Q P (Pure.pure a) :=
  ⟨nofun, fun _ ha => Except.ok.inj ha ▸ h⟩

theorem Yields.refuse (fault : Fault) : Yields Q P (Attempt.refuse fault) := ⟨nofun, nofun⟩

theorem Yields.lift {r : Except Fault α} (h : ∀ a, r = .ok a → P a) : Yields Q P (liftM r) :=
  ⟨nofun, h⟩

theorem Yields.bind {x : Attempt α} {f : α → Attempt β} {P' : β → Prop} (hx : Yields Q P x)
    (hf : ∀ a, P a → Yields Q P' (f a)) : Yields Q P' (x >>= f) := by
  obtain ⟨ds, r⟩ := x
  cases r with
  | error fault => exact ⟨hx.diagnostics, nofun⟩
  | ok a =>
    have hfa := hf a (hx.result a rfl)
    refine ⟨fun d hd => ?_, hfa.result⟩
    rcases List.mem_append.mp hd with hd | hd
    · exact hx.diagnostics d hd
    · exact hfa.diagnostics d hd

end Attempt

open Attempt

/-- A reader of blocks whose statements satisfy `B` and whose diagnostics satisfy `Q`, on all the
stretches of a token list. -/
def SoundWithin (B : Block → Prop) (Q : Diagnostic → Prop) (body : List Token → Parsed)
    (ts : List Token) : Prop :=
  ∀ inside, inside <:+: ts → B (body inside).statements ∧ ∀ d ∈ (body inside).diagnostics, Q d

section Readers

variable {B : Block → Prop} {Q : Diagnostic → Prop} {body : List Token → Parsed} {ts : List Token}

theorem SoundWithin.mono {us : List Token} (h : SoundWithin B Q body ts) (hus : us <:+: ts) :
    SoundWithin B Q body us :=
  fun inside hi => h inside (hi.trans hus)

theorem block_yields (h : SoundWithin B Q body ts) :
    (block body ts).Yields Q fun p => B p.1 ∧ p.2 <:+ ts := by
  unfold block
  split
  · exact .refuse _
  · next t rest =>
    split
    · split
      · exact .refuse _
      · next inside after hs =>
        obtain ⟨r, rfl, -⟩ := splitBlock_sound hs
        have hin := h inside ⟨[t], r :: after, by simp⟩
        refine ⟨hin.2, fun p hp => ?_⟩
        rw [← Except.ok.inj hp]
        exact ⟨hin.1, ⟨t :: (inside ++ [r]), by simp⟩⟩
    · exact .refuse _

theorem skipKeyword_suffix (word : Keyword) (ts : List Token) : skipKeyword word ts <:+ ts := by
  cases ts with
  | nil => exact List.suffix_refl _
  | cons t rest =>
    rw [skipKeyword]
    split
    · exact List.suffix_cons t rest
    · exact List.suffix_refl _

theorem conditionalBlock_yields (h : SoundWithin B Q body ts) (word : Keyword) :
    (conditionalBlock body word ts).Yields Q fun p =>
      p.1.WellFormed ∧ B p.2.1 ∧ p.2.2 <:+ ts := by
  unfold conditionalBlock
  split
  · exact .refuse _
  · next t rest =>
    split
    · exact .refuse _
    · have hcondition : (liftM (expression (t :: rest)) : Attempt _).Yields Q fun p =>
          p.1.WellFormed ∧ p.2 <:+ t :: rest := by
        refine .lift fun p hp => ?_
        obtain ⟨us, hus, he⟩ := expression_sound hp
        exact ⟨he.wellFormed, us, hus.symm⟩
      refine hcondition.bind fun p hp => ?_
      -- the condition and the word take tokens away in front, so the block is still within
      have hsuffix := (skipKeyword_suffix word p.2).trans hp.2
      refine (block_yields (h.mono hsuffix.isInfix)).bind fun q hq => ?_
      exact .pure ⟨hp.1, hq.1, hq.2.trans hsuffix⟩

theorem expectEnd_yields (ts : List Token) : (expectEnd ts).Yields Q fun _ => True := by
  cases ts with
  | nil => exact .pure trivial
  | cons t rest => exact .refuse _

/-- The alternatives of a conditional, by induction on how many of them may follow. -/
theorem alternatives_yields (h : SoundWithin Stmt.AllWellFormed Q body ts) (n : Nat) :
    (alternatives body n ts).Yields Q fun p => p.1.WellFormed := by
  induction n generalizing ts with
  | zero => exact .pure trivial
  | succ n ih =>
    unfold alternatives
    split
    · contradiction
    · exact .pure trivial
    · next t rest hn =>
      cases hn
      split
      · split
        · exact .refuse _
        · next u rest' =>
          split
          · have hinside : SoundWithin Stmt.AllWellFormed Q body rest' :=
              h.mono ((List.suffix_cons u rest').trans (List.suffix_cons t _)).isInfix
            refine (conditionalBlock_yields hinside .atunci).bind
              fun ⟨e, b, rest₁⟩ ⟨he, hb, hrest⟩ => ?_
            refine (ih (hinside.mono hrest.isInfix)).bind fun ⟨a, rest₂⟩ ha => ?_
            exact .pure ⟨he, hb, ha⟩
          · refine (block_yields (h.mono (List.suffix_cons t _).isInfix)).bind
              fun ⟨b, rest₁⟩ ⟨hb, _⟩ => ?_
            exact .pure hb
      · exact .pure trivial

theorem conditional_yields (h : SoundWithin Stmt.AllWellFormed Q body ts) (first : Token) :
    (conditional body first ts).Yields Q Stmt.WellFormed := by
  refine (conditionalBlock_yields h .atunci).bind fun ⟨e, b, rest⟩ ⟨he, hb, hrest⟩ => ?_
  refine (alternatives_yields (h.mono hrest.isInfix) rest.length).bind fun ⟨a, rest'⟩ ha => ?_
  exact (expectEnd_yields rest').bind fun _ _ => .pure ⟨he, hb, ha⟩

theorem partner_suffix {word after : Keyword} {rest : List Token}
    (h : partner word after ts = .ok rest) : rest <:+ ts := by
  unfold partner at h
  split at h
  · cases h
  · next t us =>
    split at h
    · rw [← Except.ok.inj h]
      exact List.suffix_cons t us
    · cases h

theorem whileStatement_yields (h : SoundWithin Stmt.AllWellFormed Q body ts) (first : Token) :
    (whileStatement body first ts).Yields Q Stmt.WellFormed := by
  have hpartner : (liftM (partner .timp .cat ts) : Attempt _).Yields Q (· <:+ ts) :=
    .lift fun _ => partner_suffix
  refine hpartner.bind fun rest hrest => ?_
  refine (conditionalBlock_yields (h.mono hrest.isInfix) .executa).bind
    fun ⟨e, b, rest'⟩ ⟨he, hb, _⟩ => ?_
  exact (expectEnd_yields rest').bind fun _ _ => .pure ⟨he, hb⟩

theorem fullExpression_yields (ts : List Token) :
    (liftM (fullExpression ts) : Attempt Expr).Yields Q Expr.WellFormed :=
  .lift fun _ he => (fullExpression_eq_ok_iff.mp he).wellFormed

theorem doStatement_yields (h : SoundWithin Stmt.AllWellFormed Q body ts) (first : Token) :
    (doStatement body first ts).Yields Q Stmt.WellFormed := by
  have hpartner : ∀ word after us,
      (liftM (partner word after us) : Attempt _).Yields Q fun _ => True :=
    fun _ _ _ => .lift fun _ _ => trivial
  refine (block_yields h).bind fun ⟨b, rest⟩ ⟨hb, _⟩ => ?_
  cases rest with
  | nil => exact .refuse _
  | cons t rest =>
    dsimp only
    split
    · exact (hpartner _ _ rest).bind fun us _ => (fullExpression_yields us).bind fun e he =>
        .pure ⟨he, hb⟩
    · split
      · exact (hpartner _ _ rest).bind fun us _ => (fullExpression_yields us).bind fun e he =>
          .pure ⟨he, hb⟩
      · exact .refuse _

/-- The two statements in the header of a counting loop are well-formed like the ones in its block.
-/
theorem forStatement_yields (h : SoundWithin Stmt.AllWellFormed Q body ts) (first : Token) :
    (forStatement body first ts).Yields Q Stmt.WellFormed := by
  unfold forStatement
  cases hsplit : splitHeader 0 ts with
  | mk parts rest =>
    have hrest : rest <:+ ts := ⟨parts, (splitHeader_sound hsplit).symm⟩
    have hheader : (liftM (header parts) : Attempt _).Yields Q fun p =>
        Header parts p.1 p.2.1 p.2.2 :=
      .lift fun _ hp => header_eq_ok_iff.mp hp
    refine hheader.bind fun ⟨start, e, step⟩ hh => ?_
    have hskip := (skipKeyword_suffix .executa rest).trans hrest
    refine (block_yields (h.mono hskip.isInfix)).bind fun ⟨b, rest'⟩ ⟨hb, _⟩ => ?_
    refine (expectEnd_yields rest').bind fun _ _ => .pure ?_
    obtain ⟨hi, -, he, -, hs⟩ := hh
    obtain ⟨hstep, hstep'⟩ := hs.wellFormed
    rcases hi with hi | hi
    · obtain ⟨hstart, hstart'⟩ := hi.wellFormed
      exact ⟨.inl hstart, hstep, hstart', he.wellFormed, hstep', hb⟩
    · obtain ⟨hstart, hstart'⟩ := hi.wellFormed
      exact ⟨.inr hstart, hstep, hstart', he.wellFormed, hstep', hb⟩

/-- A line yields a well-formed statement, and no diagnostics but those of the blocks that are
stretches of the line after its first token. -/
theorem statement_yields {line : Line} (h : SoundWithin Stmt.AllWellFormed Q body line.rest) :
    (statement body line).Yields Q Stmt.WellFormed := by
  obtain ⟨first, rest⟩ := line
  unfold statement
  dsimp only at h ⊢
  split
  · next hk =>
    split
    · next hw =>
      refine .lift fun s hs => ?_
      have hf : first.isKeyword .var :=
        Token.isKeyword_iff.mpr ⟨hk, (Keyword.text_of_ofText? hw).symm⟩
      exact ((declaration_eq_ok_iff hf).mp hs).wellFormed.2
    · refine .lift fun s hs => ?_
      obtain ⟨e, he, rfl⟩ := printing_eq_ok_iff.mp hs
      exact he.wellFormed
    · refine .lift fun s hs => ?_
      obtain ⟨name, -, hname, rfl⟩ := inputting_eq_ok_iff.mp hs
      exact identifier_of_isNameToken hname
    · exact conditional_yields h first
    · exact whileStatement_yields h first
    · exact doStatement_yields h first
    · exact forStatement_yields h first
    · exact .refuse _
    · exact .refuse _
  · next hk =>
    refine .lift fun s hs => ?_
    -- the only expression that stands as a statement is a call
    rcases (assignmentOrCall_eq_ok_iff hk).mp hs with
      ha | ⟨l, us, r, args, -, hname, -, ha, -, rfl⟩
    · exact ha.wellFormed.2
    · exact ⟨⟨_, _, _, rfl⟩, identifier_of_isNameToken hname, ha.wellFormed⟩
  · exact .refuse _

end Readers

/-! ## Programs -/

theorem Stmt.allWellFormed_append {b c : Block} :
    Stmt.AllWellFormed (b ++ c) ↔ Stmt.AllWellFormed b ∧ Stmt.AllWellFormed c := by
  induction b with
  | nil => simp [Stmt.AllWellFormed]
  | cons s b ih => simp [Stmt.AllWellFormed, ih, and_assoc]

/-- The lines of a token list are stretches of it. -/
theorem Cut.tokens_within {ts : List Token} {ls : List Line} (h : Cut ts ls) :
    ∀ l ∈ ls, l.tokens <:+: ts := by
  induction h with
  | nil => nofun
  | skip _ _ ih => exact fun l hl => (ih l hl).trans (List.suffix_cons _ _).isInfix
  | @ended t l₀ ts ls _ _ ih =>
    intro l hl
    rcases List.mem_cons.mp hl with rfl | hl
    · exact (List.prefix_append _ _).isInfix
    · exact (ih l hl).trans ⟨l₀.tokens ++ [t], [], by simp⟩
  | last =>
    intro l hl
    obtain rfl := List.mem_singleton.mp hl
    exact List.infix_refl _
  | closed _ _ _ ih =>
    intro l hl
    rcases List.mem_cons.mp hl with rfl | hl
    · exact (List.prefix_append _ _).isInfix
    · exact (ih l hl).trans (List.suffix_append _ _).isInfix

theorem splitLines_within {ts : List Token} {l : Line} (hl : l ∈ splitLines ts) :
    l.tokens <:+: ts :=
  (cut_splitLines ts).tokens_within l hl

/-- The lines that are read, one by one. -/
theorem ofLines_sound {Q : Diagnostic → Prop} {body : List Token → Parsed} {ls : List Line}
    (hbody : ∀ l ∈ ls, SoundWithin Stmt.AllWellFormed Q body l.rest)
    (hline : ∀ l ∈ ls, ∀ fault, Q ⟨l, fault⟩) :
    Stmt.AllWellFormed (Parsed.ofLines body ls).statements ∧
      ∀ d ∈ (Parsed.ofLines body ls).diagnostics, Q d := by
  induction ls with
  | nil => exact ⟨trivial, nofun⟩
  | cons l ls ih =>
    obtain ⟨hwf, hq⟩ := ih (fun k hk => hbody k (List.mem_cons_of_mem l hk))
      fun k hk => hline k (List.mem_cons_of_mem l hk)
    have hl := statement_yields (hbody l List.mem_cons_self)
    have hone : Stmt.AllWellFormed (Parsed.ofLine body l).statements ∧
        ∀ d ∈ (Parsed.ofLine body l).diagnostics, Q d := by
      unfold Parsed.ofLine
      dsimp only
      split
      · next s hs => exact ⟨⟨hl.result s hs, trivial⟩, hl.diagnostics⟩
      · next fault _ =>
        refine ⟨trivial, fun d hd => ?_⟩
        rcases List.mem_append.mp hd with hd | hd
        · exact hl.diagnostics d hd
        · rw [List.mem_singleton.mp hd]
          exact hline l List.mem_cons_self fault
    refine ⟨Stmt.allWellFormed_append.mpr ⟨hone.1, hwf⟩, fun d hd => ?_⟩
    rcases List.mem_append.mp hd with hd | hd
    · exact hone.2 d hd
    · exact hq d hd

/-- Blocks are read into well-formed trees, and every refused line is a stretch of the block. -/
theorem blockAt_sound (n : Nat) (ts : List Token) :
    Stmt.AllWellFormed (blockAt n ts).statements ∧
      ∀ d ∈ (blockAt n ts).diagnostics, d.line.tokens <:+: ts := by
  induction n generalizing ts with
  | zero => exact ⟨trivial, nofun⟩
  | succ n ih =>
    refine ofLines_sound (fun l hl inside hinside => ?_) fun l hl _ => splitLines_within hl
    have hts : inside <:+: ts :=
      (hinside.trans (List.suffix_cons l.first l.rest).isInfix).trans (splitLines_within hl)
    exact ⟨(ih inside).1, fun d hd => ((ih inside).2 d hd).trans hts⟩

/-- Every program that the reader returns is well formed, at every depth, whatever the tokens are
and whatever lines it had to leave out. -/
theorem parse_wellFormed (ts : List Token) : Stmt.AllWellFormed (parse ts).statements :=
  (blockAt_sound (ts.length + 1) ts).1

end LineScript
