import LineScript.Proofs.StatementReading
import LineScript.Proofs.TreeShape

/-!
# Reading programs follows the grammar

A token list is read without a diagnostic into exactly the program that it derives. The readers of
lines take the reader of blocks as a parameter, so both directions are proved for any reader of
blocks that is right about short lists (`RightBelow`), and the depth of nesting is counted once, at
the end.

Soundness starts from the lines: however tokens are cut into lines, each line that is read derives a
statement. Completeness starts from the statements: each of them is cut out as one line.
-/

namespace LineScript

open Grammar Attempt

/-- A reader of blocks that is right about all lists with fewer than `n` tokens. -/
def RightBelow (n : Nat) (body : List Token → Parsed) : Prop :=
  ∀ ts b, ts.length < n → (body ts = ⟨b, []⟩ ↔ Statements ts b)

section Blocks

variable {n : Nat} {body : List Token → Parsed} {ts rest : List Token}

/-- A block is read without a complaint exactly where braces around statements stand, and the tokens
after the closing brace are left. -/
theorem block_eq_pure_iff (hbody : RightBelow n body) (hn : ts.length ≤ n) {b : Block} :
    block body ts = pure (b, rest) ↔ ∃ us, ts = us ++ rest ∧ Braces us b := by
  constructor
  · intro h
    unfold block at h
    split at h
    · exact absurd h refuse_ne_pure
    · next t ts =>
      split at h
      · next hl =>
        split at h
        · exact absurd h refuse_ne_pure
        · next inside after hs =>
          obtain ⟨r, rfl, hr⟩ := splitBlock_sound hs
          have hd : (body inside).diagnostics = [] := congrArg Attempt.diagnostics h
          have hp := Prod.mk.inj (Except.ok.inj (congrArg Attempt.result h))
          have hin : body inside = ⟨b, []⟩ := by
            rw [← hd, ← hp.1]
          refine ⟨t :: inside ++ [r], by simp [hp.2], .mk hl ((hbody inside b ?_).mp hin) hr⟩
          simp only [List.length_cons, List.length_append] at hn
          omega
      · exact absurd h refuse_ne_pure
  · rintro ⟨us, rfl, hb⟩
    obtain ⟨hl, h, hr⟩ := hb
    simp only [List.length_cons, List.length_append, List.length_nil] at hn
    have hin := (hbody _ b (by omega)).mpr h
    simp [block, hl, splitBlock_eq h.balanced hr, hin]
    rfl

theorem skipKeyword_sound (word : Keyword) (ts : List Token) :
    ∃ ws, Optional word ws ∧ ts = ws ++ skipKeyword word ts := by
  cases ts with
  | nil => exact ⟨[], .absent, rfl⟩
  | cons t ts =>
    by_cases ht : t.isKeyword word
    · exact ⟨[t], .present ht, by simp [skipKeyword, ht]⟩
    · exact ⟨[], .absent, by simp [skipKeyword, ht]⟩

/-- The word in front of a block is passed over. -/
theorem skipKeyword_append {word : Keyword} {ws : List Token} {l : Token} (hw : Optional word ws)
    (hl : l.kind = .lbrace) (rest : List Token) :
    skipKeyword word (ws ++ l :: rest) = l :: rest := by
  cases hw with
  | absent => simp [skipKeyword, Token.isKeyword, hl]
  | present ht => simp [skipKeyword, ht]

/-- A condition ends before the word or the brace that follows it, so what remains is the block. -/
theorem conditionalBlock_condition {word : Keyword} (hword : word ≠ .adevarat ∧ word ≠ .fals)
    {es ws : List Token} {e : Expr} {l : Token} (he : Expression es e) (hw : Optional word ws)
    (hl : l.kind = .lbrace) :
    conditionalBlock body word (es ++ ws ++ l :: rest) =
      (block body (l :: rest) >>= fun p => pure (e, p.1, p.2)) := by
  obtain ⟨t, es', rfl, ht⟩ := he.begins
  have hstart : (t.isKeyword word || t.kind == .lbrace) = false := by
    have hk : t.isKeyword word = false := by
      rw [Bool.eq_false_iff]
      intro hk
      rcases ht.words word hk with h | h
      · exact hword.1 h
      · exact hword.2 h
    simp [hk, ht.not_lbrace]
  have hnext : ∃ u vs, ws ++ l :: rest = u :: vs ∧ u.kind ≠ .operator ∧ u.kind ≠ .lparen := by
    cases hw with
    | absent => exact ⟨_, _, rfl, by simp [hl], by simp [hl]⟩
    | present hw =>
      have hk := (Token.isKeyword_iff.mp hw).1
      exact ⟨_, _, rfl, by simp [hk], by simp [hk]⟩
  have hexpr : expression (t :: es' ++ ws ++ l :: rest) = .ok (e, ws ++ l :: rest) := by
    obtain ⟨u, vs, hu, hop, hlp⟩ := hnext
    rw [List.append_assoc]
    exact expression_eq he (hu ▸ ends_cons hop) (hu ▸ noCall_cons hlp)
  have hrun : (liftM (expression (t :: es' ++ ws ++ l :: rest)) : Attempt _) =
      pure (e, ws ++ l :: rest) := lift_eq_pure_iff.mpr hexpr
  unfold conditionalBlock
  simp only [List.cons_append, hstart, Bool.false_eq_true, ↓reduceIte] at hrun ⊢
  rw [bind_of_pure hrun]
  dsimp only
  rw [skipKeyword_append hw hl]

/-- A condition, the word after it if it is there, and a block. The word must not be one that an
expression can contain. -/
theorem conditionalBlock_eq_pure_iff (hbody : RightBelow n body) (hn : ts.length ≤ n)
    {word : Keyword} (hword : word ≠ .adevarat ∧ word ≠ .fals) {e : Expr} {b : Block} :
    conditionalBlock body word ts = pure (e, b, rest) ↔
      ∃ us, ts = us ++ rest ∧ Guarded word us e b := by
  constructor
  · intro h
    unfold conditionalBlock at h
    split at h
    · exact absurd h refuse_ne_pure
    · next t ts =>
      split at h
      · exact absurd h refuse_ne_pure
      · obtain ⟨⟨e', rest₁⟩, he, h⟩ := bind_eq_pure_iff.mp h
        obtain ⟨⟨b', rest₂⟩, hb, h⟩ := bind_eq_pure_iff.mp h
        cases pure_eq_pure_iff.mp h
        obtain ⟨es, hes, he'⟩ := expression_sound (lift_eq_pure_iff.mp he)
        obtain ⟨ws, hw, hws⟩ := skipKeyword_sound word rest₁
        have hlen := congrArg List.length hes
        have hlen' := congrArg List.length hws
        simp only [List.length_append] at hlen hlen'
        obtain ⟨us, hus, hb'⟩ := (block_eq_pure_iff hbody (by omega)).mp hb
        refine ⟨es ++ ws ++ us, ?_, .mk he' hw hb'⟩
        rw [hes, hws, hus]
        simp
  · rintro ⟨us, rfl, hg⟩
    obtain @⟨_, es, ws, bs, _, _, he, hw, hb⟩ := hg
    simp only [List.length_append] at hn
    have hblock : block body (bs ++ rest) = pure (b, rest) :=
      (block_eq_pure_iff hbody (by simp; omega)).mpr ⟨bs, rfl, hb⟩
    obtain ⟨hl, -, -⟩ := hb
    rw [List.append_assoc, List.cons_append, List.cons_append,
      conditionalBlock_condition hword he hw hl]
    exact bind_eq_pure_iff.mpr ⟨_, hblock, rfl⟩

theorem expectEnd_eq_pure_iff {ts : List Token} : expectEnd ts = pure () ↔ ts = [] := by
  cases ts with
  | nil => exact ⟨fun _ => rfl, fun _ => rfl⟩
  | cons t ts =>
    constructor
    · intro h
      exact absurd h refuse_ne_pure
    · intro h
      cases h

/-- The alternatives of a conditional, up to the end of its line. -/
theorem alternatives_eq_pure_iff (hbody : RightBelow n body) {k : Nat} (hk : ts.length ≤ k)
    (hn : ts.length ≤ n) {a : Alternative} :
    alternatives body k ts = pure (a, []) ↔ Alternatives ts a := by
  induction k generalizing ts a with
  | zero =>
    have hnil : ts = [] := List.length_eq_zero_iff.mp (by omega)
    subst hnil
    constructor
    · intro h
      cases pure_eq_pure_iff.mp h
      exact .absent
    · intro h
      cases h
      rfl
  | succ k ih =>
    constructor
    · intro h
      cases ts with
      | nil =>
        cases pure_eq_pure_iff.mp h
        exact .absent
      | cons t rest =>
        simp only [alternatives] at h
        split at h
        · next hw =>
          split at h
          · exact absurd h refuse_ne_pure
          · next u rest' =>
            simp only [List.length_cons] at hk hn
            split at h
            · next hw' =>
              obtain ⟨⟨e, b, rest₁⟩, hg, h⟩ := bind_eq_pure_iff.mp h
              obtain ⟨⟨a', rest₂⟩, ha, h⟩ := bind_eq_pure_iff.mp h
              cases pure_eq_pure_iff.mp h
              obtain ⟨us, rfl, hg'⟩ :=
                (conditionalBlock_eq_pure_iff hbody (by omega) (by decide)).mp hg
              simp only [List.length_append] at hk hn
              exact .elseIf hw hw' hg' ((ih (by omega) (by omega)).mp ha)
            · obtain ⟨⟨b, rest₁⟩, hb, h⟩ := bind_eq_pure_iff.mp h
              cases pure_eq_pure_iff.mp h
              obtain ⟨us, hus, hb'⟩ := (block_eq_pure_iff hbody (by simp; omega)).mp hb
              rw [hus, List.append_nil]
              exact .block hw hb'
        · cases pure_eq_pure_iff.mp h
    · intro h
      cases h with
      | absent => rfl
      | @block w ts b hw hb =>
        simp only [List.length_cons] at hk hn
        have hrun : block body ts = pure (b, []) :=
          (block_eq_pure_iff hbody (by omega)).mpr ⟨ts, by simp, hb⟩
        obtain @⟨l, _, _, _, hl, -, -⟩ := hb
        have hd : l.isKeyword .daca = false := by
          simp [Token.isKeyword, hl]
        unfold alternatives
        simp only [hw, if_true, List.cons_append, hd]
        exact bind_eq_pure_iff.mpr ⟨_, hrun, rfl⟩
      | @elseIf w w' ts us e b a hw hw' hg ha =>
        simp only [List.cons_append, List.length_cons, List.length_append] at hk hn
        have hrun : conditionalBlock body .atunci (ts ++ us) = pure (e, b, us) :=
          (conditionalBlock_eq_pure_iff hbody (by simp; omega) (by decide)).mpr ⟨ts, rfl, hg⟩
        have hrest : alternatives body k us = pure (a, []) := (ih (by omega) (by omega)).mpr ha
        unfold alternatives
        simp only [List.cons_append, hw, hw', if_true]
        exact bind_eq_pure_iff.mpr ⟨_, hrun, bind_eq_pure_iff.mpr ⟨_, hrest, rfl⟩⟩

/-! ## Statements with blocks -/

/-- A conditional takes all the tokens of its line: what is left after the first block must be its
alternatives. -/
theorem conditional_eq_pure_iff (hbody : RightBelow n body) (hn : ts.length ≤ n) {first : Token}
    {s : Stmt} :
    conditional body first ts = pure s ↔ ∃ us vs e b a, ts = us ++ vs ∧ Guarded .atunci us e b ∧
      Alternatives vs a ∧ s = .branch first e b a := by
  constructor
  · intro h
    obtain ⟨⟨e, b, rest₁⟩, hg, h⟩ := bind_eq_pure_iff.mp h
    obtain ⟨⟨a, rest₂⟩, ha, h⟩ := bind_eq_pure_iff.mp h
    obtain ⟨_, hend, h⟩ := bind_eq_pure_iff.mp h
    cases expectEnd_eq_pure_iff.mp hend
    cases pure_eq_pure_iff.mp h
    obtain ⟨us, rfl, hg'⟩ := (conditionalBlock_eq_pure_iff hbody hn (by decide)).mp hg
    simp only [List.length_append] at hn
    exact ⟨us, rest₁, e, b, a, rfl, hg',
      (alternatives_eq_pure_iff hbody (Nat.le_refl _) (by omega)).mp ha, rfl⟩
  · rintro ⟨us, vs, e, b, a, rfl, hg, ha, rfl⟩
    have hrun := (conditionalBlock_eq_pure_iff hbody hn (by decide)).mpr ⟨us, rfl, hg⟩
    simp only [List.length_append] at hn
    have hrest := (alternatives_eq_pure_iff hbody (Nat.le_refl _) (by omega)).mpr ha
    exact bind_eq_pure_iff.mpr ⟨_, hrun, bind_eq_pure_iff.mpr ⟨_, hrest,
      bind_eq_pure_iff.mpr ⟨_, expectEnd_eq_pure_iff.mpr rfl, rfl⟩⟩⟩

theorem partner_eq_ok_iff {word after : Keyword} :
    partner word after ts = .ok rest ↔ ∃ t, ts = t :: rest ∧ t.isKeyword word := by
  constructor
  · intro h
    unfold partner at h
    split at h
    · cases h
    · next t ts =>
      split at h
      · next ht =>
        rw [← Except.ok.inj h]
        exact ⟨t, rfl, ht⟩
      · cases h
  · rintro ⟨t, rfl, ht⟩
    simp [partner, ht]

/-- A loop that tests first ends with its block: the tokens after it must be none. -/
theorem whileStatement_eq_pure_iff (hbody : RightBelow n body) (hn : ts.length ≤ n) {first : Token}
    {s : Stmt} :
    whileStatement body first ts = pure s ↔ ∃ w us e b, ts = w :: us ∧ w.isKeyword .timp ∧
      Guarded .executa us e b ∧ s = .whileLoop first e b := by
  constructor
  · intro h
    obtain ⟨rest₁, hw, h⟩ := bind_eq_pure_iff.mp h
    obtain ⟨⟨e, b, rest₂⟩, hg, h⟩ := bind_eq_pure_iff.mp h
    obtain ⟨_, hend, h⟩ := bind_eq_pure_iff.mp h
    cases expectEnd_eq_pure_iff.mp hend
    cases pure_eq_pure_iff.mp h
    obtain ⟨w, rfl, hw'⟩ := partner_eq_ok_iff.mp (lift_eq_pure_iff.mp hw)
    simp only [List.length_cons] at hn
    obtain ⟨us, rfl, hg'⟩ := (conditionalBlock_eq_pure_iff hbody (by omega) (by decide)).mp hg
    exact ⟨w, _, e, b, rfl, hw', by simpa using hg', rfl⟩
  · rintro ⟨w, us, e, b, rfl, hw, hg, rfl⟩
    simp only [List.length_cons] at hn
    have hp : partner .timp .cat (w :: us) = .ok us := partner_eq_ok_iff.mpr ⟨w, rfl, hw⟩
    have hrun := (conditionalBlock_eq_pure_iff hbody (by omega) (by decide)).mpr
      ⟨us, (List.append_nil us).symm, hg⟩
    exact bind_eq_pure_iff.mpr ⟨_, lift_eq_pure_iff.mpr hp, bind_eq_pure_iff.mpr ⟨_, hrun,
      bind_eq_pure_iff.mpr ⟨_, expectEnd_eq_pure_iff.mpr rfl, rfl⟩⟩⟩

/-- After the block of a loop that tests last, the pair of words tells which of the two loops it is.
-/
theorem doStatement_eq_pure_iff (hbody : RightBelow n body) (hn : ts.length ≤ n) {first : Token}
    {s : Stmt} :
    doStatement body first ts = pure s ↔ ∃ us w w' es e b, ts = us ++ w :: w' :: es ∧
      Braces us b ∧ Expression es e ∧
      ((w.isKeyword .cat ∧ w'.isKeyword .timp ∧ s = .doWhile first e b) ∨
        (w.isKeyword .pana ∧ w'.isKeyword .cand ∧ s = .doUntil first e b)) := by
  constructor
  · intro h
    obtain ⟨⟨b, rest₁⟩, hb, hcond⟩ := bind_eq_pure_iff.mp h
    obtain ⟨us, rfl, hb'⟩ := (block_eq_pure_iff hbody hn).mp hb
    clear h
    dsimp only at hcond
    split at hcond
    · exact absurd hcond refuse_ne_pure
    · next w rest₂ =>
      split at hcond
      · next hw =>
        obtain ⟨rest₃, hp, hcond⟩ := bind_eq_pure_iff.mp hcond
        obtain ⟨e, he, hcond⟩ := bind_eq_pure_iff.mp hcond
        cases pure_eq_pure_iff.mp hcond
        obtain ⟨w', rfl, hw'⟩ := partner_eq_ok_iff.mp (lift_eq_pure_iff.mp hp)
        exact ⟨us, w, w', rest₃, e, b, rfl, hb',
          fullExpression_eq_ok_iff.mp (lift_eq_pure_iff.mp he), Or.inl ⟨hw, hw', rfl⟩⟩
      · split at hcond
        · next hw =>
          obtain ⟨rest₃, hp, hcond⟩ := bind_eq_pure_iff.mp hcond
          obtain ⟨e, he, hcond⟩ := bind_eq_pure_iff.mp hcond
          cases pure_eq_pure_iff.mp hcond
          obtain ⟨w', rfl, hw'⟩ := partner_eq_ok_iff.mp (lift_eq_pure_iff.mp hp)
          exact ⟨us, w, w', rest₃, e, b, rfl, hb',
            fullExpression_eq_ok_iff.mp (lift_eq_pure_iff.mp he), Or.inr ⟨hw, hw', rfl⟩⟩
        · exact absurd hcond refuse_ne_pure
  · rintro ⟨us, w, w', es, e, b, rfl, hb, he, hends⟩
    have hrun := (block_eq_pure_iff hbody hn).mpr ⟨us, rfl, hb⟩
    have hfull := fullExpression_eq_ok_iff.mpr he
    refine bind_eq_pure_iff.mpr ⟨_, hrun, ?_⟩
    rcases hends with ⟨hw, hw', rfl⟩ | ⟨hw, hw', rfl⟩
    · have hp : partner .timp .cat (w' :: es) = .ok es := partner_eq_ok_iff.mpr ⟨w', rfl, hw'⟩
      simp only [hw, if_true]
      exact bind_eq_pure_iff.mpr ⟨_, lift_eq_pure_iff.mpr hp,
        bind_eq_pure_iff.mpr ⟨_, lift_eq_pure_iff.mpr hfull, rfl⟩⟩
    · have hne : w.isKeyword .cat = false := by
        rw [Bool.eq_false_iff]
        intro h
        cases Token.isKeyword_unique h hw
      have hp : partner .cand .pana (w' :: es) = .ok es := partner_eq_ok_iff.mpr ⟨w', rfl, hw'⟩
      simp only [hne, hw, if_true]
      exact bind_eq_pure_iff.mpr ⟨_, lift_eq_pure_iff.mpr hp,
        bind_eq_pure_iff.mpr ⟨_, lift_eq_pure_iff.mpr hfull, rfl⟩⟩

/-- The scan for the end of a header stops right after the header. -/
theorem splitHeader_header {hs : List Token} {start step : Stmt} {e : Expr} {t : Token}
    (hh : Header hs start e step) (ht : EndsHeader t) :
    splitHeader 0 (hs ++ t :: rest) = (hs, t :: rest) := by
  obtain @⟨is, cs, ss, c, c', _, _, _, hi, hc, he, hc', hs⟩ := hh
  have hi' : Enclosed 0 is := hi.elim Declaration.enclosed Assignment.enclosed
  have he' : Enclosed 0 cs := he.enclosed 0
  have hs' : Enclosed 0 ss := hs.enclosed
  have hcomma : ∀ {c : Token}, c.kind = .comma → ∀ us, splitHeader 0 (c :: us) =
      (c :: (splitHeader 0 us).1, (splitHeader 0 us).2) := by
    intro c hc us
    have hd : parenDepth 0 c = 0 := by simp [parenDepth, hc]
    have hne : ¬ EndsHeader c := by simp [EndsHeader, Token.isKeyword, hc]
    have := splitHeader_cons hne 0 us
    rwa [hd] at this
  have hlast : splitHeader 0 (ss ++ t :: rest) = (ss, t :: rest) := by
    have := splitHeader_append (hs'.parens 0 (by omega)) hs'.not_endsHeader (t :: rest)
    simpa [splitHeader_end ht] using this
  have hmid : splitHeader 0 (cs ++ c' :: (ss ++ t :: rest)) = (cs ++ c' :: ss, t :: rest) := by
    have := splitHeader_append (he'.parens 0 (by omega)) he'.not_endsHeader
      (c' :: (ss ++ t :: rest))
    simpa [hcomma hc', hlast] using this
  have hall := splitHeader_append (hi'.parens 0 (by omega)) hi'.not_endsHeader
    (c :: (cs ++ c' :: (ss ++ t :: rest)))
  simpa [hcomma hc, hmid] using hall

/-- So the word or the brace after the header is where its block begins. -/
theorem splitHeader_block {hs ws : List Token} {start step : Stmt} {e : Expr} {l : Token}
    (hh : Header hs start e step) (hw : Optional .executa ws) (hl : l.kind = .lbrace) :
    splitHeader 0 (hs ++ ws ++ l :: rest) = (hs, ws ++ l :: rest) := by
  rw [List.append_assoc]
  cases hw with
  | absent => exact splitHeader_header hh (Or.inr hl)
  | present hw => exact splitHeader_header hh (Or.inl hw)

/-- A counting loop is a header, the word `executa` if it is there, and a block. -/
theorem forStatement_eq_pure_iff (hbody : RightBelow n body) (hn : ts.length ≤ n) {first : Token}
    {s : Stmt} :
    forStatement body first ts = pure s ↔ ∃ hs ws us start e step b, ts = hs ++ ws ++ us ∧
      Header hs start e step ∧ Optional .executa ws ∧ Braces us b ∧
      s = .forLoop first start e step b := by
  constructor
  · intro h
    unfold forStatement at h
    cases hsplit : splitHeader 0 ts with
    | mk hs rest₁ =>
      rw [hsplit] at h
      obtain ⟨⟨start, e, step⟩, hh, h⟩ := bind_eq_pure_iff.mp h
      obtain ⟨⟨b, rest₂⟩, hb, h⟩ := bind_eq_pure_iff.mp h
      obtain ⟨_, hend, h⟩ := bind_eq_pure_iff.mp h
      cases expectEnd_eq_pure_iff.mp hend
      cases pure_eq_pure_iff.mp h
      have hts := splitHeader_sound hsplit
      obtain ⟨ws, hw, hws⟩ := skipKeyword_sound .executa rest₁
      have hlen := congrArg List.length hts
      have hlen' := congrArg List.length hws
      simp only [List.length_append] at hlen hlen'
      obtain ⟨us, hus, hb'⟩ := (block_eq_pure_iff hbody (by omega)).mp hb
      refine ⟨hs, ws, us, start, e, step, b, ?_, header_eq_ok_iff.mp (lift_eq_pure_iff.mp hh), hw,
        hb', rfl⟩
      rw [hts, hws, hus]
      simp
  · rintro ⟨hs, ws, us, start, e, step, b, rfl, hh, hw, hb, rfl⟩
    simp only [List.length_append] at hn
    have hblock : block body us = pure (b, []) :=
      (block_eq_pure_iff hbody (by omega)).mpr ⟨us, by simp, hb⟩
    obtain ⟨hl, -, -⟩ := hb
    unfold forStatement
    rw [List.cons_append, splitHeader_block hh hw hl]
    refine bind_eq_pure_iff.mpr ⟨_, lift_eq_pure_iff.mpr (header_eq_ok_iff.mpr hh), ?_⟩
    dsimp only
    rw [skipKeyword_append hw hl]
    exact bind_eq_pure_iff.mpr ⟨_, hblock,
      bind_eq_pure_iff.mpr ⟨_, expectEnd_eq_pure_iff.mpr rfl, rfl⟩⟩

/-- A line that is read derives its statement. -/
theorem statement_sound (hbody : RightBelow n body) {line : Line} (hn : line.tokens.length ≤ n)
    {s : Stmt} (h : statement body line = pure s) : Open line.tokens s ∨ Closed line.tokens s := by
  obtain ⟨first, rest⟩ := line
  simp only [Line.tokens, List.length_cons] at hn ⊢
  unfold statement at h
  simp only at h
  split at h
  · next hk =>
    have hword : ∀ {word : Keyword}, Keyword.ofText? first.lexeme = some word →
        first.isKeyword word := fun hw =>
      Token.isKeyword_iff.mpr ⟨hk, (Keyword.text_of_ofText? hw).symm⟩
    split at h
    · next hw =>
      exact Or.inl (.declaration ((declaration_eq_ok_iff (hword hw)).mp (lift_eq_pure_iff.mp h)))
    · next hw =>
      obtain ⟨e, he, rfl⟩ := printing_eq_ok_iff.mp (lift_eq_pure_iff.mp h)
      exact Or.inl (.print (hword hw) he)
    · next hw =>
      obtain ⟨name, rfl, hname, rfl⟩ := inputting_eq_ok_iff.mp (lift_eq_pure_iff.mp h)
      exact Or.inl (.input (hword hw) hname)
    · next hw =>
      obtain ⟨us, vs, e, b, a, rfl, hg, ha, rfl⟩ :=
        (conditional_eq_pure_iff hbody (by omega)).mp h
      exact Or.inr (.branch (hword hw) hg ha)
    · next hw =>
      obtain ⟨w, us, e, b, rfl, hw', hg, rfl⟩ :=
        (whileStatement_eq_pure_iff hbody (by omega)).mp h
      exact Or.inr (.whileLoop (hword hw) hw' hg)
    · next hw =>
      obtain ⟨us, w, w', es, e, b, rfl, hb, he, ⟨hw₁, hw₂, rfl⟩ | ⟨hw₁, hw₂, rfl⟩⟩ :=
        (doStatement_eq_pure_iff hbody (by omega)).mp h
      · exact Or.inl (.doWhile (hword hw) hb hw₁ hw₂ he)
      · exact Or.inl (.doUntil (hword hw) hb hw₁ hw₂ he)
    · next hw =>
      obtain ⟨hs, ws, us, start, e, step, b, rfl, hh, hopt, hb, rfl⟩ :=
        (forStatement_eq_pure_iff hbody (by omega)).mp h
      have := Closed.forLoop (hword hw) hh hopt hb
      exact Or.inr (by simpa using this)
    · exact absurd h refuse_ne_pure
    · exact absurd h refuse_ne_pure
  · next hk =>
    rcases (assignmentOrCall_eq_ok_iff hk).mp (lift_eq_pure_iff.mp h) with
      ha | ⟨l, ts, r, args, rfl, hname, hl, ha, hr, rfl⟩
    · exact Or.inl (.assignment ha)
    · exact Or.inl (.call hname hl ha hr)
  · exact absurd h refuse_ne_pure

/-- A statement is chosen by the reserved word in front of its line. -/
theorem statement_keyword {first : Token} {word : Keyword} (hf : first.isKeyword word) :
    first.kind = .keyword ∧ Keyword.ofText? first.lexeme = some word := by
  obtain ⟨hk, hw⟩ := Token.isKeyword_iff.mp hf
  exact ⟨hk, by rw [hw, Keyword.ofText?_text]⟩

/-- The first token of a statement that does not end with a block decides which reader is called,
and each of these readers is right. -/
theorem Grammar.Open.statement_eq (hbody : RightBelow n body) {line : Line}
    (hn : line.tokens.length ≤ n) {s : Stmt} (h : Open line.tokens s) :
    statement body line = pure s := by
  obtain ⟨first, rest⟩ := line
  simp only [Line.tokens, List.length_cons] at hn h
  generalize hts : first :: rest = ts at h
  cases h with
  | declaration h =>
    subst hts
    have hf : first.isKeyword .var := by
      cases h with
      | bare hf _ => exact hf
      | initialised hf _ _ _ => exact hf
    obtain ⟨hk, hw⟩ := statement_keyword hf
    simp only [statement, hk, hw]
    exact lift_eq_pure_iff.mpr ((declaration_eq_ok_iff hf).mpr h)
  | assignment h =>
    subst hts
    have hname : isNameToken first := by
      cases h with
      | plain hname _ _ => exact hname
      | compound hname _ _ _ => exact hname
      | step hname _ _ => exact hname
    have hk := (isNameToken_iff.mp hname).1
    simp only [statement, hk]
    exact lift_eq_pure_iff.mpr ((assignmentOrCall_eq_ok_iff hk).mpr (Or.inl h))
  | print hf h =>
    cases hts
    obtain ⟨hk, hw⟩ := statement_keyword hf
    simp only [statement, hk, hw]
    exact lift_eq_pure_iff.mpr (printing_eq_ok_iff.mpr ⟨_, h, rfl⟩)
  | input hf hname =>
    cases hts
    obtain ⟨hk, hw⟩ := statement_keyword hf
    simp only [statement, hk, hw]
    exact lift_eq_pure_iff.mpr (inputting_eq_ok_iff.mpr ⟨_, rfl, hname, rfl⟩)
  | call ht hl h hr =>
    obtain ⟨rfl, rfl⟩ := List.cons.inj hts
    have hk := (isNameToken_iff.mp ht).1
    simp only [statement, hk]
    exact lift_eq_pure_iff.mpr ((assignmentOrCall_eq_ok_iff hk).mpr
      (Or.inr ⟨_, _, _, _, rfl, ht, hl, h, hr, rfl⟩))
  | doWhile hf hb hw₁ hw₂ h =>
    obtain ⟨rfl, rfl⟩ := List.cons.inj hts
    obtain ⟨hk, hw⟩ := statement_keyword hf
    simp only [statement, hk, hw]
    exact (doStatement_eq_pure_iff hbody (by omega)).mpr
      ⟨_, _, _, _, _, _, rfl, hb, h, Or.inl ⟨hw₁, hw₂, rfl⟩⟩
  | doUntil hf hb hw₁ hw₂ h =>
    obtain ⟨rfl, rfl⟩ := List.cons.inj hts
    obtain ⟨hk, hw⟩ := statement_keyword hf
    simp only [statement, hk, hw]
    exact (doStatement_eq_pure_iff hbody (by omega)).mpr
      ⟨_, _, _, _, _, _, rfl, hb, h, Or.inr ⟨hw₁, hw₂, rfl⟩⟩

/-- The first token of a statement that ends with a block decides which reader is called. Its blocks
are shorter than the line, so that `body` is right about them. -/
theorem Grammar.Closed.statement_eq (hbody : RightBelow n body) {line : Line}
    (hn : line.tokens.length ≤ n) {s : Stmt} (h : Closed line.tokens s) :
    statement body line = pure s := by
  obtain ⟨first, rest⟩ := line
  simp only [Line.tokens, List.length_cons] at hn h
  generalize hts : first :: rest = ts at h
  cases h with
  | branch hf hg ha =>
    obtain ⟨rfl, rfl⟩ := List.cons.inj hts
    obtain ⟨hk, hw⟩ := statement_keyword hf
    simp only [statement, hk, hw]
    exact (conditional_eq_pure_iff hbody (by omega)).mpr ⟨_, _, _, _, _, rfl, hg, ha, rfl⟩
  | whileLoop hf hw' hg =>
    obtain ⟨rfl, rfl⟩ := List.cons.inj hts
    obtain ⟨hk, hw⟩ := statement_keyword hf
    simp only [statement, hk, hw]
    exact (whileStatement_eq_pure_iff hbody (by omega)).mpr ⟨_, _, _, _, rfl, hw', hg, rfl⟩
  | forLoop hf hh hopt hb =>
    obtain ⟨rfl, rfl⟩ := List.cons.inj hts
    obtain ⟨hk, hw⟩ := statement_keyword hf
    simp only [statement, hk, hw]
    exact (forStatement_eq_pure_iff hbody (by omega)).mpr
      ⟨_, _, _, _, _, _, _, rfl, hh, hopt, hb, rfl⟩

end Blocks

/-! ## Each statement is one line -/

theorem plain_of_isKeyword {word : Keyword} {t : Token} (ht : t.isKeyword word) : Plain t := by
  have hk := (Token.isKeyword_iff.mp ht).1
  exact ⟨by simp [hk], by simp [hk], by simp [hk]⟩

section Lines

variable {first : Token} {rest : List Token}

/-- A conditional goes on with alternatives only. -/
theorem continuesAfterBlock_daca (hf : first.isKeyword .daca) :
    continuesAfterBlock first rest.head? ↔ ∃ t ∈ rest.head?, t.isKeyword .altfel := by
  cases rest <;> simp [continuesAfterBlock, hf]

/-- A loop with its condition in front does not go on. -/
theorem continuesAfterBlock_other {word : Keyword} (hf : first.isKeyword word)
    (hd : word ≠ .daca) (he : word ≠ .executa) : continuesAfterBlock first rest.head? = false := by
  have hd' : first.isKeyword .daca = false :=
    Bool.eq_false_iff.mpr fun h => hd (Token.isKeyword_unique hf h)
  have he' : first.isKeyword .executa = false :=
    Bool.eq_false_iff.mpr fun h => he (Token.isKeyword_unique hf h)
  cases rest <;> simp [continuesAfterBlock, hd', he']

/-- A loop with its condition behind goes on with that condition. -/
theorem continuesAfterBlock_executa (hf : first.isKeyword .executa) {w : Token} {word : Keyword}
    (hw : w.isKeyword word) (hword : word = .cat ∨ word = .pana) :
    continuesAfterBlock first (some w) := by
  have hd : first.isKeyword .daca = false :=
    Bool.eq_false_iff.mpr fun h => by cases Token.isKeyword_unique hf h
  rcases hword with rfl | rfl <;> simp [continuesAfterBlock, hd, hf, hw]

/-- A block in a line: the line ends with it unless the statement goes on. -/
theorem linesAfter_braces {l r : Token} {ts : List Token} (hl : l.kind = .lbrace) (h : Balanced ts)
    (hr : r.kind = .rbrace) (first : Token) (more rest : List Token) :
    linesAfter (first :: more) 0 (l :: ts ++ [r] ++ rest) =
      if continuesAfterBlock first rest.head? then
        linesAfter (first :: more ++ (l :: ts ++ [r])) 0 rest
      else Line.ofTokens (first :: more ++ (l :: ts ++ [r])) ++ splitLines rest := by
  have hassoc : l :: ts ++ [r] ++ rest = l :: ts ++ r :: rest := by simp
  have hseen : first :: more ++ (l :: ts ++ [r]) = first :: more ++ l :: ts ++ [r] := by simp
  rw [hassoc, hseen, linesAfter_block hl h, linesAfter_outermost hr _ _ (Nat.le_refl 1)]
  rfl

/-- The same for a block with its condition in front. -/
theorem linesAfter_guarded {word : Keyword} {es ws ts : List Token} {e : Expr} {l r : Token}
    (he : Expression es e) (hw : Optional word ws) (hl : l.kind = .lbrace) (h : Balanced ts)
    (hr : r.kind = .rbrace) (first : Token) (more rest : List Token) :
    linesAfter (first :: more) 0 (es ++ ws ++ (l :: ts ++ [r]) ++ rest) =
      if continuesAfterBlock first rest.head? then
        linesAfter (first :: more ++ (es ++ ws ++ (l :: ts ++ [r]))) 0 rest
      else Line.ofTokens (first :: more ++ (es ++ ws ++ (l :: ts ++ [r]))) ++ splitLines rest := by
  have hplain : ∀ t ∈ es ++ ws, Plain t := by
    intro t ht
    rcases List.mem_append.mp ht with ht | ht
    · exact (he.enclosed 0).plain t ht
    · exact hw.plain t ht
  rw [List.append_assoc, linesAfter_append hplain, List.cons_append, linesAfter_braces hl h hr]
  simp

/-- A block with its condition behind goes to the open line as a whole. -/
theorem splitLines_executa {w w' l r : Token} {ts es : List Token} {e : Expr} {word word' : Keyword}
    (hf : first.isKeyword .executa) (hl : l.kind = .lbrace) (h : Balanced ts)
    (hr : r.kind = .rbrace) (hw : w.isKeyword word) (hword : word = .cat ∨ word = .pana)
    (hw' : w'.isKeyword word') (he : Expression es e) (rest : List Token) :
    splitLines (first :: (l :: ts ++ [r]) ++ w :: w' :: es ++ rest) =
      linesAfter (first :: (l :: ts ++ [r]) ++ w :: w' :: es) 0 rest := by
  have hgo := continuesAfterBlock_executa hf hw hword
  have hassoc : first :: (l :: ts ++ [r]) ++ w :: w' :: es ++ rest =
      first :: (l :: ts ++ [r] ++ (w :: w' :: (es ++ rest))) := by
    simp
  rw [hassoc, splitLines_eq, linesAfter_plain (plain_of_isKeyword hf), List.nil_append,
    linesAfter_braces hl h hr, List.head?_cons, if_pos hgo,
    linesAfter_plain (plain_of_isKeyword hw), linesAfter_plain (plain_of_isKeyword hw'),
    linesAfter_append (he.enclosed 0).plain]
  simp

theorem Grammar.Braces.linesAfter_eq {us : List Token} {b : Block} (hb : Braces us b)
    (first : Token) (more rest : List Token) :
    linesAfter (first :: more) 0 (us ++ rest) =
      if continuesAfterBlock first rest.head? then linesAfter (first :: more ++ us) 0 rest
      else Line.ofTokens (first :: more ++ us) ++ splitLines rest := by
  obtain ⟨hl, h, hr⟩ := hb
  exact linesAfter_braces hl h.balanced hr first more rest

theorem Grammar.Guarded.linesAfter_eq {word : Keyword} {us : List Token} {e : Expr} {b : Block}
    (hg : Guarded word us e b) (first : Token) (more rest : List Token) :
    linesAfter (first :: more) 0 (us ++ rest) =
      if continuesAfterBlock first rest.head? then linesAfter (first :: more ++ us) 0 rest
      else Line.ofTokens (first :: more ++ us) ++ splitLines rest := by
  obtain ⟨he, hw, ⟨hl, h, hr⟩⟩ := hg
  exact linesAfter_guarded he hw hl h.balanced hr first more rest

/-- After a block of a conditional the line takes the alternatives and then ends. -/
theorem Grammar.Alternatives.linesAfter_eq {us : List Token} {a : Alternative}
    (h : Alternatives us a) (first : Token) (more rest : List Token) (hf : first.isKeyword .daca)
    (hrest : ∀ t ∈ rest.head?, ¬ t.isKeyword .altfel) :
    (if continuesAfterBlock first (us ++ rest).head? then
      linesAfter (first :: more) 0 (us ++ rest)
      else Line.ofTokens (first :: more) ++ splitLines (us ++ rest)) =
    Line.ofTokens (first :: more ++ us) ++ splitLines rest := by
  have hstop : ¬ continuesAfterBlock first rest.head? := by
    rw [continuesAfterBlock_daca hf]
    rintro ⟨t, ht, hw⟩
    exact hrest t ht hw
  cases h with
  | absent =>
    rw [List.nil_append, if_neg hstop, List.append_nil]
  | @block w ts b hw hb =>
    have hgo : continuesAfterBlock first (w :: ts ++ rest).head? :=
      (continuesAfterBlock_daca hf).mpr ⟨w, rfl, hw⟩
    rw [if_pos hgo, List.cons_append, linesAfter_plain (plain_of_isKeyword hw), List.cons_append,
      hb.linesAfter_eq, if_neg hstop]
    simp
  | @elseIf w w' ts us e b a hw hw' hg ha =>
    have hgo : continuesAfterBlock first (w :: w' :: ts ++ us ++ rest).head? :=
      (continuesAfterBlock_daca hf).mpr ⟨w, rfl, hw⟩
    have hseen : first :: more ++ (w :: w' :: ts ++ us) =
        first :: (more ++ [w] ++ [w'] ++ ts) ++ us := by
      simp
    rw [if_pos hgo, List.append_assoc, List.cons_append, List.cons_append,
      linesAfter_plain (plain_of_isKeyword hw), linesAfter_plain (plain_of_isKeyword hw'),
      List.cons_append, List.cons_append, hg.linesAfter_eq, hseen,
      ← ha.linesAfter_eq first (more ++ [w] ++ [w'] ++ ts) rest hf hrest]
    rfl

/-- A closed statement is cut out as one line in front of whatever does not carry it on. -/
theorem Grammar.Closed.splitLines_append {ts : List Token} {s : Stmt} (h : Closed ts s)
    (hrest : ∀ t ∈ rest.head?, ¬ t.isKeyword .altfel) :
    splitLines (ts ++ rest) = Line.ofTokens ts ++ splitLines rest := by
  cases h with
  | @branch first ts us e b a hf hg ha =>
    rw [List.append_assoc, List.cons_append, splitLines_eq,
      linesAfter_plain (plain_of_isKeyword hf), List.nil_append, hg.linesAfter_eq]
    have := ha.linesAfter_eq first ts rest hf hrest
    simpa using this
  | @whileLoop first w ts e b hf hw hg =>
    rw [List.cons_append, List.cons_append, splitLines_eq, linesAfter_plain (plain_of_isKeyword hf),
      linesAfter_plain (plain_of_isKeyword hw), List.nil_append, List.singleton_append,
      hg.linesAfter_eq, continuesAfterBlock_other hf (by decide) (by decide)]
    simp
  | @forLoop first hs ws ts start step e b hf hh hw hb =>
    have hplain : ∀ t ∈ hs ++ ws, Plain t := by
      intro t ht
      rcases List.mem_append.mp ht with ht | ht
      · exact hh.plain t ht
      · exact hw.plain t ht
    have hassoc : first :: hs ++ ws ++ ts ++ rest = first :: (hs ++ ws ++ (ts ++ rest)) := by simp
    rw [hassoc, splitLines_eq, linesAfter_plain (plain_of_isKeyword hf), linesAfter_append hplain,
      List.nil_append, List.singleton_append, hb.linesAfter_eq,
      continuesAfterBlock_other hf (by decide) (by decide)]
    simp

/-- An open statement goes to one line as a whole, which is open after it. -/
theorem Grammar.Open.linesAfter_eq {ts : List Token} {s : Stmt} (h : Open ts s)
    (rest : List Token) : splitLines (ts ++ rest) = linesAfter ts 0 rest := by
  have hplain : ∀ {ts : List Token}, (∀ t ∈ ts, Plain t) →
      splitLines (ts ++ rest) = linesAfter ts 0 rest := by
    intro ts h
    rw [splitLines_eq, linesAfter_append h, List.nil_append]
  cases h with
  | declaration h => exact hplain h.enclosed.plain
  | assignment h => exact hplain h.enclosed.plain
  | print hf h =>
    exact hplain ((enclosed_keyword hf (by decide) : Enclosed 0 _).append (h.enclosed 0)).plain
  | input hf hn =>
    exact hplain ((enclosed_keyword hf (by decide) : Enclosed 0 _).append (enclosed_name hn)).plain
  | call ht hl h hr =>
    exact hplain ((enclosed_name ht : Enclosed 0 _).append (h.enclosed.inParens hl hr)).plain
  | doWhile hf hb hw hw' h =>
    obtain ⟨hl, hin, hr⟩ := hb
    exact splitLines_executa hf hl hin.balanced hr hw (Or.inl rfl) hw' h rest
  | doUntil hf hb hw hw' h =>
    obtain ⟨hl, hin, hr⟩ := hb
    exact splitLines_executa hf hl hin.balanced hr hw (Or.inr rfl) hw' h rest

end Lines

/-! ## Programs -/

section Programs

variable {n : Nat} {body : List Token → Parsed} {ts : List Token}

/-- Lines are read without a diagnostic one by one. -/
theorem ofLines_cons_iff {l : Line} {ls : List Line} {b : Block} :
    Parsed.ofLines body (l :: ls) = ⟨b, []⟩ ↔
      ∃ s b', b = s :: b' ∧ statement body l = pure s ∧ Parsed.ofLines body ls = ⟨b', []⟩ := by
  have hcons : Parsed.ofLines body (l :: ls) =
      (Parsed.ofLine body l).append (Parsed.ofLines body ls) := rfl
  rw [hcons]
  cases hs : statement body l with
  | mk ds r =>
    cases r with
    | error fault =>
      constructor
      · intro h
        have hd := congrArg Parsed.diagnostics h
        simp [Parsed.append, Parsed.ofLine, hs] at hd
      · rintro ⟨s, b', -, h, -⟩
        cases congrArg Attempt.result h
    | ok s =>
      cases hls : Parsed.ofLines body ls with
      | mk b' ds' =>
        constructor
        · intro h
          have hb := congrArg Parsed.statements h
          have hd := congrArg Parsed.diagnostics h
          simp only [Parsed.append, Parsed.ofLine, hs, List.append_eq_nil_iff] at hb hd
          obtain ⟨rfl, rfl⟩ := hd
          exact ⟨s, b', hb.symm, rfl, rfl⟩
        · rintro ⟨s', b'', rfl, h, h'⟩
          cases h
          cases h'
          simp [Parsed.append, Parsed.ofLine, hs]

/-- Tokens whose lines are all read derive the statements. -/
theorem Cut.statements (hbody : RightBelow n body) {ls : List Line} (h : Cut ts ls)
    (hn : ts.length ≤ n) {b : Block} (hb : Parsed.ofLines body ls = ⟨b, []⟩) : Statements ts b := by
  induction h generalizing b with
  | nil =>
    cases hb
    exact .nil
  | skip ht h ih =>
    simp only [List.length_cons] at hn
    exact .skip ht (ih (by omega) hb)
  | ended ht h ih =>
    obtain ⟨s, b', rfl, hs, hb'⟩ := ofLines_cons_iff.mp hb
    simp only [List.length_append, List.length_cons] at hn
    have hrest := ih (by omega) hb'
    rcases statement_sound hbody (by omega) hs with ho | hc
    · exact .ended ho ht hrest
    · exact .closed hc (.skip ht hrest)
  | last =>
    obtain ⟨s, b', rfl, hs, hb'⟩ := ofLines_cons_iff.mp hb
    cases hb'
    rcases statement_sound hbody hn hs with ho | hc
    · exact .last ho
    · have := Statements.closed hc .nil
      simpa using this
  | closed hl hr h ih =>
    obtain ⟨s, b', rfl, hs, hb'⟩ := ofLines_cons_iff.mp hb
    simp only [List.length_append] at hn
    rcases statement_sound hbody (by omega) hs with ho | hc
    · exact absurd hr (ho.last hl)
    · exact .closed hc (ih (by omega) hb')

/-- The line of a statement is read. -/
theorem ofLines_append {s : Stmt} {ls : List Line} {b : Block} (hne : ∃ t us, ts = t :: us)
    (hs : ∀ line : Line, line.tokens = ts → statement body line = pure s)
    (hls : Parsed.ofLines body ls = ⟨b, []⟩) :
    Parsed.ofLines body (Line.ofTokens ts ++ ls) = ⟨s :: b, []⟩ := by
  obtain ⟨t, us, rfl⟩ := hne
  exact ofLines_cons_iff.mpr ⟨s, b, rfl, hs ⟨t, us⟩ rfl, hls⟩

/-- Tokens that derive statements are read line by line into these statements. -/
theorem Grammar.Statements.ofLines_eq (hbody : RightBelow n body) :
    ∀ {ts b}, Statements ts b → ts.length ≤ n → Parsed.ofLines body (splitLines ts) = ⟨b, []⟩
  | _, _, .nil, _ => rfl
  | _, _, .skip ht h, hn => by
    simp only [List.length_cons] at hn
    rw [splitLines_eq, linesAfter_lineEnd ht]
    exact h.ofLines_eq hbody (by omega)
  | _, _, .ended hs ht h, hn => by
    simp only [List.length_append, List.length_cons] at hn
    obtain ⟨t, us, hts, -⟩ := hs.first
    rw [hs.linesAfter_eq, linesAfter_lineEnd ht]
    exact ofLines_append ⟨t, us, hts⟩
      (fun line hl => Open.statement_eq hbody (by rw [hl]; omega) (hl ▸ hs))
      (h.ofLines_eq hbody (by omega))
  | _, _, .last hs, hn => by
    obtain ⟨t, us, hts, -⟩ := hs.first
    have hlines := hs.linesAfter_eq []
    rw [List.append_nil, linesAfter_nil, ← List.append_nil (Line.ofTokens _)] at hlines
    rw [hlines]
    exact ofLines_append ⟨t, us, hts⟩
      (fun line hl => Open.statement_eq hbody (by rw [hl]; omega) (hl ▸ hs)) rfl
  | _, _, .closed hs h, hn => by
    simp only [List.length_append] at hn
    obtain ⟨t, us, hts, -⟩ := hs.first
    rw [hs.splitLines_append h.head]
    exact ofLines_append ⟨t, us, hts⟩
      (fun line hl => Closed.statement_eq hbody (by rw [hl]; omega) (hl ▸ hs))
      (h.ofLines_eq hbody (by omega))

/-- Blocks nested less deeply than the bound are read rightly, and the number of tokens bounds the
nesting. -/
theorem rightBelow_blockAt (n : Nat) : RightBelow n (blockAt n) := by
  induction n with
  | zero =>
    intro ts b hn
    omega
  | succ n ih =>
    intro ts b hn
    constructor
    · intro h
      exact (cut_splitLines ts).statements ih (by omega) h
    · intro h
      exact h.ofLines_eq ih (by omega)

end Programs

/-- The reader accepts exactly the grammar: a token list is read into a program without a diagnostic
if and only if it derives that program, down to the tokens that the nodes are reported at. So the
same holds of programs up to their tokens. -/
theorem parse_eq_iff_derives (ts : List Token) (program : Block) :
    (parse ts = ⟨program, []⟩ ↔ Statements ts program) ∧
      ((∃ read, parse ts = ⟨read, []⟩ ∧ Stmt.bareAll read = Stmt.bareAll program) ↔
        ∃ derived, Statements ts derived ∧ Stmt.bareAll derived = Stmt.bareAll program) := by
  have hexact : ∀ b, parse ts = ⟨b, []⟩ ↔ Statements ts b := fun b =>
    rightBelow_blockAt (ts.length + 1) ts b (Nat.lt_succ_self _)
  exact ⟨hexact program, by simp only [hexact]⟩

end LineScript
