import LineScript.Syntax.Statement

/-!
# Grouping tokens in lines, blocks and headers

Where a line ends and where a block ends are found by two scans that count braces on their own.
Both are described here through one notion, the depth of braces after a list of tokens: on balanced
tokens the two agree, whatever else the tokens are. The two scans of the header of a counting loop
are described in the same way by the depth of parentheses.

Lines are cut by a loop that keeps the open line backwards; `linesAfter` is the same loop with the
open line in reading order.
-/

namespace LineScript

/-! ## The depth of braces -/

/-- The depth of braces after one token; there is none when a brace closes that no brace opened. -/
def braceStep? (depth : Nat) (t : Token) : Option Nat :=
  if t.kind = .lbrace then some (depth + 1)
  else if t.kind = .rbrace then
    match depth with
    | 0 => none
    | depth + 1 => some depth
  else some depth

/-- The depth of braces after some tokens that begin at the given depth. -/
def braceDepth? (depth : Nat) (ts : List Token) : Option Nat := ts.foldlM braceStep? depth

/-- Every brace is matched. -/
def Balanced (ts : List Token) : Prop := braceDepth? 0 ts = some 0

/-- Neither a brace nor the end of a line. -/
def Plain (t : Token) : Prop := t.kind ≠ .lbrace ∧ t.kind ≠ .rbrace ∧ t.kind ≠ .lineEnd

/-- What a token can do to the depth. -/
theorem braceStep?_eq_some {depth after : Nat} {t : Token} (h : braceStep? depth t = some after) :
    (t.kind = .lbrace ∧ after = depth + 1) ∨ (t.kind = .rbrace ∧ depth = after + 1) ∨
      (t.kind ≠ .lbrace ∧ t.kind ≠ .rbrace ∧ after = depth) := by
  unfold braceStep? at h
  split at h
  · next hl => exact Or.inl ⟨hl, (Option.some.inj h).symm⟩
  · next hl =>
    split at h
    · next hr =>
      cases depth with
      | zero => cases h
      | succ depth => exact Or.inr (Or.inl ⟨hr, by rw [Option.some.inj h]⟩)
    · next hr => exact Or.inr (Or.inr ⟨hl, hr, (Option.some.inj h).symm⟩)

theorem braceDepth?_nil (depth : Nat) : braceDepth? depth [] = some depth := rfl

theorem braceDepth?_cons (depth : Nat) (t : Token) (ts : List Token) :
    braceDepth? depth (t :: ts) = (braceStep? depth t).bind (braceDepth? · ts) := rfl

theorem braceDepth?_append (depth : Nat) (ts us : List Token) :
    braceDepth? depth (ts ++ us) = (braceDepth? depth ts).bind (braceDepth? · us) := by
  rw [braceDepth?, List.foldlM_append]
  rfl

/-- More open braces at the beginning are still open at the end. -/
theorem braceDepth?_add {depth after : Nat} {ts : List Token}
    (h : braceDepth? depth ts = some after) (more : Nat) :
    braceDepth? (depth + more) ts = some (after + more) := by
  induction ts generalizing depth with
  | nil =>
    rw [braceDepth?_nil] at h ⊢
    rw [Option.some.inj h]
  | cons t ts ih =>
    rw [braceDepth?_cons] at h ⊢
    obtain ⟨depth', hstep, hts⟩ := Option.bind_eq_some_iff.mp h
    have hstep' : braceStep? (depth + more) t = some (depth' + more) := by
      rcases braceStep?_eq_some hstep with ⟨hl, rfl⟩ | ⟨hr, rfl⟩ | ⟨hl, hr, rfl⟩
      · simp [braceStep?, hl, Nat.add_right_comm]
      · simp [braceStep?, hr, Nat.add_right_comm]
      · simp [braceStep?, hl, hr]
    rw [hstep']
    exact ih hts

/-- Balanced tokens leave every depth as it was. -/
theorem Balanced.depth {ts : List Token} (h : Balanced ts) (depth : Nat) :
    braceDepth? depth ts = some depth := by
  have := braceDepth?_add h depth
  rwa [Nat.zero_add] at this

theorem balanced_nil : Balanced [] := rfl

theorem Balanced.append {ts us : List Token} (h : Balanced ts) (h' : Balanced us) :
    Balanced (ts ++ us) := by
  rw [Balanced, braceDepth?_append, h.depth]
  exact h'

theorem Balanced.cons {t : Token} {ts : List Token} (hl : t.kind ≠ .lbrace) (hr : t.kind ≠ .rbrace)
    (h : Balanced ts) : Balanced (t :: ts) := by
  rw [Balanced, braceDepth?_cons, braceStep?, if_neg hl, if_neg hr]
  exact h

theorem Balanced.braces {l r : Token} {ts : List Token} (hl : l.kind = .lbrace) (h : Balanced ts)
    (hr : r.kind = .rbrace) : Balanced (l :: ts ++ [r]) := by
  rw [List.cons_append, Balanced, braceDepth?_cons, braceStep?, if_pos hl]
  rw [Option.bind_some, braceDepth?_append, h.depth]
  simp [braceDepth?_cons, braceDepth?_nil, braceStep?, hr]

theorem balanced_of_plain {ts : List Token} (h : ∀ t ∈ ts, Plain t) : Balanced ts := by
  induction ts with
  | nil => exact balanced_nil
  | cons t ts ih =>
    have ht := h t (by simp)
    exact Balanced.cons ht.1 ht.2.1 (ih fun u hu => h u (by simp [hu]))

/-! ## Blocks -/

/-- A block ends at the brace that takes the depth below where it began. -/
theorem splitBlock_eq {depth : Nat} {ts rest : List Token} {r : Token}
    (h : braceDepth? depth ts = some 0) (hr : r.kind = .rbrace) :
    splitBlock depth (ts ++ r :: rest) = some (ts, rest) := by
  induction ts generalizing depth with
  | nil =>
    rw [braceDepth?_nil] at h
    simp [splitBlock, hr, Option.some.inj h]
  | cons t ts ih =>
    rw [braceDepth?_cons] at h
    obtain ⟨depth', hstep, hts⟩ := Option.bind_eq_some_iff.mp h
    rcases braceStep?_eq_some hstep with ⟨hl, rfl⟩ | ⟨hr', rfl⟩ | ⟨hl, hr', rfl⟩
    · simp [splitBlock, hl, ih hts]
    · simp [splitBlock, hr', ih hts]
    · simp [splitBlock, hl, hr', ih hts]

/-- What is found as a block stands before a closing brace. -/
theorem splitBlock_sound {depth : Nat} {ts inside after : List Token}
    (h : splitBlock depth ts = some (inside, after)) :
    ∃ r, ts = inside ++ r :: after ∧ r.kind = .rbrace := by
  induction ts generalizing depth inside with
  | nil => simp [splitBlock] at h
  | cons t ts ih =>
    -- one token further inside, the rest of the block is found by the same scan
    have hstep : ∀ depth', (splitBlock depth' ts).map (fun p => (t :: p.1, p.2)) =
        some (inside, after) → ∃ r, t :: ts = inside ++ r :: after ∧ r.kind = .rbrace := by
      intro depth' h'
      obtain ⟨⟨i, a⟩, hs, hp⟩ := Option.map_eq_some_iff.mp h'
      obtain ⟨rfl, rfl⟩ := Prod.mk.inj hp
      obtain ⟨r, rfl, hr⟩ := ih hs
      exact ⟨r, rfl, hr⟩
    unfold splitBlock at h
    split at h
    · next hr =>
      cases depth with
      | zero =>
        obtain ⟨rfl, rfl⟩ := Prod.mk.inj (Option.some.inj h)
        exact ⟨t, rfl, hr⟩
      | succ depth => exact hstep depth h
    · exact hstep _ h

/-! ## Lines -/

/-- The lines of the tokens that follow an open line, which is given in reading order. -/
def linesAfter (seen : List Token) (depth : Nat) (rest : List Token) : List Line :=
  linesFrom seen.reverse depth rest

theorem splitLines_eq (ts : List Token) : splitLines ts = linesAfter [] 0 ts := rfl

theorem linesAfter_nil (seen : List Token) (depth : Nat) :
    linesAfter seen depth [] = Line.ofTokens seen := by
  simp [linesAfter, linesFrom]

/-- The end of a line counts outside of braces. -/
theorem linesAfter_lineEnd {t : Token} (ht : t.kind = .lineEnd) (seen rest : List Token) :
    linesAfter seen 0 (t :: rest) = Line.ofTokens seen ++ splitLines rest := by
  simp [linesAfter, linesFrom, ht, splitLines]

/-- Inside braces it belongs to the line. -/
theorem linesAfter_inside {t : Token} (ht : t.kind = .lineEnd) (seen rest : List Token)
    (depth : Nat) :
    linesAfter seen (depth + 1) (t :: rest) = linesAfter (seen ++ [t]) (depth + 1) rest := by
  simp [linesAfter, linesFrom, ht]

theorem linesAfter_plain {t : Token} (ht : Plain t) (seen rest : List Token) (depth : Nat) :
    linesAfter seen depth (t :: rest) = linesAfter (seen ++ [t]) depth rest := by
  obtain ⟨hl, hr, he⟩ := ht
  rw [linesAfter, linesFrom]
  split <;> simp_all [linesAfter]

theorem linesAfter_lbrace {t : Token} (ht : t.kind = .lbrace) (seen rest : List Token)
    (depth : Nat) :
    linesAfter seen depth (t :: rest) = linesAfter (seen ++ [t]) (depth + 1) rest := by
  simp [linesAfter, linesFrom, ht]

/-- A brace that closes an inner block does not end the line. -/
theorem linesAfter_rbrace {t : Token} (ht : t.kind = .rbrace) (seen rest : List Token)
    (depth : Nat) :
    linesAfter seen (depth + 2) (t :: rest) = linesAfter (seen ++ [t]) (depth + 1) rest := by
  simp [linesAfter, linesFrom, ht]

/-- A brace that closes an outermost block, or none at all, ends the line unless the statement goes
on. -/
theorem linesAfter_outermost {t : Token} (ht : t.kind = .rbrace) (seen rest : List Token)
    {depth : Nat} (hd : depth ≤ 1) :
    linesAfter seen depth (t :: rest) =
      if continuesAfterBlock (seen.headD t) rest.head? then linesAfter (seen ++ [t]) 0 rest
      else Line.ofTokens (seen ++ [t]) ++ splitLines rest := by
  have hlast : seen.reverse.getLastD t = seen.headD t := by cases seen <;> simp
  have hz : depth - 1 = 0 := by omega
  rw [linesAfter, linesFrom, hlast, hz]
  simp only [ht, hd, decide_true, Bool.true_and, Bool.not_eq_true', linesAfter, splitLines]
  cases continuesAfterBlock (seen.headD t) rest.head? <;> simp

/-- Plain tokens go to the open line. -/
theorem linesAfter_append {ts : List Token} (h : ∀ t ∈ ts, Plain t) (seen rest : List Token)
    (depth : Nat) : linesAfter seen depth (ts ++ rest) = linesAfter (seen ++ ts) depth rest := by
  induction ts generalizing seen with
  | nil => simp
  | cons t ts ih =>
    rw [List.cons_append, linesAfter_plain (h t (by simp)),
      ih fun u hu => h u (List.mem_cons_of_mem t hu)]
    simp

/-- Inside braces all tokens go to the open line, as long as the outermost brace stays open. -/
theorem linesAfter_depth {depth after : Nat} {ts : List Token}
    (h : braceDepth? depth ts = some after) (seen rest : List Token) :
    linesAfter seen (depth + 1) (ts ++ rest) = linesAfter (seen ++ ts) (after + 1) rest := by
  induction ts generalizing depth seen with
  | nil =>
    rw [braceDepth?_nil] at h
    simp [Option.some.inj h]
  | cons t ts ih =>
    rw [braceDepth?_cons] at h
    obtain ⟨depth', hstep, hts⟩ := Option.bind_eq_some_iff.mp h
    rw [List.cons_append, List.append_cons, ← ih hts]
    rcases braceStep?_eq_some hstep with ⟨hl, rfl⟩ | ⟨hr, rfl⟩ | ⟨hl, hr, rfl⟩
    · exact linesAfter_lbrace hl _ _ _
    · exact linesAfter_rbrace hr _ _ _
    · by_cases he : t.kind = .lineEnd
      · exact linesAfter_inside he _ _ _
      · exact linesAfter_plain ⟨hl, hr, he⟩ _ _ _

/-- A block goes to the open line up to its closing brace. -/
theorem linesAfter_block {l : Token} {ts : List Token} (hl : l.kind = .lbrace) (h : Balanced ts)
    (seen rest : List Token) :
    linesAfter seen 0 (l :: ts ++ rest) = linesAfter (seen ++ l :: ts) 1 rest := by
  rw [List.cons_append, linesAfter_lbrace hl, linesAfter_depth h]
  simp

/-! ## Headers -/

/-- The depth of parentheses after one token; there is none when a parenthesis closes that none
opened, and none at a comma outside of parentheses. -/
def parenStep? (depth : Nat) (t : Token) : Option Nat :=
  if t.kind = .lparen then some (depth + 1)
  else
    match depth with
    | 0 => if t.kind = .rparen ∨ t.kind = .comma then none else some 0
    | depth + 1 => some (if t.kind = .rparen then depth else depth + 1)

/-- The depth of parentheses after some tokens that begin at the given depth. -/
def parenDepth? (depth : Nat) (ts : List Token) : Option Nat := ts.foldlM parenStep? depth

theorem parenDepth?_nil (depth : Nat) : parenDepth? depth [] = some depth := rfl

theorem parenDepth?_cons (depth : Nat) (t : Token) (ts : List Token) :
    parenDepth? depth (t :: ts) = (parenStep? depth t).bind (parenDepth? · ts) := rfl

theorem parenDepth?_append (depth : Nat) (ts us : List Token) :
    parenDepth? depth (ts ++ us) = (parenDepth? depth ts).bind (parenDepth? · us) := by
  rw [parenDepth?, List.foldlM_append]
  rfl

/-- The two scans count like this, and they see no comma outside of parentheses. -/
theorem parenStep?_eq_some {depth after : Nat} {t : Token} (h : parenStep? depth t = some after) :
    parenDepth depth t = after ∧ ¬ (t.kind = .comma ∧ depth = 0) := by
  unfold parenStep? at h
  split at h
  · next hl =>
    rw [← Option.some.inj h]
    simp [parenDepth, hl]
  · next hl =>
    cases depth with
    | zero =>
      simp only at h
      split at h
      · cases h
      · next hn =>
        rw [← Option.some.inj h]
        simp_all [parenDepth]
    | succ depth =>
      rw [← Option.some.inj h]
      by_cases hr : t.kind = .rparen
      · simp [parenDepth, hr]
      · simp [parenDepth, hl, hr]

theorem splitCommas_ne_nil (depth : Int) (ts : List Token) : splitCommas depth ts ≠ [] := by
  cases ts with
  | nil => simp [splitCommas]
  | cons t ts =>
    unfold splitCommas
    split
    · simp
    · split <;> simp

/-- Tokens without a comma outside of parentheses belong to the first part. -/
theorem splitCommas_append {depth after : Nat} {ts rest : List Token} {part : List Token}
    {parts : List (List Token)} (h : parenDepth? depth ts = some after)
    (hrest : splitCommas after rest = part :: parts) :
    splitCommas depth (ts ++ rest) = (ts ++ part) :: parts := by
  induction ts generalizing depth with
  | nil =>
    rw [parenDepth?_nil] at h
    rw [Option.some.inj h]
    exact hrest
  | cons t ts ih =>
    rw [parenDepth?_cons] at h
    obtain ⟨depth', hstep, hts⟩ := Option.bind_eq_some_iff.mp h
    obtain ⟨hd, hc⟩ := parenStep?_eq_some hstep
    rw [List.cons_append, splitCommas, hd, ih hts]
    simp only [Bool.and_eq_true, decide_eq_true_eq, Int.natCast_eq_zero]
    rw [if_neg hc]
    rfl

/-- A comma outside of parentheses ends a part. -/
theorem splitCommas_comma {c : Token} (hc : c.kind = .comma) (rest : List Token) :
    splitCommas 0 (c :: rest) = [] :: splitCommas 0 rest := by
  have hd : parenDepth 0 c = 0 := by simp [parenDepth, hc]
  rw [splitCommas, hd]
  split
  · next h => exact absurd h (splitCommas_ne_nil 0 rest)
  · next part parts h => simp [hc, h]

/-- The first part is all there is, or stands before a comma and the other parts. -/
theorem splitCommas_sound {depth : Int} {ts part : List Token} {parts : List (List Token)}
    (h : splitCommas depth ts = part :: parts) :
    (parts = [] ∧ ts = part) ∨
      ∃ c rest depth', c.kind = .comma ∧ ts = part ++ c :: rest ∧
        splitCommas depth' rest = parts := by
  induction ts generalizing depth part with
  | nil =>
    simp only [splitCommas, List.cons.injEq] at h
    exact Or.inl ⟨h.2.symm, h.1⟩
  | cons t ts ih =>
    rw [splitCommas] at h
    split at h
    · next hn => exact absurd hn (splitCommas_ne_nil _ ts)
    · next part' parts' hrest =>
      split at h
      · next hc =>
        simp only [Bool.and_eq_true, decide_eq_true_eq] at hc
        obtain ⟨rfl, rfl⟩ := List.cons.inj h
        exact Or.inr ⟨t, ts, _, hc.1, rfl, hrest⟩
      · obtain ⟨rfl, rfl⟩ := List.cons.inj h
        rcases ih hrest with ⟨hp, rfl⟩ | ⟨c, rest, depth', hc, rfl, hr⟩
        · exact Or.inl ⟨hp, rfl⟩
        · exact Or.inr ⟨c, rest, depth', hc, rfl, hr⟩

/-- Does the header of a counting loop end before this token, outside of parentheses? -/
def EndsHeader (t : Token) : Prop := t.isKeyword .executa ∨ t.kind = .lbrace

theorem splitHeader_sound {depth : Int} {ts header after : List Token}
    (h : splitHeader depth ts = (header, after)) : ts = header ++ after := by
  induction ts generalizing depth header with
  | nil =>
    obtain ⟨rfl, rfl⟩ := Prod.mk.inj h
    rfl
  | cons t ts ih =>
    simp only [splitHeader] at h
    split at h
    · obtain ⟨rfl, rfl⟩ := Prod.mk.inj h
      rfl
    · obtain ⟨rfl, rfl⟩ := Prod.mk.inj h
      rw [List.cons_append, ← ih rfl]

/-- The header ends at its first chance. -/
theorem splitHeader_end {t : Token} (ht : EndsHeader t) (rest : List Token) :
    splitHeader 0 (t :: rest) = ([], t :: rest) := by
  have hd : parenDepth 0 t = 0 := by
    rcases ht with hk | hl
    · simp only [Token.isKeyword, Bool.and_eq_true, beq_iff_eq] at hk
      simp [parenDepth, hk.1]
    · simp [parenDepth, hl]
  have hstop : (t.isKeyword .executa || t.kind == .lbrace) = true := by
    rcases ht with hk | hl
    · simp [hk]
    · simp [hl]
  simp [splitHeader, hd, hstop]

/-- One token that does not end the header. -/
theorem splitHeader_cons {t : Token} (ht : ¬ EndsHeader t) (depth : Int) (rest : List Token) :
    splitHeader depth (t :: rest) =
      (t :: (splitHeader (parenDepth depth t) rest).1,
        (splitHeader (parenDepth depth t) rest).2) := by
  have hgo : (t.isKeyword .executa || t.kind == .lbrace) = false := by
    simpa [EndsHeader] using ht
  simp [splitHeader, hgo]

/-- Tokens that do not end the header belong to it. -/
theorem splitHeader_append {depth after : Nat} {ts : List Token}
    (h : parenDepth? depth ts = some after) (hts : ∀ t ∈ ts, ¬ EndsHeader t)
    (rest : List Token) :
    splitHeader depth (ts ++ rest) =
      (ts ++ (splitHeader after rest).1, (splitHeader after rest).2) := by
  induction ts generalizing depth with
  | nil =>
    rw [parenDepth?_nil] at h
    rw [Option.some.inj h]
    rfl
  | cons t ts ih =>
    rw [parenDepth?_cons] at h
    obtain ⟨depth', hstep, hd⟩ := Option.bind_eq_some_iff.mp h
    rw [List.cons_append, splitHeader_cons (hts t (by simp)), (parenStep?_eq_some hstep).1,
      ih hd fun u hu => hts u (List.mem_cons_of_mem t hu)]
    rfl

/-! ## Cuts -/

/-- A way to cut tokens in lines: the end of a line stands after a line or by itself, and a line
that it does not end is the last one or has a closing brace as its last token. -/
inductive Cut : List Token → List Line → Prop where
  /-- Nothing is left. -/
  | nil : Cut [] []
  /-- An empty line. -/
  | skip {t : Token} {ts : List Token} {ls : List Line} (ht : t.kind = .lineEnd) (h : Cut ts ls) :
      Cut (t :: ts) ls
  /-- A line up to its end. -/
  | ended {t : Token} {l : Line} {ts : List Token} {ls : List Line} (ht : t.kind = .lineEnd)
      (h : Cut ts ls) : Cut (l.tokens ++ t :: ts) (l :: ls)
  /-- The last line. -/
  | last {l : Line} : Cut l.tokens [l]
  /-- A line up to a closing brace. -/
  | closed {r : Token} {l : Line} {us ts : List Token} {ls : List Line} (hl : l.tokens = us ++ [r])
      (hr : r.kind = .rbrace) (h : Cut ts ls) : Cut (l.tokens ++ ts) (l :: ls)

theorem cut_ofTokens (ts : List Token) : Cut ts (Line.ofTokens ts) := by
  cases ts with
  | nil => exact .nil
  | cons t ts => exact .last (l := ⟨t, ts⟩)

theorem Cut.ofTokens_append {t : Token} {us ts : List Token} {ls : List Line} (h : Cut ts ls)
    (ht : t.kind = .lineEnd) : Cut (us ++ t :: ts) (Line.ofTokens us ++ ls) := by
  cases us with
  | nil => exact .skip ht h
  | cons u us => exact .ended (l := ⟨u, us⟩) ht h

theorem Cut.closed_append {r : Token} {us ts : List Token} {ls : List Line} (h : Cut ts ls)
    (hr : r.kind = .rbrace) : Cut (us ++ [r] ++ ts) (Line.ofTokens (us ++ [r]) ++ ls) := by
  cases us with
  | nil => exact @Cut.closed r ⟨r, []⟩ [] ts ls rfl hr h
  | cons u us => exact @Cut.closed r ⟨u, us ++ [r]⟩ (u :: us) ts ls rfl hr h

/-- The loop cuts the open line and the tokens after it. -/
theorem cut_linesAfter (seen : List Token) (depth : Nat) (rest : List Token) :
    Cut (seen ++ rest) (linesAfter seen depth rest) := by
  induction rest generalizing seen depth with
  | nil =>
    rw [linesAfter_nil, List.append_nil]
    exact cut_ofTokens seen
  | cons t rest ih =>
    have hkeep : ∀ depth', Cut (seen ++ t :: rest) (linesAfter (seen ++ [t]) depth' rest) := by
      intro depth'
      have := ih (seen ++ [t]) depth'
      simpa using this
    by_cases hl : t.kind = .lbrace
    · rw [linesAfter_lbrace hl]
      exact hkeep _
    by_cases hr : t.kind = .rbrace
    · rcases Nat.lt_or_ge 1 depth with hd | hd
      · obtain ⟨depth, rfl⟩ : ∃ depth', depth = depth' + 2 := ⟨depth - 2, by omega⟩
        rw [linesAfter_rbrace hr]
        exact hkeep _
      · rw [linesAfter_outermost hr seen rest hd]
        split
        · exact hkeep _
        · rw [List.append_cons]
          exact (ih [] 0).closed_append hr
    by_cases he : t.kind = .lineEnd
    · cases depth with
      | zero =>
        rw [linesAfter_lineEnd he]
        exact (ih [] 0).ofTokens_append he
      | succ depth =>
        rw [linesAfter_inside he]
        exact hkeep _
    · rw [linesAfter_plain ⟨hl, hr, he⟩]
      exact hkeep _

theorem cut_splitLines (ts : List Token) : Cut ts (splitLines ts) := cut_linesAfter [] 0 ts

end LineScript
