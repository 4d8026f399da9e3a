import Mathlib.Algebra.GroupWithZero.Nat
import LineScript.Proofs.OpenLiterals
import LineScript.Proofs.SourceLayout
import LineScript.Proofs.SourceLines

/-!
# Counts of tokens by line

A scanner counts the tokens of a line while it reads it. A literal is counted when it begins, before
it is a token, and may end on another line; a word is counted when it ends. So what is counted at
any time are the lines of the tokens and the line where an open literal began (`Scanner.counted`),
and the counts are those of these lines one by one (`tally`).

A literal that is never closed is no token. The scanner takes it back from the count of the last line,
which is right only if it began there: when it goes over the end of a line, the count of the line where
it began is finished already and stays one too high.
-/

namespace LineScript

/-! ## Tallies -/

/-- How often each of the first `n` lines, from one on, occurs among given lines. -/
def tally (lines : List Int) (n : Nat) : List Nat :=
  (List.range' 1 n).map fun i : Nat => lines.count (i : Int)

theorem length_tally (lines : List Int) (n : Nat) : (tally lines n).length = n := by
  simp [tally]

theorem getElem?_tally (lines : List Int) {n i : Nat} (hi : i < n) :
    (tally lines n)[i]? = some (lines.count ((i : Int) + 1)) := by
  have hline : ((1 + i : Nat) : Int) = (i : Int) + 1 := by omega
  simp [tally, hi, hline]

theorem tally_succ (lines : List Int) (n : Nat) :
    tally lines (n + 1) = tally lines n ++ [lines.count ((n : Int) + 1)] := by
  have hline : ((1 + n : Nat) : Int) = (n : Int) + 1 := by omega
  simp [tally, List.range'_concat, hline]

/-- A later line does not show. -/
theorem tally_append_later (lines : List Int) {n : Nat} {l : Int} (hl : n < l) :
    tally (lines ++ [l]) n = tally lines n := by
  refine List.map_congr_left fun i hi => ?_
  have hbound := List.mem_range'_1.mp hi
  have hne : l ≠ (i : Int) := by omega
  rw [List.count_append, List.count_singleton]
  simp [hne]

theorem countP_le_succ (lines : List Int) (n : Nat) :
    (lines.countP fun l => decide (l ≤ ((n + 1 : Nat) : Int))) =
      (lines.countP fun l => decide (l ≤ (n : Int))) + lines.count ((n : Int) + 1) := by
  induction lines with
  | nil => rfl
  | cons l lines ih =>
    rw [List.countP_cons, List.countP_cons, List.count_cons, ih]
    simp only [decide_eq_true_eq, beq_iff_eq]
    by_cases hle : l ≤ (n : Int)
    · rw [if_pos (by omega), if_pos hle, if_neg (by omega)]
      omega
    · by_cases hlast : l = (n : Int) + 1
      · rw [if_pos (by omega), if_neg hle, if_pos hlast]
        omega
      · rw [if_neg (by omega), if_neg hle, if_neg hlast]
        omega

/-- When no line is beyond them, the counts add up to all. -/
theorem sum_tally {lines : List Int} {n : Nat} (h : ∀ l ∈ lines, 1 ≤ l ∧ l ≤ n) :
    (tally lines n).sum = lines.length := by
  have hcount : ∀ n : Nat, (tally lines n).sum = lines.countP fun l => decide (l ≤ (n : Int)) := by
    intro n
    induction n with
    | zero =>
      refine (List.countP_eq_zero.mpr fun l hl => ?_).symm
      have hpos := (h l hl).1
      simp only [decide_eq_true_eq]
      omega
    | succ n ih => rw [tally_succ, List.sum_append, ih, List.sum_singleton, countP_le_succ]
  rw [hcount]
  exact List.countP_eq_length.mpr fun l hl => decide_eq_true (h l hl).2

/-! ## Counting while reading -/

namespace Scanner

/-- The lines that have been counted: those of the tokens, and that of an open literal. -/
def counted (s : Scanner) : List Int :=
  s.tokens.toList.map Token.line ++ s.mode.start?.toList.map Int.ofNat

theorem counted_of_outside {s : Scanner} (hs : s.mode.start? = none) :
    s.counted = s.tokens.toList.map Token.line := by
  simp [counted, hs]

/-- The counts of the finished lines and of the current one are right, and no later line has been
counted. -/
structure Tallied (s : Scanner) : Prop where
  pos : 0 < s.line
  perLine : s.perLine.toList = tally s.counted (s.line - 1)
  count : s.count = s.counted.count (s.line : Int)
  le : ∀ l ∈ s.counted, l ≤ s.line

namespace Tallied

variable {s s' : Scanner}

/-- Nothing is counted. -/
theorem congr (h : s.Tallied) (hcounted : s'.counted = s.counted) (hline : s'.line = s.line)
    (hperLine : s'.perLine = s.perLine) (hcount : s'.count = s.count) : s'.Tallied := by
  refine ⟨?_, ?_, ?_, ?_⟩
  · rw [hline]
    exact h.pos
  · rw [hperLine, hcounted, hline]
    exact h.perLine
  · rw [hcount, hcounted, hline]
    exact h.count
  · rw [hcounted, hline]
    exact h.le

/-- The current line is counted once more. -/
theorem add (h : s.Tallied) (hcounted : s'.counted = s.counted ++ [(s.line : Int)])
    (hline : s'.line = s.line) (hperLine : s'.perLine = s.perLine)
    (hcount : s'.count = s.count + 1) : s'.Tallied := by
  have hpos := h.pos
  refine ⟨?_, ?_, ?_, ?_⟩
  · rw [hline]
    exact hpos
  · rw [hperLine, hcounted, hline, tally_append_later _ (by omega)]
    exact h.perLine
  · rw [hcount, hcounted, hline, List.count_append, List.count_singleton_self, h.count]
  · rw [hcounted, hline]
    intro l hl
    rcases List.mem_append.mp hl with hl | hl
    · exact h.le l hl
    · exact Int.le_of_eq (List.mem_singleton.mp hl)

/-- The current line is finished; on the next one nothing has been counted. -/
theorem endLine (h : s.Tallied) : s.endLine.Tallied := by
  have hpos := h.pos
  have hcounted : s.endLine.counted = s.counted := rfl
  refine ⟨Nat.succ_pos _, ?_, ?_, ?_⟩
  · have hprevious : s.line = (s.line - 1) + 1 := by omega
    have hcast : ((s.line - 1 : Nat) : Int) + 1 = s.line := by omega
    have hpush : s.endLine.perLine.toList = s.perLine.toList ++ [s.count] := Array.toList_push
    rw [hpush, hcounted, h.perLine, h.count, ← hcast, ← tally_succ, ← hprevious]
    rfl
  · rw [hcounted]
    refine (List.count_eq_zero.mpr fun hmem => ?_).symm
    have hle := h.le _ hmem
    have hline : s.endLine.line = s.line + 1 := rfl
    omega
  · rw [hcounted]
    intro l hl
    have hle := h.le l hl
    have hline : s.endLine.line = s.line + 1 := rfl
    omega

/-- A token that is no literal is counted when it ends. -/
theorem emit (h : s.Tallied) (hs : s.mode.start? = none) (kind : Kind) (lexeme : Bytes) :
    (s.emit kind lexeme s.line).Tallied := by
  have hemitted : (s.emit kind lexeme s.line).counted =
      (s.emit kind lexeme s.line).tokens.toList.map Token.line := counted_of_outside rfl
  refine h.add ?_ rfl rfl rfl
  rw [hemitted, counted_of_outside hs]
  simp [Scanner.emit]

theorem flush (h : s.Tallied) (hword : s.OnOneLine) : s.flush.Tallied := by
  unfold Scanner.flush
  cases hmode : s.mode with
  | word read =>
    simp only [hword read hmode]
    exact h.emit (by rw [hmode]; rfl) _ _
  | symbol first => exact h.emit (by rw [hmode]; rfl) _ _
  | between | literal start read | escape start read => exact h

end Tallied

/-- Every byte keeps the counts right. -/
theorem Reads.tallied {s s' : Scanner} {b : UInt8} (hreads : s.Reads b s') (h : s.Tallied)
    (hword : s.OnOneLine) : s'.Tallied := by
  have hflush := h.flush hword
  cases hreads with
  | newline hs => exact hflush.endLine
  | skip hs hb => exact hflush
  | quote hs =>
    refine hflush.add ?_ rfl rfl rfl
    rw [counted_of_outside (congrArg Mode.start? hs)]
    rfl
  | separator hs hb | ordinary hs hb =>
    refine hflush.congr ?_ rfl rfl rfl
    rw [counted_of_outside (congrArg Mode.start? hs)]
    exact counted_of_outside rfl
  | operator hs hb => exact h.emit (congrArg Mode.start? hs) _ _
  | inWord hs hb =>
    refine h.congr ?_ rfl rfl rfl
    rw [counted_of_outside (congrArg Mode.start? hs)]
    exact counted_of_outside rfl
  | returnInWord hs | returnInLiteral hs => exact h
  | closing hs =>
    -- the literal was counted when it began
    refine h.congr ?_ rfl rfl rfl
    simp [counted, hs, Mode.start?]
  | backslash hs | inLiteral hs | escaped hs =>
    refine h.congr ?_ rfl rfl rfl
    simp only [counted, hs, Mode.start?]
  | newlineInLiteral hs | escapedNewline hs =>
    refine h.endLine.congr ?_ rfl rfl rfl
    simp only [counted, Scanner.endLine, hs, Mode.start?]

theorem tallied_after (source : Bytes) : (after source).Tallied := by
  refine after_induction (P := fun _ s => s.Tallied) ⟨Nat.one_pos, rfl, rfl, nofun⟩ ?_ source
  intro source b s ih hreads
  exact hreads.tallied ih (onOneLine_after source)

end Scanner

open Scanner

/-! ## Whole sources -/

theorem count_map_line (tokens : List Token) (l : Int) :
    (tokens.map Token.line).count l = tokens.countP fun t => t.line = l := by
  rw [List.count, List.countP_map]
  rfl

/-- The counts of a source without an open literal are those of the lines of its tokens. -/
theorem tokenize_perLine_eq_tally {source : Bytes} (h : (tokenize source).unterminated = none) :
    (tokenize source).perLine =
      tally ((tokenize source).tokens.map Token.line) (source.count 0x0a + 1) := by
  have hout := (flush_mode_iff (after source)).mpr h
  have htallied := ((tallied_after source).flush (onOneLine_after source)).endLine
  have hline : (after source).flush.endLine.line - 1 = source.count 0x0a + 1 := by
    have hflush : (after source).flush.line = 1 + source.count 0x0a := by
      rw [line_flush, line_after]
    show (after source).flush.line + 1 - 1 = _
    omega
  have hcounted : (after source).flush.endLine.counted =
      (after source).flush.tokens.toList.map Token.line :=
    counted_of_outside (congrArg Mode.start? hout)
  rw [tokenize_perLine h, htallied.perLine, hcounted, hline, tokenize_tokens h]

/-- Lines and counts of a source without an open literal: there is a count for each line, it is the
number of the tokens of that line, and the counts add up to all tokens. Each token is on the line
that the newlines before its first byte give, and no token is on a line before that of an earlier
one. -/
theorem tokenize_lines_and_counts {source : Bytes} (h : (tokenize source).unterminated = none) :
    (tokenize source).perLine.length = source.count 0x0a + 1 ∧
      (∀ i < (tokenize source).perLine.length, (tokenize source).perLine[i]? =
        some ((tokenize source).tokens.countP fun t => t.line = (i : Int) + 1)) ∧
      (tokenize source).perLine.sum = (tokenize source).tokens.length ∧
      (∃ spots, Layout source spots ∧ spots.map Prod.snd = (tokenize source).tokens ∧
        ∀ p ∈ spots, p.2.line = (1 + p.1.count 0x0a : Nat)) ∧
      (tokenize source).tokens.Pairwise fun t u => t.line ≤ u.line := by
  obtain ⟨spots, hlayout, htokens, hlines⟩ := tokenize_layout h
  have hperLine := tokenize_perLine_eq_tally h
  have hlength : (tokenize source).perLine.length = source.count 0x0a + 1 := by
    rw [hperLine, length_tally]
  refine ⟨hlength, ?_, ?_, ⟨spots, hlayout, htokens, hlines⟩, ?_⟩
  · intro i hi
    rw [hlength] at hi
    rw [hperLine, getElem?_tally _ hi, count_map_line]
  · have hbounds : ∀ l ∈ (tokenize source).tokens.map Token.line,
        1 ≤ l ∧ l ≤ (source.count 0x0a + 1 : Nat) := by
      intro l hl
      rw [← htokens, List.map_map] at hl
      obtain ⟨p, hp, rfl⟩ := List.mem_map.mp hl
      have hline := hlines p hp
      have hcount := (hlayout.isPrefix p hp).sublist.count_le 0x0a
      simp only [Function.comp_apply]
      omega
    rw [hperLine, sum_tally hbounds, List.length_map]
  · rw [← htokens]
    refine List.pairwise_map.mpr ((hlayout.pairwise.imp_of_mem ?_))
    intro p q hp hq hpre
    have hcount := hpre.sublist.count_le 0x0a
    rw [hlines p hp, hlines q hq]
    omega

/-- A word ends at a newline, a literal has a newline and an escaped one in it and ends in the
middle of a line, and the last line is empty. -/
theorem tokenize_lines_and_counts_literal :
    let source := bytes "a\n1 \"p\nq\\\n\"+b\n"
    (tokenize source).unterminated = none ∧
      (tokenize source).perLine = [1, 2, 0, 2, 0] ∧
      (tokenize source).tokens.map Token.line = [1, 2, 2, 4, 4] ∧
      (tokenize source).perLine.length = source.count 0x0a + 1 ∧
      (∀ i < (tokenize source).perLine.length, (tokenize source).perLine[i]? =
        some ((tokenize source).tokens.countP fun t => t.line = (i : Int) + 1)) ∧
      (tokenize source).perLine.sum = (tokenize source).tokens.length ∧
      (∃ spots, Layout source spots ∧ spots.map Prod.snd = (tokenize source).tokens ∧
        ∀ p ∈ spots, p.2.line = (1 + p.1.count 0x0a : Nat)) ∧
      (tokenize source).tokens.Pairwise fun t u => t.line ≤ u.line := by
  intro source
  have hnone : (tokenize source).unterminated = none := by decide
  exact ⟨hnone, by decide, by decide, tokenize_lines_and_counts hnone⟩

/-! ## Sources with an open literal -/

/-- Each count is the number of the tokens of its line. -/
def Scan.CountsLines (scan : Scan) : Prop :=
  ∀ i < scan.perLine.length,
    scan.perLine[i]? = some (scan.tokens.countP fun t => t.line = (i : Int) + 1)

theorem one_le_line_of_mem_after {source : Bytes} {t : Token}
    (ht : t ∈ (after source).tokens.toList) : 1 ≤ t.line := by
  obtain ⟨done, text, spots, -, hlaid⟩ := laidOut_after source
  rw [← hlaid.tokens] at ht
  obtain ⟨p, hp, rfl⟩ := List.mem_map.mp ht
  have hline := hlaid.lines p hp
  omega

/-- The line of an open literal that is still counted at the end. When it is the last one, the literal
is taken back. -/
def leftOver (start last : Nat) : List Int := if start = last then [] else [(start : Int)]

theorem length_leftOver {start n : Nat} (h : start ≤ n + 1) :
    (leftOver start (n + 1)).length = if start ≤ n then 1 else 0 := by
  unfold leftOver
  by_cases hlast : start = n + 1
  · rw [if_pos hlast, if_neg (by omega)]
    rfl
  · rw [if_neg hlast, if_pos (by omega)]
    rfl

theorem count_leftOver {start n : Nat} (h : start ≤ n + 1) (i : Nat) :
    (leftOver start (n + 1)).count ((i : Int) + 1) =
      if i + 1 = start ∧ start ≤ n then 1 else 0 := by
  unfold leftOver
  by_cases hlast : start = n + 1
  · rw [if_pos hlast, if_neg (by omega)]
    rfl
  · rw [if_neg hlast, List.count_singleton]
    simp only [beq_iff_eq]
    by_cases hhere : i + 1 = start
    · rw [if_pos (by omega), if_pos (by omega)]
    · rw [if_neg (by omega), if_neg (by omega)]

theorem eq_of_mem_leftOver {start last : Nat} {l : Int} (hl : l ∈ leftOver start last) :
    l = start := by
  unfold leftOver at hl
  by_cases hlast : start = last
  · rw [if_pos hlast] at hl
    cases hl
  · rw [if_neg hlast] at hl
    exact List.mem_singleton.mp hl

/-- An open literal is taken back from the counts at the end if it began on the last line, and only
then. -/
theorem finish_perLine_of_open {s : Scanner} {start : Nat} (h : s.Tallied)
    (hs : s.mode.start? = some start) :
    s.finish.1.perLine.toList =
      tally (s.tokens.toList.map Token.line ++ leftOver start s.line) s.line := by
  have hpos := h.pos
  have hcounted : s.counted = s.tokens.toList.map Token.line ++ [(start : Int)] := by
    simp [counted, hs]
  have hfinish : s.finish.1.perLine.toList =
      s.perLine.toList ++ [if s.line = start then s.count - 1 else s.count] := by
    cases hmode : s.mode with
    | between | word _ | symbol _ =>
      rw [hmode] at hs
      cases hs
    | literal start' read | escape start' read =>
      rw [hmode] at hs
      cases hs
      simp [finish, hmode, closeLine]
  have hline : s.line = (s.line - 1) + 1 := by omega
  have hcast : ((s.line - 1 : Nat) : Int) + 1 = s.line := by omega
  rw [hfinish, h.perLine, h.count, hcounted, hline, tally_succ, hcast, ← hline, leftOver]
  by_cases hlast : start = s.line
  · subst hlast
    rw [if_pos rfl, if_pos rfl, List.append_nil, tally_append_later _ (by omega)]
    simp
  · rw [if_neg (Ne.symm hlast), if_neg hlast]

/-- What is counted when a literal is open at the end: the tokens, and the literal too if it began
on an earlier line. -/
theorem tokenize_perLine_of_open {source : Bytes} {start : Nat}
    (h : (tokenize source).unterminated = some start) :
    1 ≤ start ∧ start ≤ source.count 0x0a + 1 ∧
      (∀ t ∈ (tokenize source).tokens, 1 ≤ t.line ∧ t.line ≤ (source.count 0x0a + 1 : Nat)) ∧
      (tokenize source).perLine =
        tally ((tokenize source).tokens.map Token.line ++ leftOver start (source.count 0x0a + 1))
          (source.count 0x0a + 1) := by
  have hopen : Quoting.after source ≠ .outside := by
    intro houtside
    rw [(unterminated_eq_none_iff source).mpr houtside] at h
    cases h
  obtain ⟨pre, hpre⟩ := openSince_after hopen
  obtain ⟨htokens, hstart⟩ := finish_of_open hpre.start
  have hsame : 1 + pre.count 0x0a = start := Option.some.inj (hstart.symm.trans h)
  have hmode : (after source).mode.start? = some start := by rw [hpre.start, hsame]
  have htallied := tallied_after source
  have hline : (after source).line = source.count 0x0a + 1 := by
    rw [line_after, Nat.add_comm]
  have hcounted : (after source).counted =
      (after source).tokens.toList.map Token.line ++ [(start : Int)] := by
    simp [counted, hmode]
  have hle : ∀ l ∈ (after source).counted, l ≤ (source.count 0x0a + 1 : Nat) := by
    intro l hl
    rw [← hline]
    exact htallied.le l hl
  rw [hcounted] at hle
  have hread : (tokenize source).tokens = (after source).tokens.toList := by
    rw [tokenize_eq, htokens]
  refine ⟨by omega, ?_, ?_, ?_⟩
  · have hlast := hle start (by simp)
    omega
  · intro t ht
    rw [hread] at ht
    exact ⟨one_le_line_of_mem_after ht,
      hle t.line (List.mem_append_left _ (List.mem_map_of_mem ht))⟩
  · rw [hread, ← hline]
    exact finish_perLine_of_open htallied hmode

/-- Lines and counts of a source with an open literal: there is a count for each line. It is the
number of the tokens of that line, and one more on the line where the literal began if there is a
newline after that. So the counts are right if and only if the literal began on the last line. -/
theorem tokenize_unterminated_counts {source : Bytes} {start : Nat}
    (h : (tokenize source).unterminated = some start) :
    (tokenize source).perLine.length = source.count 0x0a + 1 ∧
      (∀ i < (tokenize source).perLine.length, (tokenize source).perLine[i]? =
        some ((tokenize source).tokens.countP (fun t => t.line = (i : Int) + 1) +
          if i + 1 = start ∧ start ≤ source.count 0x0a then 1 else 0)) ∧
      (tokenize source).perLine.sum =
        (tokenize source).tokens.length + (if start ≤ source.count 0x0a then 1 else 0) ∧
      ((tokenize source).CountsLines ↔ start = source.count 0x0a + 1) := by
  obtain ⟨hpos, hle, hlines, hperLine⟩ := tokenize_perLine_of_open h
  have hlength : (tokenize source).perLine.length = source.count 0x0a + 1 := by
    rw [hperLine, length_tally]
  have hentries : ∀ i < (tokenize source).perLine.length, (tokenize source).perLine[i]? =
        some ((tokenize source).tokens.countP (fun t => t.line = (i : Int) + 1) +
          if i + 1 = start ∧ start ≤ source.count 0x0a then 1 else 0) := by
    intro i hi
    rw [hlength] at hi
    rw [hperLine, getElem?_tally _ hi, List.count_append, count_map_line, count_leftOver hle]
  refine ⟨hlength, hentries, ?_, ?_, ?_⟩
  · have hbounds : ∀ l ∈ (tokenize source).tokens.map Token.line ++
        leftOver start (source.count 0x0a + 1), 1 ≤ l ∧ l ≤ (source.count 0x0a + 1 : Nat) := by
      intro l hl
      rcases List.mem_append.mp hl with hl | hl
      · obtain ⟨t, ht, rfl⟩ := List.mem_map.mp hl
        exact hlines t ht
      · have hstart := eq_of_mem_leftOver hl
        omega
    rw [hperLine, sum_tally hbounds, List.length_append, List.length_map, length_leftOver hle]
  · -- on the line of the literal the count is one too many
    intro hcounts
    refine Decidable.byContradiction fun hlast => ?_
    have hi : start - 1 < (tokenize source).perLine.length := by omega
    have hone := hentries _ hi
    rw [hcounts _ hi, if_pos (by omega)] at hone
    have heq := Option.some.inj hone
    omega
  · intro hlast i hi
    rw [hentries i hi, if_neg (by omega), Nat.add_zero]

/-- The literal that is never closed begins after an operator and goes over an escaped newline. -/
theorem tokenize_unterminated_counts_escaped :
    let source := bytes "x\ny = \"a\\\nb"
    (tokenize source).unterminated = some 2 ∧
      (tokenize source).perLine = [1, 3, 0] ∧
      (tokenize source).perLine.length = source.count 0x0a + 1 ∧
      (∀ i < (tokenize source).perLine.length, (tokenize source).perLine[i]? =
        some ((tokenize source).tokens.countP (fun t => t.line = (i : Int) + 1) +
          if i + 1 = 2 ∧ 2 ≤ source.count 0x0a then 1 else 0)) ∧
      (tokenize source).perLine.sum =
        (tokenize source).tokens.length + (if 2 ≤ source.count 0x0a then 1 else 0) ∧
      ((tokenize source).CountsLines ↔ 2 = source.count 0x0a + 1) := by
  intro source
  have hopen : (tokenize source).unterminated = some 2 := by decide
  exact ⟨hopen, by decide, tokenize_unterminated_counts hopen⟩

/-- A literal that goes over the end of a line is counted on a line that has no token. -/
theorem tokenize_counts_unfinished :
    let source := bytes "\"\n"
    tokenize source = ⟨[], [1, 0], some 1⟩ ∧ ¬ (tokenize source).CountsLines := by
  intro source
  refine ⟨by decide, fun h => ?_⟩
  exact absurd (h 0 (by decide)) (by decide)

end LineScript
