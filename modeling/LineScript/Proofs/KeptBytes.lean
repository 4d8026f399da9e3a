import LineScript.Proofs.OpenLiterals
import LineScript.Proofs.SourceLayout

/-!
# What a scanner keeps of a source

A byte of a source is dropped, or it is kept in the lexeme of a token, as itself or as the byte that
it stands for after a backslash. Which of these it is depends only on where the byte stands with
respect to string literals (`Quoting.keeps`). What a scanner holds, in its finished tokens and in the
open one, is what it has kept so far, in the order in which it was read (`Scanner.held_after`). So the
lexemes of a source, one after the other, are known without a scanner.
-/

namespace LineScript

/-! ## Kept bytes -/

namespace Quoting

/-- What a byte adds to the lexemes. -/
def keeps : Quoting → UInt8 → Bytes
  | outside, b => if b ∈ gaps ∨ b = 0x22 then [] else [b]
  | inside, b => if b = 0x22 ∨ b = 0x5c ∨ b = 0x0d then [] else [b]
  | escaped, b => [Scanner.unescape b]

/-- What the bytes of a text add, one after the other. -/
def keptFrom : Quoting → Bytes → Bytes
  | _, [] => []
  | q, b :: text => q.keeps b ++ keptFrom (q.next b) text

theorem keptFrom_append (q : Quoting) (text more : Bytes) :
    q.keptFrom (text ++ more) = q.keptFrom text ++ (text.foldl next q).keptFrom more := by
  induction text generalizing q with
  | nil => rfl
  | cons b text ih =>
    rw [List.cons_append, keptFrom, keptFrom, ih, List.append_assoc]
    rfl

end Quoting

/-- What the bytes of a source add to the lexemes. -/
def kept (source : Bytes) : Bytes := Quoting.outside.keptFrom source

theorem kept_append_singleton (source : Bytes) (b : UInt8) :
    kept (source ++ [b]) = kept source ++ (Quoting.after source).keeps b := by
  rw [kept, Quoting.keptFrom_append, Quoting.keptFrom, Quoting.keptFrom, List.append_nil]
  rfl

theorem keeps_outside {b : UInt8} (hgap : b ∉ gaps) (hquote : b ≠ 0x22) :
    Quoting.outside.keeps b = [b] := if_neg (not_or.mpr ⟨hgap, hquote⟩)

theorem keeps_gap {b : UInt8} (hgap : b ∈ gaps) : Quoting.outside.keeps b = [] :=
  if_pos (.inl hgap)

/-- Without quotes only what stands between tokens is dropped. -/
theorem kept_of_no_quote {source : Bytes} (h : 0x22 ∉ source) :
    Quoting.after source = .outside ∧ kept source = source.filter (· ∉ gaps) := by
  induction source with
  | nil => exact ⟨rfl, rfl⟩
  | cons b source ih =>
    obtain ⟨hb, hsource⟩ := List.ne_and_not_mem_of_not_mem_cons h
    obtain ⟨hafter, hkept⟩ := ih hsource
    have hnext : Quoting.outside.next b = .outside := if_neg hb.symm
    refine ⟨?_, ?_⟩
    · rw [Quoting.after, List.foldl_cons, hnext]
      exact hafter
    · rw [kept, Quoting.keptFrom, hnext]
      by_cases hgap : b ∈ gaps
      · rw [keeps_gap hgap, List.filter_cons_of_neg (by simpa using hgap)]
        exact hkept
      · rw [keeps_outside hgap hb.symm, List.filter_cons_of_pos (by simpa using hgap)]
        exact congrArg (b :: ·) hkept

theorem not_mem_gaps {b : UInt8}
    (hb : ByteClass.of b = .separator ∨ ByteClass.of b = .ordinary) : b ∉ gaps := by
  have hall : gaps.all fun b => ByteClass.of b ≠ .separator ∧ ByteClass.of b ≠ .ordinary := by
    decide
  intro hgap
  have hclass := of_decide_eq_true (List.all_eq_true.mp hall b hgap)
  rcases hb with hb | hb
  · exact hclass.1 hb
  · exact hclass.2 hb

/-! ## What a scanner holds -/

/-- The bytes of the open token that have been kept. -/
def Mode.held : Mode → Bytes
  | .between => []
  | .word read | .literal _ read | .escape _ read => read.reverse
  | .symbol first => [first]

namespace Scanner

variable {s s' : Scanner} {b : UInt8}

/-- The bytes of the finished tokens and of the open one. -/
def held (s : Scanner) : Bytes := s.tokens.toList.flatMap Token.lexeme ++ s.mode.held

theorem held_of_between (hs : s.mode = .between) :
    s.held = s.tokens.toList.flatMap Token.lexeme := by
  rw [held, hs, Mode.held, List.append_nil]

/-- Ending the open token keeps its bytes. -/
theorem held_flush (s : Scanner) : s.flush.held = s.held := by
  cases hmode : s.mode with
  | word read | symbol first => simp [flush, held, emit, hmode, Mode.held]
  | between | literal start read | escape start read => simp only [flush, hmode]

/-- A byte outside of literals ends the open token, and a new one holds what it begins with. -/
theorem held_begin (hs : s.flush.mode = .between) (htokens : s'.tokens = s.flush.tokens)
    (hheld : s'.mode.held = Quoting.outside.keeps b) :
    s'.held = s.held ++ s.mode.quoting.keeps b := by
  rw [held, htokens, ← held_of_between hs, held_flush, hheld, quoting_of_outside hs]

/-- Each byte adds what the automaton says. -/
theorem Reads.held (h : s.Reads b s') : s'.held = s.held ++ s.mode.quoting.keeps b := by
  cases h with
  | newline hs =>
    exact held_begin hs rfl (congrArg Mode.held hs)
  | skip hs hb =>
    have hgap : b ∈ gaps := by
      rcases hb with hb | hb
      · exact mem_gaps_of_blank hb
      · rw [(ByteClass.of_eq_single b).2.1 hb]
        decide
    exact held_begin hs rfl ((congrArg Mode.held hs).trans (keeps_gap hgap).symm)
  | quote hs =>
    exact held_begin hs rfl rfl
  | separator hs hb =>
    have hkeeps := keeps_outside (not_mem_gaps (.inl hb)) (ne_quote_of_class hb (by decide))
    exact held_begin hs rfl hkeeps.symm
  | ordinary hs hb =>
    have hkeeps := keeps_outside (not_mem_gaps (.inr hb)) (ne_quote_of_class hb (by decide))
    exact held_begin hs rfl hkeeps.symm
  | @operator first b hs hb =>
    have hsecond : b = 0x3d ∨ b = 0x2b ∨ b = 0x2d := by
      refine Decidable.byContradiction fun hne => ?_
      obtain ⟨hequals, hplus, hminus⟩ : b ≠ 0x3d ∧ b ≠ 0x2b ∧ b ≠ 0x2d := by
        simpa only [not_or] using hne
      rw [makesOperator_eq_false hequals hplus hminus] at hb
      cases hb
    have hkeeps : Quoting.outside.keeps b = [b] := by
      rcases hsecond with rfl | rfl | rfl <;> rfl
    simp [Scanner.held, emit, hs, Mode.held, Mode.quoting, hkeeps]
  | inWord hs hb =>
    have hkeeps := keeps_outside (not_mem_gaps (.inr hb)) (ne_quote_of_class hb (by decide))
    simp [Scanner.held, hs, Mode.held, Mode.quoting, hkeeps]
  | returnInWord hs | returnInLiteral hs | backslash hs =>
    simp [Scanner.held, hs, Mode.held, Mode.quoting, Quoting.keeps, gaps]
  | closing hs => simp [Scanner.held, hs, Mode.held, Mode.quoting, Quoting.keeps]
  | newlineInLiteral hs | escapedNewline hs =>
    simp [Scanner.held, hs, endLine, Mode.held, Mode.quoting, Quoting.keeps, unescape]
  | inLiteral hs hquote hslash hreturn =>
    simp [Scanner.held, hs, Mode.held, Mode.quoting, Quoting.keeps, hquote, hslash, hreturn]
  | escaped hs => simp [Scanner.held, hs, Mode.held, Mode.quoting, Quoting.keeps]

theorem held_after (source : Bytes) : (after source).held = kept source := by
  refine after_induction (P := fun source s => s.held = kept source) rfl ?_ source
  intro source b s ih hreads
  rw [hreads.held, ih, quoting_after, kept_append_singleton]

end Scanner

open Scanner

/-! ## Whole sources -/

/-- The lexemes of a source without an open literal are all that is kept of it. -/
theorem flatMap_lexeme_tokenize {source : Bytes} (h : (tokenize source).unterminated = none) :
    (tokenize source).tokens.flatMap Token.lexeme = kept source := by
  have hout := (flush_mode_iff (after source)).mpr h
  rw [tokenize_tokens h, ← held_of_between hout, held_flush, held_after]

/-- Those of a source with an open literal are all that is kept of what stands before it. -/
theorem flatMap_lexeme_of_open {source pre : Bytes} (hopen : Quoting.after source ≠ .outside)
    (hpre : LastOpening source pre) :
    (tokenize source).tokens.flatMap Token.lexeme = kept pre := by
  obtain ⟨pre', hsince⟩ := openSince_after hopen
  rw [hpre.unique hsince.last]
  obtain ⟨hnone, htokens⟩ := hsince.tokenize_eq
  rw [htokens, flatMap_lexeme_tokenize hnone]

/-- A source without quotes is tokenized, and its lexemes are the source without the bytes that stand
between tokens: nothing else is lost, added or moved. -/
theorem tokenize_keeps_bytes {source : Bytes} (h : 0x22 ∉ source) :
    (tokenize source).unterminated = none ∧
      (tokenize source).tokens.flatMap Token.lexeme = source.filter (· ∉ gaps) := by
  obtain ⟨hafter, hkept⟩ := kept_of_no_quote h
  have hnone := (unterminated_eq_none_iff source).mpr hafter
  exact ⟨hnone, by rw [flatMap_lexeme_tokenize hnone, hkept]⟩

/-- A zero byte and one that no character begins with, a carriage return in a word, one between two
bytes of an operator, and an operator at the end. -/
theorem tokenize_keeps_bytes_any :
    let source : Bytes := [0x00, 0x0d, 0xff] ++ bytes "x\t+\r=\n\\ 1.5;a+=" ++ [0x0b, 0x0c] ++ bytes "<"
    0x22 ∉ source ∧
      source.filter (· ∉ gaps) = [0x00, 0xff] ++ bytes "x+=\\1.5;a+=<" ∧
      (tokenize source).tokens.map Token.lexeme =
        [[0x00, 0xff, 0x78], bytes "+", bytes "=", bytes "\\", bytes "1.5", bytes ";", bytes "a",
          bytes "+=", bytes "<"] ∧
      (tokenize source).unterminated = none ∧
      (tokenize source).tokens.flatMap Token.lexeme = source.filter (· ∉ gaps) := by
  intro source
  have hquote : 0x22 ∉ source := by decide
  exact ⟨hquote, by decide, by decide, tokenize_keeps_bytes hquote⟩

end LineScript
