import LineScript.Proofs.Relocation
import LineScript.Proofs.Scanning

/-!
# Joining sources

A source that ends outside of string literals is joined to another one by a line end: the scanner
then stands between two tokens, on a line that is known from the newlines before. What it reads from
there on differs from a scan of the second source alone in the line numbers only. Every byte keeps
that, whatever is open (`Ahead.feed`).
-/

namespace LineScript

/-- An operator of two bytes ends with one of three. -/
theorem makesOperator_eq_false {b : UInt8} (hequals : b ≠ 0x3d) (hplus : b ≠ 0x2b)
    (hminus : b ≠ 0x2d) (first : UInt8) : makesOperator first b = false := by
  have hdouble : ¬ (first = b ∧ (first = 0x2b ∨ first = 0x2d)) := by
    rintro ⟨rfl, h | h⟩
    · exact hplus h
    · exact hminus h
  simpa [makesOperator, hequals] using hdouble

namespace Scanner

/-! ## Counting lines -/

theorem line_flush (s : Scanner) : s.flush.line = s.line := by
  unfold flush
  split <;> rfl

theorem line_feedBetween {b : UInt8} (hb : b ≠ 0x0a) (s : Scanner) :
    (s.feedBetween b).line = s.line := by
  have hclass : ByteClass.of b ≠ .newline := by
    simp only [ByteClass.of, if_neg hb]
    repeat' split
    all_goals nofun
  unfold feedBetween
  cases hc : ByteClass.of b with
  | newline => exact absurd hc hclass
  | carriageReturn | blank | quote | separator | ordinary => rfl

/-- A newline counts, wherever it stands. -/
theorem line_feed_newline (s : Scanner) : (s.feed 0x0a).line = s.line + 1 := by
  have hends : (s.flush.feedBetween 0x0a).line = s.flush.line + 1 := rfl
  rw [line_flush] at hends
  cases hmode : s.mode with
  | between => simp only [feed, hmode]; rfl
  | word read => simp only [feed, hmode]; exact hends
  | symbol first =>
    simp only [feed, hmode, makesOperator_eq_false (by decide : (0x0a : UInt8) ≠ 0x3d)
      (by decide) (by decide) first]
    exact hends
  | literal start read | escape start read => simp only [feed, hmode]; rfl

/-- Nothing else does. -/
theorem line_feed {b : UInt8} (hb : b ≠ 0x0a) (s : Scanner) : (s.feed b).line = s.line := by
  have hnew : (s.flush.feedBetween b).line = s.line := by
    rw [line_feedBetween hb, line_flush]
  cases hmode : s.mode with
  | between =>
    simp only [feed, hmode]
    exact line_feedBetween hb s
  | word read =>
    simp only [feed, hmode]
    cases ByteClass.of b with
    | ordinary | carriageReturn => rfl
    | newline | blank | quote | separator => exact hnew
  | symbol first =>
    simp only [feed, hmode]
    split
    · rfl
    · exact hnew
  | literal start read =>
    simp only [feed, hmode, extend, if_neg hb]
    repeat' split
    all_goals rfl
  | escape start read => simp only [feed, hmode, if_neg hb]

theorem line_foldl_feed (s : Scanner) (text : Bytes) :
    (text.foldl feed s).line = s.line + text.count 0x0a := by
  induction text generalizing s with
  | nil => rfl
  | cons b text ih =>
    rw [List.foldl_cons, ih]
    by_cases hb : b = 0x0a
    · subst hb
      rw [line_feed_newline, List.count_cons_self]
      omega
    · rw [line_feed hb, List.count_cons_of_ne hb]

end Scanner

/-! ## Scanning further on -/

/-- A mode with the lines that it remembers moved down. -/
def Mode.later (k : Nat) : Mode → Mode
  | .literal start read => .literal (start + k) read
  | .escape start read => .escape (start + k) read
  | mode => mode

/-- The second scanner is where the first one is, but `k` lines further on, after the tokens `before`
and after finished lines with `counts` tokens each. What the two remember of a word that has ended
does not matter. -/
structure Ahead (k : Nat) (before : List Token) (counts : List Nat) (s t : Scanner) : Prop where
  mode : t.mode = s.mode.later k
  line : t.line = s.line + k
  tokens : t.tokens.toList = before ++ s.tokens.toList.map (Token.relocate (· + (k : Int)))
  perLine : t.perLine.toList = counts ++ s.perLine.toList
  count : t.count = s.count
  wordLine : ∀ read, s.mode = .word read → t.wordLine = s.wordLine + k

namespace Ahead

open Scanner

variable {k : Nat} {before : List Token} {counts : List Nat} {s t : Scanner}

/-- A scanner at the start of a line is ahead of one at the start of a source. -/
theorem start {t : Scanner} (hmode : t.mode = .between) (hcount : t.count = 0)
    (hline : t.line = k + 1) : Ahead k t.tokens.toList t.perLine.toList { rest := [] } t := by
  refine ⟨hmode, ?_, ?_, ?_, hcount, nofun⟩
  · rw [hline, Nat.add_comm]
  · simp
  · simp

theorem emit (h : Ahead k before counts s t) (kind : Kind) (lexeme : Bytes) {line line' : Nat}
    (hline : line' = line + k) :
    Ahead k before counts (s.emit kind lexeme line) (t.emit kind lexeme line') := by
  refine ⟨rfl, h.line, ?_, h.perLine, ?_, nofun⟩
  · simp [Scanner.emit, h.tokens, hline, Token.relocate]
  · simp [Scanner.emit, h.count]

theorem flush (h : Ahead k before counts s t) : Ahead k before counts s.flush t.flush := by
  have hmode := h.mode
  unfold Scanner.flush
  cases hs : s.mode with
  | word read =>
    rw [hs] at hmode
    simp only [hmode, Mode.later]
    exact h.emit _ _ (h.wordLine read hs)
  | symbol first =>
    rw [hs] at hmode
    simp only [hmode, Mode.later]
    exact h.emit _ _ h.line
  | between | literal _ _ | escape _ _ =>
    rw [hs] at hmode
    simp only [hmode, Mode.later]
    exact h

theorem endLine (h : Ahead k before counts s t) : Ahead k before counts s.endLine t.endLine := by
  refine ⟨h.mode, ?_, h.tokens, ?_, rfl, h.wordLine⟩
  · simp only [Scanner.endLine, h.line]
    omega
  · simp [Scanner.endLine, h.perLine, h.count]

/-- Where a scanner stands in a line does not matter for what it has read. -/
theorem move (h : Ahead k before counts s t) (mode : Mode)
    (hword : ∀ read, mode = .word read → t.wordLine = s.wordLine + k) :
    Ahead k before counts { s with mode } { t with mode := mode.later k } :=
  ⟨rfl, h.line, h.tokens, h.perLine, h.count, hword⟩

theorem feedBetween (h : Ahead k before counts s t) (b : UInt8) :
    Ahead k before counts (s.feedBetween b) (t.feedBetween b) := by
  unfold Scanner.feedBetween
  cases ByteClass.of b with
  | newline => exact h.endLine
  | carriageReturn | blank => exact h
  | quote => exact ⟨by rw [h.line]; rfl, h.line, h.tokens, h.perLine, by rw [h.count], nofun⟩
  | separator => exact h.move (.symbol b) nofun
  | ordinary => exact ⟨rfl, h.line, h.tokens, h.perLine, h.count, fun _ _ => h.line⟩

theorem extend (h : Ahead k before counts s t) (start : Nat) (read : Bytes) (b : UInt8) :
    Ahead k before counts (s.extend start read b) (t.extend (start + k) read b) := by
  unfold Scanner.extend
  split
  · exact h.endLine.move (.literal start (b :: read)) nofun
  · exact h.move (.literal start (b :: read)) nofun

/-- Every byte takes both scanners along. -/
theorem feed (h : Ahead k before counts s t) (b : UInt8) :
    Ahead k before counts (s.feed b) (t.feed b) := by
  have hmode := h.mode
  unfold Scanner.feed
  cases hs : s.mode with
  | between =>
    rw [hs] at hmode
    simp only [hmode, Mode.later]
    exact h.feedBetween b
  | word read =>
    rw [hs] at hmode
    simp only [hmode, Mode.later]
    cases ByteClass.of b with
    | ordinary => exact h.move (.word (b :: read)) fun _ _ => h.wordLine read hs
    | carriageReturn => exact h
    | newline | blank | quote | separator => exact h.flush.feedBetween b
  | symbol first =>
    rw [hs] at hmode
    simp only [hmode, Mode.later]
    split
    · exact h.emit _ _ h.line
    · exact h.flush.feedBetween b
  | literal start read =>
    rw [hs] at hmode
    simp only [hmode, Mode.later]
    split
    · -- the token of a literal has the line where the literal began, not where it ends
      refine ⟨rfl, h.line, ?_, h.perLine, h.count, nofun⟩
      simp [h.tokens, Token.relocate]
    split
    · exact h.move (.escape start read) nofun
    split
    · exact h
    · exact h.extend start read b
  | escape start read =>
    rw [hs] at hmode
    simp only [hmode, Mode.later]
    split
    · exact h.extend start read b
    · exact h.move (.literal start (unescape b :: read)) nofun

theorem foldl_feed (h : Ahead k before counts s t) (text : Bytes) :
    Ahead k before counts (text.foldl Scanner.feed s) (text.foldl Scanner.feed t) := by
  induction text generalizing s t with
  | nil => exact h
  | cons b text ih => exact ih (h.feed b)

theorem closeLine (h : Ahead k before counts s t) : Ahead k before counts s.closeLine t.closeLine :=
  ⟨h.mode, h.line, h.tokens, by simp [Scanner.closeLine, h.perLine, h.count], h.count, h.wordLine⟩

/-- At the end both scanners have an open literal or none has. -/
theorem finish (h : Ahead k before counts s t) :
    Ahead k before counts s.finish.1 t.finish.1 ∧ t.finish.2 = s.finish.2.map (· + k) := by
  have hmode := h.mode
  unfold Scanner.finish
  cases hs : s.mode with
  | literal start read | escape start read =>
    rw [hs] at hmode
    simp only [hmode, Mode.later, h.line, h.count, Nat.add_right_cancel_iff]
    refine ⟨closeLine ?_, rfl⟩
    exact ⟨rfl, rfl, h.tokens, h.perLine, rfl, nofun⟩
  | between | word _ | symbol _ =>
    rw [hs] at hmode
    simp only [hmode, Mode.later]
    exact ⟨h.flush.closeLine, rfl⟩

end Ahead

/-! ## Whole sources -/

namespace Scanner

/-- The scanner that has read a source. -/
def after (source : Bytes) : Scanner := source.foldl feed { rest := [] }

/-- The source ends outside of string literals: what is open then is a word or an operator. -/
theorem flush_mode_iff (s : Scanner) : s.flush.mode = .between ↔ s.finish.2 = none := by
  cases hmode : s.mode <;> simp [flush, finish, hmode, emit]

/-- Outside of string literals a byte that neither continues a word nor completes an operator begins
something new. -/
theorem startsAt_of_outside {s : Scanner} (hs : s.flush.mode = .between) {b : UInt8}
    (hordinary : ByteClass.of b ≠ .ordinary) (hreturn : ByteClass.of b ≠ .carriageReturn)
    (hoperator : ∀ first, makesOperator first b = false) : s.StartsAt b := by
  unfold StartsAt
  cases hmode : s.mode with
  | between => simp only [feed, flush, hmode]
  | word read => simp only [feed, hmode]
  | symbol first => simp [feed, hmode, hoperator first]
  | literal start read | escape start read => simp [flush, hmode] at hs

/-- Outside of string literals a newline ends the token that is open and the line. -/
theorem feed_newline {s : Scanner} (hs : s.flush.mode = .between) :
    s.feed 0x0a = s.flush.endLine :=
  startsAt_of_outside hs (by decide) (by decide)
    (makesOperator_eq_false (by decide) (by decide) (by decide))

/-- A semicolon before it is a token of its own. -/
theorem foldl_feed_lineEnd {s : Scanner} (hs : s.flush.mode = .between) :
    (bytes ";\n").foldl feed s = (s.flush.emit .lineEnd (bytes ";") s.flush.line).endLine := by
  have hbytes : bytes ";\n" = [0x3b, 0x0a] := by decide
  have hsemicolon : s.feed 0x3b = s.flush.feedBetween 0x3b :=
    startsAt_of_outside hs (by decide) (by decide)
      (makesOperator_eq_false (by decide) (by decide) (by decide))
  rw [hbytes, List.foldl_cons, List.foldl_cons, List.foldl_nil, hsemicolon]
  rfl

end Scanner

open Scanner

theorem tokenize_eq (source : Bytes) :
    tokenize source = ⟨(after source).finish.1.tokens.toList,
      (after source).finish.1.perLine.toList, (after source).finish.2⟩ := rfl

/-- Without an open literal, the tokens are those that were read and the one that is open. -/
theorem tokenize_tokens {source : Bytes} (h : (tokenize source).unterminated = none) :
    (tokenize source).tokens = (after source).flush.tokens.toList := by
  have hout := (flush_mode_iff (after source)).mpr h
  rw [tokenize_eq, finish_of_outside hout]
  rfl

/-- What stands after the end of a line is tokenized as if it stood alone, only further on. -/
theorem tokenize_append {a : Bytes} {k : Nat} (hmode : (after a).mode = .between)
    (hcount : (after a).count = 0) (hline : (after a).line = k + 1) (b : Bytes) :
    tokenize (a ++ b) = ⟨
      (after a).tokens.toList ++ (tokenize b).tokens.map (Token.relocate (· + (k : Int))),
      (after a).perLine.toList ++ (tokenize b).perLine,
      (tokenize b).unterminated.map (· + k)⟩ := by
  have hafter : after (a ++ b) = b.foldl feed (after a) := List.foldl_append
  have hend := ((Ahead.start hmode hcount hline).foldl_feed b).finish
  rw [tokenize_eq, hafter, hend.1.tokens, hend.1.perLine, hend.2, tokenize_eq]
  rfl

/-- A source is joined to another one by a line end. Its tokens stay as they are, those of the other
are moved down by one line more than there are newlines before. -/
theorem tokenize_join {a b : Bytes} (ha : (tokenize a).unterminated = none)
    (hb : (tokenize b).unterminated = none) :
    (tokenize (a ++ bytes ";\n" ++ b)).unterminated = none ∧
      (tokenize (a ++ bytes ";\n" ++ b)).tokens =
        (tokenize a).tokens ++ ⟨.lineEnd, bytes ";", (1 + a.count 0x0a : Nat)⟩ ::
          (tokenize b).tokens.map (Token.relocate (· + ((1 + a.count 0x0a : Nat) : Int))) := by
  have hout := (flush_mode_iff (after a)).mpr ha
  have hline : (after a).flush.line = 1 + a.count 0x0a := by
    rw [line_flush]
    exact line_foldl_feed _ a
  have hjoint : after (a ++ bytes ";\n") =
      ((after a).flush.emit .lineEnd (bytes ";") (after a).flush.line).endLine := by
    rw [after, List.foldl_append]
    exact foldl_feed_lineEnd hout
  have hnext : (after (a ++ bytes ";\n")).line = (1 + a.count 0x0a) + 1 := by
    rw [hjoint, ← hline]
    rfl
  rw [tokenize_append (by rw [hjoint]; rfl) (by rw [hjoint]; rfl) hnext b, hb, hjoint,
    tokenize_tokens ha, ← hline]
  simp [Scanner.endLine, Scanner.emit]

end LineScript
