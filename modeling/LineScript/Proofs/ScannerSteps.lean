import LineScript.Proofs.SourceJoining

/-!
# Steps of the scanner

What one byte can do to a scanner, said once (`Scanner.Reads`): each case names where the scanner
stood, which byte it was and what became of it. A property of all sources is then shown case by case
for one more byte (`Scanner.after_induction`), and no proof has to take the scanner itself apart.
-/

namespace LineScript

/-- Three classes have one byte each. -/
theorem ByteClass.of_eq_single (b : UInt8) :
    (of b = .newline → b = 0x0a) ∧ (of b = .carriageReturn → b = 0x0d) ∧
      (of b = .quote → b = 0x22) := by
  unfold of
  split
  · next hb => exact ⟨fun _ => hb, nofun, nofun⟩
  split
  · next hb => exact ⟨nofun, fun _ => hb, nofun⟩
  split
  · exact ⟨nofun, nofun, nofun⟩
  split
  · next hb => exact ⟨nofun, nofun, fun _ => hb⟩
  split
  · exact ⟨nofun, nofun, nofun⟩
  · exact ⟨nofun, nofun, nofun⟩

namespace Scanner

/-! ## One byte -/

/-- The scanner reads a byte and becomes another one. Outside of string literals, what is open is
flushed before something new begins. -/
inductive Reads (s : Scanner) : UInt8 → Scanner → Prop
  | newline (hs : s.flush.mode = .between) : Reads s 0x0a s.flush.endLine
  | skip {b : UInt8} (hs : s.flush.mode = .between)
      (hb : ByteClass.of b = .blank ∨ ByteClass.of b = .carriageReturn) : Reads s b s.flush
  | quote (hs : s.flush.mode = .between) :
      Reads s 0x22 { s.flush with mode := .literal s.flush.line [], count := s.flush.count + 1 }
  | separator {b : UInt8} (hs : s.flush.mode = .between) (hb : ByteClass.of b = .separator) :
      Reads s b { s.flush with mode := .symbol b }
  | ordinary {b : UInt8} (hs : s.flush.mode = .between) (hb : ByteClass.of b = .ordinary) :
      Reads s b { s.flush with mode := .word [b], wordLine := s.flush.line }
  | operator {first b : UInt8} (hs : s.mode = .symbol first) (hb : makesOperator first b = true) :
      Reads s b (s.emit .operator [first, b] s.line)
  | inWord {read : Bytes} {b : UInt8} (hs : s.mode = .word read)
      (hb : ByteClass.of b = .ordinary) : Reads s b { s with mode := .word (b :: read) }
  | returnInWord {read : Bytes} (hs : s.mode = .word read) : Reads s 0x0d s
  | closing {start : Nat} {read : Bytes} (hs : s.mode = .literal start read) :
      Reads s 0x22
        { s with tokens := s.tokens.push ⟨.string, read.reverse, start⟩, mode := .between }
  | backslash {start : Nat} {read : Bytes} (hs : s.mode = .literal start read) :
      Reads s 0x5c { s with mode := .escape start read }
  | returnInLiteral {start : Nat} {read : Bytes} (hs : s.mode = .literal start read) :
      Reads s 0x0d s
  | newlineInLiteral {start : Nat} {read : Bytes} (hs : s.mode = .literal start read) :
      Reads s 0x0a { s.endLine with mode := .literal start (0x0a :: read) }
  | inLiteral {start : Nat} {read : Bytes} {b : UInt8} (hs : s.mode = .literal start read)
      (hquote : b ≠ 0x22) (hslash : b ≠ 0x5c) (hreturn : b ≠ 0x0d) (hnewline : b ≠ 0x0a) :
      Reads s b { s with mode := .literal start (b :: read) }
  | escapedNewline {start : Nat} {read : Bytes} (hs : s.mode = .escape start read) :
      Reads s 0x0a { s.endLine with mode := .literal start (0x0a :: read) }
  | escaped {start : Nat} {read : Bytes} {b : UInt8} (hs : s.mode = .escape start read)
      (hb : b ≠ 0x0a) : Reads s b { s with mode := .literal start (unescape b :: read) }

/-- A byte that begins something new. -/
theorem reads_feedBetween {s : Scanner} (hs : s.flush.mode = .between) (b : UInt8) :
    s.Reads b (s.flush.feedBetween b) := by
  obtain ⟨hnewline, -, hquote⟩ := ByteClass.of_eq_single b
  unfold feedBetween
  cases hb : ByteClass.of b with
  | newline =>
    cases hnewline hb
    exact .newline hs
  | carriageReturn => exact .skip hs (.inr hb)
  | blank => exact .skip hs (.inl hb)
  | quote =>
    cases hquote hb
    exact .quote hs
  | separator => exact .separator hs hb
  | ordinary => exact .ordinary hs hb

/-- These are all the cases. -/
theorem reads_feed (s : Scanner) (b : UInt8) : s.Reads b (s.feed b) := by
  cases hmode : s.mode with
  | between =>
    have hflush : s.flush = s := flush_of_between hmode
    have hnew := reads_feedBetween (hflush.symm ▸ hmode) b
    rw [hflush] at hnew
    simpa only [feed, hmode] using hnew
  | word read =>
    have hout : s.flush.mode = .between := by simp [flush, hmode, emit]
    simp only [feed, hmode]
    cases hb : ByteClass.of b with
    | ordinary => exact .inWord hmode hb
    | carriageReturn =>
      cases (ByteClass.of_eq_single b).2.1 hb
      exact .returnInWord hmode
    | newline | blank | quote | separator => exact reads_feedBetween hout b
  | symbol first =>
    have hout : s.flush.mode = .between := by simp [flush, hmode, emit]
    simp only [feed, hmode]
    by_cases hb : makesOperator first b = true
    · rw [if_pos hb]
      exact .operator hmode hb
    · rw [if_neg hb]
      exact reads_feedBetween hout b
  | literal start read =>
    simp only [feed, hmode, extend]
    by_cases hquote : b = 0x22
    · subst hquote
      exact .closing hmode
    by_cases hslash : b = 0x5c
    · subst hslash
      exact .backslash hmode
    by_cases hreturn : b = 0x0d
    · subst hreturn
      exact .returnInLiteral hmode
    by_cases hnewline : b = 0x0a
    · subst hnewline
      exact .newlineInLiteral hmode
    · simp only [if_neg hquote, if_neg hslash, if_neg hreturn, if_neg hnewline]
      exact .inLiteral hmode hquote hslash hreturn hnewline
  | escape start read =>
    simp only [feed, hmode, extend]
    by_cases hnewline : b = 0x0a
    · subst hnewline
      exact .escapedNewline hmode
    · simp only [if_neg hnewline]
      exact .escaped hmode hnewline

/-! ## Sources -/

/-- What holds at the start and is kept by every further byte holds after every source. -/
theorem after_induction {P : Bytes → Scanner → Prop} (start : P [] (after []))
    (step : ∀ source b s, P source (after source) → (after source).Reads b s →
      P (source ++ [b]) s) (source : Bytes) : P source (after source) := by
  have hmore : ∀ text source, P source (after source) →
      P (source ++ text) (after (source ++ text)) := by
    intro text
    induction text with
    | nil =>
      intro source h
      simpa using h
    | cons b text ih =>
      intro source h
      have hnext : after (source ++ [b]) = (after source).feed b := List.foldl_append
      have hone : P (source ++ [b]) (after (source ++ [b])) := by
        rw [hnext]
        exact step source b _ h (reads_feed _ b)
      simpa using ih (source ++ [b]) hone
  exact hmore source [] start

theorem line_after (source : Bytes) : (after source).line = 1 + source.count 0x0a :=
  line_foldl_feed _ source

/-- A word that is open began on the current line. -/
def OnOneLine (s : Scanner) : Prop := ∀ read, s.mode = .word read → s.wordLine = s.line

theorem Reads.onOneLine {s s' : Scanner} {b : UInt8} (h : s.Reads b s') (hs : s.OnOneLine) :
    s'.OnOneLine := by
  intro read hmode
  cases h with
  | newline hout | skip hout =>
    have hbetween : Mode.between = .word read := hout.symm.trans hmode
    cases hbetween
  | ordinary => rfl
  | inWord hword => exact hs _ hword
  | returnInWord => exact hs read hmode
  | returnInLiteral hliteral =>
    rw [hliteral] at hmode
    cases hmode
  | quote | separator | operator | closing | backslash | newlineInLiteral | inLiteral
  | escapedNewline | escaped => cases hmode

theorem onOneLine_after (source : Bytes) : (after source).OnOneLine :=
  after_induction (P := fun _ s => s.OnOneLine) nofun (fun _ _ _ h hreads => hreads.onOneLine h)
    source

end Scanner

end LineScript
