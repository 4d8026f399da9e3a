import LineScript.Proofs.ScannerSteps

/-!
# The layout of a source

A source that is tokenized without a fault consists of gaps and of the texts of its tokens, one
after the other. How a token stands in a source is said here without a scanner (`TokenText`), and so
is how tokens are laid out in it (`Layout`), each with all that stands before its first byte. A
token's line is one more than there are newlines before that byte, wherever these newlines stand.

The scanner takes the line of an operator when it ends, and it notes that of a word or a literal when
it begins. While a token is open, what was read is therefore kept in two parts: the layout of the
finished tokens, and the text of the open one (`Pending`).
-/

namespace LineScript

/-! ## Texts of tokens -/

/-- The bytes that stand between tokens: white space and line ends. -/
def gaps : Bytes := [0x20, 0x09, 0x0b, 0x0c, 0x0a, 0x0d]

/-- What stands between the quotes of a string literal, with the text that it stands for. -/
inductive Literal : (body text : Bytes) → Prop
  | empty : Literal [] []
  | byte {body text : Bytes} {b : UInt8} (h : Literal body text) (hquote : b ≠ 0x22)
      (hslash : b ≠ 0x5c) (hreturn : b ≠ 0x0d) : Literal (body ++ [b]) (text ++ [b])
  | carriageReturn {body text : Bytes} (h : Literal body text) : Literal (body ++ [0x0d]) text
  | escape {body text : Bytes} (h : Literal body text) (b : UInt8) :
      Literal (body ++ [0x5c, b]) (text ++ [Scanner.unescape b])

/-- The bytes of a word after its first one: carriage returns among them do not count. -/
def WordRest (rest : Bytes) : Prop := ∀ b ∈ rest, ByteClass.of b = .ordinary ∨ b = 0x0d

/-- The word that is read from its first byte and the bytes after it. -/
def wordOf (first : UInt8) (rest : Bytes) : Bytes := first :: rest.filter (· ≠ 0x0d)

/-- How a token of a kind and a lexeme may stand in a source. -/
inductive TokenText : Kind → (lexeme text : Bytes) → Prop
  | word {first : UInt8} {rest : Bytes} (hfirst : ByteClass.of first = .ordinary)
      (hrest : WordRest rest) :
      TokenText (wordKind (wordOf first rest)) (wordOf first rest) (first :: rest)
  | separator {c : UInt8} (hc : ByteClass.of c = .separator) :
      TokenText (separatorKind c) [c] [c]
  | operator {c d : UInt8} (hc : ByteClass.of c = .separator) (hcd : makesOperator c d = true) :
      TokenText .operator [c, d] [c, d]
  | literal {body text : Bytes} (h : Literal body text) :
      TokenText .string text (0x22 :: body ++ [0x22])

/-- A source laid out as gaps and texts of tokens. Each token is given with what stands before it.
-/
inductive Layout : Bytes → List (Bytes × Token) → Prop
  | empty : Layout [] []
  | gap {source : Bytes} {spots : List (Bytes × Token)} {b : UInt8} (h : Layout source spots)
      (hb : b ∈ gaps) : Layout (source ++ [b]) spots
  | token {source text : Bytes} {spots : List (Bytes × Token)} {t : Token}
      (h : Layout source spots) (ht : TokenText t.kind t.lexeme text) :
      Layout (source ++ text) (spots ++ [(source, t)])

namespace Layout

variable {source : Bytes} {spots : List (Bytes × Token)}

theorem isPrefix (h : Layout source spots) : ∀ p ∈ spots, p.1 <+: source := by
  induction h with
  | empty => exact nofun
  | gap h hb ih =>
    intro p hp
    exact (ih p hp).trans (List.prefix_append _ _)
  | token h ht ih =>
    intro p hp
    rcases List.mem_append.mp hp with hp | hp
    · exact (ih p hp).trans (List.prefix_append _ _)
    · rw [List.mem_singleton.mp hp]
      exact List.prefix_append _ _

theorem tokenText (h : Layout source spots) :
    ∀ p ∈ spots, ∃ text, TokenText p.2.kind p.2.lexeme text := by
  induction h with
  | empty => exact nofun
  | gap h hb ih => exact ih
  | token h ht ih =>
    intro p hp
    rcases List.mem_append.mp hp with hp | hp
    · exact ih p hp
    · rw [List.mem_singleton.mp hp]
      exact ⟨_, ht⟩

/-- A token has all that stands before an earlier one before it as well. -/
theorem pairwise (h : Layout source spots) : spots.Pairwise fun p q => p.1 <+: q.1 := by
  induction h with
  | empty => exact .nil
  | gap h hb ih => exact ih
  | token h ht ih =>
    refine List.pairwise_append.mpr ⟨ih, List.pairwise_singleton _ _, ?_⟩
    intro p hp q hq
    rw [List.mem_singleton.mp hq]
    exact h.isPrefix p hp

end Layout

/-! ## Open tokens -/

/-- The text of the token that a scanner has open, with the line that is noted for a literal. -/
inductive Pending (line : Nat) : Mode → Bytes → Prop
  | between : Pending line .between []
  | word {first : UInt8} {rest : Bytes} (hfirst : ByteClass.of first = .ordinary)
      (hrest : WordRest rest) : Pending line (.word (wordOf first rest).reverse) (first :: rest)
  | symbol {c : UInt8} (hc : ByteClass.of c = .separator) : Pending line (.symbol c) [c]
  | literal {body text : Bytes} (h : Literal body text) :
      Pending line (.literal line text.reverse) (0x22 :: body)
  | escape {body text : Bytes} (h : Literal body text) :
      Pending line (.escape line text.reverse) (0x22 :: body ++ [0x5c])

theorem mem_gaps_of_blank {b : UInt8} (hb : ByteClass.of b = .blank) : b ∈ gaps := by
  unfold ByteClass.of at hb
  split at hb
  · cases hb
  split at hb
  · cases hb
  split at hb
  · next hblank =>
    simp only [Bool.or_eq_true, decide_eq_true_eq] at hblank
    rcases hblank with ((rfl | rfl) | rfl) | rfl <;> decide
  split at hb
  · cases hb
  split at hb
  · cases hb
  · cases hb

namespace Pending

variable {line start : Nat} {read text : Bytes} {b c : UInt8}

/-- A word is a token when it ends; there is no newline in it. -/
theorem word_text (h : Pending line (.word read) text) :
    TokenText (wordKind read.reverse) read.reverse text ∧ text.count 0x0a = 0 := by
  cases h with
  | @word first rest hfirst hrest =>
    rw [List.reverse_reverse]
    refine ⟨.word hfirst hrest, List.count_eq_zero.mpr fun hmem => ?_⟩
    rcases List.mem_cons.mp hmem with rfl | hmem
    · exact absurd hfirst (by decide)
    · rcases hrest _ hmem with hb | hb
      · exact absurd hb (by decide)
      · exact absurd hb (by decide)

theorem word_ordinary (h : Pending line (.word read) text) (hb : ByteClass.of b = .ordinary) :
    Pending line (.word (b :: read)) (text ++ [b]) := by
  cases h with
  | @word first rest hfirst hrest =>
    have hne : b ≠ 0x0d := by
      rintro rfl
      exact absurd hb (by decide)
    have hword : wordOf first (rest ++ [b]) = wordOf first rest ++ [b] := by simp [wordOf, hne]
    have hmore : WordRest (rest ++ [b]) :=
      List.forall_mem_append.mpr ⟨hrest, List.forall_mem_singleton.mpr (.inl hb)⟩
    have hnext : Pending line _ (first :: (rest ++ [b])) := .word hfirst hmore
    rwa [hword, List.reverse_append] at hnext

theorem word_return (h : Pending line (.word read) text) :
    Pending line (.word read) (text ++ [0x0d]) := by
  cases h with
  | @word first rest hfirst hrest =>
    have hword : wordOf first (rest ++ [0x0d]) = wordOf first rest := by simp [wordOf]
    have hmore : WordRest (rest ++ [0x0d]) :=
      List.forall_mem_append.mpr ⟨hrest, List.forall_mem_singleton.mpr (.inr rfl)⟩
    have hnext : Pending line _ (first :: (rest ++ [0x0d])) := .word hfirst hmore
    rwa [hword] at hnext

/-- So is an operator, of one byte or of two. -/
theorem symbol_text (h : Pending line (.symbol c) text) :
    TokenText (separatorKind c) [c] text ∧ text.count 0x0a = 0 := by
  cases h with
  | symbol hc =>
    refine ⟨.separator hc, List.count_eq_zero.mpr fun hmem => ?_⟩
    rw [← List.mem_singleton.mp hmem] at hc
    exact absurd hc (by decide)

theorem symbol_operator (h : Pending line (.symbol c) text) (hb : makesOperator c b = true) :
    TokenText .operator [c, b] (text ++ [b]) := by
  cases h with
  | symbol hc => exact .operator hc hb

/-- The token of a literal has the line where the literal began. -/
theorem literal_text (h : Pending line (.literal start read) text) :
    start = line ∧ TokenText .string read.reverse (text ++ [0x22]) := by
  cases h with
  | literal hbody =>
    rw [List.reverse_reverse]
    exact ⟨rfl, .literal hbody⟩

theorem literal_byte (h : Pending line (.literal start read) text) (hquote : b ≠ 0x22)
    (hslash : b ≠ 0x5c) (hreturn : b ≠ 0x0d) :
    Pending line (.literal start (b :: read)) (text ++ [b]) := by
  cases h with
  | literal hbody =>
    have hnext : Pending line _ _ := .literal (hbody.byte hquote hslash hreturn)
    rwa [List.reverse_append] at hnext

theorem literal_return (h : Pending line (.literal start read) text) :
    Pending line (.literal start read) (text ++ [0x0d]) := by
  cases h with
  | literal hbody => exact .literal hbody.carriageReturn

theorem literal_backslash (h : Pending line (.literal start read) text) :
    Pending line (.escape start read) (text ++ [0x5c]) := by
  cases h with
  | literal hbody => exact .escape hbody

theorem escape_byte (h : Pending line (.escape start read) text) (b : UInt8) :
    Pending line (.literal start (Scanner.unescape b :: read)) (text ++ [b]) := by
  cases h with
  | @escape body value hbody =>
    have hnext : Pending line _ _ := .literal (hbody.escape b)
    rw [List.reverse_append] at hnext
    simpa using hnext

end Pending

namespace Scanner

/-- What a byte does to the open token: it belongs to it, it is its last one, or it stands after it.
Then it is a gap or begins another token, on the line where the scanner is. -/
theorem Reads.pending {s s' : Scanner} {b : UInt8} {line : Nat} {text : Bytes}
    (hreads : s.Reads b s') (h : Pending line s.mode text)
    (hline : s.line = line + text.count 0x0a) :
    (s'.tokens = s.tokens ∧ Pending line s'.mode (text ++ [b])) ∨
      (∃ t : Token, TokenText t.kind t.lexeme (text ++ [b]) ∧ t.line = line ∧
        s'.tokens = s.tokens.push t ∧ s'.mode = .between) ∨
      (s.flush.mode = .between ∧ s'.tokens = s.flush.tokens ∧
        (b ∈ gaps ∧ s'.mode = .between ∨ Pending s.line s'.mode [b])) := by
  cases hreads with
  | newline hs =>
    right; right
    exact ⟨hs, rfl, .inl ⟨by decide, hs⟩⟩
  | skip hs hb =>
    right; right
    refine ⟨hs, rfl, .inl ⟨?_, hs⟩⟩
    rcases hb with hb | hb
    · exact mem_gaps_of_blank hb
    · rw [(ByteClass.of_eq_single b).2.1 hb]
      decide
  | quote hs =>
    right; right
    refine ⟨hs, rfl, .inr ?_⟩
    rw [line_flush]
    exact .literal .empty
  | separator hs hb =>
    right; right
    exact ⟨hs, rfl, .inr (.symbol hb)⟩
  | ordinary hs hb =>
    right; right
    have hrest : WordRest [] := nofun
    exact ⟨hs, rfl, .inr (.word hb hrest)⟩
  | operator hs hb =>
    right; left
    rw [hs] at h
    rw [h.symbol_text.2] at hline
    exact ⟨_, h.symbol_operator hb, congrArg Int.ofNat hline, rfl, rfl⟩
  | inWord hs hb =>
    left
    rw [hs] at h
    exact ⟨rfl, h.word_ordinary hb⟩
  | returnInWord hs =>
    left
    rw [hs] at h ⊢
    exact ⟨rfl, h.word_return⟩
  | closing hs =>
    right; left
    rw [hs] at h
    obtain ⟨hstart, htext⟩ := h.literal_text
    exact ⟨_, htext, congrArg Int.ofNat hstart, rfl, rfl⟩
  | backslash hs =>
    left
    rw [hs] at h
    exact ⟨rfl, h.literal_backslash⟩
  | returnInLiteral hs =>
    left
    rw [hs] at h ⊢
    exact ⟨rfl, h.literal_return⟩
  | newlineInLiteral hs =>
    left
    rw [hs] at h
    exact ⟨rfl, h.literal_byte (by decide) (by decide) (by decide)⟩
  | inLiteral hs hquote hslash hreturn =>
    left
    rw [hs] at h
    exact ⟨rfl, h.literal_byte hquote hslash hreturn⟩
  | escapedNewline hs =>
    left
    rw [hs] at h
    exact ⟨rfl, h.escape_byte 0x0a⟩
  | escaped hs =>
    left
    rw [hs] at h
    exact ⟨rfl, h.escape_byte b⟩

/-- The finished tokens of a scanner are laid out in `done`, and `text` is that of the open one. -/
structure LaidOut (s : Scanner) (done text : Bytes) (spots : List (Bytes × Token)) : Prop where
  layout : Layout done spots
  tokens : spots.map Prod.snd = s.tokens.toList
  lines : ∀ p ∈ spots, p.2.line = (1 + p.1.count 0x0a : Nat)
  pending : Pending (1 + done.count 0x0a) s.mode text

namespace LaidOut

variable {s s' : Scanner} {done text text' : Bytes} {spots : List (Bytes × Token)}

/-- The open token goes on, or one begins. -/
theorem proceed (h : s.LaidOut done text spots) (htokens : s'.tokens = s.tokens)
    (hpending : Pending (1 + done.count 0x0a) s'.mode text') : s'.LaidOut done text' spots :=
  ⟨h.layout, htokens ▸ h.tokens, h.lines, hpending⟩

/-- A token is finished. -/
theorem finishToken (h : s.LaidOut done text spots) {t : Token}
    (ht : TokenText t.kind t.lexeme text') (hline : t.line = (1 + done.count 0x0a : Nat))
    (htokens : s'.tokens = s.tokens.push t) (hmode : s'.mode = .between) :
    s'.LaidOut (done ++ text') [] (spots ++ [(done, t)]) := by
  refine ⟨h.layout.token ht, ?_, ?_, ?_⟩
  · rw [htokens, List.map_append, h.tokens]
    simp
  · intro p hp
    rcases List.mem_append.mp hp with hp | hp
    · exact h.lines p hp
    · rw [List.mem_singleton.mp hp]
      exact hline
  · rw [hmode]
    exact .between

theorem gap (h : s.LaidOut done [] spots) (htokens : s'.tokens = s.tokens)
    (hmode : s'.mode = .between) {b : UInt8} (hb : b ∈ gaps) :
    s'.LaidOut (done ++ [b]) [] spots := by
  refine ⟨h.layout.gap hb, htokens ▸ h.tokens, h.lines, ?_⟩
  rw [hmode]
  exact .between

/-- Outside of literals the open token can be finished. There is no newline in it, so its line is
still the one where it began. -/
theorem flush (h : s.LaidOut done text spots) (hline : s.line = 1 + (done ++ text).count 0x0a)
    (hword : s.OnOneLine) (hs : s.flush.mode = .between) :
    ∃ spots, s.flush.LaidOut (done ++ text) [] spots := by
  have hpending := h.pending
  rw [List.count_append] at hline
  cases hmode : s.mode with
  | between =>
    rw [hmode] at hpending
    cases hpending
    rw [flush_of_between hmode, List.append_nil]
    exact ⟨spots, h⟩
  | word read =>
    rw [hmode] at hpending
    obtain ⟨htext, hnone⟩ := hpending.word_text
    have hflush : s.flush = s.emit (wordKind read.reverse) read.reverse s.line := by
      simp only [Scanner.flush, hmode, hword read hmode]
    rw [hnone] at hline
    rw [hflush]
    exact ⟨_, h.finishToken htext (congrArg Int.ofNat hline) rfl rfl⟩
  | symbol c =>
    rw [hmode] at hpending
    obtain ⟨htext, hnone⟩ := hpending.symbol_text
    have hflush : s.flush = s.emit (separatorKind c) [c] s.line := by
      simp only [Scanner.flush, hmode]
    rw [hnone] at hline
    rw [hflush]
    exact ⟨_, h.finishToken htext (congrArg Int.ofNat hline) rfl rfl⟩
  | literal start read | escape start read => simp [Scanner.flush, hmode] at hs

end LaidOut

/-- A scanner has laid out what it has read. -/
theorem laidOut_after (source : Bytes) :
    ∃ done text spots, source = done ++ text ∧ (after source).LaidOut done text spots := by
  refine after_induction (P := fun source s =>
    ∃ done text spots, source = done ++ text ∧ s.LaidOut done text spots) ?_ ?_ source
  · exact ⟨[], [], [], rfl, .empty, rfl, nofun, .between⟩
  rintro source b s ⟨done, text, spots, hsource, h⟩ hreads
  have hline : (after source).line = 1 + (done ++ text).count 0x0a := by
    rw [← hsource]
    exact line_after source
  have hopen : (after source).line = 1 + done.count 0x0a + text.count 0x0a := by
    rw [hline, List.count_append, Nat.add_assoc]
  have hmore : source ++ [b] = done ++ (text ++ [b]) := by
    rw [hsource, List.append_assoc]
  rcases hreads.pending h.pending hopen with
    ⟨htokens, hpending⟩ | ⟨t, htext, hstart, htokens, hmode⟩ | ⟨hs, htokens, hnew⟩
  · exact ⟨done, text ++ [b], spots, hmore, h.proceed htokens hpending⟩
  · refine ⟨done ++ (text ++ [b]), [], _, ?_, h.finishToken htext hstart htokens hmode⟩
    rw [hmore, List.append_nil]
  · -- the open token ends before the byte
    obtain ⟨spots, h⟩ := h.flush hline (onOneLine_after source) hs
    rw [← hsource] at h
    rcases hnew with ⟨hb, hmode⟩ | hpending
    · exact ⟨source ++ [b], [], spots, by simp, h.gap htokens hmode hb⟩
    · rw [line_after] at hpending
      exact ⟨source, [b], spots, rfl, h.proceed htokens hpending⟩

end Scanner

open Scanner

/-- A source without an open literal is laid out as its tokens, each on the line that the newlines
before it give. -/
theorem tokenize_layout {source : Bytes} (h : (tokenize source).unterminated = none) :
    ∃ spots, Layout source spots ∧ spots.map Prod.snd = (tokenize source).tokens ∧
      ∀ p ∈ spots, p.2.line = (1 + p.1.count 0x0a : Nat) := by
  obtain ⟨done, text, spots, hsource, hlaid⟩ := laidOut_after source
  have hout := (flush_mode_iff (after source)).mpr h
  have hline : (after source).line = 1 + (done ++ text).count 0x0a := by
    rw [← hsource]
    exact line_after source
  obtain ⟨spots, hlaid⟩ := hlaid.flush hline (onOneLine_after source) hout
  rw [← hsource] at hlaid
  rw [tokenize_tokens h]
  exact ⟨spots, hlaid.layout, hlaid.tokens, hlaid.lines⟩

end LineScript
