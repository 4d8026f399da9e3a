import LineScript.Proofs.PrintReading
import LineScript.Proofs.SourceJoining

/-!
# Written tokens read back

Which lexemes tokens of each kind have is said here without a scanner (`Kind.Admits`), and so is how
a list of tokens is written: one after the other, with a blank between two of them (`writeTokens`).
Scanning what was written gives the tokens back.

A string literal may hold any bytes at all, newlines among them, so that the tokens after it are on
another line. Scanners are therefore compared by the kinds and lexemes that they have read
(`Scanner.lexemes`), and lines and counts are left aside.
-/

namespace LineScript

/-! ## Well-formed tokens -/

/-- The bytes that do not occur in words: white space, line ends, quotes and separators. -/
def delimiters : Bytes := [0x20, 0x09, 0x0b, 0x0c, 0x0a, 0x0d, 0x22] ++ separators

/-- One digit or more. -/
def IsDigits (w : Bytes) : Prop := w ≠ [] ∧ ∀ b ∈ w, Bytes.isDigit b

/-- Digits on both sides of a point. -/
def IsDecimals (w : Bytes) : Prop :=
  ∃ whole places, IsDigits whole ∧ IsDigits places ∧ w = whole ++ 0x2e :: places

/-- The operators. -/
def operators : List Bytes :=
  ["=", "!", "<", ">", "+", "-", "*", "/", "%", "==", "!=", "<=", ">=", "+=", "-=", "*=", "/=",
    "++", "--"].map bytes

/-- The marks of punctuation, each of its own kind. -/
def punctuation : List (Kind × Bytes) :=
  [(.lineEnd, bytes ";"), (.lparen, bytes "("), (.rparen, bytes ")"), (.lbrace, bytes "\x7b"),
    (.rbrace, bytes "\x7d"), (.lbracket, bytes "["), (.rbracket, bytes "]"), (.comma, bytes ",")]

/-- The lexemes that tokens of a kind have. -/
inductive Kind.Admits : Kind → Bytes → Prop where
  | keyword (k : Keyword) : Admits .keyword k.text
  | int {w : Bytes} (hw : IsDigits w) : Admits .int w
  | float {w : Bytes} (hw : IsDecimals w) : Admits .float w
  /-- An identifier is any other word. -/
  | identifier {w : Bytes} (hne : w ≠ []) (hw : ∀ b ∈ w, b ∉ delimiters)
      (hkeyword : ∀ k : Keyword, w ≠ k.text) (hint : ¬ IsDigits w) (hfloat : ¬ IsDecimals w) :
      Admits .identifier w
  | operator {w : Bytes} (hw : w ∈ operators) : Admits .operator w
  | punctuation {kind : Kind} {w : Bytes} (hw : (kind, w) ∈ punctuation) : Admits kind w
  | string (text : Bytes) : Admits .string text

/-! ## Writing -/

/-- A byte as it stands in a string literal: a backslash is put before quotes, backslashes and
carriage returns. -/
def literalByte (b : UInt8) : Bytes := if b = 0x22 ∨ b = 0x5c ∨ b = 0x0d then [0x5c, b] else [b]

/-- A token as it is written. -/
def writeToken (t : Kind × Bytes) : Bytes :=
  if t.1 = .string then 0x22 :: t.2.flatMap literalByte ++ [0x22] else t.2

/-- Tokens as they are written, with a blank between two of them. -/
def writeTokens (ts : List (Kind × Bytes)) : Bytes := List.intercalate [0x20] (ts.map writeToken)

/-! ## Words and their kinds -/

theorem byteClass_of_not_delimiter {b : UInt8} (hb : b ∉ delimiters) :
    ByteClass.of b = .ordinary := by
  simp only [delimiters, List.mem_append, List.mem_cons, List.not_mem_nil, or_false,
    not_or] at hb
  obtain ⟨⟨hspace, htab, hvertical, hfeed, hnewline, hreturn, hquote⟩, hseparator⟩ := hb
  simp [ByteClass.of, hspace, htab, hvertical, hfeed, hnewline, hreturn, hquote, hseparator]

theorem byteClass_separator {c : UInt8} (hc : c ∈ separators) : ByteClass.of c = .separator := by
  have hall : separators.all (fun c => ByteClass.of c = .separator) := by decide
  exact of_decide_eq_true (List.all_eq_true.mp hall c hc)

theorem IsDigits.byteClass {w : Bytes} (h : IsDigits w) : ∀ b ∈ w, ByteClass.of b = .ordinary := by
  intro b hb
  exact byteClass_word (by simp [isWordByte, h.2 b hb])

theorem IsDecimals.byteClass {w : Bytes} (h : IsDecimals w) :
    ∀ b ∈ w, ByteClass.of b = .ordinary := by
  obtain ⟨whole, places, hwhole, hplaces, rfl⟩ := h
  intro b hb
  rcases List.mem_append.mp hb with hb | hb
  · exact hwhole.byteClass b hb
  · rcases List.mem_cons.mp hb with rfl | hb
    · decide
    · exact hplaces.byteClass b hb

/-- The words that are read as floating-point numbers are digits on both sides of one point. -/
theorem isFloatWord_iff {w : Bytes} : isFloatWord w = true ↔ IsDecimals w := by
  constructor
  · intro h
    unfold isFloatWord at h
    split at h
    · next places hdrop =>
      simp only [Bool.and_eq_true, Bool.not_eq_true', List.isEmpty_eq_false_iff,
        List.all_eq_true] at h
      obtain ⟨⟨hwhole, hne⟩, hplaces⟩ := h
      refine ⟨w.takeWhile Bytes.isDigit, places, ⟨hwhole, ?_⟩, ⟨hne, hplaces⟩, ?_⟩
      · exact List.all_eq_true.mp List.all_takeWhile
      · rw [← hdrop, List.takeWhile_append_dropWhile]
    · cases h
  · rintro ⟨whole, places, ⟨hwhole, hdigits⟩, ⟨hne, hplaces⟩, rfl⟩
    have hpoint : Bytes.isDigit 0x2e = false := by decide
    have hdrop : (whole ++ 0x2e :: places).dropWhile Bytes.isDigit = 0x2e :: places := by
      rw [List.dropWhile_append_of_pos hdigits, List.dropWhile_cons_of_neg (by simp [hpoint])]
    have htake : (whole ++ 0x2e :: places).takeWhile Bytes.isDigit = whole := by
      rw [List.takeWhile_append_of_pos hdigits, List.takeWhile_cons_of_neg (by simp [hpoint]),
        List.append_nil]
    simp [isFloatWord, hdrop, htake, hwhole, hne, List.all_eq_true.mpr hplaces]

theorem isDigits_iff {w : Bytes} : (w ≠ [] ∧ w.all Bytes.isDigit) ↔ IsDigits w := by
  rw [IsDigits, List.all_eq_true]

instance (w : Bytes) : Decidable (IsDigits w) := decidable_of_iff _ isDigits_iff

instance (w : Bytes) : Decidable (IsDecimals w) := decidable_of_iff _ isFloatWord_iff

theorem wordKind_decimals {w : Bytes} (h : IsDecimals w) : wordKind w = .float := by
  have hpoint : 0x2e ∈ w := by
    obtain ⟨whole, places, -, -, rfl⟩ := h
    simp
  have hdigits : w.all Bytes.isDigit = false :=
    List.all_eq_false.mpr ⟨0x2e, hpoint, by decide⟩
  simp [wordKind, Keyword.ofText?_eq_none hpoint (by decide), hdigits, isFloatWord_iff.mpr h]

theorem wordKind_other {w : Bytes} (hne : w ≠ []) (hkeyword : ∀ k : Keyword, w ≠ k.text)
    (hint : ¬ IsDigits w) (hfloat : ¬ IsDecimals w) : wordKind w = .identifier := by
  have hnone : Keyword.ofText? w = none := by
    cases h : Keyword.ofText? w with
    | none => rfl
    | some k => exact absurd (Keyword.text_of_ofText? h).symm (hkeyword k)
  have hdigits : w.all Bytes.isDigit = false := by
    refine Bool.eq_false_iff.mpr fun h => hint ⟨hne, ?_⟩
    exact List.all_eq_true.mp h
  have hpoint : isFloatWord w = false :=
    Bool.eq_false_iff.mpr fun h => hfloat (isFloatWord_iff.mp h)
  simp [wordKind, hnone, hdigits, hpoint]

/-! ## Single tokens -/

namespace Scanner

/-- The kinds and lexemes of the tokens that have been read. -/
def lexemes (s : Scanner) : List (Kind × Bytes) := s.tokens.toList.map fun t => (t.kind, t.lexeme)

end Scanner

open Scanner

/-- A text from which a scanner between two tokens reads one token, whether it is then complete or
still open. -/
def Spells (text : Bytes) (t : Kind × Bytes) : Prop :=
  ∀ s : Scanner, s.mode = .between →
    (text.foldl feed s).flush.mode = .between ∧
      (text.foldl feed s).flush.lexemes = s.lexemes ++ [t]

namespace Spells

theorem of_scans {text : Bytes} {t : Kind × Bytes} {next : UInt8 → Prop}
    (h : Scans text [t] next) : Spells text t := by
  intro s hs
  obtain ⟨wordLine, htokens⟩ := h.tokens (ready_of_between hs text)
  rw [flush_of_between hs, emitAll_eq hs] at htokens
  rw [htokens]
  exact ⟨hs, by simp [lexemes, Token.ofLexeme]⟩

theorem word {w : Bytes} (hne : w ≠ []) (hw : ∀ b ∈ w, ByteClass.of b = .ordinary) :
    Spells w (wordKind w, w) :=
  of_scans (Scans.word hne hw)

theorem operator {w : Bytes} (hw : w ∈ operators) : Spells w (.operator, w) := by
  have hshape : ∀ w ∈ operators, (∃ c ∈ separators, w = [c] ∧ separatorKind c = .operator) ∨
      ∃ c ∈ separators, ∃ d ∈ separators, w = [c, d] ∧ makesOperator c d = true := by decide
  rcases hshape w hw with ⟨c, hc, rfl, hkind⟩ | ⟨c, hc, d, -, rfl, hcd⟩
  · have hspells := of_scans (Scans.separator (byteClass_separator hc))
    rwa [hkind] at hspells
  · exact of_scans (Scans.operator (byteClass_separator hc) hcd)

theorem punctuation {kind : Kind} {w : Bytes} (hw : (kind, w) ∈ LineScript.punctuation) :
    Spells w (kind, w) := by
  have hshape : ∀ t ∈ LineScript.punctuation, ∃ c ∈ separators, t = (separatorKind c, [c]) := by
    decide
  obtain ⟨c, hc, ht⟩ := hshape _ hw
  cases ht
  exact of_scans (Scans.separator (byteClass_separator hc))

end Spells

/-! ## String literals -/

/-- A scanner in a string literal, with the bytes of it that have been read, last first. -/
structure Scanner.InLiteral (s : Scanner) (read : Bytes) (before : List (Kind × Bytes)) : Prop where
  mode : ∃ start, s.mode = .literal start read
  lexemes : s.lexemes = before

/-- Every byte can stand in a string literal in the form in which it is written there. -/
theorem Scanner.InLiteral.literalByte {s : Scanner} {read : Bytes} {before : List (Kind × Bytes)}
    (h : s.InLiteral read before) (b : UInt8) :
    ((literalByte b).foldl feed s).InLiteral (b :: read) before := by
  obtain ⟨start, hmode⟩ := h.mode
  by_cases hmark : b = 0x22 ∨ b = 0x5c ∨ b = 0x0d
  · have hplain : b ≠ 0x0a ∧ unescape b = b := by
      rcases hmark with rfl | rfl | rfl <;> decide
    have hfeed : (LineScript.literalByte b).foldl feed s =
        { s with mode := .literal start (b :: read) } := by
      simp [LineScript.literalByte, hmark, feed, hmode, hplain]
    rw [hfeed]
    exact ⟨⟨start, rfl⟩, h.lexemes⟩
  · obtain ⟨hquote, hslash, hreturn⟩ : b ≠ 0x22 ∧ b ≠ 0x5c ∧ b ≠ 0x0d := by
      simpa only [not_or] using hmark
    have hfeed : (LineScript.literalByte b).foldl feed s = s.extend start read b := by
      simp [LineScript.literalByte, feed, hmode, hquote, hslash, hreturn]
    rw [hfeed]
    -- a newline ends the line as well, but adds no token
    unfold extend
    split
    · exact ⟨⟨start, rfl⟩, h.lexemes⟩
    · exact ⟨⟨start, rfl⟩, h.lexemes⟩

theorem Scanner.InLiteral.literalBytes {s : Scanner} {read : Bytes} {before : List (Kind × Bytes)}
    (h : s.InLiteral read before) (text : Bytes) :
    ((text.flatMap LineScript.literalByte).foldl feed s).InLiteral (text.reverse ++ read)
      before := by
  induction text generalizing s read with
  | nil => exact h
  | cons b text ih =>
    rw [List.flatMap_cons, List.foldl_append, List.reverse_cons, List.append_assoc]
    exact ih (h.literalByte b)

/-- Any text stands in a string literal. -/
theorem Spells.string (text : Bytes) : Spells (writeToken (.string, text)) (.string, text) := by
  intro s hs
  have hopen : s.feed 0x22 = { s with mode := .literal s.line [], count := s.count + 1 } := by
    simp only [feed, hs]
    rfl
  have hstart : (s.feed 0x22).InLiteral [] s.lexemes := by
    rw [hopen]
    exact ⟨⟨s.line, rfl⟩, rfl⟩
  obtain ⟨⟨start, hmode⟩, hlexemes⟩ := hstart.literalBytes text
  have hwritten : writeToken (.string, text) =
      0x22 :: text.flatMap LineScript.literalByte ++ [0x22] := rfl
  rw [hwritten, List.cons_append, List.foldl_cons, List.foldl_append]
  generalize (text.flatMap LineScript.literalByte).foldl feed (s.feed 0x22) = s' at hmode hlexemes
  have hclose : [0x22].foldl feed s' =
      { s' with tokens := s'.tokens.push ⟨.string, text, start⟩, mode := .between } := by
    simp [feed, hmode]
  rw [hclose, ← hlexemes]
  exact ⟨rfl, by simp [flush, lexemes]⟩

/-! ## Lists of tokens -/

/-- Every well-formed token is read back from what is written for it. -/
theorem Kind.Admits.spells {kind : Kind} {w : Bytes} (h : kind.Admits w) :
    Spells (writeToken (kind, w)) (kind, w) := by
  cases h with
  | keyword k =>
    have hword : ∀ b ∈ k.text, ByteClass.of b = .ordinary := by
      intro b hb
      exact byteClass_word (by simp [isWordByte, Keyword.isLetter_text hb])
    have hspells := Spells.word k.text_ne_nil hword
    rwa [wordKind_keyword] at hspells
  | int hw =>
    have hspells := Spells.word hw.1 hw.byteClass
    rwa [wordKind_digits hw.1 hw.2] at hspells
  | float hw =>
    have hne : w ≠ [] := by
      obtain ⟨whole, places, -, -, rfl⟩ := hw
      simp
    have hspells := Spells.word hne hw.byteClass
    rwa [wordKind_decimals hw] at hspells
  | identifier hne hw hkeyword hint hfloat =>
    have hspells := Spells.word hne fun b hb => byteClass_of_not_delimiter (hw b hb)
    rwa [wordKind_other hne hkeyword hint hfloat] at hspells
  | operator hw => exact Spells.operator hw
  | punctuation hw =>
    have hkind : kind ≠ .string := by
      rintro rfl
      revert hw
      simp [LineScript.punctuation]
    simpa [writeToken, hkind] using Spells.punctuation hw
  | string => exact Spells.string w

/-- A blank ends the token before it and nothing else. -/
theorem Scanner.feed_blank {s : Scanner} (hs : s.flush.mode = .between) : s.feed 0x20 = s.flush :=
  startsAt_of_outside hs (by decide) (by decide)
    (makesOperator_eq_false (by decide) (by decide) (by decide))

/-- A blank after each token keeps it apart from the next, so that the scanner emits them one by
one. -/
theorem foldl_feed_writeTokens {ts : List (Kind × Bytes)} (h : ∀ t ∈ ts, t.1.Admits t.2)
    {s : Scanner} (hs : s.mode = .between) :
    ((writeTokens ts).foldl feed s).flush.mode = .between ∧
      ((writeTokens ts).foldl feed s).flush.lexemes = s.lexemes ++ ts := by
  induction ts generalizing s with
  | nil =>
    have hnone : (writeTokens []).foldl feed s = s := rfl
    rw [hnone, flush_of_between hs]
    exact ⟨hs, by simp⟩
  | cons t ts ih =>
    obtain ⟨hmode, hlexemes⟩ := (h t List.mem_cons_self).spells s hs
    cases ts with
    | nil =>
      have hone : writeTokens [t] = writeToken t := List.intercalate_singleton
      rw [hone]
      exact ⟨hmode, hlexemes⟩
    | cons t' ts =>
      have hmore : writeTokens (t :: t' :: ts) =
          writeToken t ++ [0x20] ++ writeTokens (t' :: ts) := List.intercalate_cons_cons
      have hrest := ih (fun u hu => h u (List.mem_cons_of_mem t hu)) hmode
      rw [hlexemes, List.append_assoc] at hrest
      rw [hmore, List.foldl_append, List.foldl_append, List.foldl_cons, List.foldl_nil,
        feed_blank hmode]
      exact hrest

/-- Tokenizing is the inverse of writing: well-formed tokens, written with a blank between two of
them, are tokenized into tokens of the same kinds and lexemes, and no string literal is left
open. -/
theorem tokenize_writeTokens {ts : List (Kind × Bytes)} (h : ∀ t ∈ ts, t.1.Admits t.2) :
    (tokenize (writeTokens ts)).unterminated = none ∧
      (tokenize (writeTokens ts)).tokens.map (fun t => (t.kind, t.lexeme)) = ts := by
  obtain ⟨hmode, hlexemes⟩ := foldl_feed_writeTokens h (s := { rest := [] }) rfl
  have hnone : (tokenize (writeTokens ts)).unterminated = none :=
    (flush_mode_iff (after (writeTokens ts))).mp hmode
  refine ⟨hnone, ?_⟩
  rw [tokenize_tokens hnone]
  exact hlexemes

/-- The text of the literal is a backslash, a carriage return, a newline, a quote, a byte that no
character begins with, and the letter that stands for a newline after a backslash. -/
theorem tokenize_writeTokens_any_bytes :
    let ts : List (Kind × Bytes) := [(.keyword, bytes "daca"), (.identifier, bytes "x1."),
      (.operator, bytes "+"), (.operator, bytes "+="),
      (.string, [0x5c, 0x0d, 0x0a, 0x22, 0xff, 0x6e]), (.float, bytes "1.50"), (.int, bytes "007"),
      (.lineEnd, bytes ";")]
    (∀ t ∈ ts, t.1.Admits t.2) ∧
      writeTokens ts = bytes "daca x1. + += \"" ++
        [0x5c, 0x5c, 0x5c, 0x0d, 0x0a, 0x5c, 0x22, 0xff, 0x6e] ++ bytes "\" 1.50 007 ;" ∧
      (tokenize (writeTokens ts)).unterminated = none ∧
      (tokenize (writeTokens ts)).tokens.map (fun t => (t.kind, t.lexeme)) = ts := by
  intro ts
  have hwellFormed : ∀ t ∈ ts, t.1.Admits t.2 := by
    simp only [ts, List.forall_mem_cons]
    refine ⟨.keyword .daca, .identifier ?_ ?_ ?_ ?_ ?_, .operator ?_, .operator ?_, .string _,
      .float ?_, .int ?_, .punctuation ?_, nofun⟩
    case refine_2 =>
      have hword : (bytes "x1.").all (· ∉ delimiters) := by decide
      exact fun b hb => of_decide_eq_true (List.all_eq_true.mp hword b hb)
    case refine_3 =>
      intro k
      cases k <;> decide
    all_goals decide
  exact ⟨hwellFormed, by decide, tokenize_writeTokens hwellFormed⟩

end LineScript
