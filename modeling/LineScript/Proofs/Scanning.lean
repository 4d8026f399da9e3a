import LineScript.Token.Scanner

/-!
# Scanning written tokens

What a scanner makes of a text that was written token by token. A text *scans* to tokens when every
scanner that is not inside a string literal, and takes the first byte of the text for the beginning
of something new, adds just these tokens (`Scans`) and notes at most where a word began. Texts can
be joined where the next byte is one that the text before cannot swallow.
-/

namespace LineScript

/-- The token of a kind and a lexeme on a line. -/
def Token.ofLexeme (line : Int) (t : Kind × Bytes) : Token := ⟨t.1, t.2, line⟩

namespace Scanner

/-! ## Scanners between tokens -/

/-- Adds several tokens that start on the current line, each given by its kind and its lexeme. -/
def emitAll (s : Scanner) (ts : List (Kind × Bytes)) : Scanner :=
  ts.foldl (fun s t => s.emit t.1 t.2 s.line) s

theorem emitAll_append (s : Scanner) (ts us : List (Kind × Bytes)) :
    s.emitAll (ts ++ us) = (s.emitAll ts).emitAll us := List.foldl_append

theorem emitAll_wordLine (s : Scanner) (wordLine : Nat) (ts : List (Kind × Bytes)) :
    { s with wordLine }.emitAll ts = { s.emitAll ts with wordLine } := by
  induction ts generalizing s with
  | nil => rfl
  | cons t ts ih => exact ih (s.emit t.1 t.2 s.line)

/-- Adding tokens leaves the scanner between them and adds nothing else. -/
theorem emitAll_eq {s : Scanner} (hs : s.mode = .between) (ts : List (Kind × Bytes)) :
    s.emitAll ts = { s with
      tokens := s.tokens ++ ts.map (Token.ofLexeme s.line)
      count := s.count + ts.length } := by
  induction ts generalizing s with
  | nil => simp [emitAll]
  | cons t ts ih =>
    have hcons : s.emitAll (t :: ts) = (s.emit t.1 t.2 s.line).emitAll ts := rfl
    rw [hcons, ih rfl]
    simp only [emit, hs, List.map_cons, List.length_cons]
    simp [Token.ofLexeme]
    omega

/-- A scanner that takes a byte for the beginning of something new, whatever is open. -/
def StartsAt (s : Scanner) (b : UInt8) : Prop := s.feed b = s.flush.feedBetween b

/-- A scanner that is outside of string literals and starts anew with a text. -/
structure Ready (s : Scanner) (text : Bytes) : Prop where
  outside : s.flush.mode = .between
  starts : ∀ b ∈ text.head?, s.StartsAt b

theorem flush_of_between {s : Scanner} (hs : s.mode = .between) : s.flush = s := by
  simp [flush, hs]

theorem startsAt_of_between {s : Scanner} (hs : s.mode = .between) (b : UInt8) : s.StartsAt b := by
  simp [StartsAt, feed, flush_of_between hs, hs]

theorem ready_of_between {s : Scanner} (hs : s.mode = .between) (text : Bytes) : s.Ready text :=
  ⟨by rw [flush_of_between hs, hs], fun b _ => startsAt_of_between hs b⟩

/-- Outside of string literals the source ends by closing the last line. -/
theorem finish_of_outside {s : Scanner} (hs : s.flush.mode = .between) :
    s.finish = (s.flush.closeLine, none) := by
  cases hmode : s.mode with
  | literal start read | escape start read =>
    have hflush : s.flush = s := by simp [flush, hmode]
    rw [hflush, hmode] at hs
    cases hs
  | between | word _ | symbol _ => simp only [finish, hmode]

end Scanner

open Scanner

/-! ## Texts -/

/-- A text that scans to tokens, and the bytes after it that it cannot swallow. -/
structure Scans (text : Bytes) (ts : List (Kind × Bytes)) (next : UInt8 → Prop) : Prop where
  ne_nil : text ≠ []
  tokens {s : Scanner} (hs : s.Ready text) :
    ∃ wordLine, (text.foldl feed s).flush = { s.flush.emitAll ts with wordLine }
  startsAt {s : Scanner} (hs : s.Ready text) {b : UInt8} (hb : next b) :
    (text.foldl feed s).StartsAt b

namespace Scans

variable {text text' : Bytes} {ts us : List (Kind × Bytes)} {next next' : UInt8 → Prop}

theorem mono (h : Scans text ts next) (hnext : ∀ b, next' b → next b) : Scans text ts next' :=
  ⟨h.ne_nil, h.tokens, fun hs _ hb => h.startsAt hs (hnext _ hb)⟩

/-- Texts can be put together if the first cannot swallow the byte with which the second begins. -/
theorem append (h : Scans text ts next) (h' : Scans text' us next')
    (hnext : ∀ b ∈ text'.head?, next b) : Scans (text ++ text') (ts ++ us) next' := by
  have hhead : (text ++ text').head? = text.head? := by
    cases text with
    | nil => exact absurd rfl h.ne_nil
    | cons b rest => rfl
  have hfirst : ∀ {s : Scanner}, s.Ready (text ++ text') → s.Ready text :=
    fun hs => ⟨hs.outside, fun b hb => hs.starts b (hhead ▸ hb)⟩
  have hsecond : ∀ {s : Scanner}, s.Ready (text ++ text') → (text.foldl feed s).Ready text' := by
    intro s hs
    refine ⟨?_, fun b hb => h.startsAt (hfirst hs) (hnext b hb)⟩
    obtain ⟨wordLine, htokens⟩ := h.tokens (hfirst hs)
    rw [htokens, emitAll_eq hs.outside]
    exact hs.outside
  refine ⟨by simp [h.ne_nil], fun {s} hs => ?_, fun {s} hs b hb => ?_⟩
  · obtain ⟨first, hfirst⟩ := h.tokens (hfirst hs)
    obtain ⟨last, hlast⟩ := h'.tokens (hsecond hs)
    refine ⟨last, ?_⟩
    rw [List.foldl_append, hlast, hfirst, emitAll_wordLine, emitAll_append]
  · rw [List.foldl_append]
    exact h'.startsAt (hsecond hs) hb

/-- A text that scans to tokens is tokenized into them, all on its first line. -/
theorem tokenize (h : Scans text ts next) :
    LineScript.tokenize text = ⟨ts.map (Token.ofLexeme 1), [ts.length], none⟩ := by
  let start : Scanner := { rest := [] }
  have hready : start.Ready text := ready_of_between rfl text
  obtain ⟨wordLine, hflush⟩ := h.tokens hready
  have hstart : start.flush = start := rfl
  rw [hstart] at hflush
  have hfinish := finish_of_outside (s := text.foldl feed start)
    (by rw [hflush, emitAll_eq rfl])
  have hscan : LineScript.tokenize text =
      ⟨(text.foldl feed start).finish.1.tokens.toList,
        (text.foldl feed start).finish.1.perLine.toList, (text.foldl feed start).finish.2⟩ := rfl
  rw [hscan, hfinish, hflush, emitAll_eq rfl]
  simp [closeLine, start]

end Scans

/-! ## Single tokens -/

namespace Scans

/-- A blank adds nothing, and anything may follow it. -/
theorem blank : Scans [0x20] [] fun _ => True := by
  have hfeed : ∀ {s : Scanner}, s.Ready [0x20] → s.feed 0x20 = s.flush :=
    fun hs => hs.starts 0x20 rfl
  refine ⟨nofun, fun {s} hs => ?_, fun {s} hs b _ => ?_⟩
  · refine ⟨s.flush.wordLine, ?_⟩
    rw [List.foldl_cons, List.foldl_nil, hfeed hs, flush_of_between hs.outside]
    rfl
  · rw [List.foldl_cons, List.foldl_nil, hfeed hs]
    exact startsAt_of_between hs.outside b

/-- A word ends before the first byte that is neither ordinary nor a carriage return. -/
theorem word {w : Bytes} (hne : w ≠ []) (hw : ∀ b ∈ w, ByteClass.of b = .ordinary) :
    Scans w [(wordKind w, w)] fun b =>
      ByteClass.of b ≠ .ordinary ∧ ByteClass.of b ≠ .carriageReturn := by
  -- further bytes are put in front of the ones that are read
  have hmore : ∀ (w read : Bytes) (s : Scanner), (∀ b ∈ w, ByteClass.of b = .ordinary) →
      s.mode = .word read → w.foldl feed s = { s with mode := .word (w.reverse ++ read) } := by
    intro w
    induction w with
    | nil =>
      intro read s _ hs
      simp [← hs]
    | cons b w ih =>
      intro read s hw hs
      have hb : s.feed b = { s with mode := .word (b :: read) } := by
        simp [feed, hs, hw b List.mem_cons_self]
      rw [List.foldl_cons, hb, ih (b :: read) _ (fun c hc => hw c (List.mem_cons_of_mem b hc)) rfl]
      simp
  have hall : ∀ {s : Scanner}, s.Ready w →
      w.foldl feed s =
        { s.flush with mode := .word w.reverse, wordLine := s.flush.line } := by
    intro s hs
    cases w with
    | nil => exact absurd rfl hne
    | cons b w =>
      have hb : s.feed b =
          { s.flush with mode := .word [b], wordLine := s.flush.line } := by
        rw [hs.starts b rfl, feedBetween, hw b List.mem_cons_self]
      rw [List.foldl_cons, hb, hmore w [b] _ (fun c hc => hw c (List.mem_cons_of_mem b hc)) rfl]
      simp
  refine ⟨hne, fun {s} hs => ?_, fun {s} hs b hb => ?_⟩
  · refine ⟨s.flush.line, ?_⟩
    rw [hall hs]
    simp [flush, emitAll, emit]
  · rw [hall hs]
    obtain ⟨ho, hc⟩ := hb
    simp only [StartsAt, feed]

/-- A separator is a token of its own unless the next byte completes an operator. -/
theorem separator {c : UInt8} (hc : ByteClass.of c = .separator) :
    Scans [c] [(separatorKind c, [c])] fun b => makesOperator c b = false := by
  have hfeed : ∀ {s : Scanner}, s.Ready [c] → s.feed c = { s.flush with mode := .symbol c } := by
    intro s hs
    rw [hs.starts c rfl, feedBetween, hc]
  refine ⟨nofun, fun {s} hs => ?_, fun {s} hs b hb => ?_⟩
  · refine ⟨s.flush.wordLine, ?_⟩
    rw [List.foldl_cons, List.foldl_nil, hfeed hs]
    rfl
  · rw [List.foldl_cons, List.foldl_nil, hfeed hs]
    simp [StartsAt, feed, hb]

/-- An operator of two separators. -/
theorem operator {c d : UInt8} (hc : ByteClass.of c = .separator) (hcd : makesOperator c d) :
    Scans [c, d] [(.operator, [c, d])] fun _ => True := by
  have hfeed : ∀ {s : Scanner}, s.Ready [c, d] →
      (s.feed c).feed d = s.flush.emit .operator [c, d] s.flush.line := by
    intro s hs
    rw [hs.starts c rfl, feedBetween, hc]
    simp [feed, hcd, emit]
  refine ⟨nofun, fun {s} hs => ?_, fun {s} hs b _ => ?_⟩
  · refine ⟨s.flush.wordLine, ?_⟩
    rw [List.foldl_cons, List.foldl_cons, List.foldl_nil, hfeed hs]
    rfl
  · rw [List.foldl_cons, List.foldl_cons, List.foldl_nil, hfeed hs]
    exact startsAt_of_between rfl b

end Scans

/-! ## String literals -/

namespace Text

/-- The bytes that a string literal shows or has a short escape for that scanners know. -/
def isShown (b : UInt8) : Bool := (0x20 ≤ b && b < 0x7f) || b == 0x0a || b == 0x09

/-- A shown byte as it stands in a string literal. -/
def escapeByte (b : UInt8) : Bytes :=
  if b = 0x22 ∨ b = 0x5c then [0x5c, b]
  else if b = 0x0a then [0x5c, 0x6e]
  else if b = 0x09 then [0x5c, 0x74]
  else [b]

/-- A property of the bytes of ASCII can be checked one by one. -/
theorem forall_ascii {P : UInt8 → Prop} (h : ∀ n < 0x80, P n.toUInt8) {b : UInt8}
    (hb : b.toNat < 0x80) : P b := by
  have hn : b.toNat.toUInt8 = b := UInt8.ofNat_toNat
  exact hn ▸ h b.toNat hb

theorem isShown_iff {b : UInt8} :
    isShown b ↔ (0x20 ≤ b.toNat ∧ b.toNat < 0x7f) ∨ b = 0x0a ∨ b = 0x09 := by
  simp [isShown, UInt8.le_iff_toNat_le, UInt8.lt_iff_toNat_lt, or_assoc]

/-- Each byte of ASCII is a character of its own. -/
theorem decode_ascii {text : Bytes} (h : ∀ b ∈ text, b.toNat < 0x80) :
    Glyph.decode text = text.map fun b => .char (Char.ofNat b.toNat) := by
  induction text with
  | nil => rfl
  | cons b rest ih =>
    have hb : b < 0x80 := UInt8.lt_iff_toNat_lt.mpr (h b List.mem_cons_self)
    have hlead : Glyph.lead? b rest = some (Char.ofNat b.toNat, 0) := by
      simp [Glyph.lead?, hb]
    have hrest := ih fun c hc => h c (List.mem_cons_of_mem b hc)
    rw [Glyph.decode] at hrest ⊢
    simp [Glyph.decodeFrom, hlead, hrest]

theorem isShown_lt {b : UInt8} (hb : isShown b) : b.toNat < 0x80 := by
  rcases isShown_iff.mp hb with ⟨-, h⟩ | rfl | rfl
  · omega
  · decide
  · decide

theorem escaped_shown {b : UInt8} (hb : isShown b) :
    escaped 0x22 (.char (Char.ofNat b.toNat)) = escapeByte b :=
  forall_ascii
    (P := fun b => isShown b → escaped 0x22 (.char (Char.ofNat b.toNat)) = escapeByte b)
    (by decide) (isShown_lt hb) hb

/-- A text of shown bytes is quoted byte by byte. -/
theorem quoted_shown {text : Bytes} (h : ∀ b ∈ text, isShown b) :
    quoted text = 0x22 :: text.flatMap escapeByte ++ [0x22] := by
  have hflat : ∀ text : Bytes, (∀ b ∈ text, isShown b) →
      (text.map fun b => Glyph.char (Char.ofNat b.toNat)).flatMap (escaped 0x22) =
        text.flatMap escapeByte := by
    intro text h
    induction text with
    | nil => rfl
    | cons b rest ih =>
      rw [List.map_cons, List.flatMap_cons, List.flatMap_cons,
        escaped_shown (h b List.mem_cons_self), ih fun c hc => h c (List.mem_cons_of_mem b hc)]
  rw [quoted, decode_ascii fun b hb => isShown_lt (h b hb), hflat text h]

end Text

/-- What stands between the quotes of a literal on one line, and the text that a scanner reads from
it. -/
def ReadsAs (body text : Bytes) : Prop :=
  ∀ (s : Scanner) (start : Nat) (read : Bytes), s.mode = .literal start read →
    body.foldl feed s = { s with mode := .literal start (text.reverse ++ read) }

namespace ReadsAs

variable {body body' text text' : Bytes}

theorem nil : ReadsAs [] [] := by
  intro s start read hs
  simp [← hs]

theorem append (h : ReadsAs body text) (h' : ReadsAs body' text') :
    ReadsAs (body ++ body') (text ++ text') := by
  intro s start read hs
  rw [List.foldl_append, h s start read hs, h' _ start _ rfl]
  simp

theorem flatMap {α : Type} {f g : α → Bytes} {xs : List α} (h : ∀ x ∈ xs, ReadsAs (f x) (g x)) :
    ReadsAs (xs.flatMap f) (xs.flatMap g) := by
  induction xs with
  | nil => exact nil
  | cons x xs ih =>
    rw [List.flatMap_cons, List.flatMap_cons]
    exact (h x List.mem_cons_self).append (ih fun y hy => h y (List.mem_cons_of_mem x hy))

/-- Most bytes stand for themselves. -/
theorem byte {b : UInt8} (hquote : b ≠ 0x22) (hslash : b ≠ 0x5c) (hreturn : b ≠ 0x0d)
    (hnewline : b ≠ 0x0a) : ReadsAs [b] [b] := by
  intro s start read hs
  simp [feed, hs, hquote, hslash, hreturn, extend, hnewline]

theorem escape {c : UInt8} (hc : c ≠ 0x0a) : ReadsAs [0x5c, c] [unescape c] := by
  intro s start read hs
  simp [feed, hs, hc]

/-- A shown byte is read back. -/
theorem escapeByte {b : UInt8} (hb : Text.isShown b) : ReadsAs (Text.escapeByte b) [b] := by
  unfold Text.escapeByte
  by_cases hmark : b = 0x22 ∨ b = 0x5c
  · rw [if_pos hmark]
    rcases hmark with rfl | rfl <;> exact escape (by decide)
  rw [if_neg hmark]
  by_cases hnewline : b = 0x0a
  · rw [if_pos hnewline, hnewline]
    exact escape (by decide)
  rw [if_neg hnewline]
  by_cases htab : b = 0x09
  · rw [if_pos htab, htab]
    exact escape (by decide)
  rw [if_neg htab]
  obtain ⟨hquote, hslash⟩ := not_or.mp hmark
  refine byte hquote hslash ?_ hnewline
  rintro rfl
  exact absurd hb (by decide)

end ReadsAs

/-- A string literal on one line is a token of what is read between its quotes. -/
theorem Scans.literal {body text : Bytes} (h : ReadsAs body text) :
    Scans (0x22 :: body ++ [0x22]) [(.string, text)] fun _ => True := by
  have hall : ∀ {s : Scanner}, s.Ready (0x22 :: body ++ [0x22]) →
      (0x22 :: body ++ [0x22]).foldl feed s = s.flush.emit .string text s.flush.line := by
    intro s hs
    have hopen : s.feed 0x22 =
        { s.flush with mode := .literal s.flush.line [], count := s.flush.count + 1 } := by
      rw [hs.starts 0x22 rfl]
      rfl
    rw [List.cons_append, List.foldl_cons, List.foldl_append, hopen, h _ _ [] rfl]
    simp [feed, emit]
  refine ⟨nofun, fun {s} hs => ⟨s.flush.wordLine, ?_⟩, fun {s} hs b _ => ?_⟩
  · rw [hall hs]
    rfl
  · rw [hall hs]
    exact startsAt_of_between rfl b

/-- A quoted text is a string literal that stands for it. -/
theorem Scans.quoted {text : Bytes} (h : ∀ b ∈ text, Text.isShown b) :
    Scans (Text.quoted text) [(.string, text)] fun _ => True := by
  rw [Text.quoted_shown h]
  have hbody : ReadsAs (text.flatMap Text.escapeByte) (text.flatMap fun b => [b]) :=
    .flatMap fun b hb => .escapeByte (h b hb)
  rw [List.flatMap_singleton'] at hbody
  exact .literal hbody

end LineScript
