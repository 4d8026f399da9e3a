import Mathlib.Data.List.Forall2
import Mathlib.Data.List.Induction
import LineScript.Proofs.KeptBytes

/-!
# Line endings

A source may be saved with a carriage return before every newline (`withReturns`). A scanner drops
these wherever they stand, except after a backslash in a string literal: there the carriage return is
the byte that the backslash is for, and the newline after it is read as any other. Two scanners, one
for each form of the source, therefore go through the same lines, counts and tokens, and only the
texts of literals may differ, by carriage returns before newlines (`Scanner.Returned`). They do differ
if a newline is escaped in a literal that is closed, and only then.
-/

namespace LineScript

/-- The source with a carriage return before every newline. -/
def withReturns (source : Bytes) : Bytes :=
  source.flatMap fun b => if b = 0x0a then [0x0d, 0x0a] else [b]

theorem withReturns_append (a b : Bytes) : withReturns (a ++ b) = withReturns a ++ withReturns b :=
  List.flatMap_append

theorem withReturns_newline (a : Bytes) :
    withReturns (a ++ [0x0a]) = withReturns a ++ [0x0d] ++ [0x0a] := by
  rw [withReturns_append, List.append_assoc]
  rfl

theorem withReturns_byte (a : Bytes) {b : UInt8} (hb : b ≠ 0x0a) :
    withReturns (a ++ [b]) = withReturns a ++ [b] := by
  rw [withReturns_append]
  simp [withReturns, hb]

/-! ## Texts of literals -/

/-- The second text is the first one with a carriage return before some of its newlines. -/
inductive Returned : Bytes → Bytes → Prop
  | nil : Returned [] []
  | byte {a b : Bytes} (h : Returned a b) (c : UInt8) : Returned (a ++ [c]) (b ++ [c])
  | newline {a b : Bytes} (h : Returned a b) : Returned (a ++ [0x0a]) (b ++ [0x0d, 0x0a])

theorem Returned.refl (a : Bytes) : Returned a a := by
  induction a using List.reverseRecOn with
  | nil => exact .nil
  | append_singleton a c ih => exact ih.byte c

/-- There are none if the second text is no longer. -/
theorem Returned.eq_of_length {a b : Bytes} (h : Returned a b) :
    a.length ≤ b.length ∧ (a.length = b.length → a = b) := by
  induction h with
  | nil => exact ⟨Nat.le_refl _, fun _ => rfl⟩
  | byte h c ih =>
    refine ⟨by simpa using ih.1, fun hlength => ?_⟩
    rw [ih.2 (by simpa using hlength)]
  | newline h ih =>
    have hle := ih.1
    simp only [List.length_append, List.length_cons, List.length_nil]
    exact ⟨by omega, by omega⟩

/-- Tokens that differ in the text of a literal at most. -/
structure Token.Returned (t u : Token) : Prop where
  kind : u.kind = t.kind
  line : u.line = t.line
  lexeme : LineScript.Returned t.lexeme u.lexeme
  literal : t.kind ≠ .string → u.lexeme = t.lexeme

theorem Token.Returned.refl (t : Token) : t.Returned t :=
  ⟨rfl, rfl, LineScript.Returned.refl _, fun _ => rfl⟩

/-- Tokens are the same if their lexemes are no longer in all. -/
theorem tokens_eq_of_length {ts us : List Token} (h : List.Forall₂ Token.Returned ts us) :
    (ts.flatMap Token.lexeme).length ≤ (us.flatMap Token.lexeme).length ∧
      ((ts.flatMap Token.lexeme).length = (us.flatMap Token.lexeme).length → ts = us) := by
  induction h with
  | nil => exact ⟨Nat.le_refl _, fun _ => rfl⟩
  | @cons t u ts us ht hts ih =>
    obtain ⟨hle, heq⟩ := ht.lexeme.eq_of_length
    obtain ⟨hles, heqs⟩ := ih
    simp only [List.flatMap_cons, List.length_append]
    refine ⟨by omega, fun hlength => ?_⟩
    have htoken : t = u := by
      obtain ⟨kind, lexeme, line⟩ := t
      obtain ⟨kind', lexeme', line'⟩ := u
      rw [Token.mk.injEq]
      exact ⟨ht.kind.symm, heq (by omega), ht.line.symm⟩
    rw [htoken, heqs (by omega)]

/-! ## Scanners -/

/-- Modes that differ in the text of the open literal at most. -/
inductive Mode.Returned : Mode → Mode → Prop
  | between : Returned .between .between
  | word (read : Bytes) : Returned (.word read) (.word read)
  | symbol (first : UInt8) : Returned (.symbol first) (.symbol first)
  | literal (start : Nat) {read read' : Bytes}
      (h : LineScript.Returned read.reverse read'.reverse) :
      Returned (.literal start read) (.literal start read')
  | escape (start : Nat) {read read' : Bytes}
      (h : LineScript.Returned read.reverse read'.reverse) :
      Returned (.escape start read) (.escape start read')

namespace Scanner

/-- The second scanner is where the first one is, and only texts of literals differ. What the two
remember of a word that has ended does not matter. -/
structure Returned (s t : Scanner) : Prop where
  mode : s.mode.Returned t.mode
  line : t.line = s.line
  tokens : List.Forall₂ Token.Returned s.tokens.toList t.tokens.toList
  perLine : t.perLine = s.perLine
  count : t.count = s.count
  wordLine : ∀ read, s.mode = .word read → t.wordLine = s.wordLine

namespace Returned

variable {s t : Scanner}

theorem push (h : Returned s t) {u v : Token} (htoken : u.Returned v) :
    List.Forall₂ Token.Returned (s.tokens.push u).toList (t.tokens.push v).toList := by
  rw [Array.toList_push, Array.toList_push]
  exact List.rel_append h.tokens (.cons htoken .nil)

theorem emit (h : Returned s t) (kind : Kind) (lexeme : Bytes) {line line' : Nat}
    (hline : line' = line) : Returned (s.emit kind lexeme line) (t.emit kind lexeme line') := by
  refine ⟨.between, h.line, h.push ?_, h.perLine, congrArg (· + 1) h.count, nofun⟩
  rw [hline]
  exact .refl _

theorem flush (h : Returned s t) : Returned s.flush t.flush := by
  have hmode := h.mode
  have hword := h.wordLine
  unfold Scanner.flush
  generalize s.mode = mode, t.mode = mode' at hmode hword
  cases hmode with
  | word read => exact h.emit _ _ (hword read rfl)
  | symbol first => exact h.emit _ _ h.line
  | between | literal | escape => exact h

theorem endLine (h : Returned s t) : Returned s.endLine t.endLine := by
  refine ⟨h.mode, congrArg (· + 1) h.line, h.tokens, ?_, rfl, h.wordLine⟩
  simp only [Scanner.endLine, h.perLine, h.count]

/-- Where both scanners go next does not matter for what they have read. -/
theorem move (h : Returned s t) {mode mode' : Mode} (hmode : mode.Returned mode')
    (hword : ∀ read, mode = .word read → t.wordLine = s.wordLine) :
    Returned { s with mode } { t with mode := mode' } :=
  ⟨hmode, h.line, h.tokens, h.perLine, h.count, hword⟩

theorem feedBetween (h : Returned s t) (b : UInt8) :
    Returned (s.feedBetween b) (t.feedBetween b) := by
  unfold Scanner.feedBetween
  cases ByteClass.of b with
  | newline => exact h.endLine
  | carriageReturn | blank => exact h
  | quote =>
    refine ⟨?_, h.line, h.tokens, h.perLine, congrArg (· + 1) h.count, nofun⟩
    rw [h.line]
    exact .literal s.line .nil
  | separator => exact h.move (.symbol b) nofun
  | ordinary => exact ⟨.word [b], h.line, h.tokens, h.perLine, h.count, fun _ _ => h.line⟩

theorem extend (h : Returned s t) (start : Nat) {read read' : Bytes}
    (hread : LineScript.Returned read.reverse read'.reverse) (b : UInt8) :
    Returned (s.extend start read b) (t.extend start read' b) := by
  have hmode : Mode.Returned (.literal start (b :: read)) (.literal start (b :: read')) := by
    refine .literal start ?_
    rw [List.reverse_cons, List.reverse_cons]
    exact hread.byte b
  unfold Scanner.extend
  by_cases hb : b = 0x0a
  · rw [if_pos hb, if_pos hb]
    exact h.endLine.move hmode nofun
  · rw [if_neg hb, if_neg hb]
    exact h.move hmode nofun

/-- The same byte takes both scanners along. -/
theorem feed (h : Returned s t) (b : UInt8) : Returned (s.feed b) (t.feed b) := by
  have hmode := h.mode
  unfold Scanner.feed
  generalize hs : s.mode = mode, ht : t.mode = mode' at hmode
  cases hmode with
  | between => exact h.feedBetween b
  | word read =>
    cases ByteClass.of b with
    | ordinary => exact h.move (.word (b :: read)) fun _ _ => h.wordLine read hs
    | carriageReturn => exact h
    | newline | blank | quote | separator => exact h.flush.feedBetween b
  | symbol first =>
    by_cases hb : makesOperator first b = true
    · simp only [hb, if_true]
      exact h.emit _ _ h.line
    · simp only [hb]
      exact h.flush.feedBetween b
  | literal start hread =>
    by_cases hquote : b = 0x22
    · simp only [if_pos hquote]
      exact ⟨.between, h.line, h.push ⟨rfl, rfl, hread, fun hne => absurd rfl hne⟩, h.perLine,
        h.count, nofun⟩
    by_cases hslash : b = 0x5c
    · simp only [if_neg hquote, if_pos hslash]
      exact h.move (.escape start hread) nofun
    by_cases hreturn : b = 0x0d
    · simp only [if_neg hquote, if_neg hslash, if_pos hreturn]
      exact h
    · simp only [if_neg hquote, if_neg hslash, if_neg hreturn]
      exact h.extend start hread b
  | escape start hread =>
    by_cases hb : b = 0x0a
    · simp only [if_pos hb]
      exact h.extend start hread b
    · simp only [if_neg hb]
      refine h.move (.literal start ?_) nofun
      rw [List.reverse_cons, List.reverse_cons]
      exact hread.byte _

/-- A carriage return before a newline is dropped outside of literals, in words and in literals. After
a backslash it is kept. -/
theorem feed_newline (h : Returned s t) : Returned (s.feed 0x0a) ((t.feed 0x0d).feed 0x0a) := by
  have hmode := h.mode
  generalize hs : s.mode = mode, ht : t.mode = mode' at hmode
  cases hmode with
  | between | word | literal =>
    have hdropped : t.feed 0x0d = t := by
      simp only [Scanner.feed, ht]
      rfl
    rw [hdropped]
    exact h.feed 0x0a
  | symbol first =>
    have hout : s.flush.mode = .between := by simp [Scanner.flush, hs, Scanner.emit]
    have hout' : t.flush.mode = .between := by simp [Scanner.flush, ht, Scanner.emit]
    have hdropped : t.feed 0x0d = t.flush := by
      simp only [Scanner.feed, ht,
        makesOperator_eq_false (by decide : (0x0d : UInt8) ≠ 0x3d) (by decide) (by decide) first]
      rfl
    have hends : t.flush.feed 0x0a = t.flush.endLine := by
      rw [Scanner.feed_newline (by rw [flush_of_between hout', hout']), flush_of_between hout']
    rw [hdropped, hends, Scanner.feed_newline hout]
    exact h.flush.endLine
  | @escape start read read' hread =>
    have hescaped : s.feed 0x0a = { s.endLine with mode := .literal start (0x0a :: read) } := by
      simp only [Scanner.feed, hs]
      rfl
    have hkept : (t.feed 0x0d).feed 0x0a =
        { t.endLine with mode := .literal start (0x0a :: 0x0d :: read') } := by
      simp only [Scanner.feed, ht]
      rfl
    rw [hescaped, hkept]
    refine h.endLine.move (.literal start ?_) fun read hword => ?_
    · simpa using hread.newline
    · cases hword

theorem foldl_feed (h : Returned s t) (source : Bytes) :
    Returned (source.foldl Scanner.feed s) ((withReturns source).foldl Scanner.feed t) := by
  induction source using List.reverseRecOn with
  | nil => exact h
  | append_singleton source b ih =>
    rw [List.foldl_append]
    by_cases hb : b = 0x0a
    · rw [hb, withReturns_newline, List.foldl_append, List.foldl_append]
      exact ih.feed_newline
    · rw [withReturns_byte _ hb, List.foldl_append]
      exact ih.feed b

/-- At the end both scanners have an open literal that began on the same line, or none has. -/
theorem finish (h : Returned s t) :
    t.finish.2 = s.finish.2 ∧ t.finish.1.perLine = s.finish.1.perLine ∧
      List.Forall₂ Token.Returned s.finish.1.tokens.toList t.finish.1.tokens.toList := by
  have hmode := h.mode
  have hflush := h.flush
  unfold Scanner.finish
  generalize s.mode = mode, t.mode = mode' at hmode
  cases hmode with
  | between | word | symbol =>
    refine ⟨rfl, ?_, hflush.tokens⟩
    simp only [closeLine, hflush.perLine, hflush.count]
  | literal start | escape start =>
    refine ⟨rfl, ?_, h.tokens⟩
    simp only [closeLine, h.perLine, h.line, h.count]

end Returned

theorem returned_after (source : Bytes) :
    (after source).Returned (after (withReturns source)) := by
  have hstart : Returned { rest := [] } { rest := [] } := ⟨.between, rfl, .nil, rfl, rfl, nofun⟩
  exact hstart.foldl_feed source

end Scanner

open Scanner

/-! ## Escaped newlines -/

/-- After `pre` there is a newline in the source, and it stands after a backslash in a literal. -/
def EscapesNewline (source pre : Bytes) : Prop :=
  pre ++ [0x0a] <+: source ∧ Quoting.after pre = .escaped

theorem escapesNewline_append_singleton {source pre : Bytes} {b : UInt8} :
    EscapesNewline (source ++ [b]) pre ↔
      EscapesNewline source pre ∨
        (pre = source ∧ b = 0x0a ∧ Quoting.after source = .escaped) := by
  unfold EscapesNewline
  rw [List.prefix_concat_iff]
  constructor
  · rintro ⟨heq | hbefore, hescaped⟩
    · obtain ⟨rfl, hb⟩ := List.append_inj' heq rfl
      exact .inr ⟨rfl, (List.cons.inj hb).1.symm, hescaped⟩
    · exact .inl ⟨hbefore, hescaped⟩
  · rintro (⟨hbefore, hescaped⟩ | ⟨rfl, rfl, hescaped⟩)
    · exact ⟨.inr hbefore, hescaped⟩
    · exact ⟨.inl rfl, hescaped⟩

/-- Quotes and backslashes are where they were. -/
theorem quoting_withReturns (source : Bytes) :
    Quoting.after (withReturns source) = Quoting.after source := by
  induction source using List.reverseRecOn with
  | nil => rfl
  | append_singleton source b ih =>
    by_cases hb : b = 0x0a
    · rw [hb, withReturns_newline, Quoting.after_append_singleton,
        Quoting.after_append_singleton, Quoting.after_append_singleton, ih]
      cases Quoting.after source <;> rfl
    · rw [withReturns_byte _ hb, Quoting.after_append_singleton, Quoting.after_append_singleton, ih]

/-- A carriage return is kept for each escaped newline. -/
theorem length_kept_withReturns (source : Bytes) :
    (kept source).length ≤ (kept (withReturns source)).length ∧
      ((kept source).length = (kept (withReturns source)).length ↔
        ∀ pre, ¬ EscapesNewline source pre) := by
  induction source using List.reverseRecOn with
  | nil =>
    refine ⟨Nat.le_refl _, iff_of_true rfl ?_⟩
    rintro pre ⟨hpre, -⟩
    have hlength := hpre.length_le
    simp at hlength
  | append_singleton source b ih =>
    obtain ⟨hle, hiff⟩ := ih
    -- what a newline adds depends on whether it is escaped, any other byte adds the same
    by_cases hnew : b = 0x0a ∧ Quoting.after source = .escaped
    · obtain ⟨rfl, hescaped⟩ := hnew
      rw [withReturns_newline, kept_append_singleton, kept_append_singleton, kept_append_singleton,
        Quoting.after_append_singleton, quoting_withReturns, hescaped]
      have hone : Quoting.escaped.keeps 0x0a = [0x0a] := rfl
      have htwo : Quoting.escaped.keeps 0x0d = [0x0d] := rfl
      have hnext : (Quoting.escaped.next 0x0d).keeps 0x0a = [0x0a] := rfl
      rw [hone, htwo, hnext]
      simp only [List.length_append, List.length_cons, List.length_nil]
      refine ⟨by omega, iff_of_false (by omega) fun hnone => ?_⟩
      exact hnone source (escapesNewline_append_singleton.mpr (.inr ⟨rfl, rfl, hescaped⟩))
    · have hsame : (kept (withReturns (source ++ [b]))).length =
          (kept (withReturns source)).length + ((Quoting.after source).keeps b).length := by
        by_cases hb : b = 0x0a
        · subst hb
          rw [withReturns_newline, kept_append_singleton, kept_append_singleton,
            Quoting.after_append_singleton, quoting_withReturns]
          cases hquoting : Quoting.after source with
          | outside | inside =>
            rw [List.append_assoc, List.length_append]
            rfl
          | escaped => exact absurd ⟨rfl, hquoting⟩ hnew
        · rw [withReturns_byte _ hb, kept_append_singleton, quoting_withReturns,
            List.length_append]
      have hfew : (∀ pre, ¬ EscapesNewline (source ++ [b]) pre) ↔
          ∀ pre, ¬ EscapesNewline source pre := by
        refine forall_congr' fun pre => not_congr ?_
        rw [escapesNewline_append_singleton]
        exact or_iff_left fun h => hnew h.2
      rw [hsame, kept_append_singleton, List.length_append, hfew, ← hiff]
      exact ⟨by omega, by omega⟩

/-- A quote stands after the same bytes, with their carriage returns. -/
theorem exists_of_prefix_withReturns {source other : Bytes}
    (h : other ++ [0x22] <+: withReturns source) :
    ∃ pre, other = withReturns pre ∧ pre ++ [0x22] <+: source := by
  have hlast : ∀ {a : Bytes} {b : UInt8}, b ≠ 0x22 → other ++ [0x22] <+: a ++ [b] →
      other ++ [0x22] <+: a := by
    intro a b hb hpre
    rcases List.prefix_concat_iff.mp hpre with heq | hbefore
    · have hquote := (List.append_inj' heq rfl).2
      exact absurd (List.cons.inj hquote).1.symm hb
    · exact hbefore
  induction source using List.reverseRecOn with
  | nil =>
    have hlength := h.length_le
    simp [withReturns] at hlength
  | append_singleton source b ih =>
    have hmore : other ++ [0x22] <+: withReturns source →
        ∃ pre, other = withReturns pre ∧ pre ++ [0x22] <+: source ++ [b] := by
      intro hbefore
      obtain ⟨pre, heq, hpre⟩ := ih hbefore
      exact ⟨pre, heq, hpre.trans (List.prefix_append _ _)⟩
    by_cases hnewline : b = 0x0a
    · rw [hnewline, withReturns_newline] at h
      exact hmore (hlast (by decide) (hlast (by decide) h))
    rw [withReturns_byte _ hnewline] at h
    by_cases hquote : b = 0x22
    · subst hquote
      rcases List.prefix_concat_iff.mp h with heq | hbefore
      · exact ⟨source, (List.append_inj' heq rfl).1, List.prefix_rfl⟩
      · exact hmore hbefore
    · exact hmore (hlast hquote h)

theorem LastOpening.withReturns {source pre : Bytes} (h : LastOpening source pre) :
    LastOpening (withReturns source) (withReturns pre) := by
  have hmono : ∀ {a b : Bytes}, a <+: b →
      LineScript.withReturns a <+: LineScript.withReturns b := by
    rintro a b ⟨rest, rfl⟩
    rw [withReturns_append]
    exact List.prefix_append _ _
  refine ⟨⟨?_, (quoting_withReturns pre).trans h.opens.2⟩, ?_⟩
  · have hquote := hmono h.opens.1
    rwa [withReturns_byte _ (by decide)] at hquote
  · rintro other ⟨hother, houtside⟩
    obtain ⟨pre', rfl, hpre'⟩ := exists_of_prefix_withReturns hother
    rw [quoting_withReturns] at houtside
    have hshort := h.last pre' ⟨hpre', houtside⟩
    have hboth : pre' <+: pre := List.prefix_of_prefix_length_le
      ((List.prefix_append _ _).trans hpre') ((List.prefix_append _ _).trans h.opens.1) hshort
    exact (hmono hboth).length_le

/-! ## Whole sources -/

/-- From a place outside of literals to one inside there is a quote that opens a literal. -/
theorem exists_opensLiteral {part rest : Bytes} (hpart : Quoting.after part = .outside)
    (hopen : Quoting.after (part ++ rest) ≠ .outside) :
    ∃ other, part.length ≤ other.length ∧ OpensLiteral (part ++ rest) other := by
  induction rest generalizing part with
  | nil =>
    rw [List.append_nil] at hopen
    exact absurd hpart hopen
  | cons b rest ih =>
    have hsplit : part ++ b :: rest = (part ++ [b]) ++ rest := by simp
    rw [hsplit] at hopen ⊢
    by_cases hb : b = 0x22
    · subst hb
      exact ⟨part, Nat.le_refl _, List.prefix_append _ _, hpart⟩
    · have hnext : Quoting.after (part ++ [b]) = .outside := by
        rw [Quoting.after_append_singleton, hpart]
        exact next_outside hb
      obtain ⟨other, hlength, hother⟩ := ih hnext hopen
      rw [List.length_append] at hlength
      exact ⟨other, by omega, hother⟩

/-- The longest part of a source that ends outside of literals: all lexemes are from there, whichever
way the lines end. -/
theorem exists_closed_part (source : Bytes) :
    ∃ part, part <+: source ∧ Quoting.after part = .outside ∧
      (∀ other, other <+: source → Quoting.after other = .outside → other <+: part) ∧
      (tokenize source).tokens.flatMap Token.lexeme = kept part ∧
      (tokenize (withReturns source)).tokens.flatMap Token.lexeme = kept (withReturns part) := by
  by_cases hout : Quoting.after source = .outside
  · have hreturns := (quoting_withReturns source).trans hout
    exact ⟨source, List.prefix_rfl, hout, fun other hother _ => hother,
      flatMap_lexeme_tokenize ((unterminated_eq_none_iff _).mpr hout),
      flatMap_lexeme_tokenize ((unterminated_eq_none_iff _).mpr hreturns)⟩
  · obtain ⟨pre, hpre⟩ := openSince_after hout
    have hshorter : pre <+: source := (List.prefix_append _ _).trans hpre.last.opens.1
    have hreturns : Quoting.after (withReturns source) ≠ .outside := by
      rwa [quoting_withReturns]
    refine ⟨pre, hshorter, hpre.last.opens.2, ?_, flatMap_lexeme_of_open hout hpre.last,
      flatMap_lexeme_of_open hreturns hpre.last.withReturns⟩
    rintro other ⟨rest, rfl⟩ hother
    obtain ⟨later, hlength, hopens⟩ := exists_opensLiteral hother hout
    have hlast := hpre.last.last later hopens
    exact List.prefix_of_prefix_length_le (List.prefix_append _ _) hshorter (by omega)

/-- A source with a carriage return before every newline gives the same counts and the same open
literal, and tokens of the same kinds and on the same lines. Their lexemes are the same too, but for
carriage returns before newlines in texts of literals. Nothing at all changes if and only if no
newline is escaped in a literal that is closed. -/
theorem tokenize_withReturns (source : Bytes) :
    (tokenize (withReturns source)).unterminated = (tokenize source).unterminated ∧
      (tokenize (withReturns source)).perLine = (tokenize source).perLine ∧
      List.Forall₂ Token.Returned (tokenize source).tokens (tokenize (withReturns source)).tokens ∧
      (tokenize (withReturns source) = tokenize source ↔
        ∀ part pre, part <+: source → Quoting.after part = .outside →
          ¬ EscapesNewline part pre) := by
  obtain ⟨hunterminated, hperLine, htokens⟩ := (returned_after source).finish
  have hcounts : (tokenize (withReturns source)).perLine = (tokenize source).perLine :=
    congrArg Array.toList hperLine
  refine ⟨hunterminated, hcounts, htokens, ?_⟩
  obtain ⟨part, hpart, hout, hlongest, hlexemes, hreturns⟩ := exists_closed_part source
  have hescaped := (length_kept_withReturns part).2
  rw [← hlexemes, ← hreturns] at hescaped
  constructor
  · intro hsame other pre hother houtside hescapes
    have hnone := hescaped.mp (by rw [hsame])
    exact hnone pre ⟨hescapes.1.trans (hlongest other hother houtside), hescapes.2⟩
  · intro hnone
    have hlength := hescaped.mpr fun pre => hnone part pre hpart hout
    have hsame : (tokenize source).tokens = (tokenize (withReturns source)).tokens :=
      (tokens_eq_of_length htokens).2 hlength
    calc tokenize (withReturns source)
        = ⟨(tokenize (withReturns source)).tokens, (tokenize (withReturns source)).perLine,
            (tokenize (withReturns source)).unterminated⟩ := rfl
      _ = ⟨(tokenize source).tokens, (tokenize source).perLine,
            (tokenize source).unterminated⟩ := by
          rw [← hsame, hcounts]
          exact congrArg _ hunterminated
      _ = tokenize source := rfl

/-- After a backslash in a literal the carriage return is read as the escaped byte, so that it is in
the text of the literal. -/
theorem tokenize_withReturns_escaped :
    let source := bytes "\"a\\\nb\""
    0x0d ∉ source ∧
      tokenize source = ⟨[⟨.string, bytes "a\nb", 1⟩], [1, 0], none⟩ ∧
      tokenize (withReturns source) = ⟨[⟨.string, bytes "a\r\nb", 1⟩], [1, 0], none⟩ ∧
      tokenize (withReturns source) ≠ tokenize source := by
  intro source
  exact ⟨by decide, by decide, by decide, by decide⟩

end LineScript
