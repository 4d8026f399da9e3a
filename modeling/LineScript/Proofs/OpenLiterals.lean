import LineScript.Proofs.ScannerSteps

/-!
# Open string literals

Whether a source ends inside of a string literal can be told from quotes and backslashes alone, by
an automaton of three states (`Quoting`). A scanner goes through the same states, whatever else it
does. While a literal is open no token is added, so a source with a literal that is never closed has
the tokens of what stands before the quote that opened it.
-/

namespace LineScript

/-! ## Quotes -/

/-- Where a place in a source is with respect to string literals. -/
inductive Quoting where
  | outside
  | inside
  /-- Inside, and right after a backslash. -/
  | escaped
  deriving DecidableEq, Repr

namespace Quoting

/-- One more byte. -/
def next : Quoting → UInt8 → Quoting
  | outside, b => if b = 0x22 then inside else outside
  | inside, b => if b = 0x22 then outside else if b = 0x5c then escaped else inside
  | escaped, _ => inside

/-- The end of a source. -/
def after (source : Bytes) : Quoting := source.foldl next outside

theorem after_append_singleton (source : Bytes) (b : UInt8) :
    after (source ++ [b]) = (after source).next b := List.foldl_append

end Quoting

/-- After `pre` there is a quote in the source, and it opens a literal. -/
def OpensLiteral (source pre : Bytes) : Prop :=
  pre ++ [0x22] <+: source ∧ Quoting.after pre = .outside

/-- After `pre` there is the last quote that opens a literal. -/
structure LastOpening (source pre : Bytes) : Prop where
  opens : OpensLiteral source pre
  last : ∀ other, OpensLiteral source other → other.length ≤ pre.length

namespace LastOpening

variable {source pre : Bytes}

theorem unique {pre' : Bytes} (h : LastOpening source pre) (h' : LastOpening source pre') :
    pre = pre' := by
  have hlength : pre.length = pre'.length :=
    Nat.le_antisymm (h'.last pre h.opens) (h.last pre' h'.opens)
  have hpre : pre ++ [0x22] <+: pre' ++ [0x22] :=
    List.prefix_of_prefix_length_le h.opens.1 h'.opens.1 (by simp [hlength])
  exact List.append_cancel_right (hpre.eq_of_length (by simp [hlength]))

theorem start (h : Quoting.after source = .outside) : LastOpening (source ++ [0x22]) source := by
  refine ⟨⟨List.prefix_rfl, h⟩, fun other hother => ?_⟩
  have hlength := hother.1.length_le
  simpa using hlength

/-- A byte that is read inside of a literal opens none. -/
theorem extend (h : LastOpening source pre) (hinside : Quoting.after source ≠ .outside)
    (b : UInt8) : LastOpening (source ++ [b]) pre := by
  refine ⟨⟨h.opens.1.trans (List.prefix_append source [b]), h.opens.2⟩, ?_⟩
  rintro other ⟨hpre, houtside⟩
  rcases List.prefix_concat_iff.mp hpre with heq | hbefore
  · have hother : other = source := (List.append_inj' heq rfl).1
    rw [hother] at houtside
    exact absurd houtside hinside
  · exact h.last other ⟨hbefore, houtside⟩

end LastOpening

/-! ## Scanners -/

namespace Mode

/-- Where a scanner in this mode is with respect to string literals. -/
def quoting : Mode → Quoting
  | literal _ _ => .inside
  | escape _ _ => .escaped
  | between | word _ | symbol _ => .outside

/-- The line where the open literal began. -/
def start? : Mode → Option Nat
  | literal start _ | escape start _ => some start
  | between | word _ | symbol _ => none

theorem start?_eq_none_iff {mode : Mode} : mode.start? = none ↔ mode.quoting = .outside := by
  cases mode <;> simp [start?, quoting]

end Mode

namespace Scanner

variable {s s' : Scanner} {b : UInt8}

theorem quoting_of_outside (hs : s.flush.mode = .between) : s.mode.quoting = .outside := by
  cases hmode : s.mode with
  | between | word _ | symbol _ => rfl
  | literal start read | escape start read => simp [flush, hmode] at hs

/-- Outside of literals only a quote opens one. -/
theorem next_outside (hb : b ≠ 0x22) : Quoting.next .outside b = .outside := if_neg hb

theorem ne_quote_of_class {c : ByteClass} (hb : ByteClass.of b = c) (hc : c ≠ .quote) :
    b ≠ 0x22 := by
  rintro rfl
  exact hc hb.symm

/-- The scanner takes each byte as the automaton does. -/
theorem Reads.quoting (h : s.Reads b s') : s'.mode.quoting = s.mode.quoting.next b := by
  cases h with
  | newline hs =>
    rw [quoting_of_outside hs]
    exact congrArg Mode.quoting hs
  | skip hs hb =>
    have hne : b ≠ 0x22 := by
      rcases hb with hb | hb
      · exact ne_quote_of_class hb (by decide)
      · exact ne_quote_of_class hb (by decide)
    rw [quoting_of_outside hs, next_outside hne]
    exact congrArg Mode.quoting hs
  | quote hs =>
    rw [quoting_of_outside hs]
    rfl
  | separator hs hb | ordinary hs hb =>
    rw [quoting_of_outside hs, next_outside (ne_quote_of_class hb (by decide))]
    rfl
  | @operator first b hs hb =>
    have hne : b ≠ 0x22 := by
      rintro rfl
      rw [makesOperator_eq_false (by decide) (by decide) (by decide)] at hb
      cases hb
    rw [hs]
    exact (next_outside hne).symm
  | inWord hs hb =>
    rw [hs]
    exact (next_outside (ne_quote_of_class hb (by decide))).symm
  | returnInWord hs =>
    rw [hs]
    rfl
  | closing hs | backslash hs | returnInLiteral hs | newlineInLiteral hs =>
    rw [hs]
    rfl
  | inLiteral hs hquote hslash =>
    rw [hs]
    simp [Mode.quoting, Quoting.next, hquote, hslash]
  | escapedNewline hs | escaped hs =>
    rw [hs]
    rfl

theorem quoting_after (source : Bytes) : (after source).mode.quoting = Quoting.after source := by
  refine after_induction (P := fun source s => s.mode.quoting = Quoting.after source) rfl ?_ source
  intro source b s ih h
  rw [h.quoting, ih, Quoting.after_append_singleton]

/-- A literal is opened by a quote, on the line of that quote and after what was open before. It
stays open without a token being added. -/
theorem Reads.start?_cases (h : s.Reads b s') :
    s'.mode.start? = none ∨
      (b = 0x22 ∧ s.mode.quoting = .outside ∧ s'.mode.start? = some s.line ∧
        s'.tokens = s.flush.tokens) ∨
      (s.mode.quoting ≠ .outside ∧ s'.mode.start? = s.mode.start? ∧ s'.tokens = s.tokens) := by
  cases h with
  | newline hs | skip hs =>
    left
    exact congrArg Mode.start? hs
  | quote hs =>
    right; left
    exact ⟨rfl, quoting_of_outside hs, congrArg some (line_flush s), rfl⟩
  | separator | ordinary | operator | inWord | closing =>
    left
    rfl
  | returnInWord hs =>
    left
    rw [hs]
    rfl
  | backslash hs | returnInLiteral hs | newlineInLiteral hs | inLiteral hs | escapedNewline hs
    | escaped hs =>
    right; right
    rw [hs]
    exact ⟨nofun, rfl, rfl⟩

/-- The scanner is in a literal that was opened after `pre`. -/
structure OpenSince (s : Scanner) (source pre : Bytes) : Prop where
  last : LastOpening source pre
  start : s.mode.start? = some (1 + pre.count 0x0a)
  tokens : s.tokens = (after pre).flush.tokens

theorem openSince_after {source : Bytes} (h : Quoting.after source ≠ .outside) :
    ∃ pre, (after source).OpenSince source pre := by
  rw [← quoting_after] at h
  revert h
  refine after_induction
    (P := fun source s => s.mode.quoting ≠ .outside → ∃ pre, s.OpenSince source pre) ?_ ?_ source
  · intro h
    exact absurd rfl h
  intro source b s ih hreads hopen
  rcases hreads.start?_cases with hnone | ⟨rfl, hout, hstart, htokens⟩ | ⟨hin, hstart, htokens⟩
  · exact absurd (Mode.start?_eq_none_iff.mp hnone) hopen
  · rw [quoting_after] at hout
    rw [line_after] at hstart
    exact ⟨source, .start hout, hstart, htokens⟩
  · obtain ⟨pre, hpre⟩ := ih hin
    rw [quoting_after] at hin
    exact ⟨pre, hpre.last.extend hin b, hstart.trans hpre.start, htokens.trans hpre.tokens⟩

/-- A literal that is open at the end adds no token and is named by its line. -/
theorem finish_of_open {start : Nat} (h : s.mode.start? = some start) :
    s.finish.1.tokens = s.tokens ∧ s.finish.2 = some start := by
  cases hmode : s.mode with
  | between | word _ | symbol _ =>
    rw [hmode] at h
    cases h
  | literal start' read | escape start' read =>
    rw [hmode] at h
    cases h
    simp [finish, hmode, closeLine]

end Scanner

open Scanner

/-- A source is refused for a literal without end if and only if the quotes say so. -/
theorem unterminated_eq_none_iff (source : Bytes) :
    (tokenize source).unterminated = none ↔ Quoting.after source = .outside := by
  rw [← quoting_after, ← Mode.start?_eq_none_iff, tokenize_eq]
  show (after source).finish.2 = none ↔ (after source).mode.start? = none
  cases hmode : (after source).mode <;> simp [finish, hmode, Mode.start?]

/-- While a literal is open, the tokens are those of what stands before it. -/
theorem Scanner.OpenSince.tokenize_eq {source pre : Bytes} (h : (after source).OpenSince source pre) :
    (tokenize pre).unterminated = none ∧ (tokenize source).tokens = (tokenize pre).tokens := by
  have hnone := (unterminated_eq_none_iff pre).mpr h.last.opens.2
  refine ⟨hnone, ?_⟩
  rw [tokenize_tokens hnone, ← h.tokens, ← (finish_of_open h.start).1]
  rfl

/-- A source has a literal without end if and only if the automaton does not end outside. The last
quote that opens a literal is then the one without an end: what stands before it is tokenized
without a fault, all tokens are from there, and the literal is named by the line of that quote. -/
theorem tokenize_unterminated (source : Bytes) :
    ((tokenize source).unterminated ≠ none ↔ Quoting.after source ≠ .outside) ∧
      (Quoting.after source ≠ .outside →
        (∃ pre, LastOpening source pre) ∧
          ∀ pre, LastOpening source pre →
            (tokenize pre).unterminated = none ∧
              (tokenize source).tokens = (tokenize pre).tokens ∧
              (tokenize source).unterminated = some (1 + pre.count 0x0a)) := by
  refine ⟨not_congr (unterminated_eq_none_iff source), fun hopen => ?_⟩
  obtain ⟨pre, hpre⟩ := openSince_after hopen
  refine ⟨⟨pre, hpre.last⟩, fun pre' hlast => ?_⟩
  rw [hlast.unique hpre.last]
  obtain ⟨hnone, htokens⟩ := hpre.tokenize_eq
  exact ⟨hnone, htokens, (finish_of_open hpre.start).2⟩

/-- A literal is closed, an operator waits for its second byte, and then a literal is opened that
has an escaped quote and a newline in it and ends with a backslash. -/
theorem tokenize_unterminated_backslash :
    let source := bytes "x\n\"a\" +\"b\\\"\nc\\"
    Quoting.after source ≠ .outside ∧
      (tokenize source).tokens =
        [⟨.identifier, bytes "x", 1⟩, ⟨.string, bytes "a", 2⟩, ⟨.operator, bytes "+", 2⟩] ∧
      (tokenize source).unterminated = some 2 ∧
      ∃ pre, LastOpening source pre ∧ (tokenize pre).unterminated = none ∧
        (tokenize source).tokens = (tokenize pre).tokens ∧
        (tokenize source).unterminated = some (1 + pre.count 0x0a) := by
  intro source
  have hopen : Quoting.after source ≠ .outside := by decide
  obtain ⟨⟨pre, hlast⟩, hall⟩ := (tokenize_unterminated source).2 hopen
  exact ⟨hopen, by decide, by decide, pre, hlast, hall pre hlast⟩

end LineScript
