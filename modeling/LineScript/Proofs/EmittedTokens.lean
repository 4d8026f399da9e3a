import LineScript.Proofs.OpenLiterals
import LineScript.Proofs.SourceLayout
import LineScript.Proofs.TokenWriting

/-!
# Tokens that a scanner emits

Every token of a source is well formed (`Kind.Admits`), also when the source has a string literal
without end, and every well-formed token is a token of some source.

How tokens stand in a source is known from its layout: a word begins with a byte of a word, and of
those after it only carriage returns are dropped. So a word is never empty and holds nothing that
could end it, and what remains is to compare the kind that is chosen for it with its bytes.
-/

namespace LineScript

/-! ## Words -/

theorem not_delimiter_of_ordinary {b : UInt8} (hb : ByteClass.of b = .ordinary) :
    b ∉ delimiters := by
  have hall : delimiters.all fun b => ByteClass.of b ≠ .ordinary := by decide
  intro hmem
  exact of_decide_eq_true (List.all_eq_true.mp hall b hmem) hb

/-- The kind of a word is that of the first form that it has. -/
theorem wordKind_admits {w : Bytes} (hne : w ≠ []) (hw : ∀ b ∈ w, ByteClass.of b = .ordinary) :
    (wordKind w).Admits w := by
  by_cases hkeyword : ∃ k : Keyword, w = k.text
  · obtain ⟨k, rfl⟩ := hkeyword
    rw [wordKind_keyword]
    exact .keyword k
  by_cases hint : IsDigits w
  · rw [wordKind_digits hint.1 hint.2]
    exact .int hint
  by_cases hfloat : IsDecimals w
  · rw [wordKind_decimals hfloat]
    exact .float hfloat
  · have hother := not_exists.mp hkeyword
    rw [wordKind_other hne hother hint hfloat]
    exact .identifier hne (fun b hb => not_delimiter_of_ordinary (hw b hb)) hother hint hfloat

theorem wordOf_ordinary {first : UInt8} {rest : Bytes} (hfirst : ByteClass.of first = .ordinary)
    (hrest : WordRest rest) : ∀ b ∈ wordOf first rest, ByteClass.of b = .ordinary := by
  refine List.forall_mem_cons.mpr ⟨hfirst, fun b hb => ?_⟩
  obtain ⟨hmem, hkept⟩ := List.mem_filter.mp hb
  exact (hrest b hmem).resolve_right (of_decide_eq_true hkept)

/-! ## Separators -/

theorem mem_separators {c : UInt8} (hc : ByteClass.of c = .separator) : c ∈ separators := by
  have hdelimiter : c ∈ delimiters := by
    refine Decidable.byContradiction fun hnot => ?_
    rw [byteClass_of_not_delimiter hnot] at hc
    cases hc
  have hall : delimiters.all fun b => ByteClass.of b = .separator → b ∈ separators := by decide
  exact of_decide_eq_true (List.all_eq_true.mp hall c hdelimiter) hc

/-- A separator by itself is a mark of punctuation or an operator. -/
theorem separatorKind_admits {c : UInt8} (hc : c ∈ separators) : (separatorKind c).Admits [c] := by
  have hall : separators.all fun c => (separatorKind c, [c]) ∈ punctuation ∨
      separatorKind c = .operator ∧ [c] ∈ operators := by decide
  rcases of_decide_eq_true (List.all_eq_true.mp hall c hc) with hmark | ⟨hkind, hoperator⟩
  · exact .punctuation hmark
  · rw [hkind]
    exact .operator hoperator

theorem mem_operators {c d : UInt8} (h : makesOperator c d = true) : [c, d] ∈ operators := by
  simp only [makesOperator, Bool.or_eq_true, Bool.and_eq_true, beq_iff_eq,
    List.contains_iff_mem] at h
  rcases h with ⟨rfl, hc⟩ | ⟨rfl, rfl | rfl⟩
  · have hall : ([0x3d, 0x21, 0x3c, 0x3e, 0x2b, 0x2d, 0x2a, 0x2f] : Bytes).all fun c =>
        [c, 0x3d] ∈ operators := by decide
    exact of_decide_eq_true (List.all_eq_true.mp hall c hc)
  · decide
  · decide

/-! ## Sources -/

theorem TokenText.admits {kind : Kind} {lexeme text : Bytes} (h : TokenText kind lexeme text) :
    kind.Admits lexeme := by
  cases h with
  | word hfirst hrest => exact wordKind_admits (List.cons_ne_nil _ _) (wordOf_ordinary hfirst hrest)
  | separator hc => exact separatorKind_admits (mem_separators hc)
  | operator hc hcd => exact .operator (mem_operators hcd)
  | literal => exact .string lexeme

open Scanner

/-- Every token of a source stands somewhere in it, also when a literal is left open. -/
theorem tokenText_of_mem_tokenize {source : Bytes} {t : Token}
    (ht : t ∈ (tokenize source).tokens) : ∃ text, TokenText t.kind t.lexeme text := by
  obtain ⟨pre, hnone, htokens⟩ : ∃ pre, (tokenize pre).unterminated = none ∧
      (tokenize source).tokens = (tokenize pre).tokens := by
    by_cases hout : Quoting.after source = .outside
    · exact ⟨source, (unterminated_eq_none_iff source).mpr hout, rfl⟩
    · obtain ⟨pre, hsince⟩ := openSince_after hout
      exact ⟨pre, hsince.tokenize_eq⟩
  obtain ⟨spots, hlayout, hspots, -⟩ := tokenize_layout hnone
  rw [htokens, ← hspots] at ht
  obtain ⟨p, hp, rfl⟩ := List.mem_map.mp ht
  exact hlayout.tokenText p hp

/-- What is written for a well-formed token has that token. -/
theorem Kind.Admits.mem_tokenize {kind : Kind} {lexeme : Bytes} (h : kind.Admits lexeme) :
    ∃ t ∈ (tokenize (writeToken (kind, lexeme))).tokens, t.kind = kind ∧ t.lexeme = lexeme := by
  obtain ⟨hmode, hlexemes⟩ := h.spells { rest := [] } rfl
  have hnone : (tokenize (writeToken (kind, lexeme))).unterminated = none :=
    (flush_mode_iff (after (writeToken (kind, lexeme)))).mp hmode
  have hmem : (kind, lexeme) ∈ (after (writeToken (kind, lexeme))).flush.lexemes := by
    rw [after, hlexemes]
    exact List.mem_singleton_self _
  obtain ⟨t, ht, heq⟩ := List.mem_map.mp hmem
  rw [tokenize_tokens hnone]
  exact ⟨t, ht, congrArg Prod.fst heq, congrArg Prod.snd heq⟩

/-- The tokens of sources are the well-formed ones: every source has well-formed tokens only, whether
it has an open literal or not, and every well-formed token is one of some source. -/
theorem tokenize_admits :
    (∀ source, ∀ t ∈ (tokenize source).tokens, t.kind.Admits t.lexeme) ∧
      ∀ kind lexeme, kind.Admits lexeme →
        ∃ source, ∃ t ∈ (tokenize source).tokens, t.kind = kind ∧ t.lexeme = lexeme := by
  refine ⟨fun source t ht => ?_, fun kind lexeme h => ⟨_, h.mem_tokenize⟩⟩
  obtain ⟨text, htext⟩ := tokenText_of_mem_tokenize ht
  exact htext.admits

/-- Carriage returns in a keyword and in numbers, a word that only looks like a number, two operators
that a carriage return keeps apart, and a literal that is left open. -/
theorem tokenize_admits_open_literal :
    let source := bytes "ca\rt(1\r.5 .5 0\r7\x7d+\r=x--\"a b\";\"c"
    (tokenize source).unterminated = some 1 ∧
      (tokenize source).tokens.map (fun t => (t.kind, t.lexeme)) =
        [(.keyword, bytes "cat"), (.lparen, bytes "("), (.float, bytes "1.5"),
          (.identifier, bytes ".5"), (.int, bytes "07"), (.rbrace, bytes "\x7d"),
          (.operator, bytes "+"), (.operator, bytes "="), (.identifier, bytes "x"),
          (.operator, bytes "--"), (.string, bytes "a b"), (.lineEnd, bytes ";")] ∧
      (∀ t ∈ (tokenize source).tokens, t.kind.Admits t.lexeme) ∧
      ∃ source, ∃ t ∈ (tokenize source).tokens, t.kind = .operator ∧ t.lexeme = bytes "%" := by
  intro source
  obtain ⟨hemitted, hsome⟩ := tokenize_admits
  have hpercent : Kind.Admits .operator (bytes "%") := .operator (by decide)
  exact ⟨by decide, by decide, hemitted source, hsome .operator (bytes "%") hpercent⟩

end LineScript
