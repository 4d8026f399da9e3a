import LineScript.Proofs.ScannerSteps

/-!
# Sources line by line

A newline outside of string literals leaves nothing open: a word, an operator that waits for its
second byte and the count of the line all end with it. So a source that ends outside of string
literals can be cut off there, and what follows is tokenized as if it stood alone. The line numbers
after the cut are counted on from the lines before it, of which each has its count of tokens
(`Scanner.Numbered`).
-/

namespace LineScript

namespace Scanner

/-! ## Counts of finished lines -/

/-- The lines before the current one are those whose tokens have been counted. -/
def Numbered (s : Scanner) : Prop := s.line = s.perLine.size + 1

namespace Numbered

variable {s : Scanner}

theorem flush (h : s.Numbered) : s.flush.Numbered := by
  unfold Scanner.flush
  split <;> exact h

theorem endLine (h : s.Numbered) : s.endLine.Numbered := by
  have hsize : s.endLine.perLine.size = s.perLine.size + 1 := Array.size_push _
  show s.line + 1 = s.endLine.perLine.size + 1
  rw [hsize, ← h]

end Numbered

/-- A line is counted when it ends, inside of a literal or not. -/
theorem Reads.numbered {s s' : Scanner} {b : UInt8} (hreads : s.Reads b s') (h : s.Numbered) :
    s'.Numbered := by
  cases hreads with
  | newline => exact h.flush.endLine
  | newlineInLiteral | escapedNewline => exact h.endLine
  | skip | quote | separator | ordinary => exact h.flush
  | operator | inWord | returnInWord | closing | backslash | returnInLiteral | inLiteral
    | escaped => exact h

theorem numbered_after (source : Bytes) : (after source).Numbered := by
  refine after_induction (P := fun _ s => s.Numbered) rfl ?_ source
  intro source b s ih hreads
  exact hreads.numbered ih

end Scanner

open Scanner

/-- Without an open literal, the last line has the tokens that were counted and the one that is
open. -/
theorem tokenize_perLine {source : Bytes} (h : (tokenize source).unterminated = none) :
    (tokenize source).perLine = (after source).flush.endLine.perLine.toList := by
  have hout := (flush_mode_iff (after source)).mpr h
  rw [tokenize_eq, finish_of_outside hout]
  rfl

/-! ## Cutting at a newline -/

/-- Tokenizing goes line by line: what stands after a newline outside of string literals adds its
tokens, its counts and its open literal to those before, with all its lines moved down by as many
lines as stand before it. -/
theorem tokenize_newline {a : Bytes} (ha : (tokenize a).unterminated = none) (b : Bytes) :
    let k := (tokenize a).perLine.length
    tokenize (a ++ bytes "\n" ++ b) = ⟨
      (tokenize a).tokens ++ (tokenize b).tokens.map (Token.relocate (· + (k : Int))),
      (tokenize a).perLine ++ (tokenize b).perLine,
      (tokenize b).unterminated.map (· + k)⟩ := by
  intro k
  have hout := (flush_mode_iff (after a)).mpr ha
  have hcut : after (a ++ bytes "\n") = (after a).flush.endLine := by
    have hbytes : bytes "\n" = [0x0a] := by decide
    rw [after, List.foldl_append, hbytes, List.foldl_cons, List.foldl_nil]
    exact feed_newline hout
  have hline : (after (a ++ bytes "\n")).line = k + 1 := by
    have hk : k = (after a).flush.endLine.perLine.size := by
      simp only [k, tokenize_perLine ha, Array.length_toList]
    rw [hcut, hk]
    exact (numbered_after a).flush.endLine
  have hmode : (after (a ++ bytes "\n")).mode = .between := by
    rw [hcut]
    exact hout
  have hcount : (after (a ++ bytes "\n")).count = 0 := by
    rw [hcut]
    rfl
  rw [tokenize_append hmode hcount hline b, hcut, tokenize_tokens ha, tokenize_perLine ha]
  rfl

/-- The first source has a literal over two lines and ends with an operator that a second byte could
complete; the second begins with such a byte and has a literal without end. -/
theorem tokenize_newline_open_literal :
    (tokenize (bytes "x \"p\nq\" +")).unterminated = none ∧
      tokenize (bytes "x \"p\nq\" +" ++ bytes "\n" ++ bytes "= \"u") = ⟨
        [⟨.identifier, bytes "x", 1⟩, ⟨.string, bytes "p\nq", 1⟩, ⟨.operator, bytes "+", 2⟩,
          ⟨.operator, bytes "=", 3⟩], [2, 1, 1], some 3⟩ := by
  have ha : (tokenize (bytes "x \"p\nq\" +")).unterminated = none := by decide
  refine ⟨ha, ?_⟩
  rw [tokenize_newline ha]
  decide

end LineScript
