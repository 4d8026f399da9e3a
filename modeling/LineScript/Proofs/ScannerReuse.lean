import LineScript.Proofs.ScannerSteps

/-!
# Scanners that are used again

A scanner can be asked to scan and can be given another source, any number of times and in any
order. What it answers depends on two things only: the source that it was last given and how often
it has scanned this source (`Request.track`). A scanner that is given a source still remembers on
which line the last word of the one before began, but it notes the line of a word whenever one
begins and reads the note only when that word ends, so the old one is never read (`scan_ofSource`).
Hence the first scan gives the tokens, counts and failure of the source. Then there is nothing left
to read (`Scanner.Exhausted`), so every further scan gives the same tokens, one more copy of the
last count, and no failure.
-/

namespace LineScript

/-- What a scanner can be asked to do. -/
inductive Request where
  /-- To scan its source. -/
  | scan
  /-- To begin with another source. -/
  | reset (source : Bytes)
  deriving DecidableEq, Repr

/-- Keeps track of the source that was last given and of the number of scans since then. -/
def Request.track : Bytes × Nat → Request → Bytes × Nat
  | (source, scans), .scan => (source, scans + 1)
  | _, .reset source => (source, 0)

namespace Scanner

/-- The scanner after a request. -/
def serve (s : Scanner) : Request → Scanner
  | .scan => s.scan.2
  | .reset source => s.reset source

/-! ## The end of a source -/

theorem rest_flush (s : Scanner) : s.flush.rest = s.rest := by
  unfold flush
  split <;> rfl

theorem Reads.rest_eq {s t : Scanner} {b : UInt8} (h : s.Reads b t) : t.rest = s.rest := by
  cases h with
  | newline | skip | quote | separator | ordinary => exact rest_flush s
  | operator | inWord | returnInWord | closing | backslash | returnInLiteral | newlineInLiteral
  | inLiteral | escapedNewline | escaped => rfl

theorem rest_foldl_feed (s : Scanner) (text : Bytes) : (text.foldl feed s).rest = s.rest := by
  induction text generalizing s with
  | nil => rfl
  | cons b text ih => exact (ih (s.feed b)).trans (reads_feed s b).rest_eq

/-- The end of a source closes whatever is open, and then the line. -/
theorem finish_eq_closeLine (s : Scanner) :
    ∃ t : Scanner, s.finish.1 = t.closeLine ∧ t.mode = .between ∧ t.rest = s.rest := by
  unfold finish
  split
  · exact ⟨_, rfl, rfl, rfl⟩
  · exact ⟨_, rfl, rfl, rfl⟩
  · next hliteral hescape =>
    refine ⟨s.flush, rfl, ?_, rest_flush s⟩
    cases hmode : s.mode with
    | between => rw [flush_of_between hmode, hmode]
    | word read => simp [flush, hmode, emit]
    | symbol first => simp [flush, hmode, emit]
    | literal start read => exact absurd hmode (hliteral start read)
    | escape start read => exact absurd hmode (hescape start read)

/-- The scanner has nothing left to read: it has the tokens and counts of its first scan and so many
further copies of the last count, which is also its current one. -/
structure Exhausted (s : Scanner) (first : Scan) (further : Nat) : Prop where
  rest : s.rest = []
  mode : s.mode = .between
  tokens : s.tokens.toList = first.tokens
  perLine : s.perLine.toList = first.perLine ++ List.replicate further s.count
  last : first.perLine.getLast? = some s.count

/-- A scan leaves nothing, wherever it began. -/
theorem exhausted_scan (s : Scanner) : s.scan.2.Exhausted s.scan.1 0 := by
  let read : Scanner := s.rest.foldl feed { s with rest := [] }
  have hscan : s.scan =
      (⟨read.finish.1.tokens.toList, read.finish.1.perLine.toList, read.finish.2⟩,
        read.finish.1) := rfl
  obtain ⟨t, hclose, hmode, hrest⟩ := finish_eq_closeLine read
  rw [hscan, hclose]
  refine ⟨hrest.trans (rest_foldl_feed _ _), hmode, rfl, ?_, ?_⟩
  · simp
  · simp [closeLine]

/-- At the start of a source it does not matter which word a scanner remembers. -/
theorem scan_ofSource (source : Bytes) (wordLine : Nat) :
    { ofSource source with wordLine }.scan.1 = tokenize source := by
  let start : Scanner := { rest := [], wordLine }
  have hscan : { ofSource source with wordLine }.scan.1 =
      ⟨(source.foldl feed start).finish.1.tokens.toList,
        (source.foldl feed start).finish.1.perLine.toList,
        (source.foldl feed start).finish.2⟩ := rfl
  have hstart : Ahead 0 start.tokens.toList start.perLine.toList { rest := [] } start :=
    .start rfl rfl rfl
  obtain ⟨hend, hfailure⟩ := (hstart.foldl_feed source).finish
  have hsame : Token.relocate (· + ((0 : Nat) : Int)) = id := by
    funext t
    simp [Token.relocate]
  rw [hscan, hend.tokens, hend.perLine, hfailure, hsame, tokenize_eq]
  simp [after, start]

namespace Exhausted

variable {s : Scanner} {first : Scan} {further : Nat}

theorem scan_eq (h : s.Exhausted first further) : s.scan =
    (⟨s.tokens.toList, (s.perLine.push s.count).toList, none⟩,
      { s with perLine := s.perLine.push s.count }) := by
  obtain ⟨rest, mode, line, tokens, perLine, count, wordLine⟩ := s
  cases h.rest
  cases h.mode
  rfl

theorem answer (h : s.Exhausted first further) : ∃ last, first.perLine.getLast? = some last ∧
    s.scan.1 = ⟨first.tokens, first.perLine ++ List.replicate (further + 1) last, none⟩ := by
  refine ⟨s.count, h.last, ?_⟩
  rw [h.scan_eq, Array.toList_push, h.tokens, h.perLine, List.replicate_succ', List.append_assoc]

theorem scan (h : s.Exhausted first further) : s.scan.2.Exhausted first (further + 1) := by
  rw [h.scan_eq]
  refine ⟨h.rest, h.mode, h.tokens, ?_, h.last⟩
  rw [Array.toList_push, h.perLine, List.replicate_succ', List.append_assoc]

end Exhausted

/-! ## Requests -/

/-- Where a scanner stands after it was last given a source and has scanned it so many times. -/
inductive Served (source : Bytes) : Nat → Scanner → Prop
  | fresh (wordLine : Nat) : Served source 0 { ofSource source with wordLine }
  | scanned {s : Scanner} {further : Nat} (h : s.Exhausted (tokenize source) further) :
      Served source (further + 1) s

theorem Served.serve {source : Bytes} {scans : Nat} {s : Scanner} (h : Served source scans s)
    (request : Request) :
    Served (request.track (source, scans)).1 (request.track (source, scans)).2
      (s.serve request) := by
  cases request with
  | scan =>
    cases h with
    | fresh wordLine =>
      have hexhausted := exhausted_scan { ofSource source with wordLine }
      rw [scan_ofSource] at hexhausted
      exact .scanned hexhausted
    | scanned h => exact .scanned h.scan
  | reset other => exact .fresh s.wordLine

theorem served_foldl (requests : List Request) {source : Bytes} {scans : Nat} {s : Scanner}
    (h : Served source scans s) :
    Served (requests.foldl Request.track (source, scans)).1
      (requests.foldl Request.track (source, scans)).2 (requests.foldl Scanner.serve s) := by
  induction requests generalizing source scans s with
  | nil => exact h
  | cons request requests ih => exact ih (h.serve request)

end Scanner

open Scanner in
/-- Whatever a scanner was asked to do before, with whatever success, its next scan answers by the
source that it was last given and by the number of scans of this source. The first scan gives what
tokenizing the source gives. A later one gives the same tokens, the same counts with a further copy
of the last one for each scan since the first, and no failure. -/
theorem scan_after_requests (start : Bytes) (requests : List Request) (source : Bytes)
    (scans : Nat) (h : requests.foldl Request.track (start, 0) = (source, scans)) :
    (scans = 0 → (requests.foldl serve (ofSource start)).scan.1 = tokenize source) ∧
    (0 < scans → ∃ last, (tokenize source).perLine.getLast? = some last ∧
      (requests.foldl serve (ofSource start)).scan.1 =
        ⟨(tokenize source).tokens, (tokenize source).perLine ++ List.replicate scans last,
          none⟩) := by
  have hstart : Served start 0 (ofSource start) := .fresh 0
  have hserved := served_foldl requests hstart
  rw [h] at hserved
  generalize requests.foldl serve (ofSource start) = s at hserved ⊢
  cases hserved with
  | fresh wordLine => exact ⟨fun _ => scan_ofSource source wordLine, nofun⟩
  | scanned hexhausted => exact ⟨nofun, fun _ => hexhausted.answer⟩

/-- The second scan of a source in which a literal does not end, after two of another one. -/
theorem scan_after_requests_unterminated :
    let requests := [.scan, .scan, .reset (bytes "b;\n\""), .scan]
    requests.foldl Request.track (bytes "\"a", 0) = (bytes "b;\n\"", 1) ∧
      (requests.foldl Scanner.serve (Scanner.ofSource (bytes "\"a"))).scan.1 =
        ⟨(tokenize (bytes "b;\n\"")).tokens, [2, 0, 0], none⟩ := by
  intro requests
  have htrack : requests.foldl Request.track (bytes "\"a", 0) = (bytes "b;\n\"", 1) := rfl
  have hcounts : (tokenize (bytes "b;\n\"")).perLine = [2, 0] := by decide
  obtain ⟨last, hlast, hscan⟩ := (scan_after_requests _ requests _ 1 htrack).2 (by decide)
  rw [hcounts] at hlast hscan
  cases hlast
  exact ⟨htrack, hscan⟩

end LineScript
