import LineScript.Proofs.LineIsolation

/-!
# Lines share out the tokens

The lines of a token list are stretches of it, one after the other. What is left between them are
the line ends outside of braces, and nothing else is left: all other tokens belong to a line. Only
the last line may end inside of braces.

Where a line stands is said by all that stands before it (`Placement`). That is found by the loop
which cuts the lines: it has cut some tokens off at depth zero, and holds the open line after them
(`placedAfter_linesAfter`).
-/

namespace LineScript

/-! ## What is kept -/

/-- The tokens that begin at the given depth, without the line ends at depth zero. -/
def withoutEnds (depth : Nat) : List Token → List Token
  | [] => []
  | t :: ts =>
    if t.kind = .lineEnd ∧ depth = 0 then withoutEnds depth ts
    else t :: withoutEnds (clampedStep depth t) ts

/-- What one token does to the open line. A line end at depth zero ends the line and is dropped. Any
other token goes to the line, and it may end the line where it leaves the depth at zero. -/
theorem linesAfter_step (seen : List Token) (depth : Nat) (t : Token) (rest : List Token) :
    (t.kind = .lineEnd ∧ depth = 0 ∧
      linesAfter seen depth (t :: rest) = Line.ofTokens seen ++ splitLines rest) ∨
    (¬ (t.kind = .lineEnd ∧ depth = 0) ∧
      (linesAfter seen depth (t :: rest) = linesAfter (seen ++ [t]) (clampedStep depth t) rest ∨
        clampedStep depth t = 0 ∧
          linesAfter seen depth (t :: rest) =
            Line.ofTokens (seen ++ [t]) ++ splitLines rest)) := by
  by_cases hend : t.kind = .lineEnd ∧ depth = 0
  · obtain ⟨he, rfl⟩ := hend
    exact .inl ⟨he, rfl, linesAfter_lineEnd he seen rest⟩
  · refine .inr ⟨hend, ?_⟩
    rcases linesAfter_cons seen depth t (continuesAfterBlock (seen.headD t) rest.head?) with
      ⟨hzero, line, hline, hcut⟩ | hkeep
    · rcases hline with ⟨-, he, hd⟩ | ⟨rfl, -⟩
      · exact absurd ⟨he, hd⟩ hend
      · exact .inr ⟨hzero, hcut rest rfl⟩
    · exact .inl (hkeep rest rfl)

theorem flatMap_tokens_ofTokens (ts : List Token) : (Line.ofTokens ts).flatMap Line.tokens = ts := by
  cases ts with
  | nil => rfl
  | cons t ts => simp [Line.ofTokens, Line.tokens]

/-- The loop keeps the open line and what comes after it, but for the line ends at depth zero. -/
theorem flatMap_tokens_linesAfter (seen : List Token) (depth : Nat) (rest : List Token) :
    (linesAfter seen depth rest).flatMap Line.tokens = seen ++ withoutEnds depth rest := by
  induction rest generalizing seen depth with
  | nil =>
    rw [linesAfter_nil, flatMap_tokens_ofTokens, withoutEnds, List.append_nil]
  | cons t rest ih =>
    rcases linesAfter_step seen depth t rest with ⟨he, rfl, hcut⟩ | ⟨hend, hkeep | ⟨hzero, hcut⟩⟩
    · rw [hcut, List.flatMap_append, flatMap_tokens_ofTokens, splitLines_eq, ih, withoutEnds,
        if_pos ⟨he, rfl⟩, List.nil_append]
    · rw [hkeep, ih, withoutEnds, if_neg hend, List.append_assoc, List.singleton_append]
    · rw [hcut, List.flatMap_append, flatMap_tokens_ofTokens, splitLines_eq, ih, withoutEnds,
        if_neg hend, hzero, List.nil_append, List.append_assoc, List.singleton_append]

/-! ## Where lines stand -/

/-- Lines with what stands before each of them in a token list. -/
structure Placement (ts : List Token) (spots : List (List Token × Line)) : Prop where
  /-- A line is a stretch of the tokens, right after what stands before it. -/
  within : ∀ p ∈ spots, p.1 ++ p.2.tokens <+: ts
  /-- All of a line stands before the lines after it. -/
  ordered : spots.Pairwise fun p q => p.1 ++ p.2.tokens <+: q.1
  /-- A line begins outside of braces. -/
  begins : ∀ p ∈ spots, clampedDepth 0 p.1 = 0
  /-- A line that is not the last one ends outside of braces. -/
  ends : ∀ p ∈ spots.dropLast, clampedDepth 0 (p.1 ++ p.2.tokens) = 0

/-- The line of the given tokens and what stands before it, or none when there are no tokens. -/
def spotOf (before us : List Token) : List (List Token × Line) :=
  (Line.ofTokens us).map (before, ·)

theorem map_snd_spotOf (before us : List Token) :
    (spotOf before us).map Prod.snd = Line.ofTokens us := by
  simp [spotOf, Function.comp_def]

theorem isPrefix_of_mem_spotOf {before us : List Token} {p : List Token × Line}
    (hp : p ∈ spotOf before us) : before <+: p.1 := by
  obtain ⟨l, -, rfl⟩ := List.mem_map.mp hp
  exact List.prefix_rfl

namespace Placement

variable {ts before us : List Token} {spots : List (List Token × Line)}

/-- Tokens that no other line follows. -/
theorem last (hbefore : clampedDepth 0 before = 0) (us : List Token) :
    Placement (before ++ us) (spotOf before us) := by
  cases us with
  | nil => exact ⟨nofun, .nil, nofun, nofun⟩
  | cons u us =>
    refine ⟨?_, List.pairwise_singleton _ _, ?_, nofun⟩
    · exact List.forall_mem_singleton.mpr List.prefix_rfl
    · exact List.forall_mem_singleton.mpr hbefore

/-- Tokens that end outside of braces, with other lines after them. -/
theorem followed (h : Placement ts spots) (hbefore : clampedDepth 0 before = 0)
    (hafter : clampedDepth 0 (before ++ us) = 0) (hts : before ++ us <+: ts)
    (hspots : ∀ p ∈ spots, before ++ us <+: p.1) :
    Placement ts (spotOf before us ++ spots) := by
  cases us with
  | nil => exact h
  | cons u us =>
    refine ⟨?_, List.pairwise_cons.mpr ⟨hspots, h.ordered⟩, ?_, ?_⟩
    · exact List.forall_mem_cons.mpr ⟨hts, h.within⟩
    · exact List.forall_mem_cons.mpr ⟨hbefore, h.begins⟩
    · intro p hp
      cases spots with
      | nil => cases hp
      | cons q spots =>
        rcases List.mem_cons.mp hp with rfl | hp
        · exact hafter
        · exact h.ends p hp

/-- Since a line begins outside of braces, the depth at its end is that of the line alone. -/
theorem ends_alone (h : Placement ts spots) :
    ∀ l ∈ (spots.map Prod.snd).dropLast, clampedDepth 0 l.tokens = 0 := by
  intro l hl
  rw [← List.map_dropLast] at hl
  obtain ⟨p, hp, rfl⟩ := List.mem_map.mp hl
  have hends := h.ends p hp
  rwa [clampedDepth_append, h.begins p (List.dropLast_subset _ hp)] at hends

end Placement

/-- Lines that have places in the tokens `ts`, all of them after `before`. -/
def PlacedAfter (before ts : List Token) (lines : List Line) : Prop :=
  ∃ spots, spots.map Prod.snd = lines ∧ Placement ts spots ∧ ∀ p ∈ spots, before <+: p.1

theorem placedAfter_last {before : List Token} (hbefore : clampedDepth 0 before = 0)
    (us : List Token) : PlacedAfter before (before ++ us) (Line.ofTokens us) := by
  refine ⟨spotOf before us, map_snd_spotOf before us, .last hbefore us, ?_⟩
  exact fun p hp => isPrefix_of_mem_spotOf hp

/-- A line is put in front of those that have places after it. -/
theorem PlacedAfter.followed {before us next ts : List Token} {lines : List Line}
    (h : PlacedAfter next ts lines) (hbefore : clampedDepth 0 before = 0)
    (hafter : clampedDepth 0 (before ++ us) = 0) (hts : before ++ us <+: ts)
    (hnext : before ++ us <+: next) : PlacedAfter before ts (Line.ofTokens us ++ lines) := by
  obtain ⟨spots, rfl, hplaced, hspots⟩ := h
  have hfar : ∀ p ∈ spots, before ++ us <+: p.1 := fun p hp => hnext.trans (hspots p hp)
  refine ⟨spotOf before us ++ spots, ?_, hplaced.followed hbefore hafter hts hfar, ?_⟩
  · rw [List.map_append, map_snd_spotOf]
  · intro p hp
    rcases List.mem_append.mp hp with hp | hp
    · exact isPrefix_of_mem_spotOf hp
    · exact (List.prefix_append before us).trans (hfar p hp)

/-- The lines that the loop still cuts have places after what it has cut before. -/
theorem placedAfter_linesAfter (before seen : List Token) {depth : Nat} (rest : List Token)
    (hbefore : clampedDepth 0 before = 0) (hdepth : clampedDepth 0 (before ++ seen) = depth) :
    PlacedAfter before (before ++ seen ++ rest) (linesAfter seen depth rest) := by
  induction rest generalizing before seen depth with
  | nil =>
    rw [linesAfter_nil, List.append_nil]
    exact placedAfter_last hbefore seen
  | cons t rest ih =>
    have hts : before ++ seen ++ t :: rest = before ++ (seen ++ [t]) ++ rest := by simp
    have hnext : clampedDepth 0 (before ++ (seen ++ [t])) = clampedStep depth t := by
      rw [← List.append_assoc, clampedDepth_append_singleton, hdepth]
    -- where the line ends, the loop goes on with an empty one
    have hlater : clampedStep depth t = 0 →
        PlacedAfter (before ++ (seen ++ [t])) (before ++ seen ++ t :: rest) (splitLines rest) := by
      intro hzero
      rw [hzero] at hnext
      have hrest := ih (before ++ (seen ++ [t])) [] hnext (by rw [List.append_nil, hnext])
      rwa [List.append_nil, ← hts] at hrest
    rcases linesAfter_step seen depth t rest with ⟨he, rfl, hcut⟩ | ⟨-, hkeep | ⟨hzero, hcut⟩⟩
    · rw [hcut]
      refine (hlater (clampedStep_lineEnd he 0)).followed hbefore hdepth ?_ ?_
      · exact List.prefix_append _ _
      · rw [← List.append_assoc]
        exact List.prefix_append _ _
    · rw [hkeep, hts]
      exact ih before (seen ++ [t]) hbefore hnext
    · rw [hcut]
      refine (hlater hzero).followed hbefore (hnext.trans hzero) ?_ List.prefix_rfl
      rw [hts]
      exact List.prefix_append _ _

/-- The lines of a token list share it out: they are stretches of it, in order and apart from each
other. One after the other they are the tokens without the line ends outside of braces. All but the
last one end outside of braces; none of them is empty, and each is one line by itself. -/
theorem splitLines_partition (ts : List Token) :
    (∃ spots, spots.map Prod.snd = splitLines ts ∧ Placement ts spots) ∧
      (splitLines ts).flatMap Line.tokens = withoutEnds 0 ts ∧
      (∀ l ∈ (splitLines ts).dropLast, clampedDepth 0 l.tokens = 0) ∧
      ∀ l ∈ splitLines ts, l.tokens ≠ [] ∧ splitLines l.tokens = [l] := by
  obtain ⟨spots, hlines, hplaced, -⟩ := placedAfter_linesAfter [] [] ts rfl rfl
  have hends := hplaced.ends_alone
  rw [hlines] at hends
  refine ⟨⟨spots, hlines, hplaced⟩, flatMap_tokens_linesAfter [] 0 ts, hends, fun l hl => ?_⟩
  exact ⟨List.cons_ne_nil l.first l.rest, splitLines_of_mem hl⟩

/-- A conditional that goes on after its block and has a line end inside of it, a brace too many,
empty lines, and a last line that is left open. -/
theorem splitLines_partition_open_block :
    let word := fun (k : Keyword) => (⟨.keyword, k.text, 1⟩ : Token)
    let name : Token := ⟨.identifier, bytes "x", 1⟩
    let sep : Token := ⟨.lineEnd, bytes ";", 1⟩
    let l : Token := ⟨.lbrace, bytes "\x7b", 1⟩
    let r : Token := ⟨.rbrace, bytes "\x7d", 1⟩
    let ts := [sep, word .daca, l, name, sep, r, word .altfel, l, r, name, r, sep, sep,
      word .executa, l, r, word .cat, l, name, sep]
    let first : Line := ⟨word .daca, [l, name, sep, r, word .altfel, l, r]⟩
    let second : Line := ⟨name, [r]⟩
    let third : Line := ⟨word .executa, [l, r, word .cat, l, name, sep]⟩
    splitLines ts = [first, second, third] ∧
      (∃ spots, spots.map Prod.snd = splitLines ts ∧ Placement ts spots) ∧
      withoutEnds 0 ts = first.tokens ++ second.tokens ++ third.tokens ∧
      clampedDepth 0 second.tokens = 0 ∧ clampedDepth 0 third.tokens = 1 ∧
      splitLines third.tokens = [third] := by
  intro word name sep l r ts first second third
  have hlines : splitLines ts = [first, second, third] := by decide
  obtain ⟨hplaced, hkept, hends, halone⟩ := splitLines_partition ts
  rw [hlines] at hkept hends halone
  refine ⟨hlines, hplaced, ?_, hends second ?_, rfl, (halone third ?_).2⟩
  · rw [← hkept]
    rfl
  · simp
  · simp

end LineScript
