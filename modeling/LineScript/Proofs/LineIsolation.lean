import LineScript.Proofs.Relocation

/-!
# Lines are read apart

What a line contributes to a program depends on that line only. A line end outside of braces cuts a
token list into two that are read on their own, and a line that is cut out of a token list is again
one line. So a program is the concatenation of its lines, each of them read alone, and a refused
line leaves no other trace than its diagnostic.

Outside of braces means that the depth of braces is zero in the count of `splitLines`, where a
closing brace too many counts for nothing.
-/

namespace LineScript

/-! ## The depth of braces, from zero upwards -/

/-- The depth of braces after one token; a brace that closes nothing leaves it at zero. -/
def clampedStep (depth : Nat) (t : Token) : Nat :=
  if t.kind = .lbrace then depth + 1 else if t.kind = .rbrace then depth - 1 else depth

/-- The depth of braces after some tokens that begin at the given depth. -/
def clampedDepth (depth : Nat) (ts : List Token) : Nat := ts.foldl clampedStep depth

theorem clampedStep_lineEnd {t : Token} (ht : t.kind = .lineEnd) (depth : Nat) :
    clampedStep depth t = depth := by
  simp [clampedStep, ht]

theorem clampedDepth_append (depth : Nat) (ts us : List Token) :
    clampedDepth depth (ts ++ us) = clampedDepth (clampedDepth depth ts) us := List.foldl_append

theorem clampedDepth_append_singleton (depth : Nat) (ts : List Token) (t : Token) :
    clampedDepth depth (ts ++ [t]) = clampedStep (clampedDepth depth ts) t :=
  clampedDepth_append depth ts [t]

/-! ## Cutting lines -/

/-- What one token does to the open line: it ends the line, or it goes to the line. Of what comes
after it, only whether it carries the statement on matters. -/
theorem linesAfter_cons (seen : List Token) (depth : Nat) (t : Token) (goesOn : Bool) :
    (clampedStep depth t = 0 ∧
      ∃ line, (line = seen ∧ t.kind = .lineEnd ∧ depth = 0 ∨ line = seen ++ [t] ∧ goesOn = false) ∧
        ∀ rest, continuesAfterBlock (seen.headD t) rest.head? = goesOn →
          linesAfter seen depth (t :: rest) = Line.ofTokens line ++ splitLines rest) ∨
    ∀ rest, continuesAfterBlock (seen.headD t) rest.head? = goesOn →
      linesAfter seen depth (t :: rest) = linesAfter (seen ++ [t]) (clampedStep depth t) rest := by
  by_cases hl : t.kind = .lbrace
  · right
    intro rest _
    rw [linesAfter_lbrace hl, clampedStep, if_pos hl]
  by_cases hr : t.kind = .rbrace
  · have hstep : clampedStep depth t = depth - 1 := by rw [clampedStep, if_neg hl, if_pos hr]
    rcases Nat.lt_or_ge 1 depth with hd | hd
    · right
      intro rest _
      obtain ⟨depth, rfl⟩ : ∃ depth', depth = depth' + 2 := ⟨depth - 2, by omega⟩
      rw [linesAfter_rbrace hr, hstep]
      rfl
    · -- the brace closes a block of the line, or is one too many: both can end the line
      have hzero : clampedStep depth t = 0 := by omega
      cases goesOn with
      | true =>
        right
        intro rest hrest
        rw [linesAfter_outermost hr seen rest hd, if_pos hrest, hzero]
      | false =>
        left
        refine ⟨hzero, seen ++ [t], .inr ⟨rfl, rfl⟩, fun rest hrest => ?_⟩
        rw [linesAfter_outermost hr seen rest hd, hrest]
        rfl
  have hstep : clampedStep depth t = depth := by rw [clampedStep, if_neg hl, if_neg hr]
  rw [hstep]
  by_cases he : t.kind = .lineEnd
  · cases depth with
    | zero =>
      exact .inl ⟨rfl, seen, .inl ⟨rfl, he, rfl⟩, fun rest _ => linesAfter_lineEnd he seen rest⟩
    | succ depth => exact .inr fun rest _ => linesAfter_inside he seen rest depth
  · exact .inr fun rest _ => linesAfter_plain ⟨hl, hr, he⟩ seen rest depth

/-- A line end does not carry a statement on, nor does the end of the tokens. -/
theorem continuesAfterBlock_lineEnd {sep : Token} (hs : sep.kind = .lineEnd) (first : Token)
    (a b : List Token) :
    continuesAfterBlock first (a ++ sep :: b).head? = continuesAfterBlock first a.head? := by
  cases a with
  | nil => simp [continuesAfterBlock, Token.isKeyword, hs]
  | cons t a => rfl

theorem linesAfter_append_lineEnd {sep : Token} (hs : sep.kind = .lineEnd) {depth : Nat}
    {a : List Token} (h : clampedDepth depth a = 0) (seen b : List Token) :
    linesAfter seen depth (a ++ sep :: b) = linesAfter seen depth a ++ splitLines b := by
  induction a generalizing seen depth with
  | nil =>
    have hzero : depth = 0 := h
    rw [hzero, List.nil_append, linesAfter_lineEnd hs, linesAfter_nil]
  | cons t a ih =>
    have hrest : clampedDepth (clampedStep depth t) a = 0 := h
    have hnext := continuesAfterBlock_lineEnd hs (seen.headD t) a b
    rw [List.cons_append]
    rcases linesAfter_cons seen depth t (continuesAfterBlock (seen.headD t) a.head?) with
      ⟨hzero, line, -, hcut⟩ | hkeep
    · rw [hzero] at hrest
      rw [hcut _ hnext, hcut _ rfl, splitLines_eq, ih hrest, List.append_assoc]
      rfl
    · rw [hkeep _ hnext, hkeep _ rfl, ih hrest]

/-- A line end outside of braces separates the lines before it from those after it. -/
theorem splitLines_append {sep : Token} (hs : sep.kind = .lineEnd) {a : List Token}
    (h : clampedDepth 0 a = 0) (b : List Token) :
    splitLines (a ++ sep :: b) = splitLines a ++ splitLines b :=
  linesAfter_append_lineEnd hs h [] b

theorem Line.eq_of_mem_ofTokens {l : Line} {ts : List Token} (h : l ∈ Line.ofTokens ts) :
    ts = l.tokens ∧ Line.ofTokens ts = [l] := by
  cases ts with
  | nil => cases h
  | cons t ts =>
    rw [List.mem_singleton.mp h]
    exact ⟨rfl, rfl⟩

/-- The lines that the loop still cuts are lines by themselves. What carries the induction is that
the loop comes to the open line also when it reads nothing but that line and the token after it. -/
theorem linesAfter_alone (seen : List Token) {rest : List Token} {depth : Nat}
    (hd : clampedDepth 0 seen = depth)
    (hseen : ∀ next : List Token, next.head? = rest.head? →
      splitLines (seen ++ next) = linesAfter seen depth next) :
    ∀ l ∈ linesAfter seen depth rest, splitLines l.tokens = [l] := by
  induction rest generalizing seen depth with
  | nil =>
    intro l hl
    have hwhole := hseen [] rfl
    rw [linesAfter_nil] at hl hwhole
    obtain ⟨hts, hline⟩ := Line.eq_of_mem_ofTokens hl
    rw [← hts, ← hline, ← hwhole, List.append_nil]
  | cons t rest ih =>
    rcases linesAfter_cons seen depth t (continuesAfterBlock (seen.headD t) rest.head?) with
      ⟨-, line, hends, hcut⟩ | hkeep
    · rw [hcut rest rfl]
      intro l hl
      rcases List.mem_append.mp hl with hl | hl
      · obtain ⟨hline, hlines⟩ := Line.eq_of_mem_ofTokens hl
        rw [← hline, ← hlines]
        rcases hends with ⟨rfl, he, rfl⟩ | ⟨rfl, hstop⟩
        · -- the line end is cut off both by the loop and from the line alone
          have hloop := hseen [t] rfl
          rw [splitLines_append he hd, linesAfter_lineEnd he] at hloop
          exact List.append_cancel_right hloop
        · have hloop := hseen [t] rfl
          rw [hcut [] hstop.symm] at hloop
          rw [hloop]
          exact List.append_nil _
      · exact ih [] rfl (fun _ _ => rfl) l hl
    · rw [hkeep rest rfl]
      refine ih (seen ++ [t]) ?_ fun next hnext => ?_
      · rw [clampedDepth_append_singleton, hd]
      · rw [List.append_assoc, List.singleton_append, hseen (t :: next) rfl]
        exact hkeep next (by rw [hnext])

/-- A line of a token list is one line. -/
theorem splitLines_of_mem {ts : List Token} {l : Line} (hl : l ∈ splitLines ts) :
    splitLines l.tokens = [l] :=
  linesAfter_alone [] rfl (fun _ _ => rfl) l hl

/-! ## Reading lines -/

namespace Parsed

theorem append_empty (x : Parsed) : x.append empty = x := by simp [append, empty]

theorem append_assoc (x y z : Parsed) : (x.append y).append z = x.append (y.append z) := by
  simp [append]

theorem ofLines_append (body : List Token → Parsed) (ls ms : List Line) :
    ofLines body (ls ++ ms) = (ofLines body ls).append (ofLines body ms) := by
  induction ls with
  | nil => rfl
  | cons l ls ih =>
    calc ofLines body (l :: ls ++ ms)
      _ = (ofLine body l).append (ofLines body (ls ++ ms)) := rfl
      _ = (ofLine body l).append ((ofLines body ls).append (ofLines body ms)) := by rw [ih]
      _ = (ofLines body (l :: ls)).append (ofLines body ms) := (append_assoc _ _ _).symm

/-- Lines contribute their statements and their diagnostics in order. -/
theorem ofLines_eq (body : List Token → Parsed) (ls : List Line) :
    ofLines body ls = ⟨ls.flatMap fun l => (ofLine body l).statements,
      ls.flatMap fun l => (ofLine body l).diagnostics⟩ := by
  induction ls with
  | nil => rfl
  | cons l ls ih =>
    calc ofLines body (l :: ls)
      _ = (ofLine body l).append (ofLines body ls) := rfl
      _ = _ := by rw [ih]; rfl

end Parsed

theorem parse_append {sep : Token} (hs : sep.kind = .lineEnd) {a : List Token}
    (h : clampedDepth 0 a = 0) (b : List Token) :
    parse (a ++ sep :: b) = (parse a).append (parse b) := by
  rw [parse_eq_ofLines, splitLines_append hs h, Parsed.ofLines_append, ← parse_eq_ofLines,
    ← parse_eq_ofLines]

/-- A line read alone contributes what it contributes in its place. -/
theorem parse_tokens {ts : List Token} {l : Line} (hl : l ∈ splitLines ts) :
    parse l.tokens = Parsed.ofLine parse l := by
  rw [parse_eq_ofLines, splitLines_of_mem hl]
  exact Parsed.append_empty _

/-- The diagnostics of the blocks of a line are about lines that are stretches of it, without its
first token. -/
theorem statement_diagnostics (l : Line) :
    ∀ d ∈ (statement parse l).diagnostics, d.line.tokens <:+: l.rest := by
  have hsound : SoundWithin Stmt.AllWellFormed (·.line.tokens <:+: l.rest) parse l.rest := by
    intro inside hinside
    obtain ⟨hwf, hd⟩ := blockAt_sound (inside.length + 1) inside
    exact ⟨hwf, fun d hmem => (hd d hmem).trans hinside⟩
  exact (statement_yields hsound).diagnostics

/-- A line contributes one statement, or none and a last diagnostic that shows the whole line. The
other diagnostics are about lines inside its blocks. -/
theorem ofLine_cases (l : Line) :
    (∃ s, (Parsed.ofLine parse l).statements = [s] ∧
      ∀ d ∈ (Parsed.ofLine parse l).diagnostics, d.line.tokens <:+: l.rest) ∨
    ∃ inner fault, Parsed.ofLine parse l = ⟨[], inner ++ [⟨l, fault⟩]⟩ ∧
      ∀ d ∈ inner, d.line.tokens <:+: l.rest := by
  have hinner := statement_diagnostics l
  unfold Parsed.ofLine
  generalize statement parse l = attempt at hinner
  obtain ⟨ds, r⟩ := attempt
  cases r with
  | ok s => exact .inl ⟨s, rfl, hinner⟩
  | error fault => exact .inr ⟨ds, fault, rfl, hinner⟩

/-- A fault does not reach beyond its line. A line end outside of braces separates two programs; so
a program is the concatenation of its lines read alone, and each of them contributes one statement,
or no statement and as its last diagnostic the one that shows the whole line. -/
theorem parse_isolates_lines :
    (∀ (a b : List Token) (sep : Token), clampedDepth 0 a = 0 → sep.kind = .lineEnd →
      parse (a ++ [sep] ++ b) = ⟨(parse a).statements ++ (parse b).statements,
        (parse a).diagnostics ++ (parse b).diagnostics⟩) ∧
    ∀ ts : List Token,
      parse ts = ⟨(splitLines ts).flatMap fun l => (parse l.tokens).statements,
        (splitLines ts).flatMap fun l => (parse l.tokens).diagnostics⟩ ∧
      ∀ l ∈ splitLines ts,
        (∃ s, (parse l.tokens).statements = [s] ∧
          ∀ d ∈ (parse l.tokens).diagnostics, d.line.tokens <:+: l.rest) ∨
        ∃ inner fault, parse l.tokens = ⟨[], inner ++ [⟨l, fault⟩]⟩ ∧
          ∀ d ∈ inner, d.line.tokens <:+: l.rest := by
  refine ⟨?_, fun ts => ⟨?_, fun l hl => ?_⟩⟩
  · intro a b sep h hs
    rw [List.append_assoc]
    exact parse_append hs h b
  · rw [parse_eq_ofLines, Parsed.ofLines_eq]
    congr 1
    · exact congrArg List.flatten (List.map_congr_left fun l hl => by rw [parse_tokens hl])
    · exact congrArg List.flatten (List.map_congr_left fun l hl => by rw [parse_tokens hl])
  · rw [parse_tokens hl]
    exact ofLine_cases l

/-- A line that a stray brace ends is refused as a whole, and the line after it is read. -/
theorem parse_isolates_lines_stray_brace :
    let var : Token := ⟨.keyword, bytes "var", 1⟩
    let brace : Token := ⟨.rbrace, bytes "\x7d", 1⟩
    let sep : Token := ⟨.lineEnd, bytes ";", 1⟩
    let name : Token := ⟨.identifier, bytes "x", 1⟩
    clampedDepth 0 [var, brace] = 0 ∧
      parse ([var, brace] ++ [sep] ++ [var, name]) =
        ⟨[.declare var (bytes "x") none], [⟨⟨var, [brace]⟩, .varName⟩]⟩ := by
  intro var brace sep name
  have hjoined := parse_isolates_lines.1 [var, brace] [var, name] sep rfl rfl
  exact ⟨rfl, hjoined.trans rfl⟩

end LineScript
