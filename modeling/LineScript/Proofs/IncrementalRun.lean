import LineScript.Proofs.LineIsolation
import LineScript.Proofs.Progress
import LineScript.Proofs.SourceJoining

/-!
# Running a program in parts

A source can be run part by part on one machine, or as a whole with a line end between the parts:
the machine ends the same, and so does the run. Only the line numbers of the second part and the
number of steps tell the difference, because each run counts them from its own beginning.

What a run does depends neither on the lines of its tokens nor on the steps taken before, as long as
steps are not limited. So a statement that is moved to other lines and begins after more steps does
the same, with its failures moved and its steps added (`Action.Displaced`). For the functions of a
host this is an assumption (`Registry.Portable`), which the functions of the language fulfil.
-/

namespace LineScript

/-- An error with its line moved, if it has one. -/
def RunError.relocate (f : Int → Int) (e : RunError) : RunError := { e with line := e.line.map f }

/-- The line that a statement adds is moved along. -/
theorem RunError.relocate_atLine (f : Int → Int) (line : Int) (e : RunError) :
    (e.atLine line).relocate f = (e.relocate f).atLine (f line) := by
  obtain ⟨failure, known⟩ := e
  cases known <;> rfl

/-- A reason to stop with its line moved, if it has one. -/
def Stop.relocate (f : Int → Int) : Stop → Stop
  | .failed e => .failed (e.relocate f)
  | .crashed c => .crashed c
  | .unfinished => .unfinished

/-- A machine that has taken more steps. -/
def Machine.later (c : Nat) (m : Machine) : Machine := { m with taken := m.taken + c }

/-! ## Displaced actions -/

/-- From a machine that has taken `c` more steps the second action does what the first one does,
with the lines of its failures moved. -/
def Action.Displaced {α : Type} (f : Int → Int) (c : Nat) (a b : Action α) : Prop :=
  ∀ m r m', a m = (r, m') → b (m.later c) = (r.mapError (Stop.relocate f), m'.later c)

namespace Action.Displaced

variable {f : Int → Int} {c : Nat} {α β : Type}

theorem pure (x : α) : Displaced f c (Pure.pure x : Action α) (Pure.pure x) := by
  rintro m _ _ ⟨⟩
  rfl

theorem bind {a b : Action α} {g h : α → Action β} (hab : Displaced f c a b)
    (hgh : ∀ x, Displaced f c (g x) (h x)) : Displaced f c (a >>= g) (b >>= h) := by
  intro m r m' hr
  obtain ⟨x, m₁, ha, hg⟩ | ⟨s, m₁, ha, hg⟩ := bind_cases a g m
  · rw [bind_ok (hab m _ _ ha)]
    exact hgh x m₁ r m' (hg.symm.trans hr)
  · rw [bind_error (hab m _ _ ha)]
    cases hg.symm.trans hr
    rfl

theorem fail (g : Failure) : Displaced f c (Action.fail g : Action α) (Action.fail g) := by
  rintro m _ _ ⟨⟩
  rfl

theorem ofExcept (r : Except Failure α) :
    Displaced f c (Action.ofExcept r) (Action.ofExcept r) := by
  cases r with
  | ok x => exact .pure x
  | error g => exact .fail g

theorem lookup (name : Bytes) : Displaced f c (Action.lookup name) (Action.lookup name) := by
  rintro m _ _ ⟨⟩
  rfl

theorem store (name : Bytes) (v : Value) :
    Displaced f c (Action.store name v) (Action.store name v) := by
  rintro m _ _ ⟨⟩
  rfl

theorem write (context text : Bytes) :
    Displaced f c (Action.write context text) (Action.write context text) := by
  intro m r m' hr
  have houtput : (m.later c).output = m.output := rfl
  simp only [Action.write, houtput] at hr ⊢
  split at hr
  · next hfits =>
    cases hr
    rw [if_pos hfits]
    rfl
  · next hfits =>
    cases hr
    rw [if_neg hfits]
    rfl

theorem readLine (context : Bytes) :
    Displaced f c (Action.readLine context) (Action.readLine context) := by
  intro m r m' hr
  have hinput : (m.later c).input = m.input := rfl
  simp only [Action.readLine, hinput] at hr ⊢
  split at hr
  · cases hr
    rfl
  · cases hr
    rfl

/-- The line of a failure moves with the statement that it is in. -/
theorem atLine {a b : Action α} (line : Int) (h : Displaced f c a b) :
    Displaced f c (a.atLine line) (b.atLine (f line)) := by
  intro m r m' hr
  cases ha : a m with
  | mk r₁ m₁ =>
    have hb := h m r₁ m₁ ha
    simp only [Action.atLine, ha] at hr
    simp only [Action.atLine, hb]
    cases r₁ with
    | ok x =>
      cases hr
      rfl
    | error s =>
      cases s with
      | failed e =>
        cases hr
        show (Except.error (Stop.failed ((e.relocate f).atLine (f line))), _) =
          (Except.error (Stop.failed ((e.atLine line).relocate f)), _)
        rw [RunError.relocate_atLine]
      | crashed crash | unfinished =>
        cases hr
        rfl

/-- Round by round, the two loops do the same to machines that differ in their steps. -/
theorem iterate {a b : Action Bool} (h : Displaced f c a b) (n : Nat) :
    Displaced f c (Action.iterate n a) (Action.iterate n b) := by
  induction n with
  | zero =>
    rintro m _ _ ⟨⟩
    rfl
  | succ n ih =>
    intro m r m' hloop
    obtain ⟨m₁, ha, hr⟩ | ⟨m₁, ha, hr⟩ | ⟨s, m₁, ha, hr⟩ := iterate_cases a n m <;>
      rw [hr] at hloop
    · rw [iterate_true (h m _ m₁ ha)]
      exact ih m₁ r m' hloop
    · rw [iterate_false (h m _ m₁ ha)]
      cases hloop
      rfl
    · rw [iterate_error (h m _ m₁ ha)]
      cases hloop
      rfl

/-- A branch on the answer of an action. -/
theorem choose {q q' : Action Bool} {a a' b b' : Action α} (hq : Displaced f c q q')
    (ha : Displaced f c a a') (hb : Displaced f c b b') :
    Displaced f c (do if ← q then a else b) (do if ← q' then a' else b') := by
  refine hq.bind fun x => ?_
  cases x with
  | true => exact ha
  | false => exact hb

end Action.Displaced

/-! ## Functions -/

/-- The functions that run the same wherever they are called: they do not look at the number of
steps, and leave it to the statement around them to name a line. -/
def Registry.Portable (functions : Registry) : Prop :=
  ∀ name g, functions.get? name = some g → ∀ args f c, (g args).Displaced f c (g args)

namespace Func

variable {f : Int → Int} {c : Nat}

theorem Computes.displaced {g : Func} (h : g.Computes) (args : List Value) :
    (g args).Displaced f c (g args) := by
  obtain ⟨r, hr, -⟩ := h args
  rw [hr]
  exact .ofExcept r

theorem input_displaced (args : List Value) : (input args).Displaced f c (input args) := by
  have hread : Action.Displaced f c (do return Value.ofText (← Action.readLine (bytes "input")))
      (do return Value.ofText (← Action.readLine (bytes "input"))) :=
    .bind (.readLine _) fun _ => .pure _
  unfold input
  split
  · exact hread
  · exact .bind (.write _ _) fun _ => hread
  · exact .fail _

theorem print_displaced (args : List Value) : (print args).Displaced f c (print args) :=
  .bind (.write _ _) fun _ => .pure _

end Func

theorem Registry.standard_portable : standard.Portable := by
  intro name g h args f c
  obtain ⟨-, rfl⟩ | ⟨-, rfl⟩ | hg := standard_cases h
  · exact Func.input_displaced args
  · exact Func.print_displaced args
  · exact hg.displaced args

/-! ## Statements -/

mutual

/-- Values do not depend on lines. -/
theorem eval_relocate (env : Env) (f : Int → Int) : ∀ e : Expr, eval env (e.relocate f) = eval env e
  | .int _ _ | .float _ _ | .text _ _ | .bool _ _ | .var _ _ => by simp only [Expr.relocate, eval]
  | .binary _ left _ right => by
    simp only [Expr.relocate, eval, eval_relocate env f left, eval_relocate env f right]
  | .call _ _ args => by simp only [Expr.relocate, eval, evalAll_relocate env f args]

theorem evalAll_relocate (env : Env) (f : Int → Int) :
    ∀ es : List Expr, evalAll env (Expr.relocateAll f es) = evalAll env es
  | [] => by simp only [Expr.relocateAll]
  | e :: es => by
    simp only [Expr.relocateAll, evalAll, eval_relocate env f e, evalAll_relocate env f es]

end

theorem Expr.token_relocate (f : Int → Int) (e : Expr) :
    (e.relocate f).token = e.token.relocate f := by
  cases e <;> rfl

section Statements

variable {env : Env} {rounds : Nat} {f : Int → Int} {c : Nat}

/-- Evaluation runs the same wherever it stands. -/
theorem displaced_simulation (h : env.functions.Portable) (f : Int → Int) (c : Nat) :
    EvalSimulation env env fun _ a b => a.Displaced f c b where
  functions := rfl
  pure := .pure
  bind := .bind
  fail {_ g} _ := .fail g
  lookup := .lookup
  call hg args := h _ _ hg args f c

theorem eval_displaced (h : env.functions.Portable) (e : Expr) :
    (eval env e).Displaced f c (eval env (e.relocate f)) := by
  rw [eval_relocate]
  exact (displaced_simulation h f c).eval e

theorem condition_displaced (h : env.functions.Portable) (line : Int) (e : Expr) :
    ((condition env e).atLine line).Displaced f c
      ((condition env (e.relocate f)).atLine (f line)) := by
  have hmoved : condition env (e.relocate f) = condition env e := by
    simp only [condition, eval_relocate]
  rw [hmoved]
  exact ((displaced_simulation h f c).condition e).atLine line

theorem inputLine_displaced (env : Env) (name : Bytes) :
    (inputLine env name).Displaced f c (inputLine env name) := by
  have hread : Action.Displaced f c
      (Action.readLine (bytes "citeste") >>= fun line => Action.store name (.ofText line))
      (Action.readLine (bytes "citeste") >>= fun line => Action.store name (.ofText line)) :=
    .bind (.readLine _) fun _ => .store _ _
  unfold inputLine
  cases env.prompt.isEmpty with
  | true => exact hread
  | false => exact .bind (.write _ _) fun _ => hread

/-- No budget stops a run, and the functions that it calls run the same everywhere. -/
structure Env.Unbounded (env : Env) : Prop where
  limit : env.stepLimit ≤ 0
  cancel : env.cancelAfter = none
  functions : env.functions.Portable

theorem Env.Unbounded.takeStep_displaced (h : env.Unbounded) (line : Int) :
    ((takeStep env).atLine line).Displaced f c ((takeStep env).atLine (f line)) := by
  have hstep : (takeStep env).Displaced f c (takeStep env) := by
    intro m r m' hr
    simp only [takeStep, Env.refusal_eq_none h.limit h.cancel] at hr ⊢
    cases hr
    simp only [Machine.later, Nat.add_right_comm]
    rfl
  exact hstep.atLine line

mutual

/-- A moved statement runs the same, moved. -/
theorem exec_displaced (h : env.Unbounded) :
    ∀ s : Stmt, (exec env rounds s).Displaced f c (exec env rounds (s.relocate f))
  | .declare t name none => by
    simp only [Stmt.relocate, exec]
    exact (h.takeStep_displaced t.line).bind fun _ => .pure ()
  | .declare t name (some e) => by
    simp only [Stmt.relocate, exec]
    exact (h.takeStep_displaced t.line).bind fun _ =>
      ((eval_displaced h.functions e).bind fun v => .store name v).atLine t.line
  | .assign t name e => by
    simp only [Stmt.relocate, exec]
    exact (h.takeStep_displaced t.line).bind fun _ =>
      ((eval_displaced h.functions e).bind fun v => .store name v).atLine t.line
  | .print t e => by
    simp only [Stmt.relocate, exec]
    exact (h.takeStep_displaced t.line).bind fun _ =>
      ((eval_displaced h.functions e).bind fun v => .write _ _).atLine t.line
  | .input t name => by
    simp only [Stmt.relocate, exec]
    exact (h.takeStep_displaced t.line).bind fun _ => (inputLine_displaced env name).atLine t.line
  | .eval t e => by
    simp only [Stmt.relocate, exec]
    exact (h.takeStep_displaced t.line).bind fun _ =>
      ((eval_displaced h.functions e).bind fun _ => .pure ()).atLine t.line
  | .branch t q body otherwise => by
    simp only [Stmt.relocate, exec]
    exact (h.takeStep_displaced t.line).bind fun _ =>
      (condition_displaced h.functions t.line q).choose (execBlock_displaced h body)
        (execAlternative_displaced h otherwise)
  | .whileLoop t q body => by
    simp only [Stmt.relocate, exec]
    exact (h.takeStep_displaced t.line).bind fun _ => Action.Displaced.iterate
      ((condition_displaced h.functions t.line q).choose
        ((execBlock_displaced h body).bind fun _ =>
          (h.takeStep_displaced t.line).bind fun _ => .pure true)
        (.pure false)) rounds
  | .doWhile t q body => by
    simp only [Stmt.relocate, exec]
    exact (h.takeStep_displaced t.line).bind fun _ => Action.Displaced.iterate
      ((execBlock_displaced h body).bind fun _ =>
        (condition_displaced h.functions t.line q).choose
          ((h.takeStep_displaced t.line).bind fun _ => .pure true) (.pure false)) rounds
  | .doUntil t q body => by
    simp only [Stmt.relocate, exec]
    exact (h.takeStep_displaced t.line).bind fun _ => Action.Displaced.iterate
      ((execBlock_displaced h body).bind fun _ =>
        (condition_displaced h.functions t.line q).choose (.pure false)
          ((h.takeStep_displaced t.line).bind fun _ => .pure true)) rounds
  | .forLoop t start q step body => by
    simp only [Stmt.relocate, exec]
    exact (h.takeStep_displaced t.line).bind fun _ => (exec_displaced h start).bind fun _ =>
      Action.Displaced.iterate
        ((condition_displaced h.functions t.line q).choose
          ((execBlock_displaced h body).bind fun _ => (exec_displaced h step).bind fun _ =>
            .pure true)
          (.pure false)) rounds

/-- So does a moved block. -/
theorem execBlock_displaced (h : env.Unbounded) :
    ∀ b : List Stmt,
      (execBlock env rounds b).Displaced f c (execBlock env rounds (Stmt.relocateAll f b))
  | [] => by
    simp only [Stmt.relocateAll, execBlock]
    exact .pure ()
  | s :: rest => by
    simp only [Stmt.relocateAll, execBlock]
    exact (exec_displaced h s).bind fun _ => execBlock_displaced h rest

/-- So does a moved alternative. -/
theorem execAlternative_displaced (h : env.Unbounded) :
    ∀ a : Alternative,
      (execAlternative env rounds a).Displaced f c (execAlternative env rounds (a.relocate f))
  | .absent => by
    simp only [Alternative.relocate, execAlternative]
    exact .pure ()
  | .block body => by
    simp only [Alternative.relocate, execAlternative]
    exact execBlock_displaced h body
  | .elseIf q body otherwise => by
    simp only [Alternative.relocate, execAlternative, Expr.token_relocate]
    exact (condition_displaced h.functions q.token.line q).choose (execBlock_displaced h body)
      (execAlternative_displaced h otherwise)

end

end Statements

/-! ## Programs -/

section Programs

variable {env : Env} {rounds : Nat}

theorem execBlock_append (env : Env) (rounds : Nat) (A B : Block) :
    execBlock env rounds (A ++ B) =
      (execBlock env rounds A >>= fun _ => execBlock env rounds B) := by
  induction A with
  | nil => simp only [List.nil_append, execBlock, pure_bind]
  | cons s A ih => simp only [List.cons_append, execBlock, ih, bind_assoc]

theorem execute_eq_ok_iff {program : Block} {m m' : Machine} :
    execute env rounds program m = (.ok (), m') ↔
      execBlock env rounds program { m with taken := 0 } = (.ok (), m') := by
  unfold execute
  split
  · next h => simp [h]
  · rfl

/-- A program that stops is not affected by what would come after it. -/
theorem execute_append_error {A : Block} {m m₁ : Machine} {stop : Stop}
    (h : execute env rounds A m = (.error stop, m₁)) (B : Block) :
    execute env rounds (A ++ B) m = (.error stop, m₁) := by
  have hwhole : execBlock env rounds (A ++ B) { m with taken := 0 } =
      execBlock env rounds A { m with taken := 0 } := by
    rw [execBlock_append]
    cases hA : execBlock env rounds A { m with taken := 0 } with
    | mk r m' =>
      cases r with
      | ok =>
        rw [execute_eq_ok_iff.mpr hA] at h
        cases h
      | error stop' => rw [Action.bind_error hA]
  rw [← h, execute, execute, hwhole]

/-- After a program that ends, another one runs on the machine that is left. Its lines do not
matter, and its steps are added to those before. -/
theorem execute_append_ok (henv : env.Unbounded) (f : Int → Int) {A B : Block} {m m₁ m₂ : Machine}
    {r : Except Stop Unit} (hA : execute env rounds A m = (.ok (), m₁))
    (hB : execute env rounds B m₁ = (r, m₂)) :
    execute env rounds (A ++ Stmt.relocateAll f B) m =
      (r.mapError (Stop.relocate f), m₂.later m₁.taken) := by
  have hfirst := execute_eq_ok_iff.mp hA
  -- in the run of both, the second part goes on counting where the first one ended
  have hstart : m₁ = Machine.later m₁.taken { m₁ with taken := 0 } := by
    simp [Machine.later]
  cases hrun : execBlock env rounds B { m₁ with taken := 0 } with
  | mk r' m' =>
    have hmoved := execBlock_displaced (f := f) (c := m₁.taken) henv B _ _ _ hrun
    rw [← hstart] at hmoved
    have hwhole : execBlock env rounds (A ++ Stmt.relocateAll f B) { m with taken := 0 } =
        (r'.mapError (Stop.relocate f), m'.later m₁.taken) := by
      rw [execBlock_append, Action.bind_ok hfirst, hmoved]
    rw [execute, hrun] at hB
    rw [execute, hwhole]
    -- a crash of a function of the host is reported by the run, not by a statement
    cases r' with
    | ok =>
      cases hB
      rfl
    | error stop =>
      cases stop with
      | crashed crash => cases crash <;> cases hB <;> rfl
      | failed e =>
        cases hB
        rfl
      | unfinished =>
        cases hB
        rfl

end Programs

theorem parse_join {a b : Bytes} (ha : (tokenize a).unterminated = none)
    (hb : (tokenize b).unterminated = none) (hdepth : clampedDepth 0 (tokenize a).tokens = 0) :
    parse (tokenize (a ++ bytes ";\n" ++ b)).tokens =
      (parse (tokenize a).tokens).append
        ((parse (tokenize b).tokens).relocate (· + ((1 + a.count 0x0a : Nat) : Int))) := by
  rw [(tokenize_join ha hb).2, parse_append rfl hdepth, parse_relocate]

/-- A source can be run in parts. When `a` ends outside of literals and braces, the run of `a` and,
unless it stops, the run of `b` on the machine that it leaves come to the same end as one run of
both with a line end between them: the same variables, output, input and result, with the line
numbers of `b` moved down by one more than there are newlines in `a`. The diagnostics of the whole
are those of the parts, and its steps are the sum of theirs. -/
theorem incremental_run {env : Env} (hlimit : env.stepLimit ≤ 0)
    (hcancel : env.cancelAfter = none) (hfunctions : env.functions.Portable) {a b : Bytes}
    (ha : (tokenize a).unterminated = none) (hb : (tokenize b).unterminated = none)
    (hdepth : clampedDepth 0 (tokenize a).tokens = 0) :
    let first := parse (tokenize a).tokens
    let second := parse (tokenize b).tokens
    let joined := tokenize (a ++ bytes ";\n" ++ b)
    let whole := parse joined.tokens
    let shift : Int → Int := (· + ((1 + a.count 0x0a : Nat) : Int))
    joined.unterminated = none ∧
      whole.diagnostics = first.diagnostics ++ second.diagnostics.map (Diagnostic.relocate shift) ∧
      (∀ d : Diagnostic, (d.relocate shift).lineNumber = shift d.lineNumber ∧
        (d.relocate shift).source = d.source ∧
        (d.relocate shift).fault.message = d.fault.message) ∧
      ∀ rounds m m₁ r₁, execute env rounds first.statements m = (r₁, m₁) →
        (∀ stop, r₁ = .error stop →
          execute env rounds whole.statements m = (.error stop, m₁)) ∧
        (r₁ = .ok () → ∀ r₂ m₂, execute env rounds second.statements m₁ = (r₂, m₂) →
          execute env rounds whole.statements m =
            (r₂.mapError (Stop.relocate shift), { m₂ with taken := m₁.taken + m₂.taken })) := by
  intro first second joined whole shift
  have henv : env.Unbounded := ⟨hlimit, hcancel, hfunctions⟩
  have hwhole : whole = first.append (second.relocate shift) := parse_join ha hb hdepth
  rw [hwhole]
  refine ⟨(tokenize_join ha hb).1, rfl, Diagnostic.relocate_shows, fun rounds m m₁ r₁ hfirst => ?_⟩
  constructor
  · rintro stop rfl
    exact execute_append_error hfirst _
  · rintro rfl r₂ m₂ hsecond
    rw [Nat.add_comm]
    exact execute_append_ok henv shift hfirst hsecond

/-- A variable that is declared before a stray brace is printed by the second part, which then fails
on its second line: the fourth line of both. -/
theorem incremental_run_undefined :
    let a := bytes "var x = adevarat;\n\x7d"
    let b := bytes "afiseaza x;\nafiseaza y"
    let whole := parse (tokenize (a ++ bytes ";\n" ++ b)).tokens
    let brace : Token := ⟨.rbrace, bytes "\x7d", 2⟩
    clampedDepth 0 (tokenize a).tokens = 0 ∧
      whole.diagnostics = [⟨⟨brace, []⟩, .tokenAtStart brace⟩] ∧
      ∃ m, execute {} 0 whole.statements {} =
          (.error (.failed ⟨.undefinedVariable (bytes "y"), some 4⟩), m) ∧
        m.output.data.toList = bytes "true" ∧ m.taken = 3 := by
  intro a b whole brace
  have ha : tokenize a = ⟨[⟨.keyword, bytes "var", 1⟩, ⟨.identifier, bytes "x", 1⟩,
      ⟨.operator, bytes "=", 1⟩, ⟨.keyword, bytes "adevarat", 1⟩, ⟨.lineEnd, bytes ";", 1⟩, brace],
      [5, 1], none⟩ := by decide +kernel
  have hb : tokenize b = ⟨[⟨.keyword, bytes "afiseaza", 1⟩, ⟨.identifier, bytes "x", 1⟩,
      ⟨.lineEnd, bytes ";", 1⟩, ⟨.keyword, bytes "afiseaza", 2⟩, ⟨.identifier, bytes "y", 2⟩],
      [3, 2], none⟩ := by decide +kernel
  have hdepth : clampedDepth 0 (tokenize a).tokens = 0 := by
    rw [ha]
    rfl
  have hclosed := congrArg Scan.unterminated ha
  have hlimit : Env.stepLimit {} ≤ 0 := by decide
  obtain ⟨-, hdiagnostics, -, hrun⟩ := incremental_run hlimit rfl
    Registry.standard_portable hclosed (congrArg Scan.unterminated hb) hdepth
  rw [ha, hb] at hdiagnostics hrun
  let vars : Namespace := ({} : Namespace).set (bytes "x") (.ofBool true)
  have hfirst : execute {} 0 [.declare ⟨.keyword, bytes "var", 1⟩ (bytes "x")
      (some (.bool ⟨.keyword, bytes "adevarat", 1⟩ true))] {} =
    (.ok (), { vars := vars, taken := 1 }) := rfl
  have hwhole := (hrun 0 {} _ _ hfirst).2 rfl
    (.error (.failed ⟨.undefinedVariable (bytes "y"), some 2⟩))
    { vars := vars, output := ({} : Output).write (bytes "true"), taken := 2 } rfl
  exact ⟨hdepth, hdiagnostics, _, hwhole, rfl, rfl⟩

end LineScript
