import LineScript.Proofs.Interpretation

/-!
# Relating runs of the same program

Two runs of one program that differ in what they are given do the same things in the same order, so
what holds between their single actions holds between the runs: a relation that the single actions
satisfy and that sequencing, lines and loops keep (`Simulation`) relates the two executions of every
statement. A property of one run is a relation that ignores its second run.

The first use is the number of rounds that loops are given. More of them change no run that ends, so
the outcome of a program (`Outcome`) does not depend on them.
-/

namespace LineScript

/-! ## Running actions -/

namespace Action

variable {α β : Type} {a : Action α} {m m' : Machine}

theorem bind_ok {f : α → Action β} {x : α} (h : a m = (.ok x, m')) : (a >>= f) m = f x m' := by
  simp only [Bind.bind, h]

theorem bind_error {f : α → Action β} {s : Stop} (h : a m = (.error s, m')) :
    (a >>= f) m = (.error s, m') := by
  simp only [Bind.bind, h]

/-- An action is followed by the next one or stops both. -/
theorem bind_cases (a : Action α) (f : α → Action β) (m : Machine) :
    (∃ x m', a m = (.ok x, m') ∧ (a >>= f) m = f x m') ∨
      ∃ s m', a m = (.error s, m') ∧ (a >>= f) m = (.error s, m') := by
  cases hm : a m with
  | mk r m' =>
    cases r with
    | ok x => exact .inl ⟨x, m', rfl, bind_ok hm⟩
    | error s => exact .inr ⟨s, m', rfl, bind_error hm⟩

theorem atLine_failed {line : Int} {e : RunError} (h : a m = (.error (.failed e), m')) :
    a.atLine line m = (.error (.failed (e.atLine line)), m') := by
  simp only [atLine, h]

theorem atLine_unfinished {line : Int} (h : a m = (.error .unfinished, m')) :
    a.atLine line m = (.error .unfinished, m') := by
  simp only [atLine, h]

/-- Adding a line changes no machine. -/
theorem atLine_machine (line : Int) (a : Action α) (m : Machine) :
    (a.atLine line m).2 = (a m).2 := by
  unfold atLine
  split <;> simp_all

/-- A text is written as far as it fits. -/
theorem write_machine (context text : Bytes) (m : Machine) :
    (write context text m).2 = { m with output := m.output.write text } := by
  simp only [write]
  split <;> rfl

/-- A line is taken from the input, even if reading fails. -/
theorem readLine_machine (context : Bytes) (m : Machine) :
    (readLine context m).2 = { m with input := m.input.readLine.2.2 } := by
  simp only [readLine]
  split <;> rfl

theorem iterate_true {once : Action Bool} {n : Nat} (h : once m = (.ok true, m')) :
    iterate (n + 1) once m = iterate n once m' := by
  simp only [iterate, h]

theorem iterate_false {once : Action Bool} {n : Nat} (h : once m = (.ok false, m')) :
    iterate (n + 1) once m = (.ok (), m') := by
  simp only [iterate, h]

theorem iterate_error {once : Action Bool} {n : Nat} {s : Stop} (h : once m = (.error s, m')) :
    iterate (n + 1) once m = (.error s, m') := by
  simp only [iterate, h]

/-- A round is followed by the other ones, or is the last, or stops the loop. -/
theorem iterate_cases (once : Action Bool) (n : Nat) (m : Machine) :
    (∃ m', once m = (.ok true, m') ∧ iterate (n + 1) once m = iterate n once m') ∨
      (∃ m', once m = (.ok false, m') ∧ iterate (n + 1) once m = (.ok (), m')) ∨
      ∃ s m', once m = (.error s, m') ∧ iterate (n + 1) once m = (.error s, m') := by
  cases hm : once m with
  | mk r m' =>
    cases r with
    | ok go =>
      cases go with
      | true => exact .inl ⟨m', rfl, iterate_true hm⟩
      | false => exact .inr (.inl ⟨m', rfl, iterate_false hm⟩)
    | error s => exact .inr (.inr ⟨s, m', rfl, iterate_error hm⟩)

end Action

/-! ## Simulations -/

/-- A relation between actions that evaluation keeps. -/
structure EvalSimulation (env env' : Env) (R : ∀ α : Type, Action α → Action α → Prop) : Prop where
  /-- The same functions can be called. -/
  functions : env'.functions = env.functions
  pure {α : Type} (x : α) : R α (Pure.pure x) (Pure.pure x)
  bind {α β : Type} {a b : Action α} {f g : α → Action β} (h : R α a b)
    (hf : ∀ x, R β (f x) (g x)) : R β (a >>= f) (b >>= g)
  fail {α : Type} {f : Failure} (hf : f.kind.isInternal) : R α (Action.fail f) (Action.fail f)
  lookup (name : Bytes) : R _ (Action.lookup name) (Action.lookup name)
  call {name : Bytes} {f : Func} (h : env.functions.get? name = some f) (args : List Value) :
    R _ (f args) (f args)

/-- A relation between actions that execution keeps. -/
structure Simulation (env env' : Env) (rounds rounds' : Nat)
    (R : ∀ α : Type, Action α → Action α → Prop) : Prop extends EvalSimulation env env' R where
  /-- The same text is written before a line is read. -/
  prompt : env'.prompt = env.prompt
  store (name : Bytes) (v : Value) : R _ (Action.store name v) (Action.store name v)
  write (context text : Bytes) : R _ (Action.write context text) (Action.write context text)
  readLine (context : Bytes) : R _ (Action.readLine context) (Action.readLine context)
  atLine {α : Type} {a b : Action α} (line : Int) (h : R α a b) :
    R α (a.atLine line) (b.atLine line)
  takeStep : R _ (takeStep env) (takeStep env')
  iterate {a b : Action Bool} (h : R _ a b) :
    R _ (Action.iterate rounds a) (Action.iterate rounds' b)

variable {env env' : Env} {rounds rounds' : Nat} {R : ∀ α : Type, Action α → Action α → Prop}

namespace EvalSimulation

/-- The operations of evaluation are related. -/
theorem related (h : EvalSimulation env env' R) (rounds rounds' : Nat) :
    (Interpretation.actions env rounds).EvalRelated (Interpretation.actions env' rounds')
      (fun _ => True) R where
  pure := h.pure
  bind := h.bind
  fail := h.fail
  lookup _ := h.lookup _
  call name args := by
    simp only [Interpretation.actions, Registry.call, h.functions]
    cases hf : env.functions.get? name with
    | some f => exact h.call hf args
    | none => exact h.fail rfl

/-- The two evaluations of an expression are related. -/
theorem eval (h : EvalSimulation env env' R) (e : Expr) :
    R _ (LineScript.eval env e) (LineScript.eval env' e) := by
  rw [Interpretation.eval_eq_reading env 0, Interpretation.eval_eq_reading env' 0]
  exact (h.related 0 0).eval e fun _ _ => trivial

theorem condition (h : EvalSimulation env env' R) (e : Expr) :
    R _ (LineScript.condition env e) (LineScript.condition env' e) := by
  rw [Interpretation.condition_eq_reading env 0, Interpretation.condition_eq_reading env' 0]
  exact (h.related 0 0).condition e fun _ _ => trivial

end EvalSimulation

namespace Simulation

/-- The operations of execution are related. -/
theorem related (h : Simulation env env' rounds rounds' R) :
    (Interpretation.actions env rounds).Related (Interpretation.actions env' rounds')
      (fun _ => True) (fun _ => True) R where
  toEvalRelated := h.toEvalSimulation.related rounds rounds'
  prompt := h.prompt
  store _ v := h.store _ v
  write := h.write
  readLine := h.readLine
  step := h.takeStep
  during activity := h.atLine activity.line
  iterate := h.iterate

/-- The two executions of a statement are related. -/
theorem exec (h : Simulation env env' rounds rounds' R) (s : Stmt) :
    R _ (LineScript.exec env rounds s) (LineScript.exec env' rounds' s) := by
  rw [Interpretation.exec_eq_reading, Interpretation.exec_eq_reading]
  exact h.related.exec s (fun _ _ => trivial) fun _ _ => trivial

/-- So are those of a block. -/
theorem execBlock (h : Simulation env env' rounds rounds' R) (body : List Stmt) :
    R _ (LineScript.execBlock env rounds body) (LineScript.execBlock env' rounds' body) := by
  rw [Interpretation.execBlock_eq_reading, Interpretation.execBlock_eq_reading]
  exact h.related.block body (fun _ _ => trivial) fun _ _ => trivial

end Simulation

/-! ## Outcomes -/

/-- Where the first action is not left unfinished, the second one does the same. -/
def Settles (α : Type) (a b : Action α) : Prop := ∀ m, (a m).1 ≠ .error .unfinished → b m = a m

theorem Settles.refl {α : Type} (a : Action α) : Settles α a a := fun _ _ => rfl

theorem Settles.bind {α β : Type} {a b : Action α} {f g : α → Action β} (h : Settles α a b)
    (hf : ∀ x, Settles β (f x) (g x)) : Settles β (a >>= f) (b >>= g) := by
  intro m hm
  have hb := h m
  obtain ⟨x, m', ha, hr⟩ | ⟨s, m', ha, hr⟩ := Action.bind_cases a f m <;>
    rw [ha] at hb <;> rw [hr] at hm ⊢
  · rw [Action.bind_ok (hb (by simp)), hf x m' hm]
  · rw [Action.bind_error (hb (by simpa using hm))]

theorem Settles.atLine {α : Type} {a b : Action α} (line : Int) (h : Settles α a b) :
    Settles α (a.atLine line) (b.atLine line) := by
  intro m hm
  have hfinished : (a m).1 ≠ .error .unfinished := by
    intro hu
    exact hm (congrArg Prod.fst (Action.atLine_unfinished (Prod.ext hu rfl)))
  simp only [Action.atLine, h m hfinished]

/-- A loop that ends within fewer rounds does not use the others. -/
theorem Settles.iterate {a b : Action Bool} (h : Settles Bool a b) {n n' : Nat} (hn : n ≤ n') :
    Settles Unit (Action.iterate n a) (Action.iterate n' b) := by
  intro m
  induction n generalizing n' m with
  | zero =>
    intro hm
    exact absurd rfl hm
  | succ n ih =>
    intro hm
    obtain ⟨k, rfl⟩ : ∃ k, n' = k + 1 := ⟨n' - 1, by omega⟩
    have hb := h m
    obtain ⟨m', ha, hr⟩ | ⟨m', ha, hr⟩ | ⟨s, m', ha, hr⟩ := Action.iterate_cases a n m <;>
      rw [ha] at hb <;> rw [hr] at hm ⊢
    · rw [Action.iterate_true (hb (by simp)), ih (by omega) m' hm]
    · rw [Action.iterate_false (hb (by simp))]
    · rw [Action.iterate_error (hb (by simpa using hm))]

theorem settles_simulation (env : Env) (h : rounds ≤ rounds') :
    Simulation env env rounds rounds' Settles where
  functions := rfl
  prompt := rfl
  pure _ := .refl _
  bind := .bind
  fail _ := .refl _
  lookup _ := .refl _
  call _ _ := .refl _
  store _ _ := .refl _
  write _ _ := .refl _
  readLine _ := .refl _
  atLine := .atLine
  takeStep := .refl _
  iterate ha := ha.iterate h

/-- How a run reports the reason for which its program stopped: a crash of a function of the host
with a failure fails the run. -/
def Stop.reported : Stop → Stop
  | .crashed (.failure f) => .failed ⟨.within (bytes "interpreter panic") f, none⟩
  | stop => stop

/-- A run executes its program from the first step on. -/
theorem execute_eq (env : Env) (rounds : Nat) (program : Block) (m : Machine) :
    execute env rounds program m =
      ((execBlock env rounds program { m with taken := 0 }).1.mapError Stop.reported,
        (execBlock env rounds program { m with taken := 0 }).2) := by
  unfold execute
  rcases execBlock env rounds program { m with taken := 0 } with ⟨stop | x, m'⟩
  · match stop with
    | .crashed (.failure f) | .crashed (.text t) | .failed e | .unfinished => rfl
  · rfl

theorem execute_unfinished_iff (program : Block) (m : Machine) :
    (execute env rounds program m).1 = .error .unfinished ↔
      (execBlock env rounds program { m with taken := 0 }).1 = .error .unfinished := by
  unfold execute
  split
  · next h => simp [h]
  · rfl

/-- More rounds change no run that ends. -/
theorem execute_mono {program : Block} {m : Machine} (h : rounds ≤ rounds')
    (hm : (execute env rounds program m).1 ≠ .error .unfinished) :
    execute env rounds' program m = execute env rounds program m := by
  have hblock := (settles_simulation env h).execBlock program { m with taken := 0 }
    (by rwa [Ne, ← execute_unfinished_iff])
  unfold execute
  rw [hblock]

/-- The outcome of a program that ends, whatever number of rounds shows it. -/
def Outcome (env : Env) (program : Block) (m : Machine) (r : Except Stop Unit × Machine) : Prop :=
  r.1 ≠ .error .unfinished ∧ ∃ rounds, execute env rounds program m = r

/-- Every larger number of rounds shows the outcome too. -/
theorem Outcome.execute_eq {program : Block} {m : Machine} {r : Except Stop Unit × Machine}
    (h : Outcome env program m r) : ∃ n, ∀ rounds ≥ n, execute env rounds program m = r := by
  obtain ⟨hr, n, rfl⟩ := h
  exact ⟨n, fun rounds hn => execute_mono hn hr⟩

/-- A program has at most one outcome. -/
theorem Outcome.unique {program : Block} {m : Machine} {r r' : Except Stop Unit × Machine}
    (h : Outcome env program m r) (h' : Outcome env program m r') : r = r' := by
  obtain ⟨n, hn⟩ := h.execute_eq
  obtain ⟨n', hn'⟩ := h'.execute_eq
  rw [← hn (max n n') (Nat.le_max_left n n'), hn' (max n n') (Nat.le_max_right n n')]

end LineScript
