import LineScript.Proofs.RunRelation

/-!
# The direction of a run

A run only goes forward: it counts steps up, appends to its output and consumes its input
(`Machine.Precedes`). Statements do so by taking steps; everything below them takes none
(`Action.Stepless`). For the functions of a host this is an assumption (`Registry.Hosted`), which
the functions of the language fulfil.
-/

namespace LineScript

/-! ## Machines -/

/-- A machine that a run can have gone through before it reaches another one. -/
structure Machine.Precedes (m m' : Machine) : Prop where
  /-- Steps are counted up. -/
  taken : m.taken ≤ m'.taken
  /-- Output is appended. -/
  output : m.output.data.toList <+: m'.output.data.toList
  /-- Input is consumed from its front. -/
  input : m'.input.rest <:+ m.input.rest

namespace Machine.Precedes

variable {m m' m'' : Machine}

theorem refl (m : Machine) : m.Precedes m :=
  ⟨Nat.le_refl _, List.prefix_refl _, List.suffix_refl _⟩

theorem trans (h : m.Precedes m') (h' : m'.Precedes m'') : m.Precedes m'' :=
  ⟨Nat.le_trans h.taken h'.taken, h.output.trans h'.output, h'.input.trans h.input⟩

end Machine.Precedes

/-- A line and what comes after it make up the input. -/
theorem Input.takeLine_append (input : Bytes) :
    (takeLine input).1 ++ (takeLine input).2.1 = input := by
  induction input with
  | nil => rfl
  | cons b rest ih =>
    by_cases hb : b = 0x0a
    · simp [takeLine, hb]
    · simp [takeLine, hb, ih]

/-! ## Actions that go forward -/

/-- An action that goes forward. -/
def Action.Onward {α : Type} (a : Action α) : Prop := ∀ m : Machine, m.Precedes (a m).2

namespace Action.Onward

variable {α β : Type}

/-- What follows an action goes on from where the action left the machine. -/
theorem after_bind (a : Action α) {f : α → Action β} (hf : ∀ x, (f x).Onward) (m : Machine) :
    (a m).2.Precedes ((a >>= f) m).2 := by
  obtain ⟨x, m', h, hr⟩ | ⟨s, m', h, hr⟩ := bind_cases a f m <;> rw [h, hr]
  · exact hf x m'
  · exact .refl m'

theorem bind {a : Action α} {f : α → Action β} (ha : a.Onward) (hf : ∀ x, (f x).Onward) :
    (a >>= f).Onward := fun m => (ha m).trans (after_bind a hf m)

theorem atLine {a : Action α} (line : Int) (ha : a.Onward) : (a.atLine line).Onward := by
  intro m
  rw [atLine_machine]
  exact ha m

/-- The rounds after the first one go on from where it left the machine. -/
theorem after_iterate {once : Action Bool} {n : Nat} (h : (Action.iterate n once).Onward)
    (m : Machine) : (once m).2.Precedes (Action.iterate (n + 1) once m).2 := by
  obtain ⟨m', ho, hr⟩ | ⟨m', ho, hr⟩ | ⟨s, m', ho, hr⟩ := iterate_cases once n m <;> rw [ho, hr]
  · exact h m'
  · exact .refl m'
  · exact .refl m'

theorem iterate {once : Action Bool} (h : once.Onward) (n : Nat) :
    (Action.iterate n once).Onward := by
  induction n with
  | zero => exact fun m => .refl m
  | succ n ih => exact fun m => (h m).trans (after_iterate ih m)

end Action.Onward

/-! ## Actions that take no step -/

/-- An action that goes forward without taking a step and stops only for certain reasons. -/
structure Action.Stepless {α : Type} (P : Stop → Prop) (a : Action α) : Prop where
  taken (m : Machine) : (a m).2.taken = m.taken
  onward : a.Onward
  stops {m : Machine} {s : Stop} (h : (a m).1 = .error s) : P s

namespace Action.Stepless

variable {α β : Type} {P Q : Stop → Prop} {a : Action α}

theorem mono (h : Stepless P a) (hPQ : ∀ s, P s → Q s) : Stepless Q a :=
  ⟨h.taken, h.onward, fun hs => hPQ _ (h.stops hs)⟩

theorem pure (x : α) : Stepless P (Pure.pure x : Action α) :=
  ⟨fun _ => rfl, fun m => .refl m, fun h => nomatch h⟩

theorem bind {f : α → Action β} (ha : Stepless P a) (hf : ∀ x, Stepless P (f x)) :
    Stepless P (a >>= f) := by
  refine ⟨fun m => ?_, ha.onward.bind fun x => (hf x).onward, fun {m s} hs => ?_⟩
  · have hsteps := ha.taken m
    obtain ⟨x, m', hm, hr⟩ | ⟨s, m', hm, hr⟩ := bind_cases a f m <;> rw [hm] at hsteps <;> rw [hr]
    · rw [(hf x).taken m', hsteps]
    · exact hsteps
  · obtain ⟨x, m', hm, hr⟩ | ⟨s', m', hm, hr⟩ := bind_cases a f m <;> rw [hr] at hs
    · exact (hf x).stops hs
    · cases hs
      exact ha.stops (congrArg Prod.fst hm)

theorem fail {f : Failure} (hf : P (.failed ⟨f, none⟩)) : Stepless P (Action.fail f : Action α) :=
  ⟨fun _ => rfl, fun m => .refl m, fun h => by cases h; exact hf⟩

theorem ofExcept {r : Except Failure α} (hr : ∀ f, r = .error f → P (.failed ⟨f, none⟩)) :
    Stepless P (Action.ofExcept r) := by
  cases r with
  | ok x => exact pure x
  | error f => exact fail (hr f rfl)

theorem lookup (name : Bytes) : Stepless P (Action.lookup name) :=
  ⟨fun _ => rfl, fun m => .refl m, fun h => nomatch h⟩

theorem store (name : Bytes) (v : Value) : Stepless P (Action.store name v) :=
  ⟨fun _ => rfl, fun _ => ⟨Nat.le_refl _, List.prefix_refl _, List.suffix_refl _⟩,
    fun h => nomatch h⟩

theorem write {context text : Bytes} (hP : P (.failed ⟨.within context .writeFailed, none⟩)) :
    Stepless P (Action.write context text) := by
  refine ⟨fun m => by rw [write_machine], fun m => ?_, fun {m s} hs => ?_⟩
  · rw [write_machine]
    exact ⟨Nat.le_refl _, by simp [Output.write], List.suffix_refl _⟩
  · simp only [Action.write] at hs
    split at hs
    · cases hs
    · cases hs
      exact hP

theorem readLine {context : Bytes} (hP : P (.failed ⟨.within context .readFailed, none⟩)) :
    Stepless P (Action.readLine context) := by
  refine ⟨fun m => by rw [readLine_machine], fun m => ?_, fun {m s} hs => ?_⟩
  · rw [readLine_machine]
    exact ⟨Nat.le_refl _, List.prefix_refl _, ⟨_, Input.takeLine_append m.input.rest⟩⟩
  · simp only [Action.readLine] at hs
    split at hs
    · cases hs
      exact hP
    · cases hs

end Action.Stepless

/-- How the language itself stops: by a failure that has no line yet, and that neither a
budget nor a host brought about. -/
def Stop.Ordinary : Stop → Prop
  | .failed e => e.line = none ∧ (e.failure.kind.isInternal ∨ e.failure.kind = .writeFailed ∨
    e.failure.kind = .readFailed)
  | .crashed _ | .unfinished => False

/-- A relation that holds between each stepless action and itself need only be kept by what puts
actions together. -/
theorem Simulation.of_stepless {env env' : Env} {rounds rounds' : Nat}
    {R : ∀ α : Type, Action α → Action α → Prop} (functions : env'.functions = env.functions)
    (prompt : env'.prompt = env.prompt)
    (basic : ∀ {α : Type} {a : Action α}, a.Stepless Stop.Ordinary → R α a a)
    (call : ∀ {name : Bytes} {f : Func}, env.functions.get? name = some f → ∀ args,
      R _ (f args) (f args))
    (bind : ∀ {α β : Type} {a b : Action α} {f g : α → Action β}, R α a b →
      (∀ x, R β (f x) (g x)) → R β (a >>= f) (b >>= g))
    (atLine : ∀ {α : Type} {a b : Action α} (line : Int), R α a b →
      R α (a.atLine line) (b.atLine line))
    (takeStep : R _ (LineScript.takeStep env) (LineScript.takeStep env'))
    (iterate : ∀ {a b : Action Bool}, R _ a b →
      R _ (Action.iterate rounds a) (Action.iterate rounds' b)) :
    Simulation env env' rounds rounds' R where
  functions := functions
  prompt := prompt
  pure x := basic (.pure x)
  bind := bind
  fail hf := basic (.fail ⟨rfl, .inl hf⟩)
  lookup name := basic (.lookup name)
  call := call
  store name v := basic (.store name v)
  write _ _ := basic (.write ⟨rfl, .inr (.inl rfl)⟩)
  readLine _ := basic (.readLine ⟨rfl, .inr (.inr rfl)⟩)
  atLine := atLine
  takeStep := takeStep
  iterate := iterate

/-! ## Functions -/

/-- The functions that a host may register: they take no step, go forward and come to an end. -/
def Registry.Hosted (functions : Registry) : Prop :=
  ∀ name f, functions.get? name = some f → ∀ args, (f args).Stepless (· ≠ .unfinished)

namespace Func

theorem Computes.stepless {f : Func} (h : f.Computes) (args : List Value) :
    (f args).Stepless Stop.Ordinary := by
  obtain ⟨r, hr, hinternal⟩ := h args
  rw [hr]
  exact .ofExcept fun e he => ⟨rfl, .inl (hinternal e he)⟩

theorem input_stepless (args : List Value) : (input args).Stepless Stop.Ordinary := by
  have hread : (do return Value.ofText (← Action.readLine (bytes "input"))).Stepless
      Stop.Ordinary :=
    .bind (.readLine ⟨rfl, .inr (.inr rfl)⟩) fun _ => .pure _
  unfold input
  split
  · exact hread
  · exact .bind (.write ⟨rfl, .inr (.inl rfl)⟩) fun _ => hread
  · exact .fail ⟨rfl, .inl rfl⟩

theorem print_stepless (args : List Value) : (print args).Stepless Stop.Ordinary :=
  .bind (.write ⟨rfl, .inr (.inl rfl)⟩) fun _ => .pure _

end Func

/-- The functions of the language take no step and stop in the ordinary way. -/
theorem Registry.standard_stepless {name : Bytes} {f : Func}
    (h : standard.get? name = some f) (args : List Value) : (f args).Stepless Stop.Ordinary := by
  obtain ⟨-, rfl⟩ | ⟨-, rfl⟩ | hf := standard_cases h
  · exact Func.input_stepless args
  · exact Func.print_stepless args
  · exact hf.stepless args

theorem Registry.standard_hosted : standard.Hosted := by
  intro name f h args
  refine (standard_stepless h args).mono fun s hs hu => ?_
  rw [hu] at hs
  exact hs

/-! ## Evaluation -/

section Evaluation

variable {env : Env}

theorem stepless_simulation (env : Env) (h : env.functions.Hosted) :
    EvalSimulation env env fun _ a _ => a.Stepless (· ≠ .unfinished) where
  functions := rfl
  pure := .pure
  bind := .bind
  fail _ := .fail nofun
  lookup := .lookup
  call hf args := h _ _ hf args

/-- Evaluation takes no step. -/
theorem eval_stepless (h : env.functions.Hosted) (e : Expr) :
    (eval env e).Stepless (· ≠ .unfinished) :=
  (stepless_simulation env h).eval e

theorem condition_stepless (h : env.functions.Hosted) (e : Expr) :
    (condition env e).Stepless (· ≠ .unfinished) :=
  (stepless_simulation env h).condition e

theorem assign_stepless (h : env.functions.Hosted) (name : Bytes) (e : Expr) :
    (assign env name e).Stepless (· ≠ .unfinished) :=
  (eval_stepless h e).bind fun v => .store name v

theorem printValue_stepless (h : env.functions.Hosted) (e : Expr) :
    (printValue env e).Stepless (· ≠ .unfinished) :=
  (eval_stepless h e).bind fun _ => .write nofun

theorem inputLine_stepless (env : Env) (name : Bytes) :
    (inputLine env name).Stepless (· ≠ .unfinished) := by
  have hread : (Action.readLine (bytes "citeste") >>= fun line =>
      Action.store name (.ofText line)).Stepless (· ≠ .unfinished) :=
    .bind (.readLine nofun) fun _ => .store _ _
  unfold inputLine
  cases env.prompt.isEmpty with
  | true => exact hread
  | false => exact .bind (.write nofun) fun _ => hread

end Evaluation

/-! ## Execution -/

/-- A step is counted whether or not it is refused. -/
theorem takeStep_machine (env : Env) (m : Machine) :
    (takeStep env m).2 = { m with taken := m.taken + 1 } := by
  simp only [takeStep]
  split <;> rfl

/-- The counter is raised by one in 64 bits, so that it does not stay at its greatest value. -/
theorem takeStep_steps (env : Env) (m : Machine) : (takeStep env m).2.steps = m.steps + 1 := by
  rw [takeStep_machine]
  exact Int64.ofNat_add m.taken 1

/-- Without a limit and a cancellation no step is refused. -/
theorem Env.refusal_eq_none {env : Env} (hlimit : env.stepLimit ≤ 0)
    (hcancel : env.cancelAfter = none) (taken : Nat) : env.refusal taken = none := by
  simp [refusal, Int64.not_lt.mpr hlimit, hcancel]

theorem takeStep_onward (env : Env) : (takeStep env).Onward := by
  intro m
  rw [takeStep_machine]
  exact ⟨Nat.le_succ _, List.prefix_refl _, List.suffix_refl _⟩

theorem onward_simulation (env : Env) (rounds : Nat) (h : env.functions.Hosted) :
    Simulation env env rounds rounds fun _ a _ => a.Onward :=
  .of_stepless rfl rfl (fun ha => ha.onward) (fun hf args => (h _ _ hf args).onward) .bind .atLine
    (takeStep_onward env) fun ha => ha.iterate rounds

/-- A run goes forward. -/
theorem execBlock_onward {env : Env} {rounds : Nat} (h : env.functions.Hosted) (body : Block) :
    (execBlock env rounds body).Onward :=
  (onward_simulation env rounds h).execBlock body

end LineScript
