import LineScript.Proofs.RunRelation

/-!
# The journal of a run

A run leaves a machine and a result. To speak of what happened in between, a program is read once
more, as an action that also keeps a journal (`Interpretation.recorded`): which statements began and
ended, what was written and which lines were read, in order. But for the journal it is the run
itself (`execBlock_eq_record`).
-/

namespace LineScript

/-- What a run may do that its journal mentions. -/
inductive Happening where
  /-- An activity began. -/
  | began (activity : Activity)
  /-- The activity that began last, of those that have not ended, ended. -/
  | ended
  /-- A text was to be written, when the machine was as given. -/
  | wrote (before : Machine) (text : Bytes)
  /-- A line of input was delivered. -/
  | received (line : Bytes)

/-- What happened in a run, in order. -/
abbrev Journal := List Happening

/-- How a recorded action ended. -/
structure Recording (α : Type) where
  /-- The result, or why there is none. -/
  result : Except Stop α
  /-- The machine that is left. -/
  machine : Machine
  /-- What happened. -/
  journal : Journal

/-- A change of a machine that keeps a journal. -/
def Recorded (α : Type) : Type := Machine → Recording α

/-! ## Recorded actions -/

namespace Recorded

variable {α β : Type}

instance : Monad Recorded where
  pure x := fun m => ⟨.ok x, m, []⟩
  bind a f := fun m =>
    match a m with
    | ⟨.ok x, m', journal⟩ =>
      let next := f x m'
      ⟨next.result, next.machine, journal ++ next.journal⟩
    | ⟨.error stop, m', journal⟩ => ⟨.error stop, m', journal⟩

/-- An action that the journal does not mention. -/
def silent (a : Action α) : Recorded α := fun m => ⟨(a m).1, (a m).2, []⟩

/-- Writes a text. -/
def write (context text : Bytes) : Recorded Unit := fun m =>
  let r := Action.write context text m
  ⟨r.1, r.2, [.wrote m text]⟩

/-- Reads a line. -/
def readLine (context : Bytes) : Recorded Bytes := fun m =>
  match Action.readLine context m with
  | (.ok line, m') => ⟨.ok line, m', [.received line]⟩
  | (.error stop, m') => ⟨.error stop, m', []⟩

/-- Does something as part of an activity. -/
def during (activity : Activity) (a : Recorded α) : Recorded α := fun m =>
  match a m with
  | ⟨.ok x, m', journal⟩ => ⟨.ok x, m', .began activity :: journal ++ [.ended]⟩
  | ⟨.error stop, m', journal⟩ =>
    ⟨.error (stop.atLine activity.line), m', .began activity :: journal⟩

/-- Repeats an action for as long as it answers `true`, at most `rounds` times. -/
def iterate : (rounds : Nat) → Recorded Bool → Recorded Unit
  | 0, _ => fun m => ⟨.error .unfinished, m, []⟩
  | rounds + 1, once => do if ← once then iterate rounds once else pure ()

theorem bind_ok {a : Recorded α} {f : α → Recorded β} {m m' : Machine} {x : α} {journal : Journal}
    (h : a m = ⟨.ok x, m', journal⟩) :
    (a >>= f) m = ⟨(f x m').result, (f x m').machine, journal ++ (f x m').journal⟩ := by
  simp only [Bind.bind, h]

theorem bind_error {a : Recorded α} {f : α → Recorded β} {m m' : Machine} {stop : Stop}
    {journal : Journal} (h : a m = ⟨.error stop, m', journal⟩) :
    (a >>= f) m = ⟨.error stop, m', journal⟩ := by
  simp only [Bind.bind, h]

theorem during_ok {a : Recorded α} {m m' : Machine} {x : α} {journal : Journal}
    (h : a m = ⟨.ok x, m', journal⟩) (activity : Activity) :
    a.during activity m = ⟨.ok x, m', .began activity :: journal ++ [.ended]⟩ := by
  simp only [during, h]

theorem during_error {a : Recorded α} {m m' : Machine} {stop : Stop} {journal : Journal}
    (h : a m = ⟨.error stop, m', journal⟩) (activity : Activity) :
    a.during activity m =
      ⟨.error (stop.atLine activity.line), m', .began activity :: journal⟩ := by
  simp only [during, h]

@[simp] theorem during_result (a : Recorded α) (activity : Activity) (m : Machine) :
    (a.during activity m).result = (a m).result.mapError (Stop.atLine activity.line) := by
  unfold during
  match a m with
  | ⟨.ok x, m', journal⟩ | ⟨.error stop, m', journal⟩ => rfl

@[simp] theorem during_machine (a : Recorded α) (activity : Activity) (m : Machine) :
    (a.during activity m).machine = (a m).machine := by
  unfold during
  match a m with
  | ⟨.ok x, m', journal⟩ | ⟨.error stop, m', journal⟩ => rfl

theorem mem_during {a : Recorded α} {m : Machine} {happening : Happening}
    (h : happening ∈ (a m).journal) (activity : Activity) :
    happening ∈ (a.during activity m).journal := by
  unfold during
  match hm : a m with
  | ⟨.ok x, m', journal⟩ | ⟨.error stop, m', journal⟩ =>
    rw [hm] at h
    simp [h]

/-- What is gathered from a journal, apart from the activities, does not depend on them. -/
theorem during_flatMap {β : Type} (a : Recorded α) (activity : Activity) (m : Machine)
    {gather : Happening → List β} (hbegan : gather (.began activity) = [])
    (hended : gather .ended = []) :
    (a.during activity m).journal.flatMap gather = (a m).journal.flatMap gather := by
  unfold during
  match a m with
  | ⟨.ok x, m', journal⟩ | ⟨.error stop, m', journal⟩ => simp [hbegan, hended]

end Recorded

namespace Interpretation

/-- The recorded reading, except that calls leave no trace. -/
def mute (env : Env) (rounds : Nat) : Interpretation Recorded where
  fail f := .silent (Action.fail f)
  lookup name := .silent (Action.lookup name)
  store name v := .silent (Action.store name v)
  write := Recorded.write
  readLine := Recorded.readLine
  call name args := .silent ((actions env rounds).call name args)
  prompt := env.prompt
  step := .silent (takeStep env)
  during := Recorded.during
  iterate := Recorded.iterate rounds

/-- The reading of a program as what it does to a machine, with a journal. Of the functions of the
language only `input` and `print` do what a journal mentions. -/
def recorded (env : Env) (rounds : Nat) : Interpretation Recorded :=
  { mute env rounds with
    call := fun name args =>
      if name = bytes "input" then (mute env rounds).input args
      else if name = bytes "print" then (mute env rounds).print args
      else (mute env rounds).call name args }

section Relation

variable {env : Env} {rounds : Nat} {R : ∀ α : Type, Recorded α → Action α → Prop}

/-- The calls need no case of their own: `input` and `print` are made of reading and writing, and
every other function of the language yields a value or fails. -/
theorem Congruent.recorded_call (h : Congruent (recorded env rounds) (actions env rounds) R)
    (hfun : env.functions = .standard)
    (hwrite : ∀ context text, R _ (Recorded.write context text) (Action.write context text))
    (hread : ∀ context, R _ (Recorded.readLine context) (Action.readLine context)) (name : Bytes)
    (args : List Value) :
    R _ ((recorded env rounds).call name args) ((actions env rounds).call name args) := by
  have hmute : Congruent (mute env rounds) (actions env rounds) R := ⟨h.pure, h.bind, h.fail⟩
  have hstandard : ∀ f, Registry.standard.get? name = some f →
      (actions env rounds).call name args = f args := by
    intro f hf
    simp only [actions, Registry.call, hfun, hf]
  simp only [recorded]
  split
  · next hname =>
    rw [hstandard Func.input (hname ▸ rfl), ← actions_input env rounds]
    exact hmute.input hwrite hread args
  · split
    · next hname =>
      rw [hstandard Func.print (hname ▸ rfl)]
      exact hmute.print hwrite args
    · -- the other functions only compute, so that they leave no trace
      simp only [mute]
      cases hf : Registry.standard.get? name with
      | none =>
        have hcall : (actions env rounds).call name args =
            Action.fail (.undefinedFunction name) := by
          simp only [actions, Registry.call, hfun, hf]
        rw [hcall]
        exact h.fail rfl
      | some f =>
        rw [hstandard f hf]
        obtain ⟨hname, -⟩ | ⟨hname, -⟩ | hcomputes := Registry.standard_cases hf
        · contradiction
        · contradiction
        · obtain ⟨r, hr, hinternal⟩ := hcomputes args
          rw [hr]
          cases r with
          | ok v => exact h.pure v
          | error e => exact h.fail (hinternal e rfl)

/-- With the functions of the language, a relation between recorded and plain actions need only hold
of the operations that are not put together from others. -/
theorem Congruent.recorded_related (h : Congruent (recorded env rounds) (actions env rounds) R)
    (hfun : env.functions = .standard)
    (lookup : ∀ name, R _ (.silent (Action.lookup name)) (Action.lookup name))
    (store : ∀ name v, R _ (.silent (Action.store name v)) (Action.store name v))
    (write : ∀ context text, R _ (Recorded.write context text) (Action.write context text))
    (readLine : ∀ context, R _ (Recorded.readLine context) (Action.readLine context))
    (step : R _ (.silent (takeStep env)) (takeStep env))
    (during : ∀ {α : Type} {a : Recorded α} {b : Action α} (activity : Activity), R α a b →
      R α (a.during activity) (b.atLine activity.line))
    (unfinished : ∀ a b, R _ (Recorded.iterate 0 a) (Action.iterate 0 b)) :
    (recorded env rounds).Related (actions env rounds) (fun _ => True) (fun _ => True) R :=
  { h with
    lookup := fun _ => lookup _
    call := h.recorded_call hfun write readLine
    prompt := rfl
    store := fun _ v => store _ v
    write := write
    readLine := readLine
    step := step
    during := during
    iterate := fun {a b} hab => h.loop (fun _ _ => rfl) Action.iterate_succ hab (unfinished a b)
      rounds }

end Relation

end Interpretation

/-! ## The run behind the journal -/

/-- But for its journal, a recorded action is a plain one. -/
def Recorded.Erases (α : Type) (a : Recorded α) (b : Action α) : Prop :=
  ∀ m, b m = ((a m).result, (a m).machine)

namespace Recorded.Erases

variable {α β : Type}

theorem silent (a : Action α) : Erases α (.silent a) a := fun _ => rfl

theorem bind {a : Recorded α} {b : Action α} {f : α → Recorded β} {g : α → Action β}
    (hab : Erases α a b) (hfg : ∀ x, Erases β (f x) (g x)) : Erases β (a >>= f) (b >>= g) := by
  intro m
  have hb := hab m
  match ha : a m with
  | ⟨.ok x, m', journal⟩ =>
    rw [ha] at hb
    rw [bind_ok ha, Action.bind_ok hb]
    exact hfg x m'
  | ⟨.error stop, m', journal⟩ =>
    rw [ha] at hb
    rw [bind_error ha, Action.bind_error hb]

theorem write (context text : Bytes) : Erases _ (.write context text) (Action.write context text) :=
  fun _ => rfl

theorem readLine (context : Bytes) : Erases _ (.readLine context) (Action.readLine context) := by
  intro m
  unfold Recorded.readLine
  match Action.readLine context m with
  | (.ok line, m') | (.error stop, m') => rfl

theorem during {a : Recorded α} {b : Action α} (activity : Activity) (hab : Erases α a b) :
    Erases α (a.during activity) (b.atLine activity.line) := by
  intro m
  rw [Action.atLine_eq, hab m, during_result, during_machine]

theorem unfinished (a : Recorded Bool) (b : Action Bool) :
    Erases _ (Recorded.iterate 0 a) (Action.iterate 0 b) := fun _ => rfl

theorem related {env : Env} (hfun : env.functions = .standard) (rounds : Nat) :
    (Interpretation.recorded env rounds).Related (Interpretation.actions env rounds)
      (fun _ => True) (fun _ => True) Erases :=
  Interpretation.Congruent.recorded_related ⟨fun x => silent (pure x), bind, fun _ => silent _⟩ hfun
    (fun _ => silent _) (fun _ _ => silent _) write readLine (silent _) during unfinished

end Recorded.Erases

/-- The record of a run of a program. -/
def record (env : Env) (rounds : Nat) (program : Block) (m : Machine) : Recording Unit :=
  (Interpretation.recorded env rounds).block program { m with taken := 0 }

theorem execBlock_eq_record {env : Env} (hfun : env.functions = .standard) (rounds : Nat)
    (program : Block) (m : Machine) :
    execBlock env rounds program { m with taken := 0 } =
      ((record env rounds program m).result, (record env rounds program m).machine) := by
  rw [Interpretation.execBlock_eq_reading]
  exact (Recorded.Erases.related hfun rounds).block program (fun _ _ => trivial)
    (fun _ _ => trivial) { m with taken := 0 }

end LineScript
