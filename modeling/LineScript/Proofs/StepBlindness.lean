import LineScript.Proofs.IncrementalRun

/-!
# Runs that do not look at their steps

Without a budget nothing in a run depends on the number of steps taken so far: started after more
steps, a statement does the same and ends after as many more (`Action.StepBlind`). So statements that
take their steps at different points can be compared piece by piece. For the functions of a host this
is an assumption (`Registry.StepBlind`), which the functions of the language fulfil.
-/

namespace LineScript

/-! ## Machines after more steps -/

namespace Machine

@[simp] theorem later_zero (m : Machine) : m.later 0 = m := rfl

@[simp] theorem later_later (m : Machine) (c d : Nat) : (m.later c).later d = m.later (c + d) := by
  simp only [later, Nat.add_assoc]

@[simp] theorem later_taken (m : Machine) (c : Nat) : (m.later c).taken = m.taken + c := rfl

end Machine

/-! ## Step-blind actions -/

theorem Action.atLine_eq_ok_iff {α : Type} {a : Action α} {line : Int} {x : α} {m m' : Machine} :
    a.atLine line m = (.ok x, m') ↔ a m = (.ok x, m') := by
  rw [atLine_eq]
  rcases a m with ⟨s | y, m₁⟩
  · constructor <;> intro h <;> cases h
  · exact Iff.rfl

/-- An action that does not look at the number of steps taken before it. -/
def Action.StepBlind {α : Type} (a : Action α) : Prop := ∀ c, a.Displaced id c a

theorem Stop.relocate_id (s : Stop) : s.relocate id = s := by
  cases s with
  | failed e =>
    obtain ⟨failure, line⟩ := e
    cases line <;> rfl
  | crashed c => rfl
  | unfinished => rfl

namespace Action.StepBlind

variable {α β : Type} {a : Action α} {m m' : Machine}

/-- After more steps the same comes about, after as many more. -/
theorem after (h : a.StepBlind) {r : Except Stop α} (hr : a m = (r, m')) (c : Nat) :
    a (m.later c) = (r, m'.later c) := by
  rw [h c m r m' hr]
  cases r with
  | ok x => rfl
  | error s =>
    show (Except.error (s.relocate id), _) = _
    rw [Stop.relocate_id]

theorem pure (x : α) : (Pure.pure x : Action α).StepBlind := fun _ => .pure x

theorem bind {f : α → Action β} (h : a.StepBlind) (hf : ∀ x, (f x).StepBlind) :
    (a >>= f).StepBlind := fun c => (h c).bind fun x => hf x c

theorem atLine (line : Int) (h : a.StepBlind) : (a.atLine line).StepBlind :=
  fun c => (h c).atLine line

end Action.StepBlind

/-! ## Runs without budgets -/

/-- The functions that do not look at the number of steps. -/
def Registry.StepBlind (functions : Registry) : Prop :=
  ∀ name f, functions.get? name = some f → ∀ args, (f args).StepBlind

theorem Registry.standard_stepBlind : standard.StepBlind :=
  fun name f h args c => standard_portable name f h args id c

/-- No budget stops a run, and the functions that it calls do not look at the number of steps. -/
structure Env.Unmetered (env : Env) : Prop where
  limit : env.stepLimit ≤ 0
  cancel : env.cancelAfter = none
  functions : env.functions.StepBlind

theorem Env.default_unmetered : Env.Unmetered {} := ⟨by decide, rfl, Registry.standard_stepBlind⟩

namespace Env.Unmetered

variable {env : Env} {rounds : Nat}

/-- A step is counted and does nothing else. -/
theorem takeStep_eq (h : env.Unmetered) (m : Machine) : takeStep env m = (.ok (), m.later 1) := by
  simp only [takeStep, Env.refusal_eq_none h.limit h.cancel]
  rfl

theorem step_eq (h : env.Unmetered) (line : Int) (m : Machine) :
    (takeStep env).atLine line m = (.ok (), m.later 1) := by
  simp only [Action.atLine, h.takeStep_eq]

/-- All that a run does is blind to the number of steps, since no budget looks at it. -/
theorem simulation (h : env.Unmetered) (rounds : Nat) :
    Simulation env env rounds rounds fun _ a _ => a.StepBlind where
  functions := rfl
  prompt := rfl
  pure := .pure
  bind := .bind
  fail _ _ := .fail _
  lookup name _ := .lookup name
  call hf args := h.functions _ _ hf args
  store name v _ := .store name v
  write context text _ := .write context text
  readLine context _ := .readLine context
  atLine := .atLine
  takeStep c := by
    intro m r m' hr
    rw [h.takeStep_eq] at hr ⊢
    cases hr
    simp only [Machine.later_later, Nat.add_comm]
    rfl
  iterate ha c := (ha c).iterate rounds

theorem condition_stepBlind (h : env.Unmetered) (e : Expr) : (condition env e).StepBlind :=
  (h.simulation 0).condition e

theorem exec_stepBlind (h : env.Unmetered) (s : Stmt) : (exec env rounds s).StepBlind :=
  (h.simulation rounds).exec s

theorem execBlock_stepBlind (h : env.Unmetered) (body : Block) :
    (execBlock env rounds body).StepBlind :=
  (h.simulation rounds).execBlock body

theorem execAlternative_stepBlind (h : env.Unmetered) (a : Alternative) :
    (execAlternative env rounds a).StepBlind := by
  rw [Interpretation.execAlternative_eq_reading]
  exact (h.simulation rounds).related.alternative a (fun _ _ => trivial) fun _ _ => trivial

end Env.Unmetered

end LineScript
