import LineScript.Interpreter
import LineScript.Proofs.LimitedOutput

/-!
# What evaluation leaves alone

Evaluation does two things to a machine: it appends to the output and takes bytes from the front of
the input (`Machine.Converses`). Variables and steps stay as they are, whether or not it succeeds.
Statements without blocks store their value last, and storing cannot fail. So one that fails has not
changed the variables (`Action.AllOrNothing`).
-/

namespace LineScript

/-! ## Output -/

namespace Output

/-- The output after it has taken a text as a whole. -/
def appended (o : Output) (text : Bytes) : Output :=
  { o.extended text with room := o.room.map (· - text.length) }

theorem appended_nil (o : Output) : o.appended [] = o := by
  obtain ⟨data, room, count⟩ := o
  cases room <;> simp [appended]

theorem appended_appended (o : Output) (text text' : Bytes) :
    (o.appended text).appended text' = o.appended (text ++ text') := by
  have hroom : (o.room.map (· - text.length)).map (· - text'.length) =
      o.room.map (· - (text ++ text').length) := by
    cases o.room <;> simp [Nat.sub_sub]
  unfold appended
  rw [← extended_extended, ← hroom]
  rfl

/-- What a write stores is the part of the text that fits. -/
theorem write_eq_appended (o : Output) (text : Bytes) :
    o.write text = o.appended (text.take (o.fitting text)) := by
  have hfitting : o.fitting text ≤ text.length := by
    unfold fitting
    split
    · exact Nat.le_refl _
    · exact Nat.min_le_right _ _
  have hlength : (text.take (o.fitting text)).length = o.fitting text :=
    List.length_take_of_le hfitting
  simp only [write, appended, extended, hlength]

end Output

/-! ## Evaluation -/

/-- How evaluation may change a machine. -/
structure Machine.Converses (m m' : Machine) : Prop where
  vars : m'.vars = m.vars
  taken : m'.taken = m.taken
  /-- Something has been appended to the output. -/
  output : ∃ text, m'.output = m.output.appended text
  /-- Something has been taken from the front of the input. -/
  input : ∃ taken, m.input = { m'.input with rest := taken ++ m'.input.rest }

namespace Machine.Converses

variable {m m' m'' : Machine}

theorem refl (m : Machine) : m.Converses m :=
  ⟨rfl, rfl, ⟨[], m.output.appended_nil.symm⟩, ⟨[], rfl⟩⟩

theorem trans (h : m.Converses m') (h' : m'.Converses m'') : m.Converses m'' := by
  obtain ⟨text, htext⟩ := h.output
  obtain ⟨text', htext'⟩ := h'.output
  obtain ⟨taken, htaken⟩ := h.input
  obtain ⟨taken', htaken'⟩ := h'.input
  refine ⟨h'.vars.trans h.vars, h'.taken.trans h.taken, ⟨text ++ text', ?_⟩, ⟨taken ++ taken', ?_⟩⟩
  · rw [htext', htext, Output.appended_appended]
  · rw [htaken, htaken', List.append_assoc]

end Machine.Converses

/-- An action that only reads and writes. -/
def Action.Quiet {α : Type} (a : Action α) : Prop := ∀ m : Machine, m.Converses (a m).2

namespace Action.Quiet

variable {α β : Type}

/-- An action that does not change the machine. -/
theorem of_machine {a : Action α} (h : ∀ m, (a m).2 = m) : a.Quiet := by
  intro m
  rw [h m]
  exact .refl m

theorem bind {a : Action α} {f : α → Action β} (ha : a.Quiet) (hf : ∀ x, (f x).Quiet) :
    (a >>= f).Quiet := by
  intro m
  have hm := ha m
  obtain ⟨x, m', hx, hr⟩ | ⟨s, m', hs, hr⟩ := bind_cases a f m <;> rw [hr]
  · rw [hx] at hm
    exact hm.trans (hf x m')
  · rwa [hs] at hm

theorem write (context text : Bytes) : (Action.write context text).Quiet := by
  intro m
  rw [write_machine]
  exact ⟨rfl, rfl, ⟨_, m.output.write_eq_appended text⟩, ⟨[], rfl⟩⟩

theorem readLine (context : Bytes) : (Action.readLine context).Quiet := by
  intro m
  have hinput : m.input = { m.input.readLine.2.2 with
      rest := (Input.takeLine m.input.rest).1 ++ (Input.takeLine m.input.rest).2.1 } := by
    rw [Input.takeLine_append]
    rfl
  rw [readLine_machine]
  exact ⟨rfl, rfl, ⟨[], m.output.appended_nil.symm⟩, ⟨_, hinput⟩⟩

/-- With the functions of the language every operation of evaluation is quiet. -/
theorem related {env : Env} (hfun : env.functions = .standard) (rounds : Nat) :
    (Interpretation.actions env rounds).EvalRelated (Interpretation.actions env rounds)
      (fun _ => True) fun _ a _ => a.Quiet :=
  have hcongruent : (Interpretation.actions env rounds).Congruent
      (Interpretation.actions env rounds) fun _ a _ => a.Quiet :=
    ⟨fun _ => of_machine fun _ => rfl, bind, fun _ => of_machine fun _ => rfl⟩
  { hcongruent with
    lookup := fun _ => of_machine fun _ => rfl
    call := hcongruent.call hfun write readLine }

theorem reading {env : Env} (hfun : env.functions = .standard) (rounds : Nat) (e : Expr) :
    ((Interpretation.actions env rounds).eval e).Quiet :=
  (related hfun rounds).eval e fun _ _ => trivial

end Action.Quiet

theorem eval_quiet {env : Env} (hfun : env.functions = .standard) (e : Expr) :
    (eval env e).Quiet := by
  rw [Interpretation.eval_eq_reading env 0]
  exact .reading hfun 0 e

/-! ## Statements that fail -/

/-- An action that leaves the variables as they were if it does not come to its end. -/
def Action.AllOrNothing {α : Type} (a : Action α) : Prop :=
  ∀ (m : Machine) (stop : Stop), (a m).1 = .error stop → (a m).2.vars = m.vars

namespace Action.AllOrNothing

variable {α β : Type}

theorem of_vars {a : Action α} (h : ∀ m, (a m).2.vars = m.vars) : a.AllOrNothing :=
  fun m _ _ => h m

theorem of_quiet {a : Action α} (h : a.Quiet) : a.AllOrNothing := of_vars fun m => (h m).vars

/-- As long as the variables are left alone, any action can come first. -/
theorem bind {a : Action α} {f : α → Action β} (ha : ∀ m, (a m).2.vars = m.vars)
    (hf : ∀ x, (f x).AllOrNothing) : (a >>= f).AllOrNothing := by
  intro m stop h
  have hm := ha m
  obtain ⟨x, m', hx, hr⟩ | ⟨s, m', hs, hr⟩ := bind_cases a f m <;> rw [hr] at h ⊢
  · rw [hx] at hm
    rw [hf x m' stop h, hm]
  · rwa [hs] at hm

theorem bind_quiet {a : Action α} {f : α → Action β} (ha : a.Quiet)
    (hf : ∀ x, (f x).AllOrNothing) : (a >>= f).AllOrNothing := bind (fun m => (ha m).vars) hf

theorem store (name : Bytes) (v : Value) : (Action.store name v).AllOrNothing := fun _ _ => nofun

theorem atLine {a : Action α} (line : Int) (ha : a.AllOrNothing) :
    (a.atLine line).AllOrNothing := by
  intro m stop h
  rw [atLine_eq] at h ⊢
  cases hm : (a m).1 with
  | ok x =>
    rw [hm] at h
    cases h
  | error s => exact ha m s hm

end Action.AllOrNothing

/-- A declaration, an assignment, a statement that writes or reads, or an expression. -/
def Stmt.isSimple : Stmt → Bool
  | .declare .. | .assign .. | .print .. | .input .. | .eval .. => true
  | .branch .. | .whileLoop .. | .doWhile .. | .doUntil .. | .forLoop .. => false

section Statements

open Interpretation

variable {env : Env}

theorem assign_allOrNothing (hfun : env.functions = .standard) (rounds : Nat) (name : Bytes)
    (e : Expr) : ((actions env rounds).assign name e).AllOrNothing :=
  .bind_quiet (.reading hfun rounds e) fun v => .store name v

theorem inputLine_allOrNothing (env : Env) (rounds : Nat) (name : Bytes) :
    ((actions env rounds).inputLine name).AllOrNothing := by
  have hline : (do
      let line ← Action.readLine (bytes "citeste")
      Action.store name (.ofText line)).AllOrNothing :=
    .bind_quiet (.readLine _) fun _ => .store name _
  unfold Interpretation.inputLine
  cases (actions env rounds).prompt.isEmpty with
  | true => exact hline
  | false => exact .bind_quiet (.write _ _) fun _ => hline

/-- What a simple statement does after its step. -/
theorem work_allOrNothing (hfun : env.functions = .standard) (rounds : Nat) {s : Stmt}
    (hs : s.isSimple) : ((actions env rounds).work s).AllOrNothing := by
  cases s with
  | declare t name value =>
    cases value with
    | none => exact .of_vars fun _ => rfl
    | some e =>
      simp only [work]
      exact assign_allOrNothing hfun rounds name e
  | assign t name e =>
    simp only [work]
    exact assign_allOrNothing hfun rounds name e
  | print t e =>
    simp only [work]
    exact .bind_quiet (.reading hfun rounds e) fun _ => .of_quiet (.write _ _)
  | input t name =>
    simp only [work]
    exact inputLine_allOrNothing env rounds name
  | eval t e =>
    simp only [work]
    exact .bind_quiet (.reading hfun rounds e) fun _ => .of_vars fun _ => rfl
  | branch | whileLoop | doWhile | doUntil | forLoop => cases hs

theorem exec_allOrNothing (hfun : env.functions = .standard) (rounds : Nat) {s : Stmt}
    (hs : s.isSimple) : (exec env rounds s).AllOrNothing := by
  rw [exec_eq_reading, Interpretation.exec]
  refine .atLine _ (.bind (fun m => ?_) fun _ => work_allOrNothing hfun rounds hs)
  rw [actions_step, takeStep_machine]

end Statements

/-- Evaluation has no hidden effects. Whether or not it succeeds, it leaves what runs are given as
it is, the functions among it, as well as the variables and the number of steps; it only appends to
the output and takes bytes from the front of the input. Therefore a declaration, an assignment, a
statement that writes or reads, or an expression leaves the variables as they were if it fails. -/
theorem eval_leaves_variables (it : Interpreter) (hfun : it.env.functions = .standard) :
    (∀ e : Expr, (it.eval e).2.env = it.env ∧ it.machine.Converses (it.eval e).2.machine) ∧
      ∀ (rounds : Nat) (s : Stmt) (stop : Stop), s.isSimple →
        (exec it.env rounds s it.machine).1 = .error stop →
        (exec it.env rounds s it.machine).2.vars = it.machine.vars :=
  ⟨fun e => ⟨rfl, eval_quiet hfun e it.machine⟩,
    fun rounds _ stop hs => exec_allOrNothing hfun rounds hs it.machine stop⟩

/-- An assignment writes a prompt and reads a line before it fails, since `y` has no value. -/
theorem eval_leaves_variables_unassigned :
    let line : Expr := .call default (bytes "input") [.text default (bytes "?")]
    let sum : Expr := .binary default line .add (.var default (bytes "y"))
    let s : Stmt := .assign default (bytes "x") sum
    let m : Machine := { vars := ({} : Namespace).set (bytes "x") (.ofBool true),
                         input := { rest := bytes "a\nb" } }
    let it : Interpreter := { machine := m }
    let r := exec it.env 0 s m
    r.1 = .error (.failed ⟨.undefinedVariable (bytes "y"), some 0⟩) ∧
      r.2.output.data.toList = bytes "?" ∧ r.2.input.rest = bytes "b" ∧ r.2.vars = m.vars ∧
      m.Converses (it.eval sum).2.machine := by
  intro line sum s m it r
  obtain ⟨heval, hexec⟩ := eval_leaves_variables it rfl
  exact ⟨rfl, rfl, rfl, hexec 0 s _ rfl rfl, (heval sum).2⟩

end LineScript
