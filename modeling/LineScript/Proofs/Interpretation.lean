import LineScript.Proofs.StandardFunctions
import LineScript.Run.Exec

/-!
# One program, many readings

What a program does is described here once more, over operations that can be chosen: to fail, to
look a variable up, to write, to take a step and so on (`Interpretation`). Executing a program is
one such reading of it (`exec_eq_reading`). Another one keeps a journal of what it does. Two
readings whose operations are related are related as a whole (`Related.exec`), so what a run keeps
is proved by looking at single operations only.

In a reading each statement is an activity that begins with a step and ends when the statement does.
The line of a failure follows from this alone: no statement needs to say where its own parts may
fail.
-/

namespace LineScript

/-! ## Names -/

namespace Expr

mutual

/-- The variables that an expression reads. -/
def reads : Expr → List Bytes
  | .int _ _ | .float _ _ | .text _ _ | .bool _ _ => []
  | .var _ name => [name]
  | .binary _ left _ right => left.reads ++ right.reads
  | .call _ _ args => readsAll args

/-- The variables that several expressions read. -/
def readsAll : List Expr → List Bytes
  | [] => []
  | e :: es => e.reads ++ readsAll es

end

end Expr

mutual

/-- The variables that a statement reads. -/
def Stmt.reads : Stmt → List Bytes
  | .declare _ _ none | .input _ _ => []
  | .declare _ _ (some e) | .print _ e | .assign _ _ e | .eval _ e => e.reads
  | .branch _ c body otherwise => c.reads ++ Stmt.readsAll body ++ otherwise.reads
  | .whileLoop _ c body | .doWhile _ c body | .doUntil _ c body => c.reads ++ Stmt.readsAll body
  | .forLoop _ start c step body =>
    start.reads ++ c.reads ++ step.reads ++ Stmt.readsAll body

/-- The variables that a block reads. -/
def Stmt.readsAll : List Stmt → List Bytes
  | [] => []
  | s :: rest => s.reads ++ Stmt.readsAll rest

/-- The variables that an alternative reads. -/
def Alternative.reads : Alternative → List Bytes
  | .absent => []
  | .block body => Stmt.readsAll body
  | .elseIf c body otherwise => c.reads ++ Stmt.readsAll body ++ otherwise.reads

end

mutual

/-- The variables that a statement declares, assigns or reads a line into. -/
def Stmt.targets : Stmt → List Bytes
  | .declare _ name _ | .assign _ name _ | .input _ name => [name]
  | .print _ _ | .eval _ _ => []
  | .branch _ _ body otherwise => Stmt.targetsAll body ++ otherwise.targets
  | .whileLoop _ _ body | .doWhile _ _ body | .doUntil _ _ body => Stmt.targetsAll body
  | .forLoop _ start _ step body => start.targets ++ step.targets ++ Stmt.targetsAll body

/-- The variables that a block declares, assigns or reads lines into. -/
def Stmt.targetsAll : List Stmt → List Bytes
  | [] => []
  | s :: rest => s.targets ++ Stmt.targetsAll rest

/-- The variables that an alternative declares, assigns or reads lines into. -/
def Alternative.targets : Alternative → List Bytes
  | .absent => []
  | .block body => Stmt.targetsAll body
  | .elseIf _ body otherwise => Stmt.targetsAll body ++ otherwise.targets

end

/-! ## Readings -/

/-- What a run is occupied with: a statement, or the condition of an `altfel daca`, which is
reported on a line of its own. -/
inductive Activity where
  | statement (s : Stmt)
  | condition (c : Expr)

/-- The line at which an activity is reported. -/
def Activity.line : Activity → Int
  | statement s => s.token.line
  | condition c => c.token.line

/-- The operations that a program is made of. -/
structure Interpretation (M : Type → Type) where
  /-- Fails. -/
  fail {α : Type} (f : Failure) : M α
  /-- The value of a variable, if it has one. -/
  lookup (name : Bytes) : M (Option Value)
  /-- Stores a value in a variable. -/
  store (name : Bytes) (v : Value) : M Unit
  /-- Writes a text in the given context. -/
  write (context text : Bytes) : M Unit
  /-- Reads a line in the given context. -/
  readLine (context : Bytes) : M Bytes
  /-- Calls a function. -/
  call (name : Bytes) (args : List Value) : M Value
  /-- The text written before each line that a statement reads. -/
  prompt : Bytes
  /-- Takes a step. -/
  step : M Unit
  /-- Does something as part of an activity. -/
  during {α : Type} (activity : Activity) (a : M α) : M α
  /-- Repeats something for as long as it answers `true`. -/
  iterate (once : M Bool) : M Unit

namespace Interpretation

section Reading

variable {M : Type → Type} [Monad M] (I : Interpretation M)

/-- A result, or a failure. -/
def ofExcept {α : Type} : Except Failure α → M α
  | .ok x => pure x
  | .error f => I.fail f

mutual

/-- The value of an expression. -/
def eval : Expr → M Value
  | .int _ value => pure (.ofInt value)
  | .float _ value => pure (.ofFloat value)
  | .text _ value => pure (.ofText value)
  | .bool _ value => pure (.ofBool value)
  | .var _ name => do
    match ← I.lookup name with
    | some v => return v
    | none => I.fail (.undefinedVariable name)
  | .binary _ left op right => do
    let l ← eval left
    let r ← eval right
    I.ofExcept (Value.apply op l r)
  | .call _ name args => do
    let values ← evalAll args
    I.call name values

/-- The values of several expressions. -/
def evalAll : List Expr → M (List Value)
  | [] => pure []
  | e :: es => do
    let v ← eval e
    let vs ← evalAll es
    return v :: vs

end

/-- The truth of a condition. -/
def condition (e : Expr) : M Bool := do
  let v ← I.eval e
  match v.truth with
  | .ok b => return b
  | .error f => I.fail (.within (bytes "condition") f)

/-- Stores the value of an expression in a variable. -/
def assign (name : Bytes) (e : Expr) : M Unit := do
  I.store name (← I.eval e)

/-- Writes the display text of an expression. -/
def printValue (e : Expr) : M Unit := do
  let v ← I.eval e
  I.write (bytes "afiseaza") v.display

/-- Stores the next line of input in a variable, after writing the prompt. -/
def inputLine (name : Bytes) : M Unit := do
  unless I.prompt.isEmpty do
    I.write (bytes "citeste prompt") I.prompt
  let line ← I.readLine (bytes "citeste")
  I.store name (.ofText line)

/-- Does the work of a statement, after the step that begins it. -/
def perform (s : Stmt) (work : M Unit) : M Unit := I.during (.statement s) do
  I.step
  work

mutual

/-- What a statement does after its step. -/
def work : Stmt → M Unit
  | .declare _ name value =>
    match value with
    | none => pure ()
    | some e => I.assign name e
  | .assign _ name e => I.assign name e
  | .print _ e => I.printValue e
  | .input _ name => I.inputLine name
  | .eval _ e => do
    let _ ← I.eval e
    return ()
  | .branch _ c body otherwise => do
    if ← I.condition c then block body else alternative otherwise
  | .whileLoop _ c body => I.iterate do
    if ← I.condition c then
      block body
      I.step
      return true
    else return false
  | .doWhile _ c body => I.iterate do
    block body
    if ← I.condition c then
      I.step
      return true
    else return false
  | .doUntil _ c body => I.iterate do
    block body
    if ← I.condition c then return false
    else
      I.step
      return true
  | .forLoop _ start c step body => do
    I.perform start (work start)
    I.iterate do
      if ← I.condition c then
        block body
        I.perform step (work step)
        return true
      else return false

/-- The statements of a block, in order. -/
def block : List Stmt → M Unit
  | [] => pure ()
  | s :: rest => do
    I.perform s (work s)
    block rest

/-- The alternative of a conditional whose condition does not hold. -/
def alternative : Alternative → M Unit
  | .absent => pure ()
  | .block body => block body
  | .elseIf c body otherwise => do
    if ← I.during (.condition c) (I.condition c) then block body else alternative otherwise

end

/-- A statement with its step. -/
def exec (s : Stmt) : M Unit := I.perform s (I.work s)

/-- The function `input`. -/
def input : List Value → M Value
  | [] => do return .ofText (← I.readLine (bytes "input"))
  | [prompt] => do
    I.write (bytes "input prompt") prompt.display
    return .ofText (← I.readLine (bytes "input"))
  | args => I.fail (.promptCount args.length)

/-- The function `print`. -/
def print (args : List Value) : M Value := do
  let text := List.intercalate (bytes " ") (args.map Value.display) ++ bytes "\n"
  I.write (bytes "print") text
  return .ofInt (Int64.ofNat text.length)

end Reading

/-! ## Related readings -/

section Relation

variable {M N : Type → Type} [Monad M] [Monad N]

/-- Results and failures are related, and so is what follows related beginnings. -/
structure Congruent (I : Interpretation M) (J : Interpretation N)
    (R : ∀ α : Type, M α → N α → Prop) : Prop where
  pure {α : Type} (x : α) : R α (Pure.pure x) (Pure.pure x)
  bind {α β : Type} {a : M α} {b : N α} {f : α → M β} {g : α → N β} (h : R α a b)
    (hf : ∀ x, R β (f x) (g x)) : R β (a >>= f) (b >>= g)
  fail {α : Type} {f : Failure} (hf : f.kind.isInternal) : R α (I.fail f) (J.fail f)

/-- The operations of evaluation are related, with variables as far as they are in scope. -/
structure EvalRelated (I : Interpretation M) (J : Interpretation N) (reads : Bytes → Prop)
    (R : ∀ α : Type, M α → N α → Prop) : Prop extends Congruent I J R where
  lookup {name : Bytes} (hname : reads name) : R _ (I.lookup name) (J.lookup name)
  call (name : Bytes) (args : List Value) : R _ (I.call name args) (J.call name args)

/-- All operations are related, with variables as far as they are in scope. -/
structure Related (I : Interpretation M) (J : Interpretation N) (reads writes : Bytes → Prop)
    (R : ∀ α : Type, M α → N α → Prop) : Prop extends EvalRelated I J reads R where
  prompt : J.prompt = I.prompt
  store {name : Bytes} (hname : writes name) (v : Value) : R _ (I.store name v) (J.store name v)
  write (context text : Bytes) : R _ (I.write context text) (J.write context text)
  readLine (context : Bytes) : R _ (I.readLine context) (J.readLine context)
  step : R _ I.step J.step
  during {α : Type} {a : M α} {b : N α} (activity : Activity) (h : R α a b) :
    R α (I.during activity a) (J.during activity b)
  iterate {a : M Bool} {b : N Bool} (h : R _ a b) : R _ (I.iterate a) (J.iterate b)

variable {I : Interpretation M} {J : Interpretation N} {reads writes : Bytes → Prop}
  {R : ∀ α : Type, M α → N α → Prop}

namespace Congruent

theorem ofExcept (h : Congruent I J R) {α : Type} {r : Except Failure α}
    (hr : ∀ f, r = .error f → f.kind.isInternal) : R _ (I.ofExcept r) (J.ofExcept r) := by
  cases r with
  | ok x => exact h.pure x
  | error f => exact h.fail (hr f rfl)

/-- A branch on an answer. -/
theorem choose (h : Congruent I J R) {α : Type} {c : M Bool} {c' : N Bool} {a b : M α}
    {a' b' : N α} (hc : R _ c c') (ha : R _ a a') (hb : R _ b b') :
    R _ (do if ← c then a else b) (do if ← c' then a' else b') := by
  refine h.bind hc fun x => ?_
  cases x with
  | true => exact ha
  | false => exact hb

/-- Loops that go through the same rounds. -/
theorem loop (h : Congruent I J R) {loop : Nat → M Bool → M Unit} {loop' : Nat → N Bool → N Unit}
    (hsucc : ∀ n once, loop (n + 1) once = (do if ← once then loop n once else Pure.pure ()))
    (hsucc' : ∀ n once, loop' (n + 1) once = (do if ← once then loop' n once else Pure.pure ()))
    {a : M Bool} {b : N Bool} (hab : R _ a b) (hzero : R _ (loop 0 a) (loop' 0 b)) (n : Nat) :
    R _ (loop n a) (loop' n b) := by
  induction n with
  | zero => exact hzero
  | succ n ih =>
    rw [hsucc, hsucc']
    exact h.choose hab ih (h.pure ())

theorem input (h : Congruent I J R)
    (hwrite : ∀ context text, R _ (I.write context text) (J.write context text))
    (hread : ∀ context, R _ (I.readLine context) (J.readLine context)) (args : List Value) :
    R _ (I.input args) (J.input args) := by
  have hline : R _ (do return Value.ofText (← I.readLine (bytes "input")))
      (do return Value.ofText (← J.readLine (bytes "input"))) :=
    h.bind (hread _) fun _ => h.pure _
  match args with
  | [] => exact hline
  | [prompt] => exact h.bind (hwrite _ _) fun _ => hline
  | _ :: _ :: _ => exact h.fail rfl

theorem print (h : Congruent I J R)
    (hwrite : ∀ context text, R _ (I.write context text) (J.write context text))
    (args : List Value) : R _ (I.print args) (J.print args) :=
  h.bind (hwrite _ _) fun _ => h.pure _

end Congruent

namespace EvalRelated

mutual

/-- Two readings of an expression are related. -/
theorem eval (h : EvalRelated I J reads R) :
    ∀ e : Expr, (∀ n ∈ e.reads, reads n) → R _ (I.eval e) (J.eval e)
  | .int _ _, _ | .float _ _, _ | .text _ _, _ | .bool _ _, _ => by
    simp only [Interpretation.eval]
    exact h.pure _
  | .var _ name, hn => by
    simp only [Interpretation.eval]
    refine h.bind (h.lookup (hn name (by simp [Expr.reads]))) fun v => ?_
    cases v with
    | some v => exact h.pure v
    | none => exact h.fail rfl
  | .binary _ left op right, hn => by
    simp only [Expr.reads, List.forall_mem_append] at hn
    simp only [Interpretation.eval]
    exact h.bind (h.eval left hn.1) fun l => h.bind (h.eval right hn.2) fun r =>
      h.ofExcept fun f => Value.apply_error
  | .call _ name args, hn => by
    simp only [Expr.reads] at hn
    simp only [Interpretation.eval]
    exact h.bind (h.evalAll args hn) fun values => h.call name values

theorem evalAll (h : EvalRelated I J reads R) :
    ∀ es : List Expr, (∀ n ∈ Expr.readsAll es, reads n) → R _ (I.evalAll es) (J.evalAll es)
  | [], _ => by
    simp only [Interpretation.evalAll]
    exact h.pure _
  | e :: es, hn => by
    simp only [Expr.readsAll, List.forall_mem_append] at hn
    simp only [Interpretation.evalAll]
    exact h.bind (h.eval e hn.1) fun v => h.bind (h.evalAll es hn.2) fun vs => h.pure _

end

theorem condition (h : EvalRelated I J reads R) (e : Expr) (hn : ∀ n ∈ e.reads, reads n) :
    R _ (I.condition e) (J.condition e) := by
  refine h.bind (h.eval e hn) fun v => ?_
  cases hv : v.truth with
  | ok b => exact h.pure b
  | error f =>
    refine h.fail ?_
    rw [Failure.kind, Value.truth_error hv]
    rfl

end EvalRelated

namespace Related

theorem assign (h : Related I J reads writes R) {name : Bytes} (hname : writes name) {e : Expr}
    (hn : ∀ n ∈ e.reads, reads n) : R _ (I.assign name e) (J.assign name e) :=
  h.bind (h.eval e hn) fun v => h.store hname v

theorem inputLine (h : Related I J reads writes R) {name : Bytes} (hname : writes name) :
    R _ (I.inputLine name) (J.inputLine name) := by
  have hread : R _ (I.readLine (bytes "citeste") >>= fun line => I.store name (.ofText line))
      (J.readLine (bytes "citeste") >>= fun line => J.store name (.ofText line)) :=
    h.bind (h.readLine _) fun _ => h.store hname _
  unfold Interpretation.inputLine
  rw [h.prompt]
  cases hp : I.prompt.isEmpty with
  | true => simpa using hread
  | false => simpa using h.bind (h.write _ _) fun _ => hread

theorem perform (h : Related I J reads writes R) (s : Stmt) {a : M Unit} {b : N Unit}
    (hab : R _ a b) : R _ (I.perform s a) (J.perform s b) :=
  h.during (.statement s) (h.bind h.step fun _ => hab)

mutual

/-- Two readings of what a statement does are related. -/
theorem work (h : Related I J reads writes R) :
    ∀ s : Stmt, (∀ n ∈ s.reads, reads n) → (∀ n ∈ s.targets, writes n) → R _ (I.work s) (J.work s)
  | .declare _ name none, _, _ => by
    simp only [Interpretation.work]
    exact h.pure ()
  | .declare _ name (some e), hr, hw => by
    simp only [Stmt.reads] at hr
    simp only [Interpretation.work]
    exact h.assign (hw name (by simp [Stmt.targets])) hr
  | .assign _ name e, hr, hw => by
    simp only [Stmt.reads] at hr
    simp only [Interpretation.work]
    exact h.assign (hw name (by simp [Stmt.targets])) hr
  | .print _ e, hr, _ => by
    simp only [Stmt.reads] at hr
    simp only [Interpretation.work]
    exact h.bind (h.eval e hr) fun _ => h.write _ _
  | .input _ name, _, hw => by
    simp only [Interpretation.work]
    exact h.inputLine (hw name (by simp [Stmt.targets]))
  | .eval _ e, hr, _ => by
    simp only [Stmt.reads] at hr
    simp only [Interpretation.work]
    exact h.bind (h.eval e hr) fun _ => h.pure ()
  | .branch _ c body otherwise, hr, hw => by
    simp only [Stmt.reads, Stmt.targets, List.forall_mem_append] at hr hw
    simp only [Interpretation.work]
    exact h.choose (h.condition c hr.1.1) (h.block body hr.1.2 hw.1)
      (h.alternative otherwise hr.2 hw.2)
  | .whileLoop _ c body, hr, hw => by
    simp only [Stmt.reads, Stmt.targets, List.forall_mem_append] at hr hw
    simp only [Interpretation.work]
    exact h.iterate <| h.choose (h.condition c hr.1)
      (h.bind (h.block body hr.2 hw) fun _ => h.bind h.step fun _ => h.pure true) (h.pure false)
  | .doWhile _ c body, hr, hw => by
    simp only [Stmt.reads, Stmt.targets, List.forall_mem_append] at hr hw
    simp only [Interpretation.work]
    exact h.iterate <| h.bind (h.block body hr.2 hw) fun _ =>
      h.choose (h.condition c hr.1) (h.bind h.step fun _ => h.pure true) (h.pure false)
  | .doUntil _ c body, hr, hw => by
    simp only [Stmt.reads, Stmt.targets, List.forall_mem_append] at hr hw
    simp only [Interpretation.work]
    exact h.iterate <| h.bind (h.block body hr.2 hw) fun _ =>
      h.choose (h.condition c hr.1) (h.pure false) (h.bind h.step fun _ => h.pure true)
  | .forLoop _ start c step body, hr, hw => by
    simp only [Stmt.reads, Stmt.targets, List.forall_mem_append] at hr hw
    obtain ⟨⟨⟨hstart, hc⟩, hstep⟩, hbody⟩ := hr
    obtain ⟨⟨hstart', hstep'⟩, hbody'⟩ := hw
    simp only [Interpretation.work]
    exact h.bind (h.perform start (h.work start hstart hstart')) fun _ => h.iterate <|
      h.choose (h.condition c hc)
        (h.bind (h.block body hbody hbody') fun _ =>
          h.bind (h.perform step (h.work step hstep hstep')) fun _ => h.pure true)
        (h.pure false)

theorem block (h : Related I J reads writes R) :
    ∀ body : List Stmt, (∀ n ∈ Stmt.readsAll body, reads n) →
      (∀ n ∈ Stmt.targetsAll body, writes n) → R _ (I.block body) (J.block body)
  | [], _, _ => by
    simp only [Interpretation.block]
    exact h.pure ()
  | s :: rest, hr, hw => by
    simp only [Stmt.readsAll, Stmt.targetsAll, List.forall_mem_append] at hr hw
    simp only [Interpretation.block]
    exact h.bind (h.perform s (h.work s hr.1 hw.1)) fun _ => h.block rest hr.2 hw.2

theorem alternative (h : Related I J reads writes R) :
    ∀ a : Alternative, (∀ n ∈ a.reads, reads n) → (∀ n ∈ a.targets, writes n) →
      R _ (I.alternative a) (J.alternative a)
  | .absent, _, _ => by
    simp only [Interpretation.alternative]
    exact h.pure ()
  | .block body, hr, hw => by
    simp only [Alternative.reads, Alternative.targets] at hr hw
    simp only [Interpretation.alternative]
    exact h.block body hr hw
  | .elseIf c body otherwise, hr, hw => by
    simp only [Alternative.reads, Alternative.targets, List.forall_mem_append] at hr hw
    simp only [Interpretation.alternative]
    exact h.choose (h.during _ (h.condition c hr.1.1)) (h.block body hr.1.2 hw.1)
      (h.alternative otherwise hr.2 hw.2)

end

theorem exec (h : Related I J reads writes R) (s : Stmt) (hr : ∀ n ∈ s.reads, reads n)
    (hw : ∀ n ∈ s.targets, writes n) : R _ (I.exec s) (J.exec s) :=
  h.perform s (h.work s hr hw)

end Related

end Relation

end Interpretation

/-! ## Lines of failures -/

/-- A reason to stop with a line, if it is a failure that has none. -/
def Stop.atLine (line : Int) : Stop → Stop
  | .failed e => .failed (e.atLine line)
  | .crashed c => .crashed c
  | .unfinished => .unfinished

namespace Action

variable {α β : Type}

theorem atLine_eq (line : Int) (a : Action α) (m : Machine) :
    a.atLine line m = ((a m).1.mapError (Stop.atLine line), (a m).2) := by
  unfold atLine
  rcases a m with ⟨stop | x, m'⟩
  · cases stop <;> rfl
  · rfl

theorem atLine_pure (line : Int) (x : α) : (pure x : Action α).atLine line = pure x := rfl

theorem atLine_bind (line : Int) (a : Action α) (f : α → Action β) :
    (a >>= f).atLine line = a.atLine line >>= fun x => (f x).atLine line := by
  funext m
  simp only [atLine, Bind.bind]
  rcases a m with ⟨stop | x, m'⟩
  · cases stop <;> rfl
  · rfl

theorem atLine_ite (line : Int) (c : Prop) [Decidable c] (a b : Action α) :
    (if c then a else b).atLine line = if c then a.atLine line else b.atLine line :=
  apply_ite (atLine line) c a b

/-- A loop is its first round, followed by the loop if that asks for it. -/
theorem iterate_succ (n : Nat) (once : Action Bool) :
    iterate (n + 1) once = (do if ← once then iterate n once else pure ()) := by
  funext m
  simp only [iterate, Bind.bind]
  rcases once m with ⟨stop | go, m'⟩
  · rfl
  · cases go <;> rfl

theorem atLine_iterate (line : Int) (rounds : Nat) (once : Action Bool) :
    (iterate rounds once).atLine line = iterate rounds (once.atLine line) := by
  induction rounds with
  | zero => rfl
  | succ n ih => simp only [iterate_succ, atLine_bind, atLine_ite, ih, atLine_pure]

/-- An action that fails only with a line, so that no statement around it adds one. -/
def Placed (a : Action α) : Prop := ∀ line, a.atLine line = a

theorem Placed.atLine (line : Int) (a : Action α) : (a.atLine line).Placed := by
  intro line'
  funext m
  simp only [atLine_eq]
  rcases a m with ⟨stop | x, m'⟩
  · cases stop <;> rfl
  · rfl

theorem Placed.pure (x : α) : (Pure.pure x : Action α).Placed := fun _ => rfl

theorem Placed.bind {a : Action α} {f : α → Action β} (ha : a.Placed) (hf : ∀ x, (f x).Placed) :
    (a >>= f).Placed := by
  intro line
  simp only [atLine_bind, ha line, hf _ line]

end Action

/-! ## Execution as a reading -/

namespace Interpretation

/-- The reading of a program as what it does to a machine. -/
def actions (env : Env) (rounds : Nat) : Interpretation Action where
  fail := Action.fail
  lookup := Action.lookup
  store := Action.store
  write := Action.write
  readLine := Action.readLine
  call := env.functions.call
  prompt := env.prompt
  step := takeStep env
  during activity a := a.atLine activity.line
  iterate := Action.iterate rounds

variable (env : Env) (rounds : Nat)

theorem actions_step : (actions env rounds).step = takeStep env := rfl

theorem actions_iterate (once : Action Bool) :
    (actions env rounds).iterate once = Action.iterate rounds once := rfl

mutual

theorem eval_eq_reading : ∀ e : Expr, LineScript.eval env e = (actions env rounds).eval e
  | .int _ _ | .float _ _ | .text _ _ | .bool _ _ => by
    simp only [LineScript.eval, Interpretation.eval]
  | .var _ name => by
    simp only [LineScript.eval, Interpretation.eval]
    rfl
  | .binary _ left op right => by
    simp only [LineScript.eval, Interpretation.eval, eval_eq_reading left, eval_eq_reading right]
    rfl
  | .call _ name args => by
    simp only [LineScript.eval, Interpretation.eval, evalAll_eq_reading args]
    rfl

theorem evalAll_eq_reading :
    ∀ es : List Expr, LineScript.evalAll env es = (actions env rounds).evalAll es
  | [] => by simp only [LineScript.evalAll, Interpretation.evalAll]
  | e :: es => by
    simp only [LineScript.evalAll, Interpretation.evalAll, eval_eq_reading e,
      evalAll_eq_reading es]

end

theorem condition_eq_reading (e : Expr) :
    LineScript.condition env e = (actions env rounds).condition e := by
  simp only [LineScript.condition, Interpretation.condition, eval_eq_reading env rounds]
  rfl

theorem assign_eq_reading (name : Bytes) (e : Expr) :
    LineScript.assign env name e = (actions env rounds).assign name e := by
  simp only [LineScript.assign, Interpretation.assign, eval_eq_reading env rounds]
  rfl

theorem printValue_eq_reading (e : Expr) :
    LineScript.printValue env e = (actions env rounds).printValue e := by
  simp only [LineScript.printValue, Interpretation.printValue, eval_eq_reading env rounds]
  rfl

theorem actions_input (args : List Value) : (actions env rounds).input args = Func.input args :=
  match args with
  | [] | [_] | _ :: _ :: _ => rfl

/-- What a function of the language does is related as soon as reading and writing are. -/
theorem Congruent.call {env : Env} {rounds : Nat} {R : ∀ α : Type, Action α → Action α → Prop}
    (h : Congruent (actions env rounds) (actions env rounds) R) (hfun : env.functions = .standard)
    (hwrite : ∀ context text, R _ (Action.write context text) (Action.write context text))
    (hread : ∀ context, R _ (Action.readLine context) (Action.readLine context)) (name : Bytes)
    (args : List Value) :
    R _ ((actions env rounds).call name args) ((actions env rounds).call name args) := by
  simp only [actions, Registry.call]
  cases hf : env.functions.get? name with
  | none => exact h.fail rfl
  | some f =>
    rw [hfun] at hf
    obtain ⟨-, rfl⟩ | ⟨-, rfl⟩ | hcomputes := Registry.standard_cases hf
    · simpa only [actions_input] using h.input hwrite hread args
    · exact h.print hwrite args
    · obtain ⟨r, hr, hinternal⟩ := hcomputes args
      dsimp only
      rw [hr]
      cases r with
      | ok v => exact h.pure v
      | error e => exact h.fail (hinternal e rfl)

/-- With the functions of the language, a relation between actions need only hold of the operations
that are not put together from others. -/
theorem Congruent.actions_related {env : Env} {rounds : Nat} {reads writes : Bytes → Prop}
    {R : ∀ α : Type, Action α → Action α → Prop}
    (h : Congruent (actions env rounds) (actions env rounds) R) (hfun : env.functions = .standard)
    (lookup : ∀ {name}, reads name → R _ (Action.lookup name) (Action.lookup name))
    (store : ∀ {name}, writes name → ∀ v, R _ (Action.store name v) (Action.store name v))
    (write : ∀ context text, R _ (Action.write context text) (Action.write context text))
    (readLine : ∀ context, R _ (Action.readLine context) (Action.readLine context))
    (step : R _ (takeStep env) (takeStep env))
    (atLine : ∀ {α : Type} {a b : Action α} (line : Int), R α a b →
      R α (a.atLine line) (b.atLine line))
    (unfinished : ∀ a b, R _ (Action.iterate 0 a) (Action.iterate 0 b)) :
    (actions env rounds).Related (actions env rounds) reads writes R :=
  { h with
    lookup := lookup
    call := h.call hfun write readLine
    prompt := rfl
    store := store
    write := write
    readLine := readLine
    step := step
    during := fun activity => atLine activity.line
    iterate := fun {a b} hab =>
      h.loop Action.iterate_succ Action.iterate_succ hab (unfinished a b) rounds }

/-- A statement takes its step on its own line and then does its work there. -/
theorem perform_eq (s : Stmt) (work : Action Unit) :
    (actions env rounds).perform s work = (do
      Action.atLine s.token.line (takeStep env)
      Action.atLine s.token.line work) :=
  Action.atLine_bind s.token.line (takeStep env) fun _ => work

theorem perform_placed (s : Stmt) (work : Action Unit) :
    ((actions env rounds).perform s work).Placed := .atLine _ _

/-- Failures of the statements of a block have their lines. -/
theorem block_placed (body : List Stmt) : ((actions env rounds).block body).Placed := by
  induction body with
  | nil =>
    simp only [block]
    exact .pure ()
  | cons s rest ih =>
    simp only [block]
    exact (perform_placed env rounds s _).bind fun _ => ih

theorem alternative_placed (a : Alternative) : ((actions env rounds).alternative a).Placed := by
  cases a with
  | absent =>
    simp only [alternative]
    exact .pure ()
  | block body =>
    simp only [alternative]
    exact block_placed env rounds body
  | elseIf c body otherwise =>
    simp only [alternative]
    refine Action.Placed.bind (.atLine _ _) fun b => ?_
    cases b with
    | true => exact block_placed env rounds body
    | false => exact alternative_placed otherwise

mutual

/-- Executing a statement is a reading of it. The lines that a statement adds to the failures of its
own parts are those that one line for the whole statement would give them, since the statements
inside it have added theirs before. -/
theorem exec_eq_reading : ∀ s : Stmt, LineScript.exec env rounds s = (actions env rounds).exec s
  | .declare t name none => by
    simp only [LineScript.exec, exec, perform_eq, work]
    rfl
  | .declare t name (some e) => by
    simp only [LineScript.exec, exec, perform_eq, work, assign_eq_reading env rounds]
    rfl
  | .assign t name e => by
    simp only [LineScript.exec, exec, perform_eq, work, assign_eq_reading env rounds]
    rfl
  | .print t e => by
    simp only [LineScript.exec, exec, perform_eq, work, printValue_eq_reading env rounds]
    rfl
  | .input t name => by
    simp only [LineScript.exec, exec, perform_eq, work]
    rfl
  | .eval t e => by
    simp only [LineScript.exec, exec, perform_eq, work, eval_eq_reading env rounds]
    rfl
  | .branch t c body otherwise => by
    have hbody := block_placed env rounds body t.line
    have hother := alternative_placed env rounds otherwise t.line
    simp only [LineScript.exec, exec, perform_eq, work, Stmt.token, Action.atLine_bind,
      Action.atLine_ite, hbody, hother, condition_eq_reading env rounds, execBlock_eq_reading body,
      execAlternative_eq_reading otherwise]
  | .whileLoop t c body => by
    have hbody := block_placed env rounds body t.line
    simp only [LineScript.exec, exec, perform_eq, work, Stmt.token, actions_iterate, actions_step,
      Action.atLine_iterate, Action.atLine_bind, Action.atLine_ite, Action.atLine_pure, hbody,
      condition_eq_reading env rounds, execBlock_eq_reading body]
  | .doWhile t c body => by
    have hbody := block_placed env rounds body t.line
    simp only [LineScript.exec, exec, perform_eq, work, Stmt.token, actions_iterate, actions_step,
      Action.atLine_iterate, Action.atLine_bind, Action.atLine_ite, Action.atLine_pure, hbody,
      condition_eq_reading env rounds, execBlock_eq_reading body]
  | .doUntil t c body => by
    have hbody := block_placed env rounds body t.line
    simp only [LineScript.exec, exec, perform_eq, work, Stmt.token, actions_iterate, actions_step,
      Action.atLine_iterate, Action.atLine_bind, Action.atLine_ite, Action.atLine_pure, hbody,
      condition_eq_reading env rounds, execBlock_eq_reading body]
  | .forLoop t start c step body => by
    have hbody := block_placed env rounds body t.line
    have hstart := perform_placed env rounds start ((actions env rounds).work start) t.line
    have hstep := perform_placed env rounds step ((actions env rounds).work step) t.line
    rw [exec, perform_eq]
    simp only [LineScript.exec, work, Stmt.token, actions_iterate, Action.atLine_iterate,
      Action.atLine_bind, Action.atLine_ite, Action.atLine_pure, hbody, hstart, hstep,
      condition_eq_reading env rounds, execBlock_eq_reading body, exec_eq_reading start,
      exec_eq_reading step, exec]

theorem execBlock_eq_reading :
    ∀ body : List Stmt, execBlock env rounds body = (actions env rounds).block body
  | [] => by simp only [execBlock, block]
  | s :: rest => by
    simp only [execBlock, block, exec_eq_reading s, execBlock_eq_reading rest, exec]

theorem execAlternative_eq_reading :
    ∀ a : Alternative, execAlternative env rounds a = (actions env rounds).alternative a
  | .absent => by simp only [execAlternative, alternative]
  | .block body => by simp only [execAlternative, alternative, execBlock_eq_reading body]
  | .elseIf c body otherwise => by
    simp only [execAlternative, alternative, execBlock_eq_reading body,
      execAlternative_eq_reading otherwise, condition_eq_reading env rounds]
    rfl

end

end Interpretation

end LineScript
