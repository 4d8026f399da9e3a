import LineScript.Proofs.Confinement

/-!
# Properties of all values of a run

A property of values that literals have and that operators and functions keep is a property of every
value that a run meets (`ValueInvariant`). To speak of the values in the middle of a run, a program
is read as an action that lists the machines it passes, before and after each of its operations
(`Interpretation.traced`). But for the list it is the run itself (`execBlock_eq_trace`).

Evaluation changes no variable, and every evaluation of a run begins at a machine that the run
passes. So it is enough to know the variables of these machines.
-/

namespace LineScript

/-! ## Machines on the way -/

/-- How a traced action ended. -/
structure Trace (α : Type) where
  /-- The result, or why there is none. -/
  result : Except Stop α
  /-- The machine that is left. -/
  machine : Machine
  /-- The machines before and after each operation, in order. -/
  passed : List Machine

/-- A change of a machine that lists the machines on the way. -/
def Traced (α : Type) : Type := Machine → Trace α

namespace Traced

variable {α β : Type}

instance : Monad Traced where
  pure x := fun m => ⟨.ok x, m, []⟩
  bind a f := fun m =>
    match a m with
    | ⟨.ok x, m', passed⟩ =>
      let next := f x m'
      ⟨next.result, next.machine, passed ++ next.passed⟩
    | ⟨.error stop, m', passed⟩ => ⟨.error stop, m', passed⟩

/-- An operation that is not put together from others. -/
def operation (a : Action α) : Traced α := fun m => ⟨(a m).1, (a m).2, [m, (a m).2]⟩

/-- Does something as part of an activity. -/
def during (activity : Activity) (a : Traced α) : Traced α := fun m =>
  { a m with result := (a m).result.mapError (Stop.atLine activity.line) }

/-- Repeats an action for as long as it answers `true`, at most `rounds` times. -/
def iterate : (rounds : Nat) → Traced Bool → Traced Unit
  | 0, _ => fun m => ⟨.error .unfinished, m, []⟩
  | rounds + 1, once => do if ← once then iterate rounds once else pure ()

theorem bind_ok {a : Traced α} {f : α → Traced β} {m m' : Machine} {x : α} {passed : List Machine}
    (h : a m = ⟨.ok x, m', passed⟩) :
    (a >>= f) m = ⟨(f x m').result, (f x m').machine, passed ++ (f x m').passed⟩ := by
  simp only [Bind.bind, h]

theorem bind_error {a : Traced α} {f : α → Traced β} {m m' : Machine} {stop : Stop}
    {passed : List Machine} (h : a m = ⟨.error stop, m', passed⟩) :
    (a >>= f) m = ⟨.error stop, m', passed⟩ := by
  simp only [Bind.bind, h]

end Traced

/-- The reading of a program as what it does to a machine, with the machines on the way. -/
def Interpretation.traced (env : Env) (rounds : Nat) : Interpretation Traced where
  fail f := .operation (Action.fail f)
  lookup name := .operation (Action.lookup name)
  store name v := .operation (Action.store name v)
  write context text := .operation (Action.write context text)
  readLine context := .operation (Action.readLine context)
  call name args := .operation ((actions env rounds).call name args)
  prompt := env.prompt
  step := .operation (takeStep env)
  during := Traced.during
  iterate := Traced.iterate rounds

/-- But for the machines on the way, a traced action is a plain one. -/
def Traced.Erases (α : Type) (a : Traced α) (b : Action α) : Prop :=
  ∀ m, b m = ((a m).result, (a m).machine)

namespace Traced.Erases

variable {α β : Type}

theorem operation (a : Action α) : Erases α (.operation a) a := fun _ => rfl

theorem bind {a : Traced α} {b : Action α} {f : α → Traced β} {g : α → Action β}
    (hab : Erases α a b) (hfg : ∀ x, Erases β (f x) (g x)) : Erases β (a >>= f) (b >>= g) := by
  intro m
  have hb := hab m
  match ha : a m with
  | ⟨.ok x, m', passed⟩ =>
    rw [ha] at hb
    rw [bind_ok ha, Action.bind_ok hb]
    exact hfg x m'
  | ⟨.error stop, m', passed⟩ =>
    rw [ha] at hb
    rw [bind_error ha, Action.bind_error hb]

theorem during {a : Traced α} {b : Action α} (activity : Activity) (hab : Erases α a b) :
    Erases α (a.during activity) (b.atLine activity.line) := by
  intro m
  rw [Action.atLine_eq, hab m]
  rfl

theorem congruent (env : Env) (rounds : Nat) :
    (Interpretation.traced env rounds).Congruent (Interpretation.actions env rounds) Erases :=
  ⟨fun _ _ => rfl, bind, fun _ => operation _⟩

theorem related (env : Env) (rounds : Nat) :
    (Interpretation.traced env rounds).Related (Interpretation.actions env rounds)
      (fun _ => True) (fun _ => True) Erases :=
  { congruent env rounds with
    lookup := fun _ => operation _
    call := fun _ _ => operation _
    prompt := rfl
    store := fun _ _ => operation _
    write := fun _ _ => operation _
    readLine := fun _ => operation _
    step := operation _
    during := during
    iterate := fun hab => (congruent env rounds).loop (fun _ _ => rfl) Action.iterate_succ hab
      (fun _ => rfl) rounds }

end Traced.Erases

/-- The trace of a run of a program. -/
def trace (env : Env) (rounds : Nat) (program : Block) (m : Machine) : Trace Unit :=
  (Interpretation.traced env rounds).block program { m with taken := 0 }

/-- The machines that a run passes, from the one that it starts with. -/
def machinesPassed (env : Env) (rounds : Nat) (program : Block) (m : Machine) : List Machine :=
  { m with taken := 0 } :: (trace env rounds program m).passed

/-- A run meets a value: it passes a machine where a variable has this value or where an evaluation
yields it. -/
def Meets (env : Env) (rounds : Nat) (program : Block) (m : Machine) (v : Value) : Prop :=
  ∃ m' ∈ machinesPassed env rounds program m,
    (∃ name, m'.vars.get? name = some v) ∨ ∃ e, (eval env e m').1 = .ok v

theorem execBlock_eq_trace (env : Env) (rounds : Nat) (program : Block) (m : Machine) :
    execBlock env rounds program { m with taken := 0 } =
      ((trace env rounds program m).result, (trace env rounds program m).machine) := by
  rw [Interpretation.execBlock_eq_reading]
  exact (Traced.Erases.related env rounds).block program (fun _ _ => trivial)
    (fun _ _ => trivial) { m with taken := 0 }

theorem eval_eq_trace (env : Env) (rounds : Nat) (e : Expr) (m : Machine) :
    eval env e m = (((Interpretation.traced env rounds).eval e m).result,
      ((Interpretation.traced env rounds).eval e m).machine) := by
  rw [Interpretation.eval_eq_reading env rounds]
  exact (Traced.Erases.related env rounds).eval e (fun _ _ => trivial) m

/-! ## Values of variables -/

/-- All entries have a property. -/
def Table.All {α : Type} (P : α → Prop) (t : Table α) : Prop :=
  ∀ name a, t.get? name = some a → P a

theorem Table.All.set {α : Type} {P : α → Prop} {t : Table α} (h : t.All P) (name : Bytes) {a : α}
    (ha : P a) : (t.set name a).All P := by
  intro other b hb
  rw [Table.get?_set] at hb
  split at hb
  · cases hb
    exact ha
  · exact h other b hb

theorem Table.All.of_changedAt {α : Type} {P : α → Prop} {t t' : Table α} (h : t.All P)
    (hchanged : t.ChangedAt [] t') : t'.All P := by
  intro name a ha
  rw [hchanged.others name List.not_mem_nil] at ha
  exact h name a ha

/-- A property of values that literals have and that operators and functions keep. -/
structure ValueInvariant (functions : Registry) (V : Value → Prop) : Prop where
  ofInt (i : Int64) : V (.ofInt i)
  ofFloat (x : Binary64) : V (.ofFloat x)
  ofText (text : Bytes) : V (.ofText text)
  ofBool (b : Bool) : V (.ofBool b)
  apply {op : BinOp} {l r v : Value} (hl : V l) (hr : V r) (h : Value.apply op l r = .ok v) : V v
  call {name : Bytes} {f : Func} {args : List Value} (hf : functions.get? name = some f)
    (hargs : ∀ v ∈ args, V v) {m : Machine} (hm : m.vars.All V) :
    (f args m).2.vars.All V ∧ ∀ v, (f args m).1 = .ok v → V v

/-! ## Traces that keep a property -/

/-- The variables have only values with the property on the way and at the end, and a result is as
stated. -/
structure Trace.Keeps (V : Value → Prop) {α : Type} (P : α → Prop) (t : Trace α) : Prop where
  passed : ∀ m ∈ t.passed, m.vars.All V
  machine : t.machine.vars.All V
  result : ∀ x, t.result = .ok x → P x

/-- From variables whose values have a property a traced action keeps it. -/
def Traced.Keeps (V : Value → Prop) {α : Type} (P : α → Prop) (a : Traced α) : Prop :=
  ∀ m : Machine, m.vars.All V → (a m).Keeps V P

namespace Traced.Keeps

variable {V : Value → Prop} {α β : Type} {P : α → Prop} {Q : β → Prop}

theorem pure {x : α} (hx : P x) : (Pure.pure x : Traced α).Keeps V P := by
  intro m hm
  refine ⟨nofun, hm, ?_⟩
  rintro _ ⟨⟩
  exact hx

theorem bind {a : Traced α} {f : α → Traced β} (ha : a.Keeps V P)
    (hf : ∀ x, P x → (f x).Keeps V Q) : (a >>= f).Keeps V Q := by
  intro m hm
  obtain ⟨hpassed, hmachine, hresult⟩ := ha m hm
  match hr : a m with
  | ⟨.ok x, m', passed⟩ =>
    rw [hr] at hpassed hmachine hresult
    obtain ⟨hpassed', hmachine', hresult'⟩ := hf x (hresult x rfl) m' hmachine
    rw [bind_ok hr]
    refine ⟨fun m₁ hm₁ => ?_, hmachine', hresult'⟩
    rcases List.mem_append.mp hm₁ with hm₁ | hm₁
    · exact hpassed m₁ hm₁
    · exact hpassed' m₁ hm₁
  | ⟨.error stop, m', passed⟩ =>
    rw [hr] at hpassed hmachine
    rw [bind_error hr]
    exact ⟨hpassed, hmachine, nofun⟩

theorem operation {a : Action α}
    (h : ∀ m : Machine, m.vars.All V → (a m).2.vars.All V ∧ ∀ x, (a m).1 = .ok x → P x) :
    (Traced.operation a).Keeps V P := by
  intro m hm
  obtain ⟨hmachine, hresult⟩ := h m hm
  refine ⟨fun m' hm' => ?_, hmachine, hresult⟩
  simp only [Traced.operation, List.mem_cons, List.not_mem_nil, or_false] at hm'
  rcases hm' with rfl | rfl
  · exact hm
  · exact hmachine

/-- An operation that leaves the variables as they are. -/
theorem of_spares {a : Action α} (h : a.Spares []) : (Traced.operation a).Keeps V fun _ => True :=
  operation fun m hm => ⟨hm.of_changedAt (h m), fun _ _ => trivial⟩

theorem during {a : Traced α} (activity : Activity) (ha : a.Keeps V P) :
    (a.during activity).Keeps V P := by
  intro m hm
  obtain ⟨hpassed, hmachine, hresult⟩ := ha m hm
  refine ⟨hpassed, hmachine, fun x hx => hresult x ?_⟩
  simp only [Traced.during] at hx
  cases hr : (a m).result with
  | ok y =>
    rw [hr] at hx
    exact hx
  | error stop =>
    rw [hr] at hx
    cases hx

theorem choose {c : Traced Bool} {a b : Traced β} (hc : c.Keeps V fun _ => True)
    (ha : a.Keeps V Q) (hb : b.Keeps V Q) : (do if ← c then a else b).Keeps V Q := by
  refine hc.bind fun x _ => ?_
  cases x with
  | true => exact ha
  | false => exact hb

theorem iterate {once : Traced Bool} (h : once.Keeps V fun _ => True) (rounds : Nat) :
    (Traced.iterate rounds once).Keeps V fun _ => True := by
  induction rounds with
  | zero => exact fun m hm => ⟨nofun, hm, nofun⟩
  | succ n ih => exact choose h ih (pure trivial)

end Traced.Keeps

/-! ## Runs -/

namespace ValueInvariant

open Interpretation Traced

variable {env : Env} {V : Value → Prop}

theorem keeps_call (h : ValueInvariant env.functions V) (rounds : Nat) (name : Bytes)
    {args : List Value} (hargs : ∀ v ∈ args, V v) :
    ((traced env rounds).call name args).Keeps V V := by
  refine .operation fun m hm => ?_
  simp only [actions, Registry.call]
  cases hf : env.functions.get? name with
  | some f => exact h.call hf hargs hm
  | none =>
    refine ⟨hm, fun v hv => ?_⟩
    cases hv

mutual

/-- Expressions, one case for each of their forms: operators and functions are closed under `V`. -/
theorem keeps_eval (h : ValueInvariant env.functions V) (rounds : Nat) :
    ∀ e : Expr, ((traced env rounds).eval e).Keeps V V
  | .int _ value => by
    simp only [Interpretation.eval]
    exact .pure (h.ofInt value)
  | .float _ value => by
    simp only [Interpretation.eval]
    exact .pure (h.ofFloat value)
  | .text _ value => by
    simp only [Interpretation.eval]
    exact .pure (h.ofText value)
  | .bool _ value => by
    simp only [Interpretation.eval]
    exact .pure (h.ofBool value)
  | .var _ name => by
    have hlookup : ((traced env rounds).lookup name).Keeps V fun o => ∀ v, o = some v → V v := by
      refine .operation fun m hm => ⟨hm, ?_⟩
      rintro o ⟨⟩ v hv
      exact hm name v hv
    simp only [Interpretation.eval]
    refine hlookup.bind fun o ho => ?_
    cases o with
    | some v => exact .pure (ho v rfl)
    | none => exact .operation fun m hm => ⟨hm, nofun⟩
  | .binary _ left op right => by
    simp only [Interpretation.eval]
    refine (keeps_eval h rounds left).bind fun l hl => ?_
    refine (keeps_eval h rounds right).bind fun r hr => ?_
    cases hv : Value.apply op l r with
    | ok v => exact .pure (h.apply hl hr hv)
    | error f => exact .operation fun m hm => ⟨hm, nofun⟩
  | .call _ name args => by
    simp only [Interpretation.eval]
    refine (keeps_evalAll h rounds args).bind fun values hvalues => ?_
    exact h.keeps_call rounds name hvalues

theorem keeps_evalAll (h : ValueInvariant env.functions V) (rounds : Nat) :
    ∀ es : List Expr, ((traced env rounds).evalAll es).Keeps V fun vs => ∀ v ∈ vs, V v
  | [] => by
    simp only [Interpretation.evalAll]
    exact .pure nofun
  | e :: es => by
    simp only [Interpretation.evalAll]
    refine (keeps_eval h rounds e).bind fun v hv => ?_
    refine (keeps_evalAll h rounds es).bind fun vs hvs => ?_
    exact .pure (List.forall_mem_cons.mpr ⟨hv, hvs⟩)

end

theorem keeps_condition (h : ValueInvariant env.functions V) (rounds : Nat) (e : Expr) :
    ((traced env rounds).condition e).Keeps V fun _ => True := by
  refine (h.keeps_eval rounds e).bind fun v _ => ?_
  cases v.truth with
  | ok b => exact .pure trivial
  | error f => exact .of_spares (.of_vars fun _ => rfl)

theorem keeps_store (rounds : Nat) (name : Bytes) {v : Value} (hv : V v) :
    ((traced env rounds).store name v).Keeps V fun _ => True :=
  .operation fun _ hm => ⟨hm.set name hv, fun _ _ => trivial⟩

theorem keeps_assign (h : ValueInvariant env.functions V) (rounds : Nat) (name : Bytes) (e : Expr) :
    ((traced env rounds).assign name e).Keeps V fun _ => True :=
  (h.keeps_eval rounds e).bind fun _ hv => keeps_store rounds name hv

theorem keeps_write (rounds : Nat) (context text : Bytes) :
    ((traced env rounds).write context text).Keeps V fun _ => True :=
  .of_spares (.write context text)

theorem keeps_step (rounds : Nat) : (traced env rounds).step.Keeps V fun _ => True :=
  .of_spares (.of_vars fun m => by rw [takeStep_machine])

theorem keeps_inputLine (h : ValueInvariant env.functions V) (rounds : Nat) (name : Bytes) :
    ((traced env rounds).inputLine name).Keeps V fun _ => True := by
  have hread : ((traced env rounds).readLine (bytes "citeste")).Keeps V fun _ => True :=
    .of_spares (.readLine _)
  have hline : (do
      let line ← (traced env rounds).readLine (bytes "citeste")
      (traced env rounds).store name (.ofText line)).Keeps V fun _ => True :=
    hread.bind fun line _ => keeps_store rounds name (h.ofText line)
  unfold Interpretation.inputLine
  cases hp : (traced env rounds).prompt.isEmpty with
  | true => exact hline
  | false => exact (keeps_write rounds _ _).bind fun _ _ => hline

theorem keeps_perform (rounds : Nat) (s : Stmt) {work : Traced Unit}
    (hwork : work.Keeps V fun _ => True) :
    ((traced env rounds).perform s work).Keeps V fun _ => True :=
  .during (.statement s) ((keeps_step rounds).bind fun _ _ => hwork)

/-- The last step of a round, after which there is another. -/
theorem keeps_again (rounds : Nat) :
    (do (traced env rounds).step; return true).Keeps V fun _ => True :=
  (keeps_step rounds).bind fun _ _ => .pure trivial

mutual

/-- Statements, one case for each of their forms: a variable holds only values of expressions and
lines of the input. -/
theorem keeps_work (h : ValueInvariant env.functions V) (rounds : Nat) :
    ∀ s : Stmt, ((traced env rounds).work s).Keeps V fun _ => True
  | .declare _ name none => by
    simp only [Interpretation.work]
    exact .pure trivial
  | .declare _ name (some e) => by
    simp only [Interpretation.work]
    exact h.keeps_assign rounds name e
  | .assign _ name e => by
    simp only [Interpretation.work]
    exact h.keeps_assign rounds name e
  | .print _ e => by
    simp only [Interpretation.work]
    exact (h.keeps_eval rounds e).bind fun _ _ => keeps_write rounds _ _
  | .input _ name => by
    simp only [Interpretation.work]
    exact h.keeps_inputLine rounds name
  | .eval _ e => by
    simp only [Interpretation.work]
    exact (h.keeps_eval rounds e).bind fun _ _ => .pure trivial
  | .branch _ c body otherwise => by
    simp only [Interpretation.work]
    refine .choose (h.keeps_condition rounds c) ?_ ?_
    · exact keeps_block h rounds body
    · exact keeps_alternative h rounds otherwise
  | .whileLoop _ c body => by
    simp only [Interpretation.work]
    refine .iterate (.choose (h.keeps_condition rounds c) ?_ (.pure trivial)) rounds
    exact (keeps_block h rounds body).bind fun _ _ => keeps_again rounds
  | .doWhile _ c body => by
    simp only [Interpretation.work]
    refine .iterate ((keeps_block h rounds body).bind fun _ _ => ?_) rounds
    exact .choose (h.keeps_condition rounds c) (keeps_again rounds) (.pure trivial)
  | .doUntil _ c body => by
    simp only [Interpretation.work]
    refine .iterate ((keeps_block h rounds body).bind fun _ _ => ?_) rounds
    exact .choose (h.keeps_condition rounds c) (.pure trivial) (keeps_again rounds)
  | .forLoop _ start c step body => by
    simp only [Interpretation.work]
    refine (keeps_perform rounds start (keeps_work h rounds start)).bind fun _ _ => ?_
    refine .iterate (.choose (h.keeps_condition rounds c) ?_ (.pure trivial)) rounds
    refine (keeps_block h rounds body).bind fun _ _ => ?_
    exact (keeps_perform rounds step (keeps_work h rounds step)).bind fun _ _ => .pure trivial

theorem keeps_block (h : ValueInvariant env.functions V) (rounds : Nat) :
    ∀ body : List Stmt, ((traced env rounds).block body).Keeps V fun _ => True
  | [] => by
    simp only [Interpretation.block]
    exact .pure trivial
  | s :: rest => by
    simp only [Interpretation.block]
    refine (keeps_perform rounds s (keeps_work h rounds s)).bind fun _ _ => ?_
    exact keeps_block h rounds rest

theorem keeps_alternative (h : ValueInvariant env.functions V) (rounds : Nat) :
    ∀ a : Alternative, ((traced env rounds).alternative a).Keeps V fun _ => True
  | .absent => by
    simp only [Interpretation.alternative]
    exact .pure trivial
  | .block body => by
    simp only [Interpretation.alternative]
    exact keeps_block h rounds body
  | .elseIf c body otherwise => by
    simp only [Interpretation.alternative]
    refine .choose (.during _ (h.keeps_condition rounds c)) ?_ ?_
    · exact keeps_block h rounds body
    · exact keeps_alternative h rounds otherwise

end

theorem trace_keeps (h : ValueInvariant env.functions V) (rounds : Nat) (program : Block)
    {m : Machine} (hm : m.vars.All V) : (trace env rounds program m).Keeps V fun _ => True :=
  h.keeps_block rounds program { m with taken := 0 } hm

theorem execute_vars (h : ValueInvariant env.functions V) (rounds : Nat) (program : Block)
    {m : Machine} (hm : m.vars.All V) : (execute env rounds program m).2.vars.All V := by
  rw [execute_eq, execBlock_eq_trace]
  exact (h.trace_keeps rounds program hm).machine

/-- What an evaluation yields has the property if the variables have it. -/
theorem eval_ok (h : ValueInvariant env.functions V) (e : Expr) {m : Machine} (hm : m.vars.All V)
    {v : Value} (hv : (eval env e m).1 = .ok v) : V v := by
  rw [eval_eq_trace env 0] at hv
  exact (h.keeps_eval 0 e m hm).result v hv

/-- Every value that a run meets has the property if the variables at its start have it. -/
theorem of_meets (h : ValueInvariant env.functions V) {rounds : Nat} {program : Block} {m : Machine}
    (hm : m.vars.All V) {v : Value} (hv : Meets env rounds program m v) : V v := by
  obtain ⟨m', hm', hv⟩ := hv
  have hvars : m'.vars.All V := by
    rcases List.mem_cons.mp hm' with rfl | hm'
    · exact hm
    · exact (h.trace_keeps rounds program hm).passed m' hm'
  rcases hv with ⟨name, hv⟩ | ⟨e, hv⟩
  · exact hvars name v hv
  · exact h.eval_ok e hvars hv

end ValueInvariant

end LineScript
