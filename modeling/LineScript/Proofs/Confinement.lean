import LineScript.Proofs.Progress

/-!
# The variables of a run

A run depends on and changes only the variables that its program names. Two runs of one program
whose variables agree on these names cannot be told apart (`Action.Agrees`), and a run leaves every
variable as it was that the program neither declares, assigns nor reads a line into
(`Action.Spares`). Both are seen from the single operations of the program: evaluation looks up only
what it names, and no function of the language reaches the variables at all.
-/

namespace LineScript

/-- The names of a program: all variables that it reads, declares, assigns or reads a line into. -/
def Stmt.namesAll (program : Block) : List Bytes := Stmt.readsAll program ++ Stmt.targetsAll program

/-! ## Runs that agree -/

/-- Two machines that differ at most in variables of other names. -/
structure Machine.AgreesOn (names : List Bytes) (m m' : Machine) : Prop where
  vars : ∀ n ∈ names, m'.vars.get? n = m.vars.get? n
  input : m'.input = m.input
  output : m'.output = m.output
  taken : m'.taken = m.taken

/-- From machines that agree on some names two actions come to the same result and to machines that
agree again. -/
def Action.Agrees (names : List Bytes) (α : Type) (a b : Action α) : Prop :=
  ∀ m m' r m₁, m.AgreesOn names m' → a m = (r, m₁) →
    ∃ m₁', b m' = (r, m₁') ∧ m₁.AgreesOn names m₁'

namespace Action.Agrees

variable {names : List Bytes} {α β : Type}

theorem pure (x : α) : Agrees names α (Pure.pure x) (Pure.pure x) := by
  rintro m m' _ _ h ⟨⟩
  exact ⟨m', rfl, h⟩

theorem bind {a b : Action α} {f g : α → Action β} (hab : Agrees names α a b)
    (hfg : ∀ x, Agrees names β (f x) (g x)) : Agrees names β (a >>= f) (b >>= g) := by
  intro m m' r m₂ h hr
  obtain ⟨x, m₁, ha, hf⟩ | ⟨s, m₁, ha, hf⟩ := bind_cases a f m <;>
    obtain ⟨m₁', hb, h₁⟩ := hab m m' _ m₁ h ha <;> rw [hf] at hr
  · rw [bind_ok hb]
    exact hfg x m₁ m₁' r m₂ h₁ hr
  · rw [bind_error hb]
    cases hr
    exact ⟨m₁', rfl, h₁⟩

theorem fail (f : Failure) : Agrees names α (Action.fail f) (Action.fail f) := by
  rintro m m' _ _ h ⟨⟩
  exact ⟨m', rfl, h⟩

theorem lookup {name : Bytes} (hname : name ∈ names) :
    Agrees names _ (Action.lookup name) (Action.lookup name) := by
  rintro m m' _ _ h ⟨⟩
  refine ⟨m', ?_, h⟩
  simp only [Action.lookup, h.vars name hname]

theorem store (name : Bytes) (v : Value) :
    Agrees names _ (Action.store name v) (Action.store name v) := by
  rintro m m' _ _ h ⟨⟩
  refine ⟨_, rfl, ⟨fun n hn => ?_, h.input, h.output, h.taken⟩⟩
  simp only [Table.get?_set, h.vars n hn]

theorem write (context text : Bytes) :
    Agrees names _ (Action.write context text) (Action.write context text) := by
  intro m m' r m₁ h hr
  simp only [Action.write, h.output] at hr ⊢
  split at hr
  · next hfits =>
    cases hr
    rw [if_pos hfits]
    exact ⟨_, rfl, ⟨h.vars, h.input, rfl, h.taken⟩⟩
  · next hfits =>
    cases hr
    rw [if_neg hfits]
    exact ⟨_, rfl, ⟨h.vars, h.input, rfl, h.taken⟩⟩

theorem readLine (context : Bytes) :
    Agrees names _ (Action.readLine context) (Action.readLine context) := by
  intro m m' r m₁ h hr
  simp only [Action.readLine, h.input] at hr ⊢
  split at hr
  · cases hr
    exact ⟨_, rfl, ⟨h.vars, rfl, h.output, h.taken⟩⟩
  · cases hr
    exact ⟨_, rfl, ⟨h.vars, rfl, h.output, h.taken⟩⟩

theorem atLine {a b : Action α} (line : Int) (hab : Agrees names α a b) :
    Agrees names α (a.atLine line) (b.atLine line) := by
  intro m m' r m₁ h hr
  obtain ⟨m₁', hb, h₁⟩ := hab m m' _ _ h rfl
  rw [atLine_eq] at hr
  cases hr
  exact ⟨m₁', by rw [atLine_eq, hb], h₁⟩

theorem takeStep (env : Env) : Agrees names _ (takeStep env) (takeStep env) := by
  intro m m' r m₁ h hr
  simp only [LineScript.takeStep, h.taken] at hr ⊢
  split at hr
  · cases hr
    exact ⟨_, rfl, ⟨h.vars, h.input, h.output, rfl⟩⟩
  · cases hr
    exact ⟨_, rfl, ⟨h.vars, h.input, h.output, rfl⟩⟩

theorem unfinished (a b : Action Bool) :
    Agrees names _ (Action.iterate 0 a) (Action.iterate 0 b) := by
  rintro m m' _ _ h ⟨⟩
  exact ⟨m', rfl, h⟩

/-- Runs of a program agree on any names among which are all that it reads. -/
theorem related {env : Env} (hfun : env.functions = .standard) (rounds : Nat) :
    (Interpretation.actions env rounds).Related (Interpretation.actions env rounds) (· ∈ names)
      (fun _ => True) (Agrees names) :=
  Interpretation.Congruent.actions_related ⟨pure, bind, fun _ => fail _⟩ hfun lookup
    (fun _ => store _) write readLine (takeStep env) atLine unfinished

end Action.Agrees

/-! ## Variables that a run spares -/

/-- How variables may have changed: only some names have other values than before, and every name
that had a value has one. -/
structure Table.ChangedAt {α : Type} (targets : List Bytes) (t t' : Table α) : Prop where
  others : ∀ n ∉ targets, t'.get? n = t.get? n
  defined : ∀ n, (t.get? n).isSome → (t'.get? n).isSome

namespace Table.ChangedAt

variable {α : Type} {targets : List Bytes} {t t' t'' : Table α}

theorem refl (t : Table α) : t.ChangedAt targets t := ⟨fun _ _ => rfl, fun _ h => h⟩

theorem trans (h : t.ChangedAt targets t') (h' : t'.ChangedAt targets t'') :
    t.ChangedAt targets t'' :=
  ⟨fun n hn => (h'.others n hn).trans (h.others n hn), fun n hn => h'.defined n (h.defined n hn)⟩

theorem set {name : Bytes} (hname : name ∈ targets) (t : Table α) (a : α) :
    t.ChangedAt targets (t.set name a) := by
  constructor
  · intro n hn
    have hne : name ≠ n := fun h => hn (h ▸ hname)
    rw [get?_set, if_neg hne]
  · intro n hn
    rw [get?_set]
    split
    · rfl
    · exact hn

end Table.ChangedAt

/-- An action that changes the variables of certain names only. -/
def Action.Spares (targets : List Bytes) {α : Type} (a : Action α) : Prop :=
  ∀ m : Machine, m.vars.ChangedAt targets (a m).2.vars

namespace Action.Spares

variable {targets : List Bytes} {α β : Type}

theorem of_vars {a : Action α} (h : ∀ m, (a m).2.vars = m.vars) : a.Spares targets := by
  intro m
  rw [h m]
  exact .refl m.vars

theorem bind {a : Action α} {f : α → Action β} (ha : a.Spares targets)
    (hf : ∀ x, (f x).Spares targets) : (a >>= f).Spares targets := by
  intro m
  have hm := ha m
  obtain ⟨x, m₁, hx, hr⟩ | ⟨s, m₁, hs, hr⟩ := bind_cases a f m <;> rw [hr]
  · rw [hx] at hm
    exact hm.trans (hf x m₁)
  · rwa [hs] at hm

theorem write (context text : Bytes) : (Action.write context text).Spares targets := by
  refine of_vars fun m => ?_
  rw [write_machine]

theorem readLine (context : Bytes) : (Action.readLine context).Spares targets := by
  refine of_vars fun m => ?_
  rw [readLine_machine]

theorem atLine {a : Action α} (line : Int) (ha : a.Spares targets) :
    (a.atLine line).Spares targets := by
  intro m
  rw [atLine_eq]
  exact ha m

/-- A program spares all variables but its targets. -/
theorem related {env : Env} (hfun : env.functions = .standard) (rounds : Nat) :
    (Interpretation.actions env rounds).Related (Interpretation.actions env rounds) (fun _ => True)
      (· ∈ targets) fun _ a _ => a.Spares targets :=
  Interpretation.Congruent.actions_related
    ⟨fun _ => of_vars fun _ => rfl, bind, fun _ => of_vars fun _ => rfl⟩ hfun
    (fun _ => of_vars fun _ => rfl) (fun hname v m => .set hname m.vars v) write readLine
    (of_vars fun m => by rw [takeStep_machine]) atLine fun _ _ => of_vars fun _ => rfl

end Action.Spares

/-! ## Programs -/

section Programs

variable {env : Env}

theorem execBlock_agrees (hfun : env.functions = .standard) (rounds : Nat) (program : Block) :
    Action.Agrees (Stmt.namesAll program) _ (execBlock env rounds program)
      (execBlock env rounds program) := by
  rw [Interpretation.execBlock_eq_reading]
  exact (Action.Agrees.related hfun rounds).block program
    (fun n hn => List.mem_append_left _ hn) fun _ _ => trivial

theorem execute_spares (hfun : env.functions = .standard) (rounds : Nat) (program : Block) :
    (execute env rounds program).Spares (Stmt.targetsAll program) := by
  intro m
  rw [execute_eq, Interpretation.execBlock_eq_reading]
  exact (Action.Spares.related hfun rounds).block program (fun _ _ => trivial) (fun _ hn => hn)
    { m with taken := 0 }

/-- A run depends on and changes only the variables that its program names. Started with variables
that agree on these names, a second run comes to the same result, output, input and number of steps,
and its variables agree on the names again. Whether or not it fails, each run leaves the variables
as they were that the program neither declares, assigns nor reads a line into, and takes no
variable's value away. -/
theorem run_confined_to_names (hfun : env.functions = .standard) (rounds : Nat) (program : Block)
    (m : Machine) (vars : Namespace)
    (hvars : ∀ n ∈ Stmt.namesAll program, vars.get? n = m.vars.get? n) :
    let r := execute env rounds program m
    let r' := execute env rounds program { m with vars }
    r'.1 = r.1 ∧ r.2.AgreesOn (Stmt.namesAll program) r'.2 ∧
      m.vars.ChangedAt (Stmt.targetsAll program) r.2.vars ∧
      vars.ChangedAt (Stmt.targetsAll program) r'.2.vars := by
  intro r r'
  obtain ⟨m₁, hrun, hagrees⟩ := execBlock_agrees hfun rounds program { m with taken := 0 }
    { m with vars, taken := 0 } _ _ ⟨hvars, rfl, rfl, rfl⟩ rfl
  have hr : r = _ := execute_eq env rounds program m
  have hr' : r' = _ := execute_eq env rounds program { m with vars }
  refine ⟨by rw [hr, hr', hrun], ?_, execute_spares hfun rounds program m,
    execute_spares hfun rounds program { m with vars }⟩
  rw [hr, hr', hrun]
  exact hagrees

/-- One of two runs has a further variable `z`. Both assign `x` and then fail, since `y` has no
value. -/
theorem run_confined_to_names_undefined :
    let program : Block := [.assign default (bytes "x") (.bool default true),
      .print default (.var default (bytes "y"))]
    let vars : Namespace := ({} : Namespace).set (bytes "z") (.ofBool true)
    let r := execute {} 0 program {}
    let r' := execute {} 0 program { vars }
    (∀ n ∈ Stmt.namesAll program, vars.get? n = none) ∧
      r.1 = .error (.failed ⟨.undefinedVariable (bytes "y"), some 0⟩) ∧ r'.1 = r.1 ∧
      r'.2.vars.get? (bytes "x") = some (.ofBool true) ∧
      r'.2.vars.get? (bytes "z") = some (.ofBool true) := by
  intro program vars r r'
  have hvars : ∀ n ∈ Stmt.namesAll program, vars.get? n = none := by decide
  obtain ⟨hresult, hagrees, -, hchanged⟩ :=
    run_confined_to_names (rfl : Env.functions {} = .standard) 0 program {} vars hvars
  refine ⟨hvars, rfl, hresult, ?_, ?_⟩
  · rw [hagrees.vars (bytes "x") (by decide)]
    rfl
  · rw [hchanged.others (bytes "z") (by decide)]
    rfl

end Programs

end LineScript
