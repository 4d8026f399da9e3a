import LineScript.Proofs.Budget

/-!
# Runs on a budget

A loop takes a step in every round that another round follows, so a run on a budget comes to an end:
no loop of it needs more rounds than the budget has steps. Together with the comparison of budgets
this says how every run on a budget ends. The greatest integer is the one positive limit that is not
a budget: the counter of steps never shows more, and a loop may go on for ever.
-/

namespace LineScript

/-! ## Every statement takes a step -/

/-- An action that has taken a step whenever it ends with a result of a certain kind. -/
def Action.Ahead {α : Type} (P : α → Prop) (a : Action α) : Prop :=
  ∀ (m : Machine) (x : α) (m' : Machine), a m = (.ok x, m') → P x → m.taken < m'.taken

namespace Action.Ahead

variable {α β : Type} {a : Action α} {f : α → Action β} {P : β → Prop}

/-- The first of two actions has taken it. -/
theorem first (ha : a.Ahead fun _ => True) (hf : ∀ x, (f x).Onward) : (a >>= f).Ahead P := by
  intro m y m' h _
  obtain ⟨x, m₁, hx, hr⟩ | ⟨s, m₁, hs, hr⟩ := bind_cases a f m <;> rw [hr] at h
  · have hon := hf x m₁
    rw [h] at hon
    exact Nat.lt_of_lt_of_le (ha m x m₁ hx trivial) hon.taken
  · cases h

/-- The second of two actions has taken it. -/
theorem second (ha : a.Onward) (hf : ∀ x, (f x).Ahead P) : (a >>= f).Ahead P := by
  intro m y m' h hy
  obtain ⟨x, m₁, hx, hr⟩ | ⟨s, m₁, hs, hr⟩ := bind_cases a f m <;> rw [hr] at h
  · have hon := ha m
    rw [hx] at hon
    exact Nat.lt_of_le_of_lt hon.taken (hf x m₁ y m' h hy)
  · cases h

/-- The result is of another kind. -/
theorem pure {x : β} (hx : ¬ P x) : (Pure.pure x : Action β).Ahead P := by
  intro m y m' h hy
  cases h
  exact absurd hy hx

theorem choose {c : Action Bool} {a a' : Action β} (hc : c.Onward) (ha : a.Ahead P)
    (ha' : a'.Ahead P) : (do if ← c then a else a').Ahead P := by
  refine second hc fun x => ?_
  cases x with
  | true => exact ha
  | false => exact ha'

end Action.Ahead

/-! ## Runs on a budget end -/

/-- An action that comes to an end when it starts within the budget, and has then stayed within it
or stopped. -/
structure Action.EndsWithin {α : Type} (b : Nat) (a : Action α) : Prop where
  ends {m : Machine} (hm : m.taken ≤ b) : (a m).1 ≠ .error .unfinished
  stays {m m' : Machine} {x : α} (hm : m.taken ≤ b) (h : a m = (.ok x, m')) : m'.taken ≤ b

namespace Action.EndsWithin

variable {b : Nat} {α β : Type} {a : Action α}

theorem of_stepless (h : a.Stepless (· ≠ .unfinished)) : a.EndsWithin b := by
  refine ⟨fun hm hu => h.stops hu rfl, fun {m m' x} hm hx => ?_⟩
  have hsteps := h.taken m
  rw [hx] at hsteps
  exact Nat.le_trans (Nat.le_of_eq hsteps) hm

theorem pure (x : α) : (Pure.pure x : Action α).EndsWithin b := of_stepless (.pure x)

theorem bind {f : α → Action β} (ha : a.EndsWithin b) (hf : ∀ x, (f x).EndsWithin b) :
    (a >>= f).EndsWithin b := by
  refine ⟨fun {m} hm => ?_, fun {m m' y} hm hy => ?_⟩
  · obtain ⟨x, m₁, hx, hr⟩ | ⟨s, m₁, hs, hr⟩ := bind_cases a f m <;> rw [hr]
    · exact (hf x).ends (ha.stays hm hx)
    · have hends := ha.ends hm
      rw [hs] at hends
      simpa using hends
  · obtain ⟨x, m₁, hx, hr⟩ | ⟨s, m₁, hs, hr⟩ := bind_cases a f m <;> rw [hr] at hy
    · exact (hf x).stays (ha.stays hm hx) hy
    · cases hy

theorem choose {c : Action Bool} {a a' : Action α} (hc : c.EndsWithin b) (ha : a.EndsWithin b)
    (ha' : a'.EndsWithin b) : (do if ← c then a else a').EndsWithin b := by
  refine hc.bind fun x => ?_
  cases x with
  | true => exact ha
  | false => exact ha'

theorem atLine (line : Int) (ha : a.EndsWithin b) : (a.atLine line).EndsWithin b := by
  refine ⟨fun {m} hm => ?_, fun {m m' x} hm hx => ?_⟩
  · have hends := ha.ends hm
    unfold Action.atLine
    split
    · simp
    · exact hends
  · unfold Action.atLine at hx
    split at hx
    · cases hx
    · exact ha.stays hm hx

theorem takeStep {env : Env} {f : Failure} (hf : env.refusal (b + 1) = some f) :
    (takeStep env).EndsWithin b := by
  refine ⟨fun {m} hm => ?_, fun {m m' x} hm hx => ?_⟩
  · simp only [LineScript.takeStep]
    split <;> simp
  · by_cases hlt : m.taken < b
    · have hmachine : m' = { m with taken := m.taken + 1 } := by
        rw [← takeStep_machine env m, hx]
      rw [hmachine]
      exact hlt
    · have hm : m.taken = b := by omega
      simp only [LineScript.takeStep, hm, hf] at hx
      cases hx

/-- A loop that takes a step in each round that another round follows cannot need more rounds than
there are steps. -/
theorem iterate {once : Action Bool} (h : once.EndsWithin b) (ha : once.Ahead (· = true)) {n : Nat}
    (hn : b < n) : (Action.iterate n once).EndsWithin b := by
  -- the rounds still to go and the steps already taken exceed the budget together
  have hloop : ∀ (n : Nat) (m : Machine), m.taken ≤ b → b < n + m.taken →
      (Action.iterate n once m).1 ≠ .error .unfinished ∧
        ∀ m', Action.iterate n once m = (.ok (), m') → m'.taken ≤ b := by
    intro n
    induction n with
    | zero =>
      intro m hm hlt
      omega
    | succ n ih =>
      intro m hm hlt
      obtain ⟨m₁, ho, hr⟩ | ⟨m₁, ho, hr⟩ | ⟨s, m₁, ho, hr⟩ := iterate_cases once n m <;> rw [hr]
      · have hstep := ha m true m₁ ho rfl
        exact ih m₁ (h.stays hm ho) (by omega)
      · refine ⟨by simp, fun m' h' => ?_⟩
        cases h'
        exact h.stays hm ho
      · have hends := h.ends hm
        rw [ho] at hends
        exact ⟨by simpa using hends, fun m' h' => by cases h'⟩
  exact ⟨fun hm => (hloop n _ hm (by omega)).1,
    fun {m m' x} hm hx => (hloop n m hm (by omega)).2 m' hx⟩

end Action.EndsWithin

section Ending

variable {env : Env} {b : Nat} {f : Failure} {rounds : Nat}

theorem step_ahead (env : Env) (line : Int) :
    ((takeStep env).atLine line).Ahead fun _ => True := by
  intro m x m' h _
  have hm' : m' = { m with taken := m.taken + 1 } := by
    rw [← takeStep_machine env m, ← Action.atLine_machine line, h]
  rw [hm']
  exact Nat.lt_succ_self _

/-- A statement begins with a step, and what it does then goes forward. -/
theorem exec_ahead (hhost : env.functions.Hosted) (s : Stmt) :
    (exec env rounds s).Ahead fun _ => True := by
  have hwork := (onward_simulation env rounds hhost).related.work s (fun _ _ => trivial)
    fun _ _ => trivial
  rw [Interpretation.exec_eq_reading, Interpretation.exec, Interpretation.perform_eq]
  exact .first (step_ahead env s.token.line) fun _ => hwork.atLine s.token.line

theorem step_endsWithin (hf : env.refusal (b + 1) = some f) (line : Int) :
    ((takeStep env).atLine line).EndsWithin b := .atLine line (.takeStep hf)

theorem test_endsWithin (hhost : env.functions.Hosted) (line : Int) (c : Expr) :
    ((condition env c).atLine line).EndsWithin b :=
  .atLine line (.of_stepless (condition_stepless hhost c))

theorem test_onward (hhost : env.functions.Hosted) (line : Int) (c : Expr) :
    ((condition env c).atLine line).Onward := (condition_stepless hhost c).onward.atLine line

/-- A round that goes on by taking a step. -/
theorem goOn_ahead (env : Env) (line : Int) :
    (do Action.atLine line (takeStep env); return true).Ahead (· = true) :=
  .first (step_ahead env line) fun _ m => .refl m

theorem goOn_endsWithin (hf : env.refusal (b + 1) = some f) (line : Int) :
    (do Action.atLine line (takeStep env); return true).EndsWithin b :=
  (step_endsWithin hf line).bind fun _ => .pure true

mutual

/-- A statement on a budget comes to an end. -/
theorem exec_endsWithin (hhost : env.functions.Hosted) (hf : env.refusal (b + 1) = some f)
    (hn : b < rounds) : ∀ s : Stmt, (exec env rounds s).EndsWithin b
  | .declare t name value => by
    simp only [exec]
    refine (step_endsWithin hf t.line).bind fun _ => ?_
    cases value with
    | none => exact .pure ()
    | some e => exact .atLine t.line (.of_stepless (assign_stepless hhost name e))
  | .assign t name e => by
    simp only [exec]
    exact (step_endsWithin hf t.line).bind fun _ =>
      .atLine t.line (.of_stepless (assign_stepless hhost name e))
  | .print t e => by
    simp only [exec]
    exact (step_endsWithin hf t.line).bind fun _ =>
      .atLine t.line (.of_stepless (printValue_stepless hhost e))
  | .input t name => by
    simp only [exec]
    exact (step_endsWithin hf t.line).bind fun _ =>
      .atLine t.line (.of_stepless (inputLine_stepless env name))
  | .eval t e => by
    simp only [exec]
    exact (step_endsWithin hf t.line).bind fun _ =>
      .atLine t.line (.of_stepless ((eval_stepless hhost e).bind fun _ => .pure ()))
  | .branch t c body otherwise => by
    simp only [exec]
    exact (step_endsWithin hf t.line).bind fun _ => .choose (test_endsWithin hhost t.line c)
      (execBlock_endsWithin hhost hf hn body) (execAlternative_endsWithin hhost hf hn otherwise)
  | .whileLoop t c body => by
    have hbody := execBlock_endsWithin hhost hf hn body
    have hon : (execBlock env rounds body).Onward := execBlock_onward hhost body
    simp only [exec]
    refine (step_endsWithin hf t.line).bind fun _ => .iterate ?_ ?_ hn
    · exact .choose (test_endsWithin hhost t.line c)
        (hbody.bind fun _ => goOn_endsWithin hf t.line) (.pure false)
    · exact .choose (test_onward hhost t.line c) (.second hon fun _ => goOn_ahead env t.line)
        (.pure nofun)
  | .doWhile t c body => by
    have hbody := execBlock_endsWithin hhost hf hn body
    have hon : (execBlock env rounds body).Onward := execBlock_onward hhost body
    simp only [exec]
    refine (step_endsWithin hf t.line).bind fun _ => .iterate ?_ ?_ hn
    · exact hbody.bind fun _ => .choose (test_endsWithin hhost t.line c)
        (goOn_endsWithin hf t.line) (.pure false)
    · exact .second hon fun _ => .choose (test_onward hhost t.line c) (goOn_ahead env t.line)
        (.pure nofun)
  | .doUntil t c body => by
    have hbody := execBlock_endsWithin hhost hf hn body
    have hon : (execBlock env rounds body).Onward := execBlock_onward hhost body
    simp only [exec]
    refine (step_endsWithin hf t.line).bind fun _ => .iterate ?_ ?_ hn
    · exact hbody.bind fun _ => .choose (test_endsWithin hhost t.line c) (.pure false)
        (goOn_endsWithin hf t.line)
    · exact .second hon fun _ => .choose (test_onward hhost t.line c) (.pure nofun)
        (goOn_ahead env t.line)
  | .forLoop t start c step body => by
    have hbody := execBlock_endsWithin hhost hf hn body
    have hstep := exec_endsWithin hhost hf hn step
    have hon : (execBlock env rounds body).Onward := execBlock_onward hhost body
    simp only [exec]
    refine (step_endsWithin hf t.line).bind fun _ =>
      (exec_endsWithin hhost hf hn start).bind fun _ => .iterate ?_ ?_ hn
    · exact .choose (test_endsWithin hhost t.line c)
        (hbody.bind fun _ => hstep.bind fun _ => .pure true) (.pure false)
    · exact .choose (test_onward hhost t.line c)
        (.second hon fun _ => .first (exec_ahead hhost step) fun _ m => .refl m) (.pure nofun)

theorem execBlock_endsWithin (hhost : env.functions.Hosted) (hf : env.refusal (b + 1) = some f)
    (hn : b < rounds) : ∀ body : List Stmt, (execBlock env rounds body).EndsWithin b
  | [] => by
    simp only [execBlock]
    exact .pure ()
  | s :: rest => by
    simp only [execBlock]
    exact .bind (exec_endsWithin hhost hf hn s) fun _ => execBlock_endsWithin hhost hf hn rest

theorem execAlternative_endsWithin (hhost : env.functions.Hosted)
    (hf : env.refusal (b + 1) = some f) (hn : b < rounds) :
    ∀ a : Alternative, (execAlternative env rounds a).EndsWithin b
  | .absent => by
    simp only [execAlternative]
    exact .pure ()
  | .block body => by
    simp only [execAlternative]
    exact execBlock_endsWithin hhost hf hn body
  | .elseIf c body otherwise => by
    simp only [execAlternative]
    exact .choose (.atLine c.token.line (.of_stepless (condition_stepless hhost c)))
      (execBlock_endsWithin hhost hf hn body) (execAlternative_endsWithin hhost hf hn otherwise)

end

/-- A program on a budget comes to an end, and a number of rounds above the budget shows it. -/
theorem execute_ends (hhost : env.functions.Hosted) (hf : env.refusal (b + 1) = some f)
    (hn : b < rounds) (program : Block) (m : Machine) :
    (execute env rounds program m).1 ≠ .error .unfinished := by
  rw [Ne, execute_unfinished_iff]
  exact (execBlock_endsWithin hhost hf hn program).ends (Nat.zero_le b)

end Ending

/-! ## The greatest limit -/

/-- A loop of which every round goes on is left unfinished, however many rounds it is given. -/
theorem Action.iterate_unfinished {once : Action Bool} (h : ∀ m, ∃ m', once m = (.ok true, m'))
    (n : Nat) (m : Machine) : (Action.iterate n once m).1 = .error .unfinished := by
  induction n generalizing m with
  | zero => rfl
  | succ n ih =>
    obtain ⟨m', hm'⟩ := h m
    rw [iterate_true hm']
    exact ih m'

/-- As long as no step is refused, a loop without a body goes on for ever. -/
theorem execute_emptyLoop {env : Env} (hnone : ∀ taken, env.refusal taken = none) (t u : Token)
    (rounds : Nat) (m : Machine) :
    (execute env rounds [.whileLoop t (.bool u true) []] m).1 = .error .unfinished := by
  have hstep : ∀ m, (takeStep env).atLine t.line m = (.ok (), { m with taken := m.taken + 1 }) := by
    intro m
    simp only [Action.atLine, takeStep, hnone]
  have htest : ∀ m, (condition env (.bool u true)).atLine t.line m = (.ok true, m) := by
    intro m
    simp only [condition, eval, pure_bind]
    rfl
  have hround : ∀ m, (do
      if ← (condition env (.bool u true)).atLine t.line then
        (takeStep env).atLine t.line
        return true
      else return false : Action Bool) m = (.ok true, { m with taken := m.taken + 1 }) := by
    intro m
    rw [Action.bind_ok (htest m), if_pos rfl, Action.bind_ok (hstep m)]
    rfl
  have hloop := Action.iterate_unfinished (fun m => ⟨_, hround m⟩) rounds
  rw [execute_unfinished_iff]
  simp only [execBlock, exec, pure_bind]
  rw [bind_assoc, Action.bind_ok (hstep _), Action.bind_error (Prod.ext (hloop _) rfl)]

theorem not_outcome_emptyLoop {env : Env} (hnone : ∀ taken, env.refusal taken = none)
    (t u : Token) (m : Machine) :
    ¬ ∃ r, Outcome env [.whileLoop t (.bool u true) []] m r := by
  rintro ⟨r, hr, rounds, rfl⟩
  exact hr (execute_emptyLoop hnone t u rounds m)

/-- The counter cannot go beyond the greatest integer, so as a limit it refuses no step. -/
theorem Env.refusal_greatest (taken : Nat) :
    ({ stepLimit := Int64.maxValue } : Env).refusal taken = none := by
  have hlimit : ({ stepLimit := Int64.maxValue } : Env).limit? = none := by decide
  refine refusal_within (fun l hl => ?_) nofun
  rw [hlimit] at hl
  cases hl

/-- Budgets only cut a run short. If the run on larger budgets ends within the budget, the budgeted
run is the same one. Otherwise it is stopped by the step after the budget, as `Env.Overrun` says,
and the machine that it leaves is one that the runs on larger budgets go through, whether or not
they end. The counter then shows that step, unless it is one beyond the greatest integer, which only
a cancellation can wait for: as a limit of steps the greatest integer is no budget (`Env.limit?`). -/
theorem budget_only_cuts {env looser : Env} (hloose : env.Within looser)
    (hhost : env.functions.Hosted) {b : Nat} (hb : env.budget = some b) (program : Block)
    (m : Machine) :
    (∀ r, Outcome looser program m r → r.2.taken ≤ b → Outcome env program m r) ∧
      ((¬ ∃ r, Outcome looser program m r ∧ r.2.taken ≤ b) →
        ∃ e m', Outcome env program m (.error (.failed e), m') ∧ m'.taken = b + 1 ∧
          ((b : Int) < Int64.maxValue.toInt → m'.steps.toInt = b + 1) ∧
          env.Overrun e.failure ∧ ∀ larger, env.Within larger → ∀ rounds > b,
            m'.Precedes (execute larger rounds program m).2) := by
  obtain ⟨f, hf, hover⟩ := Env.exists_overrun hb
  constructor
  · intro r hr hsteps
    obtain ⟨n, hn⟩ := hr.execute_eq
    refine ⟨hr.1, n, ?_⟩
    have hcut := execute_curtailed hloose hhost hb hf n program m
    rw [hn n (Nat.le_refl n)] at hcut
    cases hcut with
    | same heq _ => exact heq
    | cut line _ hsteps' hp =>
      have := hp.taken
      omega
  · intro hlong
    have hends := execute_ends hhost hf (Nat.lt_succ_self b) program m
    -- the run is cut, since else it would be the longer run
    cases execute_curtailed hloose hhost hb hf (b + 1) program m with
    | same heq hsteps =>
      rw [heq] at hends hsteps
      exact absurd ⟨_, ⟨hends, b + 1, rfl⟩, hsteps⟩ hlong
    | cut line hr hsteps _ =>
      refine ⟨⟨f, line⟩, (execute env (b + 1) program m).2, ⟨nofun, b + 1, Prod.ext hr rfl⟩, hsteps,
        fun hsmall => ?_, hover, fun larger hlarger rounds hn => ?_⟩
      · rw [Int64.toInt_maxValue] at hsmall
        rw [Machine.steps, hsteps, Int64.toInt_ofNat_of_lt (by omega)]
        rfl
      rw [← execute_mono hn hends] at hsteps ⊢
      cases execute_curtailed hlarger hhost hb hf rounds program m with
      | same _ hsteps' => omega
      | cut _ _ _ hp => exact hp

/-- Four declarations take four steps. On two steps, and cancelled only after three, they fail by
the limit. -/
theorem budget_only_cuts_declarations :
    (¬ ∃ r, Outcome {} (List.replicate 4 (.declare default [] none)) {} r ∧ r.2.taken ≤ 2) ∧
      ∃ e m', Outcome { stepLimit := 2, cancelAfter := some 3 }
        (List.replicate 4 (.declare default [] none)) {} (.error (.failed e), m') ∧
        m'.steps.toInt = 3 ∧ e.failure = .stepLimit 2 := by
  have hlong : ¬ ∃ r, Outcome {} (List.replicate 4 (.declare default [] none)) {} r ∧
      r.2.taken ≤ 2 := by
    rintro ⟨r, hr, hsteps⟩
    have hend : Outcome {} (List.replicate 4 (.declare default [] none)) {}
        (.ok (), { taken := 4 }) := ⟨nofun, 0, rfl⟩
    rw [hr.unique hend] at hsteps
    exact absurd hsteps (by decide)
  have hloose : Env.Within { stepLimit := 2, cancelAfter := some 3 } {} :=
    ⟨rfl, rfl, nofun, nofun⟩
  obtain ⟨e, m', hr, -, hsteps, hover, -⟩ :=
    (budget_only_cuts hloose Registry.standard_hosted rfl _ {}).2 hlong
  exact ⟨hlong, e, m', hr, hsteps (by decide), hover.limited 2 rfl (by simp)⟩

/-- With the greatest integer as its limit, a run that does not end by itself is not stopped
either. -/
theorem greatest_budget_cuts_nothing :
    0 < Int64.maxValue ∧
      (¬ ∃ r, Outcome {} [.whileLoop default (.bool default true) []] {} r) ∧
      ¬ ∃ r, Outcome { stepLimit := Int64.maxValue }
        [.whileLoop default (.bool default true) []] {} r := by
  have hunlimited : ∀ taken, Env.refusal {} taken = none :=
    Env.refusal_eq_none (by decide) rfl
  exact ⟨by decide, not_outcome_emptyLoop hunlimited default default {},
    not_outcome_emptyLoop Env.refusal_greatest default default {}⟩

/-! ## The limit of steps -/

/-- Whatever stops an action satisfies `P` together with the machine that is left. -/
def Action.StopsBy {α : Type} (P : Stop → Machine → Prop) (a : Action α) : Prop :=
  ∀ m s m', a m = (.error s, m') → P s m'

namespace Action.StopsBy

variable {α β : Type} {P : Stop → Machine → Prop}

theorem bind {a : Action α} {f : α → Action β} (ha : a.StopsBy P) (hf : ∀ x, (f x).StopsBy P) :
    (a >>= f).StopsBy P := by
  intro m s m' h
  obtain ⟨x, m₁, hx, hr⟩ | ⟨s₁, m₁, hs, hr⟩ := bind_cases a f m <;> rw [hr] at h
  · exact hf x m₁ s m' h
  · cases h
    exact ha m s m' hs

theorem atLine {a : Action α} (line : Int) (ha : a.StopsBy P)
    (hP : ∀ e m, P (.failed e) m → P (.failed (e.atLine line)) m) : (a.atLine line).StopsBy P := by
  intro m s m' h
  unfold Action.atLine at h
  split at h
  · next e m₁ he =>
    cases h
    exact hP e m' (ha m _ m' he)
  · exact ha m s m' h

/-- A loop stops by what stops one of its rounds, or by running out of rounds. -/
theorem iterate {once : Action Bool} (h : once.StopsBy P) (hP : ∀ m, P .unfinished m) (n : Nat) :
    (Action.iterate n once).StopsBy P := by
  intro m s m'
  induction n generalizing m with
  | zero =>
    intro hr
    cases hr
    exact hP _
  | succ n ih =>
    intro hloop
    obtain ⟨m₁, ho, hr⟩ | ⟨m₁, ho, hr⟩ | ⟨s₁, m₁, ho, hr⟩ := iterate_cases once n m <;>
      rw [hr] at hloop
    · exact ih m₁ hloop
    · cases hloop
    · cases hloop
      exact h m s m' ho

end Action.StopsBy

/-- A run does not crash, and fails by its limit only when it is beyond it. -/
def BeyondLimit (limit : Nat) : Stop → Machine → Prop
  | .failed e, m => e.failure.kind = .stepLimit → limit < m.taken
  | .crashed _, _ => False
  | .unfinished, _ => True

theorem stopsBy_beyondLimit {limit : Nat} {α : Type} {a : Action α}
    (h : a.Stepless Stop.Ordinary) : a.StopsBy (BeyondLimit limit) := by
  intro m s m' hs
  have hordinary : s.Ordinary := h.stops (congrArg Prod.fst hs)
  cases s with
  | failed e =>
    intro hkind
    obtain ⟨-, hcause⟩ := hordinary
    rw [hkind] at hcause
    simp [FailureKind.isInternal] at hcause
  | crashed c => exact hordinary
  | unfinished => trivial

/-- A step fails by the limit only if it is the step after the limit or a later one. -/
theorem takeStep_beyondLimit {env : Env} {limit : Nat} (hl : env.limit? = some limit) :
    (takeStep env).StopsBy (BeyondLimit limit) := by
  intro m s m' h
  have hm' : m' = { m with taken := m.taken + 1 } := by
    rw [← takeStep_machine env m, h]
  simp only [takeStep] at h
  cases hf : env.refusal (m.taken + 1) with
  | none =>
    rw [hf] at h
    cases h
  | some f =>
    rw [hf] at h
    cases h
    intro hkind
    refine Nat.lt_of_not_le fun hle => ?_
    -- within the limit only a cancellation refuses a step
    have hlimit : ∀ l ∈ env.limit?, m.taken + 1 ≤ l := by
      intro l h
      rw [hl] at h
      cases h
      exact hle
    rw [Env.refusal_unlimited hlimit] at hf
    split at hf
    · cases hf
      cases hkind
    · cases hf

theorem beyondLimit_simulation {env : Env} {limit : Nat} (hl : env.limit? = some limit)
    (hfun : env.functions = .standard) (rounds : Nat) :
    Simulation env env rounds rounds fun _ a _ => a.StopsBy (BeyondLimit limit) :=
  .of_stepless rfl rfl stopsBy_beyondLimit
    (fun hf args => stopsBy_beyondLimit (Registry.standard_stepless (hfun ▸ hf) args)) .bind
    (fun line h => h.atLine line fun _ _ h => h) (takeStep_beyondLimit hl)
    fun h => h.iterate (fun _ => trivial) rounds

/-- A program that fails by its limit has gone beyond it. -/
theorem execute_beyondLimit {env : Env} {limit : Nat} (hl : env.limit? = some limit)
    (hfun : env.functions = .standard) {rounds : Nat} {program : Block} {m : Machine} {e : RunError}
    (hr : (execute env rounds program m).1 = .error (.failed e))
    (hkind : e.failure.kind = .stepLimit) : limit < (execute env rounds program m).2.taken := by
  have hstops := (beyondLimit_simulation hl hfun rounds).execBlock program { m with taken := 0 }
  rw [execute_machine]
  unfold execute at hr
  split at hr
  · next c m' hc => exact absurd (hstops _ m' hc) id
  · exact hstops _ _ (Prod.ext hr rfl) hkind

/-- How a program with a limit of steps ends, in the number of steps that it has taken. -/
theorem execute_limited {env : Env} {limit : Nat} (hl : env.limit? = some limit)
    (hhost : env.functions.Hosted) (program : Block) (m : Machine) :
    ∃ r, Outcome env program m r ∧ (∀ rounds > limit, execute env rounds program m = r) ∧
      r.2.taken ≤ limit + 1 ∧ (env.functions = .standard → (r.2.taken = limit + 1 ↔
        ∃ e, r.1 = .error (.failed e) ∧ e.failure.kind = .stepLimit)) := by
  obtain ⟨b, hb⟩ : ∃ b, env.budget = some b := by
    unfold Env.budget
    cases hn : env.cancelAfter <;> simp [hl, Option.merge]
  have hle : b ≤ limit := by
    obtain ⟨hl', -⟩ | ⟨-, hlt⟩ := Env.budget_cases hb
    · rw [hl] at hl'
      cases hl'
      exact Nat.le_refl _
    · exact Nat.le_of_lt (hlt limit hl)
  obtain ⟨f, hf, hover⟩ := Env.exists_overrun hb
  have hends := execute_ends hhost hf (Nat.lt_succ_of_le hle) program m
  have hcut := execute_curtailed (.refl env) hhost hb hf (limit + 1) program m
  have hbound : (execute env (limit + 1) program m).2.taken ≤ limit + 1 := by
    cases hcut with
    | same _ hsteps => omega
    | cut _ _ hsteps _ => omega
  refine ⟨execute env (limit + 1) program m, ⟨hends, _, rfl⟩,
    fun rounds hn => execute_mono hn hends, hbound, fun hfun => ⟨fun hsteps => ?_, ?_⟩⟩
  · cases hcut with
    | same _ hsteps' => omega
    | cut line hr hsteps' _ =>
      -- the budget is the limit itself, so it is not a cancellation that stops the run
      have hbl : b = limit := by omega
      have hlimited : f = .stepLimit env.stepLimit := by
        refine hover.limited limit hl fun n hn => ?_
        obtain ⟨-, h⟩ | ⟨-, hlt⟩ := Env.budget_cases hb
        · exact hbl ▸ h n hn
        · exact absurd (hlt limit hl) (by omega)
      exact ⟨⟨f, line⟩, hr, by rw [hlimited]; rfl⟩
  · rintro ⟨e, hr, hkind⟩
    have hbeyond := execute_beyondLimit hl hfun hr hkind
    omega

/-- A program with a limit of steps below the greatest integer ends, whatever it is and whatever it
reads and writes: no number of rounds above the limit leaves it unfinished, the counter shows the
steps that it has taken, and these are at most one too many. With the functions of the language it
takes that step exactly when the limit is what it fails by. -/
theorem limited_run_ends {env : Env} (hpos : 0 < env.stepLimit)
    (hlt : env.stepLimit < Int64.maxValue) (hhost : env.functions.Hosted) (program : Block)
    (m : Machine) :
    ∃ r, Outcome env program m r ∧
      (∀ rounds : Nat, env.stepLimit.toInt < rounds → execute env rounds program m = r) ∧
      r.2.steps.toInt = r.2.taken ∧ r.2.steps ≤ env.stepLimit + 1 ∧
      (env.functions = .standard → (r.2.steps = env.stepLimit + 1 ↔
        ∃ e, r.1 = .error (.failed e) ∧ e.failure.kind = .stepLimit)) := by
  obtain ⟨limit, hl⟩ := Env.exists_limit hpos hlt
  obtain ⟨r, hr, hrounds, hle, hiff⟩ := execute_limited hl hhost program m
  have hlimit : env.stepLimit.toInt = limit := (Env.limit?_eq_some_iff.mp hl).2.2
  have hnext : (env.stepLimit + 1).toInt = limit + 1 := Env.toInt_limit_add_one hl
  have hshown : r.2.steps.toInt = r.2.taken := Env.toInt_ofNat hl hle
  refine ⟨r, hr, fun rounds hn => hrounds rounds (by omega), hshown, ?_, fun hfun => ?_⟩
  · rw [Int64.le_iff_toInt_le, hshown, hnext]
    omega
  · rw [← hiff hfun, ← Int64.toInt_inj, hshown, hnext]
    omega

/-- A loop without a body whose condition always holds is stopped by the fourth of three steps. -/
theorem limited_run_ends_empty_loop :
    ∃ r, Outcome { stepLimit := 3 } [.whileLoop default (.bool default true) []] {} r ∧
      r.2.steps = 4 ∧ ∃ e, r.1 = .error (.failed e) ∧ e.failure.kind = .stepLimit := by
  let env : Env := { stepLimit := 3 }
  have hpos : 0 < env.stepLimit := by decide
  have hlt : env.stepLimit < Int64.maxValue := by decide
  obtain ⟨r, hr, hrounds, -, -, hiff⟩ := limited_run_ends hpos hlt Registry.standard_hosted
    [.whileLoop default (.bool default true) []] {}
  have hsteps : r.2.steps = 4 := by
    rw [← hrounds 4 (by decide)]
    rfl
  exact ⟨r, hr, hsteps, (hiff rfl).mp hsteps⟩

/-- The same loop goes on for ever when the limit is the greatest integer. -/
theorem greatest_limit_ends_nothing :
    0 < Int64.maxValue ∧ ∀ rounds, (execute { stepLimit := Int64.maxValue } rounds
      [.whileLoop default (.bool default true) []] {}).1 = .error .unfinished :=
  ⟨by decide, fun rounds => execute_emptyLoop Env.refusal_greatest default default rounds {}⟩

end LineScript
