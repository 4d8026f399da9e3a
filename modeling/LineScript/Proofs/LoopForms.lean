import LineScript.Proofs.CanonicalValues
import LineScript.Proofs.StepBlindness

/-!
# Loops in terms of one another

A counting loop is its first statement and a `cat timp` loop whose body ends with the step, and an
`executa` loop is its body and then a loop that tests its condition first. The two forms of a loop
take their steps at different points, so they are compared round by round: a form that is some steps
ahead before a round is as many ahead after it, give or take the steps that the round itself counts
differently.

What a statement comes to is said without the rounds that its loops are given (`Finishes`).
-/

namespace LineScript

/-! ## Statements that end -/

/-- What an action that is given rounds comes to, whatever number of rounds shows it. -/
def Finishes (a : Nat → Action Unit) (m : Machine) (r : Except Stop Unit × Machine) : Prop :=
  r.1 ≠ .error .unfinished ∧ ∃ rounds, a rounds m = r

theorem eq_ok_of_isOk {r : Except Stop Unit} (h : r.isOk) : r = .ok () := by
  cases r with
  | ok u => rfl
  | error s => cases h

/-- More rounds change nothing once the action ends. -/
def Steady (a : Nat → Action Unit) : Prop := ∀ n n', n ≤ n' → Settles Unit (a n) (a n')

theorem Finishes.unique {a : Nat → Action Unit} (ha : Steady a) {m : Machine}
    {r r' : Except Stop Unit × Machine} (h : Finishes a m r) (h' : Finishes a m r') : r = r' := by
  obtain ⟨hr, n, rfl⟩ := h
  obtain ⟨hr', n', rfl⟩ := h'
  rcases Nat.le_total n n' with hle | hle
  · exact (ha n n' hle m hr).symm
  · exact ha n' n hle m hr'

theorem execBlock_steady (env : Env) (body : Block) :
    Steady fun rounds => execBlock env rounds body :=
  fun _ _ h => (settles_simulation env h).execBlock body

/-- Two forms of a statement each end when the other does, and what they come to is related, as soon
as each end of the first form has a counterpart and the second form does not end alone. -/
theorem finishes_iff {a b : Nat → Action Unit} (hb : Steady b) {m : Machine}
    {Q : Except Stop Unit × Machine → Except Stop Unit × Machine → Prop}
    (hab : ∀ r, Finishes a m r → ∃ r', Finishes b m r' ∧ Q r r')
    (hba : ∀ r', Finishes b m r' → ∃ r, Finishes a m r) :
    ((∃ r, Finishes a m r) ↔ ∃ r', Finishes b m r') ∧
      ∀ r r', Finishes a m r → Finishes b m r' → Q r r' := by
  refine ⟨⟨fun ⟨r, hr⟩ => ?_, fun ⟨r', hr'⟩ => hba r' hr'⟩, fun r r' hr hr' => ?_⟩
  · obtain ⟨r', hr', -⟩ := hab r hr
    exact ⟨r', hr'⟩
  · obtain ⟨r'', hr'', hq⟩ := hab r hr
    rw [hr'.unique hb hr'']
    exact hq

/-- Two runs that end with the same result, variables, output and input. -/
structure EndsAlike (r r' : Except Stop Unit × Machine) : Prop where
  result : r'.1 = r.1
  vars : r'.2.vars = r.2.vars
  output : r'.2.output = r.2.output
  input : r'.2.input = r.2.input

namespace EndsAlike

theorem refl (r : Except Stop Unit × Machine) : EndsAlike r r := ⟨rfl, rfl, rfl, rfl⟩

theorem later (r : Except Stop Unit) (m : Machine) (c : Nat) : EndsAlike (r, m) (r, m.later c) :=
  ⟨rfl, rfl, rfl, rfl⟩

theorem sooner (r : Except Stop Unit) (m : Machine) (c : Nat) : EndsAlike (r, m.later c) (r, m) :=
  ⟨rfl, rfl, rfl, rfl⟩

end EndsAlike

/-- Two runs that moreover take the same number of steps when they succeed. -/
structure EndsSame (r r' : Except Stop Unit × Machine) : Prop extends EndsAlike r r' where
  taken : r.1 = .ok () → r'.2.taken = r.2.taken

/-! ## The forms of loops -/

section Forms

variable {env : Env} {truth : Bool} {t : Token} {c : Expr} {work : Action Unit}

/-- Repeats some work as long as the truth of a condition is the given one, which is tested before
each round. -/
def testFirst (env : Env) (rounds : Nat) (truth : Bool) (t : Token) (c : Expr)
    (work : Action Unit) : Action Unit := do
  Action.atLine t.line (takeStep env)
  Action.iterate rounds do
    if (← Action.atLine t.line (condition env c)) = truth then
      work
      Action.atLine t.line (takeStep env)
      return true
    else return false

/-- Does some work and repeats it as long as the truth of a condition is the given one. -/
def testLast (env : Env) (rounds : Nat) (truth : Bool) (t : Token) (c : Expr)
    (work : Action Unit) : Action Unit := do
  Action.atLine t.line (takeStep env)
  Action.iterate rounds do
    work
    if (← Action.atLine t.line (condition env c)) = truth then
      Action.atLine t.line (takeStep env)
      return true
    else return false

theorem exec_whileLoop (env : Env) (rounds : Nat) (t : Token) (c : Expr) (body : Block) :
    exec env rounds (.whileLoop t c body) =
      testFirst env rounds true t c (execBlock env rounds body) := by
  simp only [exec, testFirst]

theorem exec_doWhile (env : Env) (rounds : Nat) (t : Token) (c : Expr) (body : Block) :
    exec env rounds (.doWhile t c body) =
      testLast env rounds true t c (execBlock env rounds body) := by
  simp only [exec, testLast]

theorem exec_doUntil (env : Env) (rounds : Nat) (t : Token) (c : Expr) (body : Block) :
    exec env rounds (.doUntil t c body) =
      testLast env rounds false t c (execBlock env rounds body) := by
  have hswap : ∀ (x : Bool) (a b : Action Bool),
      (if x = true then a else b) = if x = false then b else a := by
    intro x a b
    cases x <;> rfl
  simp only [exec, testLast, hswap]

/-- After a round that holds, the loop goes on as if it began there: the step that the round takes is
the one that the statement begins with. -/
theorem testFirst_succ (env : Env) (n : Nat) (truth : Bool) (t : Token) (c : Expr)
    (work : Action Unit) :
    testFirst env (n + 1) truth t c work = (do
      Action.atLine t.line (takeStep env)
      if (← Action.atLine t.line (condition env c)) = truth then
        work
        testFirst env n truth t c work
      else pure ()) := by
  simp only [testFirst, Action.iterate_succ, bind_assoc]
  refine bind_congr fun _ => bind_congr fun x => ?_
  by_cases hx : x = truth <;> simp [hx]

theorem testLast_succ (env : Env) (n : Nat) (truth : Bool) (t : Token) (c : Expr)
    (work : Action Unit) :
    testLast env (n + 1) truth t c work = (do
      Action.atLine t.line (takeStep env)
      work
      if (← Action.atLine t.line (condition env c)) = truth then testLast env n truth t c work
      else pure ()) := by
  simp only [testLast, Action.iterate_succ, bind_assoc]
  refine bind_congr fun _ => bind_congr fun _ => bind_congr fun x => ?_
  by_cases hx : x = truth <;> simp [hx]

theorem testFirst_settles {work work' : Action Unit} (hwork : Settles Unit work work') {n n' : Nat}
    (hn : n ≤ n') :
    Settles Unit (testFirst env n truth t c work) (testFirst env n' truth t c work') := by
  refine .bind (.refl _) fun _ => .iterate (.bind (.refl _) fun x => ?_) hn
  by_cases hx : x = truth
  · simp only [hx, if_true]
    exact .bind hwork fun _ => .refl _
  · simp only [hx, if_false]
    exact .refl _

theorem testLast_settles {work work' : Action Unit} (hwork : Settles Unit work work') {n n' : Nat}
    (hn : n ≤ n') :
    Settles Unit (testLast env n truth t c work) (testLast env n' truth t c work') :=
  .bind (.refl _) fun _ => .iterate (.bind hwork fun _ => .refl _) hn

/-! ## Testing last or first -/

/-- A round of the loop that tests last, beside the work and a round of the loop that tests first.
Either both are over alike, or both go on from the same machine: the step that the one takes before
its work and the other after it makes up for the difference. -/
theorem testLast_round (henv : env.Unmetered) (hwork : work.StepBlind) (m : Machine) :
    (∃ r r', EndsSame r r' ∧ (∀ n, testLast env (n + 1) truth t c work m = r) ∧
      ∀ n, (do work; testFirst env (n + 1) truth t c work) m = r') ∨
    ∃ m', (∀ n, testLast env (n + 1) truth t c work m = testLast env n truth t c work m') ∧
      ∀ n, (do work; testFirst env (n + 1) truth t c work) m =
        (do work; testFirst env n truth t c work) m' := by
  have hlast : ∀ n, testLast env (n + 1) truth t c work m = (do
      work
      if (← Action.atLine t.line (condition env c)) = truth then testLast env n truth t c work
      else pure ()) (m.later 1) := by
    intro n
    rw [testLast_succ, Action.bind_ok (henv.step_eq t.line m)]
  cases hm : work m with
  | mk r m₁ =>
    -- the loop that tests last does its first work one step later
    have hahead := hwork.after hm 1
    cases r with
    | error s =>
      refine .inl ⟨(.error s, m₁.later 1), (.error s, m₁), ⟨.sooner _ _ 1, nofun⟩, fun n => ?_,
        fun n => Action.bind_error hm⟩
      rw [hlast, Action.bind_error hahead]
    | ok u =>
      have hfirst : ∀ n, (do work; testFirst env (n + 1) truth t c work) m = (do
          if (← Action.atLine t.line (condition env c)) = truth then
            work
            testFirst env n truth t c work
          else pure ()) (m₁.later 1) := by
        intro n
        rw [Action.bind_ok hm, testFirst_succ, Action.bind_ok (henv.step_eq t.line m₁)]
      simp only [hlast, hfirst, Action.bind_ok hahead]
      cases hc : (condition env c).atLine t.line (m₁.later 1) with
      | mk answer m₂ =>
        cases answer with
        | error s =>
          simp only [Action.bind_error hc]
          exact .inl ⟨_, _, ⟨.refl _, fun _ => rfl⟩, fun _ => rfl, fun _ => rfl⟩
        | ok x =>
          simp only [Action.bind_ok hc]
          by_cases hx : x = truth
          · simp only [hx, if_true]
            exact .inr ⟨m₂, fun _ => rfl, fun _ => rfl⟩
          · simp only [hx, if_false]
            exact .inl ⟨_, _, ⟨.refl _, fun _ => rfl⟩, fun _ => rfl, fun _ => rfl⟩

/-- Where the loop that tests last ends, the work and the loop that tests first end the same. -/
theorem testLast_endsSame (henv : env.Unmetered) (hwork : work.StepBlind) (n : Nat) (m : Machine)
    (hend : (testLast env n truth t c work m).1 ≠ .error .unfinished) :
    EndsSame (testLast env n truth t c work m)
      ((do work; testFirst env n truth t c work) m) := by
  induction n generalizing m with
  | zero =>
    rw [testLast, Action.bind_ok (henv.step_eq t.line m)] at hend
    exact absurd rfl hend
  | succ n ih =>
    obtain ⟨r, r', hsame, hr, hr'⟩ | ⟨m', hr, hr'⟩ := testLast_round henv hwork m
    · rw [hr, hr']
      exact hsame
    · rw [hr] at hend
      rw [hr, hr']
      exact ih m' hend

/-- Where the work and the loop that tests first end, so does the loop that tests last, with one round
more: it counts the first work as a round. -/
theorem testLast_ends (henv : env.Unmetered) (hwork : work.StepBlind) (n : Nat) (m : Machine)
    (hend : ((do work; testFirst env n truth t c work) m).1 ≠ .error .unfinished) :
    (testLast env (n + 1) truth t c work m).1 ≠ .error .unfinished := by
  induction n generalizing m with
  | zero =>
    cases hm : work m with
    | mk r m₁ =>
      cases r with
      | ok u =>
        rw [Action.bind_ok hm, testFirst, Action.bind_ok (henv.step_eq t.line m₁)] at hend
        exact absurd rfl hend
      | error s =>
        rw [Action.bind_error hm] at hend
        rw [testLast_succ, Action.bind_ok (henv.step_eq t.line m),
          Action.bind_error (hwork.after hm 1)]
        exact hend
  | succ n ih =>
    obtain ⟨r, r', hsame, hr, hr'⟩ | ⟨m', hr, hr'⟩ := testLast_round henv hwork m
    · rw [hr'] at hend
      rw [hr, ← hsame.result]
      exact hend
    · rw [hr'] at hend
      rw [hr]
      exact ih m' hend

/-- The condition of another expression, read the other way round. -/
theorem testFirst_not {n : Expr} (hn : condition env n = do return !(← condition env c))
    (rounds : Nat) (t : Token) (work : Action Unit) :
    testFirst env rounds true t n work = testFirst env rounds false t c work := by
  have hnot : ∀ (x : Bool) (a b : Action Bool),
      (if (!x) = true then a else b) = if x = false then a else b := by
    intro x a b
    cases x <;> rfl
  simp only [testFirst, hn, Action.atLine_bind, Action.atLine_pure, bind_assoc, pure_bind, hnot]

/-- Two forms of a statement of which each ends when the other does, and then the same. -/
structure Interchangeable (a b : Nat → Action Unit) (m : Machine) : Prop where
  ends : (∃ r, Finishes a m r) ↔ ∃ r', Finishes b m r'
  same : ∀ r r', Finishes a m r → Finishes b m r' → EndsSame r r'

/-- The loop that tests last is the work followed by the loop that tests first. It may need one
round more, which is why both are taken with as many rounds as they need. -/
theorem testLast_interchangeable (henv : env.Unmetered) {work : Nat → Action Unit}
    (hblind : ∀ rounds, (work rounds).StepBlind) (hsteady : Steady work) (m : Machine) :
    Interchangeable (fun rounds => testLast env rounds truth t c (work rounds))
      (fun rounds => do work rounds; testFirst env rounds truth t c (work rounds)) m := by
  let last : Nat → Action Unit := fun rounds => testLast env rounds truth t c (work rounds)
  let first : Nat → Action Unit := fun rounds => do
    work rounds
    testFirst env rounds truth t c (work rounds)
  have hfirst : Steady first := fun n n' hn =>
    .bind (hsteady n n' hn) fun _ => testFirst_settles (hsteady n n' hn) hn
  have hforth : ∀ r, Finishes last m r → ∃ r', Finishes first m r' ∧ EndsSame r r' := by
    rintro _ ⟨hr, n, rfl⟩
    have hsame := testLast_endsSame henv (hblind n) n m hr
    refine ⟨first n m, ⟨?_, n, rfl⟩, hsame⟩
    rw [hsame.result]
    exact hr
  have hback : ∀ r', Finishes first m r' → ∃ r, Finishes last m r := by
    rintro _ ⟨hr, n, rfl⟩
    have hend := testLast_ends henv (hblind n) n m hr
    have hmore : last (n + 1) m = testLast env (n + 1) truth t c (work n) m :=
      testLast_settles (hsteady n (n + 1) (Nat.le_succ n)) (Nat.le_refl (n + 1)) m hend
    refine ⟨last (n + 1) m, ?_, n + 1, rfl⟩
    rw [hmore]
    exact hend
  obtain ⟨hends, hsame⟩ := finishes_iff hfirst hforth hback
  exact ⟨hends, hsame⟩

end Forms

/-- `executa` loops are their body and then a loop that tests its condition first. The one with
`cat timp` is followed by the `cat timp` loop of the same condition. The one with `pana cand` is
followed by the loop that goes on as long as the condition does not hold (`testFirst` at `false`; at
`true` it is the `cat timp` loop), and so by the `cat timp` loop of any expression whose truth is the
opposite one. Each form ends when the other does, with the same result, variables, output and input,
and on success after the same number of steps. -/
theorem doLoops_as_whileLoops {env : Env} (henv : env.Unmetered) (t : Token) (c : Expr)
    (body : Block) (m : Machine) :
    Interchangeable (fun rounds => exec env rounds (.doWhile t c body))
        (fun rounds => execBlock env rounds (body ++ [.whileLoop t c body])) m ∧
      Interchangeable (fun rounds => exec env rounds (.doUntil t c body))
        (fun rounds => do
          execBlock env rounds body
          testFirst env rounds false t c (execBlock env rounds body)) m ∧
      ∀ n : Expr, (condition env n = do return !(← condition env c)) →
        Interchangeable (fun rounds => exec env rounds (.doUntil t c body))
          (fun rounds => execBlock env rounds (body ++ [.whileLoop t n body])) m := by
  have hforms : ∀ truth, Interchangeable
      (fun rounds => testLast env rounds truth t c (execBlock env rounds body))
      (fun rounds => do
        execBlock env rounds body
        testFirst env rounds truth t c (execBlock env rounds body)) m :=
    fun truth => testLast_interchangeable henv (fun _ => henv.execBlock_stepBlind body)
      (execBlock_steady env body) m
  simp only [exec_doWhile, exec_doUntil, execBlock_append, execBlock, exec_whileLoop, bind_pure_unit]
  refine ⟨hforms true, hforms false, fun n hn => ?_⟩
  simp only [testFirst_not hn]
  exact hforms false

/-- A comparison that succeeds yields a truth value. -/
theorem Value.apply_comparison {op : BinOp} (hop : op.strength = 0) {l r v : Value}
    (h : apply op l r = .ok v) : ∃ b, v = ofBool b := by
  unfold apply at h
  split at h
  · cases op <;> cases hop <;> cases h <;> exact ⟨_, rfl⟩
  split at h
  · have hfloat := orMismatch_eq_ok h
    cases op <;> cases hop <;> cases hfloat <;> exact ⟨_, rfl⟩
  split at h
  · have htext := orMismatch_eq_ok h
    cases op <;> cases hop <;> cases htext <;> exact ⟨_, rfl⟩
  split at h
  · have hbool := orMismatch_eq_ok h
    cases op <;> cases hop <;> cases hbool <;> exact ⟨_, rfl⟩
  · cases h

/-- The opposite of a comparison is the comparison of its truth value with `fals`. -/
theorem condition_comparison_not (env : Env) (t t' t'' : Token) (l r : Expr) {op : BinOp}
    (hop : op.strength = 0) :
    condition env (.binary t (.binary t' l op r) .eq (.bool t'' false)) =
      do return !(← condition env (.binary t' l op r)) := by
  simp only [condition, eval, bind_assoc]
  refine bind_congr fun x => bind_congr fun y => ?_
  cases h : Value.apply op x y with
  | error f => rfl
  | ok v =>
    obtain ⟨b, rfl⟩ := Value.apply_comparison hop h
    cases b <;> rfl

/-- Counting up to 2 until the counter is above 1, or as long as it is not. -/
theorem doLoops_as_whileLoops_until :
    let i : Expr := .var default (bytes "i")
    let c : Expr := .binary default i .gt (.int default 1)
    let n : Expr := .binary default c .eq (.bool default false)
    let body : Block := [.assign default (bytes "i") (.binary default i .add (.int default 1))]
    let m : Machine := { vars := ({} : Namespace).set (bytes "i") (.ofInt 0) }
    ∃ r r', Finishes (fun rounds => exec {} rounds (.doUntil default c body)) m r ∧
      Finishes (fun rounds => execBlock {} rounds (body ++ [.whileLoop default n body])) m r' ∧
      r.1 = .ok () ∧ r'.2.vars.get? (bytes "i") = some (.ofInt 2) ∧ r'.2.taken = 4 ∧
      EndsSame r r' := by
  intro i c n body m
  let r := exec {} 2 (.doUntil default c body) m
  have hok : r.1 = .ok () := eq_ok_of_isOk (by decide +kernel)
  have hr : Finishes (fun rounds => exec {} rounds (.doUntil default c body)) m r :=
    ⟨by rw [hok]; nofun, 2, rfl⟩
  have hnot : condition {} n = do return !(← condition {} c) :=
    condition_comparison_not {} default default default i (.int default 1) rfl
  obtain ⟨-, -, hforms⟩ := doLoops_as_whileLoops Env.default_unmetered default c body m
  obtain ⟨hends, hsame⟩ := hforms n hnot
  obtain ⟨r', hr'⟩ := hends.mp ⟨r, hr⟩
  have h := hsame r r' hr hr'
  have htwo : r.2.vars.get? (bytes "i") = some (.ofInt 2) := by decide +kernel
  have hfour : r.2.taken = 4 := by decide +kernel
  exact ⟨r, r', hr, hr', hok, by rw [h.vars, htwo], by rw [h.taken hok, hfour], h⟩

/-! ## Counting loops -/

/-- So many rounds of a loop are completed one after the other: each time the condition holds and the
block ends. Whether another round follows is left open. -/
inductive CompletedRounds (env : Env) (c : Expr) (block : Block) : Nat → Machine → Machine → Prop
    where
  | none (m : Machine) : CompletedRounds env c block 0 m m
  | again {k : Nat} {m m₁ m₂ m' : Machine} (hc : condition env c m = (.ok true, m₁))
      (hblock : Finishes (fun rounds => execBlock env rounds block) m₁ (.ok (), m₂))
      (h : CompletedRounds env c block k m₂ m') : CompletedRounds env c block (k + 1) m m'

section Counting

variable {env : Env} {rounds : Nat} {t : Token} {c : Expr} {block : Block} {m m' : Machine}

/-- A round of a counting loop, with the step at the end of its block. -/
def countingRound (env : Env) (rounds : Nat) (t : Token) (c : Expr) (block : Block) :
    Action Bool := do
  if ← Action.atLine t.line (condition env c) then
    execBlock env rounds block
    return true
  else return false

/-- The same round of a `cat timp` loop, which takes a step more when it is completed. -/
def plainRound (env : Env) (rounds : Nat) (t : Token) (c : Expr) (block : Block) :
    Action Bool := do
  if ← countingRound env rounds t c block then
    Action.atLine t.line (takeStep env)
    return true
  else return false

theorem exec_forLoop (env : Env) (rounds : Nat) (t : Token) (start step : Stmt) (c : Expr)
    (body : Block) :
    exec env rounds (.forLoop t start c step body) = (do
      Action.atLine t.line (takeStep env)
      exec env rounds start
      Action.iterate rounds (countingRound env rounds t c (body ++ [step]))) := by
  simp only [exec, countingRound, execBlock_append, execBlock, bind_pure_unit, bind_assoc]

theorem exec_whileLoop_rounds (env : Env) (rounds : Nat) (t : Token) (c : Expr) (block : Block) :
    exec env rounds (.whileLoop t c block) = (do
      Action.atLine t.line (takeStep env)
      Action.iterate rounds (plainRound env rounds t c block)) := by
  have hround : (do
      if ← Action.atLine t.line (condition env c) then
        execBlock env rounds block
        Action.atLine t.line (takeStep env)
        return true
      else return false) = plainRound env rounds t c block := by
    simp only [plainRound, countingRound, bind_assoc]
    refine bind_congr fun go => ?_
    cases go <;> simp
  simp only [exec, hround]

theorem countingRound_stepBlind (henv : env.Unmetered) :
    (countingRound env rounds t c block).StepBlind := by
  refine .bind (.atLine t.line (henv.condition_stepBlind c)) fun go => ?_
  cases go with
  | true => exact .bind (henv.execBlock_stepBlind block) fun _ => .pure true
  | false => exact .pure false

/-- A round that ends has found its condition true and ended its block, or found it false. -/
theorem countingRound_eq_ok {go : Bool} (h : countingRound env rounds t c block m = (.ok go, m')) :
    (go = true ∧ ∃ m₁, condition env c m = (.ok true, m₁) ∧
        execBlock env rounds block m₁ = (.ok (), m')) ∨
      go = false ∧ condition env c m = (.ok false, m') := by
  unfold countingRound at h
  obtain ⟨x, m₁, hc, hr⟩ | ⟨s, m₁, hc, hr⟩ := Action.bind_cases
    ((condition env c).atLine t.line) _ m
  · rw [hr] at h
    have hcond := Action.atLine_eq_ok_iff.mp hc
    cases x with
    | true =>
      obtain ⟨u, m₂, hb, hr'⟩ | ⟨s, m₂, hb, hr'⟩ := Action.bind_cases
        (execBlock env rounds block) (fun _ => pure true) m₁
      · cases hr'.symm.trans h
        exact .inl ⟨rfl, m₁, hcond, hb⟩
      · cases hr'.symm.trans h
    | false =>
      cases h
      exact .inr ⟨rfl, hcond⟩
  · cases hr.symm.trans h

/-- A loop that is some steps ahead before a round is as many ahead after it, and one more if the
round is completed. -/
theorem plainRound_ahead (henv : env.Unmetered) {r : Except Stop Bool}
    (h : countingRound env rounds t c block m = (r, m')) (ahead : Nat) :
    plainRound env rounds t c block (m.later ahead) =
      (r, m'.later (if r.toOption = some true then ahead + 1 else ahead)) := by
  have hahead := (countingRound_stepBlind henv).after h ahead
  unfold plainRound
  cases r with
  | error s => exact Action.bind_error hahead
  | ok go =>
    rw [Action.bind_ok hahead]
    cases go with
    | true =>
      have hstep := henv.step_eq t.line (m'.later ahead)
      rw [Machine.later_later] at hstep
      exact Action.bind_ok hstep
    | false => rfl

/-- The rounds of a counting loop beside those of the `cat timp` loop, which may begin some steps
ahead: they do the same, and each completed round puts the second loop one step further ahead. -/
theorem iterate_plainRound (henv : env.Unmetered) (rounds : Nat) (t : Token) (c : Expr)
    (block : Block) (n : Nat) (m : Machine) (ahead : Nat) :
    let counting := Action.iterate n (countingRound env rounds t c block) m
    ∃ k, Action.iterate n (plainRound env rounds t c block) (m.later ahead) =
        (counting.1, counting.2.later (ahead + k)) ∧
      (counting.1 = .ok () → ∃ mₖ, CompletedRounds env c block k m mₖ ∧
        condition env c mₖ = (.ok false, counting.2)) := by
  induction n generalizing m ahead with
  | zero => exact ⟨0, rfl, nofun⟩
  | succ n ih =>
    cases hround : countingRound env rounds t c block m with
    | mk r m₁ =>
      have hplain := plainRound_ahead henv hround ahead
      cases r with
      | error s =>
        rw [Action.iterate_error hround, Action.iterate_error hplain]
        exact ⟨0, rfl, nofun⟩
      | ok go =>
        obtain ⟨rfl, m₂, hc, hblock⟩ | ⟨rfl, hc⟩ := countingRound_eq_ok hround
        · obtain ⟨k, hrest, hcompleted⟩ := ih m₁ (ahead + 1)
          rw [Action.iterate_true hround, Action.iterate_true hplain]
          refine ⟨k + 1, ?_, fun hok => ?_⟩
          · rw [Nat.add_comm k 1, ← Nat.add_assoc]
            exact hrest
          · obtain ⟨mₖ, hk, hlast⟩ := hcompleted hok
            exact ⟨mₖ, .again hc ⟨nofun, rounds, hblock⟩ hk, hlast⟩
        · rw [Action.iterate_false hround, Action.iterate_false hplain]
          exact ⟨0, rfl, fun _ => ⟨m, .none m, hc⟩⟩

/-- What the two forms come to on the same number of rounds, ended or not. -/
theorem forLoop_endsAlike (henv : env.Unmetered) (rounds : Nat) (t : Token) (start step : Stmt)
    (c : Expr) (body : Block) (m : Machine) :
    let r := exec env rounds (.forLoop t start c step body) m
    let r' := execBlock env rounds [start, .whileLoop t c (body ++ [step])] m
    EndsAlike r r' ∧ (r.1 = .ok () → ∃ k m₀ mₖ,
      Finishes (fun rounds => exec env rounds start) (m.later 1) (.ok (), m₀) ∧
      CompletedRounds env c (body ++ [step]) k m₀ mₖ ∧ condition env c mₖ = (.ok false, r.2) ∧
      r'.2.taken = r.2.taken + k) := by
  simp only [exec_forLoop, execBlock, exec_whileLoop_rounds, bind_pure_unit,
    Action.bind_ok (henv.step_eq t.line m)]
  cases hstart : exec env rounds start m with
  | mk r m₀ =>
    -- the counting loop takes its own step before its first statement
    have hahead := henv.exec_stepBlind start |>.after hstart 1
    cases r with
    | error s =>
      rw [Action.bind_error hstart, Action.bind_error hahead]
      exact ⟨.sooner _ _ 1, nofun⟩
    | ok u =>
      rw [Action.bind_ok hstart, Action.bind_ok hahead, Action.bind_ok (henv.step_eq t.line m₀)]
      obtain ⟨k, hplain, hcompleted⟩ :=
        iterate_plainRound henv rounds t c (body ++ [step]) rounds (m₀.later 1) 0
      rw [Machine.later_zero] at hplain
      rw [hplain]
      refine ⟨.later _ _ _, fun hok => ?_⟩
      obtain ⟨mₖ, hk, hlast⟩ := hcompleted hok
      refine ⟨k, m₀.later 1, mₖ, ⟨nofun, rounds, hahead⟩, hk, hlast, ?_⟩
      simp

end Counting

/-- A counting loop is its first statement and a `cat timp` loop whose block ends with the step. Each
form ends when the other does, with the same result, variables, output and input. On success the
second form has taken one step more for each completed round. -/
theorem forLoop_as_whileLoop {env : Env} (henv : env.Unmetered) (t : Token) (start step : Stmt)
    (c : Expr) (body : Block) (m : Machine) :
    let counting : Nat → Action Unit := fun rounds =>
      exec env rounds (.forLoop t start c step body)
    let plain : Nat → Action Unit := fun rounds =>
      execBlock env rounds [start, .whileLoop t c (body ++ [step])]
    ((∃ r, Finishes counting m r) ↔ ∃ r', Finishes plain m r') ∧
      ∀ r r', Finishes counting m r → Finishes plain m r' →
        EndsAlike r r' ∧ (r.1 = .ok () → ∃ k m₀ mₖ,
          Finishes (fun rounds => exec env rounds start) (m.later 1) (.ok (), m₀) ∧
          CompletedRounds env c (body ++ [step]) k m₀ mₖ ∧ condition env c mₖ = (.ok false, r.2) ∧
          r'.2.taken = r.2.taken + k) := by
  intro counting plain
  refine finishes_iff (execBlock_steady env _) ?_ ?_
  · rintro _ ⟨hr, n, rfl⟩
    have halike := forLoop_endsAlike henv n t start step c body m
    refine ⟨plain n m, ⟨?_, n, rfl⟩, halike⟩
    rw [halike.1.result]
    exact hr
  · rintro _ ⟨hr, n, rfl⟩
    have halike := forLoop_endsAlike henv n t start step c body m
    refine ⟨counting n m, ?_, n, rfl⟩
    rw [← halike.1.result]
    exact hr

/-- Two rounds that print the numbers 0 and 1: the `cat timp` loop takes two steps more. -/
theorem forLoop_as_whileLoop_two_rounds :
    let i : Expr := .var default (bytes "i")
    let start : Stmt := .declare default (bytes "i") (some (.int default 0))
    let c : Expr := .binary default i .lt (.int default 2)
    let step : Stmt := .assign default (bytes "i") (.binary default i .add (.int default 1))
    let body : Block := [.print default i]
    ∃ r r' m₀ mₖ, Finishes (fun rounds => exec {} rounds (.forLoop default start c step body)) {} r ∧
      Finishes (fun rounds => execBlock {} rounds [start, .whileLoop default c (body ++ [step])]) {}
        r' ∧ r.1 = .ok () ∧ r.2.output.data.toList = bytes "01" ∧ EndsAlike r r' ∧
      CompletedRounds {} c (body ++ [step]) 2 m₀ mₖ ∧ r'.2.taken = r.2.taken + 2 := by
  intro i start c step body
  let r := exec {} 3 (.forLoop default start c step body) {}
  let r' := execBlock {} 3 [start, .whileLoop default c (body ++ [step])] {}
  have hok : r.1 = .ok () := eq_ok_of_isOk (by decide +kernel)
  have hok' : r'.1 = .ok () := eq_ok_of_isOk (by decide +kernel)
  have hr : Finishes (fun rounds => exec {} rounds (.forLoop default start c step body)) {} r :=
    ⟨by rw [hok]; nofun, 3, rfl⟩
  have hr' : Finishes (fun rounds =>
      execBlock {} rounds [start, .whileLoop default c (body ++ [step])]) {} r' :=
    ⟨by rw [hok']; nofun, 3, rfl⟩
  obtain ⟨-, hforms⟩ :=
    forLoop_as_whileLoop Env.default_unmetered default start step c body {}
  obtain ⟨halike, hrounds⟩ := hforms r r' hr hr'
  obtain ⟨k, m₀, mₖ, -, hk, -, hsteps⟩ := hrounds hok
  have hsix : r.2.taken = 6 := by decide +kernel
  have height : r'.2.taken = 8 := by decide +kernel
  obtain rfl : k = 2 := by omega
  exact ⟨r, r', m₀, mₖ, hr, hr', hok, by decide +kernel, halike, hk, hsteps⟩

end LineScript
