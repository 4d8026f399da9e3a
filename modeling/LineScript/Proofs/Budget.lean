import LineScript.Proofs.Progress

/-!
# Budgets

A run may be given a limit of steps, and it may be cancelled after a number of them. Either budget
only ever cuts a run short: up to the step that is refused, the run does what it would have done on
larger budgets, and the refused step ends it (`Curtailed`). The comparison is made between single
actions and carried to whole runs by `Simulation`.
-/

namespace LineScript

/-! ## What budgets allow -/

/-- The limit of steps, if there is one that the counter can go beyond. It cannot go beyond the
greatest integer. -/
def Env.limit? (env : Env) : Option Nat :=
  if 0 < env.stepLimit ∧ env.stepLimit < Int64.maxValue then some env.stepLimit.toNatClampNeg
  else none

/-- The number of steps that a run may take, if one of its budgets limits it. -/
def Env.budget (env : Env) : Option Nat := env.limit?.merge min env.cancelAfter

/-- The same run on budgets that are no smaller. A budget that is missing is larger than any
other. -/
structure Env.Within (env looser : Env) : Prop where
  functions : looser.functions = env.functions
  prompt : looser.prompt = env.prompt
  stepLimit : ∀ l' ∈ looser.limit?, ∃ l ∈ env.limit?, l ≤ l'
  cancelAfter : ∀ n' ∈ looser.cancelAfter, ∃ n ∈ env.cancelAfter, n ≤ n'

theorem Env.Within.refl (env : Env) : env.Within env :=
  ⟨rfl, rfl, fun l hl => ⟨l, hl, Nat.le_refl l⟩, fun n hn => ⟨n, hn, Nat.le_refl n⟩⟩

/-- How a run fails beyond its budget. The limit is checked before the cancellation, so it is the
reason when both are reached at once. -/
structure Env.Overrun (env : Env) (f : Failure) : Prop where
  limited : ∀ l, env.limit? = some l → (∀ n ∈ env.cancelAfter, l ≤ n) →
    f = .stepLimit env.stepLimit
  canceled : ∀ n, env.cancelAfter = some n → (∀ l ∈ env.limit?, n < l) →
    f = .within (bytes "execution stopped") .canceled

/-- The budget is one of the two, and the limit of steps when they are equal. -/
theorem Env.budget_cases {env : Env} {b : Nat} (hb : env.budget = some b) :
    (env.limit? = some b ∧ ∀ n ∈ env.cancelAfter, b ≤ n) ∨
      (env.cancelAfter = some b ∧ ∀ l ∈ env.limit?, b < l) := by
  unfold budget at hb
  cases hl : env.limit? with
  | none =>
    rw [hl, Option.merge_none_left] at hb
    exact .inr ⟨hb, nofun⟩
  | some l =>
    cases hn : env.cancelAfter with
    | none =>
      rw [hl, hn, Option.merge_none_right] at hb
      exact .inl ⟨hb, nofun⟩
    | some n =>
      rw [hl, hn] at hb
      obtain rfl : min l n = b := Option.some.inj hb
      by_cases hle : l ≤ n
      · rw [Nat.min_eq_left hle]
        exact .inl ⟨rfl, by rintro _ ⟨⟩; exact hle⟩
      · have hlt : n < l := Nat.lt_of_not_le hle
        rw [Nat.min_eq_right (Nat.le_of_lt hlt)]
        exact .inr ⟨rfl, by rintro _ ⟨⟩; exact hlt⟩

/-- A limit is a positive number that leaves room for one step more. -/
theorem Env.limit?_eq_some_iff {env : Env} {l : Nat} :
    env.limit? = some l ↔
      0 < env.stepLimit ∧ env.stepLimit < Int64.maxValue ∧ env.stepLimit.toInt = l := by
  have hcast : 0 < env.stepLimit → (env.stepLimit.toNatClampNeg : Int) = env.stepLimit.toInt := by
    intro hpos
    exact Int.toNat_of_nonneg (Int.le_of_lt (Int64.lt_iff_toInt_lt.mp hpos))
  unfold limit?
  by_cases hlimit : 0 < env.stepLimit ∧ env.stepLimit < Int64.maxValue
  · rw [if_pos hlimit]
    have htoInt := hcast hlimit.1
    refine ⟨fun h => ⟨hlimit.1, hlimit.2, ?_⟩, fun h => congrArg some ?_⟩
    · cases h
      exact htoInt.symm
    · omega
  · rw [if_neg hlimit]
    exact ⟨nofun, fun h => absurd ⟨h.1, h.2.1⟩ hlimit⟩

theorem Env.exists_limit {env : Env} (hpos : 0 < env.stepLimit)
    (hlt : env.stepLimit < Int64.maxValue) : ∃ l, env.limit? = some l :=
  ⟨_, if_pos ⟨hpos, hlt⟩⟩

/-- Up to the step after a limit, the counter shows the number of steps as it is. -/
theorem Env.toInt_ofNat {env : Env} {l k : Nat} (hl : env.limit? = some l) (hk : k ≤ l + 1) :
    (Int64.ofNat k).toInt = k := by
  obtain ⟨-, hlt, htoInt⟩ := limit?_eq_some_iff.mp hl
  have hgreatest := Int64.lt_iff_toInt_lt.mp hlt
  rw [Int64.toInt_maxValue] at hgreatest
  exact Int64.toInt_ofNat_of_lt (by omega)

theorem Env.toInt_limit_add_one {env : Env} {l : Nat} (hl : env.limit? = some l) :
    (env.stepLimit + 1).toInt = l + 1 := by
  have hlimit : env.stepLimit = Int64.ofNat l := by
    rw [← Int64.toInt_inj, (limit?_eq_some_iff.mp hl).2.2, toInt_ofNat hl (Nat.le_succ l)]
  have hnext : env.stepLimit + 1 = Int64.ofNat (l + 1) := by
    rw [Int64.ofNat_add, hlimit]
    rfl
  rw [hnext, toInt_ofNat hl (Nat.le_refl _)]
  rfl

theorem Env.refusal_limited {env : Env} {l : Nat} (hl : env.limit? = some l) :
    env.refusal (l + 1) = some (.stepLimit env.stepLimit) := by
  obtain ⟨hpos, -, htoInt⟩ := limit?_eq_some_iff.mp hl
  have hbeyond : env.stepLimit < Int64.ofNat (l + 1) := by
    rw [Int64.lt_iff_toInt_lt, toInt_ofNat hl (Nat.le_refl _)]
    omega
  rw [refusal, if_pos ⟨hpos, hbeyond⟩]

/-- Within the limit only a cancellation refuses a step. -/
theorem Env.refusal_unlimited {env : Env} {k : Nat} (hl : ∀ l ∈ env.limit?, k ≤ l) :
    env.refusal k = if env.cancelAfter.any (· < k) then
      some (.within (bytes "execution stopped") .canceled) else none := by
  have hwithin : ¬ (0 < env.stepLimit ∧ env.stepLimit < Int64.ofNat k) := by
    rintro ⟨hpos, hbeyond⟩
    have hlt : env.stepLimit < Int64.maxValue :=
      Int64.lt_of_lt_of_le hbeyond (Int64.le_maxValue _)
    obtain ⟨l, hlimit⟩ := exists_limit hpos hlt
    have hk := hl l hlimit
    rw [Int64.lt_iff_toInt_lt, toInt_ofNat hlimit (Nat.le_succ_of_le hk),
      (limit?_eq_some_iff.mp hlimit).2.2] at hbeyond
    omega
  rw [refusal, if_neg hwithin]

/-- A step within both budgets is allowed. -/
theorem Env.refusal_within {env : Env} {k : Nat} (hl : ∀ l ∈ env.limit?, k ≤ l)
    (hn : ∀ n ∈ env.cancelAfter, k ≤ n) : env.refusal k = none := by
  rw [refusal_unlimited hl]
  cases h : env.cancelAfter with
  | none => rfl
  | some n =>
    have hk : ¬ n < k := Nat.not_lt.mpr (hn n h)
    simp [hk]

/-- A step within a budget is allowed by it and by every larger one. -/
theorem Env.Within.refusal_eq_none {env looser : Env} (h : env.Within looser) {b k : Nat}
    (hb : env.budget = some b) (hk : k ≤ b) : looser.refusal k = none := by
  have hle : (∀ l ∈ env.limit?, b ≤ l) ∧ ∀ n ∈ env.cancelAfter, b ≤ n := by
    obtain ⟨hl, hn⟩ | ⟨hn, hl⟩ := Env.budget_cases hb
    · exact ⟨by simp [hl], hn⟩
    · exact ⟨fun l h => Nat.le_of_lt (hl l h), by simp [hn]⟩
  refine Env.refusal_within (fun l' hl' => ?_) fun n' hn' => ?_
  · obtain ⟨l, hl, hll'⟩ := h.stepLimit l' hl'
    exact Nat.le_trans hk (Nat.le_trans (hle.1 l hl) hll')
  · obtain ⟨n, hn, hnn'⟩ := h.cancelAfter n' hn'
    exact Nat.le_trans hk (Nat.le_trans (hle.2 n hn) hnn')

/-- The first step beyond the budget is refused. -/
theorem Env.exists_overrun {env : Env} {b : Nat} (hb : env.budget = some b) :
    ∃ f, env.refusal (b + 1) = some f ∧ env.Overrun f := by
  obtain ⟨hl, hn⟩ | ⟨hn, hl⟩ := budget_cases hb
  · refine ⟨.stepLimit env.stepLimit, refusal_limited hl, fun _ _ _ => rfl, fun n hn' hlt => ?_⟩
    have := hn n hn'
    have := hlt b hl
    omega
  · refine ⟨.within (bytes "execution stopped") .canceled, ?_, fun l hl' hle => ?_,
      fun _ _ _ => rfl⟩
    · rw [refusal_unlimited hl]
      simp [hn]
    · have := hl l hl'
      have := hle b hn
      omega

/-! ## Runs that are cut short -/

/-- How a run on the budget `b` compares with the same run on a larger one: it is the same run and
stays within the budget, or its next step fails with `f` and the other run goes on from there. -/
inductive Curtailed (b : Nat) (f : Failure) {α : Type} (r r' : Except Stop α × Machine) : Prop where
  | same (h : r = r') (hb : r.2.taken ≤ b)
  | cut (line : Option Int) (hr : r.1 = .error (.failed ⟨f, line⟩)) (hb : r.2.taken = b + 1)
    (hm : r.2.Precedes r'.2)

/-- Two actions of which the second is the same on a larger budget. -/
structure Curtails (b : Nat) (f : Failure) (α : Type) (a a' : Action α) : Prop where
  onward : a'.Onward
  curtailed {m : Machine} (hm : m.taken ≤ b) : Curtailed b f (a m) (a' m)

namespace Curtails

variable {b : Nat} {f : Failure} {α β : Type}

theorem of_stepless {P : Stop → Prop} {a : Action α} (h : a.Stepless P) : Curtails b f α a a :=
  ⟨h.onward, fun {m} hm => .same rfl (by rw [h.taken m]; exact hm)⟩

theorem bind {a a' : Action α} {g g' : α → Action β} (ha : Curtails b f α a a')
    (hg : ∀ x, Curtails b f β (g x) (g' x)) : Curtails b f β (a >>= g) (a' >>= g') := by
  have hon : ∀ x, (g' x).Onward := fun x => (hg x).onward
  refine ⟨ha.onward.bind hon, fun {m} hm => ?_⟩
  cases ha.curtailed hm with
  | same h hb =>
    obtain ⟨x, m', hx, hr⟩ | ⟨s, m', hs, hr⟩ := Action.bind_cases a g m
    · rw [hx] at h hb
      rw [hr, Action.bind_ok h.symm]
      exact (hg x).curtailed hb
    · rw [hs] at h hb
      rw [hr, Action.bind_error h.symm]
      exact .same rfl hb
  | cut line hr hb hp =>
    rw [Action.bind_error (Prod.ext hr rfl)]
    exact .cut line rfl hb (hp.trans (Action.Onward.after_bind a' hon m))

theorem atLine {a a' : Action α} (line : Int) (ha : Curtails b f α a a') :
    Curtails b f α (a.atLine line) (a'.atLine line) := by
  refine ⟨ha.onward.atLine line, fun {m} hm => ?_⟩
  cases ha.curtailed hm with
  | same h hb =>
    refine .same ?_ (by rwa [Action.atLine_machine])
    simp only [Action.atLine, h]
  | cut line' hr hb hp =>
    rw [Action.atLine_failed (Prod.ext hr rfl)]
    exact .cut _ rfl hb (by rwa [Action.atLine_machine])

/-- The loop is cut in the round in which its body is; the rounds before that one are the same. -/
theorem iterate {once once' : Action Bool} (h : Curtails b f Bool once once') (n : Nat) :
    Curtails b f Unit (Action.iterate n once) (Action.iterate n once') := by
  refine ⟨h.onward.iterate n, fun {m} hm => ?_⟩
  induction n generalizing m with
  | zero => exact .same rfl hm
  | succ n ih =>
    cases h.curtailed hm with
    | same heq hb =>
      obtain ⟨m', ho, hr⟩ | ⟨m', ho, hr⟩ | ⟨s, m', ho, hr⟩ := Action.iterate_cases once n m <;>
        rw [ho] at heq hb <;> rw [hr]
      · rw [Action.iterate_true heq.symm]
        exact ih hb
      · rw [Action.iterate_false heq.symm]
        exact .same rfl hb
      · rw [Action.iterate_error heq.symm]
        exact .same rfl hb
    | cut line hr hb hp =>
      rw [Action.iterate_error (Prod.ext hr rfl)]
      exact .cut line rfl hb (hp.trans (Action.Onward.after_iterate (h.onward.iterate n) m))

/-- The budget is where the two runs part: both allow the steps up to it, the first refuses the
next. -/
theorem takeStep {env loose : Env} (hin : ∀ k ≤ b, env.refusal k = none ∧ loose.refusal k = none)
    (hout : env.refusal (b + 1) = some f) :
    Curtails b f Unit (takeStep env) (takeStep loose) := by
  refine ⟨takeStep_onward loose, fun {m} hm => ?_⟩
  by_cases hlt : m.taken < b
  · obtain ⟨h, h'⟩ := hin (m.taken + 1) hlt
    refine .same ?_ (by rw [takeStep_machine]; exact hlt)
    simp only [LineScript.takeStep, h, h']
  · have hm : m.taken = b := by omega
    refine .cut none ?_ (by rw [takeStep_machine, hm]) ?_
    · simp only [LineScript.takeStep, hm, hout]
    · rw [takeStep_machine, takeStep_machine]
      exact .refl _

/-- A run on a budget is cut short by it, statement by statement. -/
theorem simulation {env loose : Env} (hhost : env.functions.Hosted)
    (hfunctions : loose.functions = env.functions) (hprompt : loose.prompt = env.prompt)
    (hin : ∀ k ≤ b, env.refusal k = none ∧ loose.refusal k = none)
    (hout : env.refusal (b + 1) = some f) (rounds : Nat) :
    Simulation env loose rounds rounds (Curtails b f) :=
  .of_stepless hfunctions hprompt of_stepless (fun hf args => of_stepless (hhost _ _ hf args)) .bind
    .atLine (.takeStep hin hout) fun h => h.iterate rounds

end Curtails

/-! ## Whole programs -/

theorem execute_machine (env : Env) (rounds : Nat) (program : Block) (m : Machine) :
    (execute env rounds program m).2 =
      (execBlock env rounds program { m with taken := 0 }).2 := by
  unfold execute
  split
  · next h => rw [h]
  · rfl

theorem execute_failed {env : Env} {rounds : Nat} {program : Block} {m : Machine} {e : RunError}
    (h : (execBlock env rounds program { m with taken := 0 }).1 = .error (.failed e)) :
    (execute env rounds program m).1 = .error (.failed e) := by
  unfold execute
  split
  · next h' =>
    rw [h'] at h
    cases h
  · exact h

/-- Budgets cut programs short and do nothing else. -/
theorem execute_curtailed {env looser : Env} (h : env.Within looser)
    (hhost : env.functions.Hosted) {b : Nat} (hb : env.budget = some b) {f : Failure}
    (hf : env.refusal (b + 1) = some f) (rounds : Nat) (program : Block) (m : Machine) :
    Curtailed b f (execute env rounds program m) (execute looser rounds program m) := by
  have hsim := Curtails.simulation hhost h.functions h.prompt
    (fun k hk => ⟨(Env.Within.refl env).refusal_eq_none hb hk, h.refusal_eq_none hb hk⟩) hf rounds
  have hstart : { m with taken := 0 }.taken ≤ b := Nat.zero_le b
  cases (hsim.execBlock program).curtailed hstart with
  | same heq hle =>
    refine .same ?_ (by rwa [execute_machine])
    unfold execute
    rw [heq]
  | cut line hr hsteps hp =>
    refine .cut line (execute_failed hr) ?_ ?_
    · rwa [execute_machine]
    · rwa [execute_machine, execute_machine]

end LineScript
