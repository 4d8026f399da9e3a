import LineScript.Proofs.StepBlindness

/-!
# Chains of conditions

A conditional with `altfel daca` arms evaluates its conditions in turn until one of them holds or
fails. At most one of its blocks runs, and no condition after the deciding one is looked at
(`Chosen`). The same comes about when each `altfel daca` is written out as a conditional of its own in
the last block of the one before; it then takes a step for each of these conditions that is reached.
-/

namespace LineScript

/-! ## Choosing a block -/

/-- An arm of a conditional: a condition with the line at which it is reported, and the block that
runs when it holds. -/
structure Arm where
  line : Int
  condition : Expr
  body : Block

/-- The condition of an `altfel daca` is reported on its own line. -/
def Arm.ofElseIf (arm : Expr × Block) : Arm := ⟨arm.1.token.line, arm.1, arm.2⟩

/-- The conditions of some arms are evaluated in turn, and none of them holds. -/
inductive NoneHolds (env : Env) : List Arm → Machine → Machine → Prop where
  | nil (m : Machine) : NoneHolds env [] m m
  | cons {arm : Arm} {arms : List Arm} {m m₁ m' : Machine}
      (hc : condition env arm.condition m = (.ok false, m₁)) (h : NoneHolds env arms m₁ m') :
      NoneHolds env (arm :: arms) m m'

/-- How a conditional with these arms and this last block comes out, after so many conditions. -/
inductive Chosen (env : Env) (rounds : Nat) (arms : List Arm) (last : Option Block) (m : Machine) :
    Nat → Except Stop Unit × Machine → Prop where
  /-- A condition holds, and its block runs. -/
  | holds {before after : List Arm} {arm : Arm} {m₁ m₂ : Machine}
      (harms : arms = before ++ arm :: after) (hbefore : NoneHolds env before m m₁)
      (hc : condition env arm.condition m₁ = (.ok true, m₂)) :
      Chosen env rounds arms last m (before.length + 1) (execBlock env rounds arm.body m₂)
  /-- A condition fails, and no block runs. -/
  | fails {before after : List Arm} {arm : Arm} {m₁ m₂ : Machine} {s : Stop}
      (harms : arms = before ++ arm :: after) (hbefore : NoneHolds env before m m₁)
      (hc : condition env arm.condition m₁ = (.error s, m₂)) :
      Chosen env rounds arms last m (before.length + 1) (.error (s.atLine arm.line), m₂)
  /-- No condition holds, and the last block runs. -/
  | last {body : Block} {m₁ : Machine} (hlast : last = some body)
      (hnone : NoneHolds env arms m m₁) :
      Chosen env rounds arms last m arms.length (execBlock env rounds body m₁)
  /-- No condition holds, and there is no last block. -/
  | nothing {m₁ : Machine} (hlast : last = none) (hnone : NoneHolds env arms m m₁) :
      Chosen env rounds arms last m arms.length (.ok (), m₁)

namespace Chosen

variable {env : Env} {rounds : Nat} {arm : Arm} {arms : List Arm} {last : Option Block}
  {m m₁ : Machine} {n : Nat} {r : Except Stop Unit × Machine}

/-- An arm whose condition does not hold leaves the choice to the others. -/
theorem next (hc : condition env arm.condition m = (.ok false, m₁))
    (h : Chosen env rounds arms last m₁ n r) : Chosen env rounds (arm :: arms) last m (n + 1) r := by
  cases h with
  | holds harms hbefore hc' => exact .holds (by rw [harms]; rfl) (.cons hc hbefore) hc'
  | fails harms hbefore hc' => exact .fails (by rw [harms]; rfl) (.cons hc hbefore) hc'
  | last hlast hnone => exact .last hlast (.cons hc hnone)
  | nothing hlast hnone => exact .nothing hlast (.cons hc hnone)

/-- Every conditional comes out in one way. -/
theorem exists_chosen (env : Env) (rounds : Nat) (arms : List Arm) (last : Option Block)
    (m : Machine) : ∃ n r, Chosen env rounds arms last m n r := by
  induction arms generalizing m with
  | nil =>
    cases hlast : last with
    | none => exact ⟨_, _, .nothing rfl (.nil m)⟩
    | some body => exact ⟨_, _, .last rfl (.nil m)⟩
  | cons arm arms ih =>
    cases hc : condition env arm.condition m with
    | mk answer m₁ =>
      cases answer with
      | error s => exact ⟨_, _, .fails rfl (.nil m) hc⟩
      | ok b =>
        cases b with
        | true => exact ⟨_, _, .holds rfl (.nil m) hc⟩
        | false =>
          obtain ⟨n, r, h⟩ := ih m₁
          exact ⟨n + 1, r, h.next hc⟩

/-- Without arms the last block runs, if there is one. -/
theorem nil_cases (h : Chosen env rounds [] last m n r) :
    n = 0 ∧ ((last = none ∧ r = (.ok (), m)) ∨
      ∃ body, last = some body ∧ r = execBlock env rounds body m) := by
  cases h with
  | holds harms _ _ => exact absurd harms (by simp)
  | fails harms _ _ => exact absurd harms (by simp)
  | last hlast hnone =>
    cases hnone
    exact ⟨rfl, .inr ⟨_, hlast, rfl⟩⟩
  | nothing hlast hnone =>
    cases hnone
    exact ⟨rfl, .inl ⟨hlast, rfl⟩⟩

/-- The first arm decides, or it leaves the choice to the others. -/
theorem cons_cases (h : Chosen env rounds (arm :: arms) last m n r) :
    (∃ m₁, condition env arm.condition m = (.ok true, m₁) ∧ n = 1 ∧
        r = execBlock env rounds arm.body m₁) ∨
      (∃ s m₁, condition env arm.condition m = (.error s, m₁) ∧ n = 1 ∧
        r = (.error (s.atLine arm.line), m₁)) ∨
      ∃ m₁ n', condition env arm.condition m = (.ok false, m₁) ∧ n = n' + 1 ∧
        Chosen env rounds arms last m₁ n' r := by
  cases h with
  | holds harms hbefore hc =>
    cases hbefore with
    | nil =>
      cases harms
      exact .inl ⟨_, hc, rfl, rfl⟩
    | cons hc' hbefore' =>
      cases harms
      exact .inr (.inr ⟨_, _, hc', rfl, .holds rfl hbefore' hc⟩)
  | fails harms hbefore hc =>
    cases hbefore with
    | nil =>
      cases harms
      exact .inr (.inl ⟨_, _, hc, rfl, rfl⟩)
    | cons hc' hbefore' =>
      cases harms
      exact .inr (.inr ⟨_, _, hc', rfl, .fails rfl hbefore' hc⟩)
  | last hlast hnone =>
    cases hnone with
    | cons hc hnone' => exact .inr (.inr ⟨_, _, hc, rfl, .last hlast hnone'⟩)
  | nothing hlast hnone =>
    cases hnone with
    | cons hc hnone' => exact .inr (.inr ⟨_, _, hc, rfl, .nothing hlast hnone'⟩)

end Chosen

/-! ## Executing a chain -/

section Chains

variable {env : Env} {rounds : Nat} {line : Int} {c : Expr} {a b : Action Unit} {m m₁ : Machine}

/-- Tests a condition that is reported on a line and goes on accordingly. -/
def branchOn (env : Env) (line : Int) (c : Expr) (a b : Action Unit) : Action Unit := do
  if ← Action.atLine line (condition env c) then a else b

theorem branchOn_true (hc : condition env c m = (.ok true, m₁)) :
    branchOn env line c a b m = a m₁ :=
  Action.bind_ok (Action.atLine_eq_ok_iff.mpr hc)

theorem branchOn_false (hc : condition env c m = (.ok false, m₁)) :
    branchOn env line c a b m = b m₁ :=
  Action.bind_ok (Action.atLine_eq_ok_iff.mpr hc)

theorem branchOn_error {s : Stop} (hc : condition env c m = (.error s, m₁)) :
    branchOn env line c a b m = (.error (s.atLine line), m₁) := by
  refine Action.bind_error ?_
  rw [Action.atLine_eq, hc]
  rfl

theorem execAlternative_elseIf (env : Env) (rounds : Nat) (c : Expr) (body : Block)
    (otherwise : Alternative) :
    execAlternative env rounds (.elseIf c body otherwise) =
      branchOn env c.token.line c (execBlock env rounds body)
        (execAlternative env rounds otherwise) := by
  simp only [execAlternative, branchOn]

theorem exec_branch (henv : env.Unmetered) (t : Token) (c : Expr) (body : Block)
    (otherwise : Alternative) (m : Machine) :
    exec env rounds (.branch t c body otherwise) m =
      branchOn env t.line c (execBlock env rounds body) (execAlternative env rounds otherwise)
        (m.later 1) := by
  simp only [exec, branchOn]
  exact Action.bind_ok (henv.step_eq t.line m)

/-- A chain does what its conditions choose. -/
theorem execAlternative_eq_of_chosen (a : Alternative) {m : Machine} {n : Nat}
    {r : Except Stop Unit × Machine}
    (h : Chosen env rounds (a.arms.map Arm.ofElseIf) a.final? m n r) :
    execAlternative env rounds a m = r := by
  cases a with
  | absent =>
    obtain ⟨rfl, ⟨-, rfl⟩ | ⟨body, hlast, rfl⟩⟩ := h.nil_cases
    · simp only [execAlternative]
      rfl
    · cases hlast
  | block body =>
    obtain ⟨rfl, ⟨hlast, rfl⟩ | ⟨body, hlast, rfl⟩⟩ := h.nil_cases
    · cases hlast
    · cases hlast
      simp only [execAlternative]
  | elseIf c body otherwise =>
    rw [execAlternative_elseIf]
    obtain ⟨m₁, hc, rfl, rfl⟩ | ⟨s, m₁, hc, rfl, rfl⟩ | ⟨m₁, n', hc, rfl, hrest⟩ := h.cons_cases
    · exact branchOn_true hc
    · exact branchOn_error hc
    · exact (branchOn_false hc).trans (execAlternative_eq_of_chosen otherwise hrest)

end Chains

/-! ## Nested conditionals -/

/-- A chain written out: each `altfel daca` is a conditional of its own, which is reported at a given
position, in the last block of the one before. -/
def Alternative.nested (position : Expr → Block → Alternative → Token) : Alternative → Alternative
  | .absent => .absent
  | .block body => .block body
  | .elseIf c body otherwise =>
    .block [.branch (position c body otherwise) c body (otherwise.nested position)]

/-- A reason to stop without its line. -/
def Stop.unplaced : Stop → Stop
  | .failed e => .failed { e with line := none }
  | .crashed c => .crashed c
  | .unfinished => .unfinished

theorem Stop.unplaced_atLine (s : Stop) (line : Int) : (s.atLine line).unplaced = s.unplaced := by
  cases s <;> rfl

/-- Two results that are the same but for the line of a failure, and the same altogether when the
positions of two forms are on the same lines. -/
structure SameCause (aligned : Prop) (r r' : Except Stop Unit) : Prop where
  cause : r'.mapError Stop.unplaced = r.mapError Stop.unplaced
  result : aligned → r' = r

theorem SameCause.refl (aligned : Prop) (r : Except Stop Unit) : SameCause aligned r r :=
  ⟨rfl, fun _ => rfl⟩

theorem SameCause.atLine {aligned : Prop} {line line' : Int} (h : aligned → line' = line)
    (s : Stop) : SameCause aligned (.error (s.atLine line)) (.error (s.atLine line')) := by
  refine ⟨?_, fun hl => by rw [h hl]⟩
  show Except.error _ = Except.error _
  rw [Stop.unplaced_atLine, Stop.unplaced_atLine]

section Nesting

variable {env : Env} {rounds : Nat}

/-- The positions of the nested conditionals are on the lines of their conditions. -/
def Aligned (position : Expr → Block → Alternative → Token) : Prop :=
  ∀ c body otherwise, (position c body otherwise).line = c.token.line

/-- A chain that is written out does what the conditions of the chain choose, and takes a step for
each of them that is evaluated. -/
theorem execAlternative_nested (henv : env.Unmetered)
    (position : Expr → Block → Alternative → Token) (a : Alternative) {m : Machine} {n : Nat}
    {r : Except Stop Unit × Machine}
    (h : Chosen env rounds (a.arms.map Arm.ofElseIf) a.final? m n r) :
    ∃ r', execAlternative env rounds (a.nested position) m = (r', r.2.later n) ∧
      SameCause (Aligned position) r.1 r' := by
  cases a with
  | absent =>
    obtain ⟨rfl, -⟩ := h.nil_cases
    rw [← execAlternative_eq_of_chosen _ h]
    exact ⟨_, rfl, .refl _ _⟩
  | block body =>
    obtain ⟨rfl, -⟩ := h.nil_cases
    rw [← execAlternative_eq_of_chosen _ h]
    exact ⟨_, rfl, .refl _ _⟩
  | elseIf c body otherwise =>
    have hnested : execAlternative env rounds
        ((Alternative.elseIf c body otherwise).nested position) m =
        branchOn env (position c body otherwise).line c (execBlock env rounds body)
          (execAlternative env rounds (otherwise.nested position)) (m.later 1) := by
      simp only [Alternative.nested, execAlternative, execBlock, bind_pure_unit]
      exact exec_branch henv _ c body _ m
    rw [hnested]
    -- the nested conditional has taken its step before it comes to the condition
    have hcond := henv.condition_stepBlind c
    obtain ⟨m₁, hc, rfl, rfl⟩ | ⟨s, m₁, hc, rfl, rfl⟩ | ⟨m₁, n', hc, rfl, hrest⟩ := h.cons_cases
    · refine ⟨_, (branchOn_true (hcond.after hc 1)).trans ?_, .refl _ _⟩
      exact (henv.execBlock_stepBlind body).after rfl 1
    · exact ⟨_, branchOn_error (hcond.after hc 1), .atLine (fun hp => hp c body otherwise) s⟩
    · obtain ⟨r', hr', hsame⟩ := execAlternative_nested henv position otherwise hrest
      refine ⟨r', (branchOn_false (hcond.after hc 1)).trans ?_, hsame⟩
      rw [(henv.execAlternative_stepBlind _).after hr' 1, Machine.later_later]

end Nesting

/-- A conditional with `altfel daca` arms comes out in one way: the conditions are evaluated in turn up
to the one that decides, and at most one block runs. Written out as nested conditionals it comes out
the same, with the same variables, output and input, and takes one step more for each `altfel daca`
whose condition is evaluated. Only the line of a failing condition depends on where the nested
conditionals are reported. -/
theorem branch_as_nested {env : Env} (henv : env.Unmetered) (rounds : Nat)
    (position : Expr → Block → Alternative → Token) (t : Token) (c : Expr) (body : Block)
    (otherwise : Alternative) (m : Machine) :
    let arms : List Arm := ⟨t.line, c, body⟩ :: otherwise.arms.map Arm.ofElseIf
    (∃ k r, Chosen env rounds arms otherwise.final? (m.later 1) (k + 1) r) ∧
      ∀ k r, Chosen env rounds arms otherwise.final? (m.later 1) (k + 1) r →
        exec env rounds (.branch t c body otherwise) m = r ∧
          ∃ r', exec env rounds (.branch t c body (otherwise.nested position)) m =
              (r', r.2.later k) ∧ SameCause (Aligned position) r.1 r' := by
  intro arms
  constructor
  · obtain ⟨n, r, h⟩ := Chosen.exists_chosen env rounds arms otherwise.final? (m.later 1)
    obtain ⟨m₁, -, rfl, -⟩ | ⟨s, m₁, -, rfl, -⟩ | ⟨m₁, k, -, rfl, -⟩ := h.cons_cases
    · exact ⟨0, r, h⟩
    · exact ⟨0, r, h⟩
    · exact ⟨k, r, h⟩
  · intro k r h
    rw [exec_branch henv, exec_branch henv]
    obtain ⟨m₁, hc, hk, rfl⟩ | ⟨s, m₁, hc, hk, rfl⟩ | ⟨m₁, n, hc, hk, hrest⟩ := h.cons_cases
    · obtain rfl : k = 0 := by omega
      exact ⟨branchOn_true hc, _, branchOn_true hc, .refl _ _⟩
    · obtain rfl : k = 0 := by omega
      exact ⟨branchOn_error hc, _, branchOn_error hc, .refl _ _⟩
    · obtain rfl : k = n := by omega
      obtain ⟨r', hr', hsame⟩ := execAlternative_nested henv position otherwise hrest
      exact ⟨(branchOn_false hc).trans (execAlternative_eq_of_chosen otherwise hrest), r',
        (branchOn_false hc).trans hr', hsame⟩

/-- The third of three conditions holds for the number 7: two conditions of `altfel daca` are
evaluated, and the last block does not run. -/
theorem branch_as_nested_third :
    let x : Expr := .var default (bytes "x")
    let say (text : String) : Block := [.print default (.text default (bytes text))]
    let negative : Arm := ⟨0, .binary default x .lt (.int default 0), say "negative"⟩
    let zero : Arm := ⟨0, .binary default x .eq (.int default 0), say "zero"⟩
    let small : Arm := ⟨0, .binary default x .lt (.int default 10), say "small"⟩
    let otherwise : Alternative :=
      .elseIf zero.condition zero.body (.elseIf small.condition small.body (.block (say "big")))
    let m : Machine := { vars := ({} : Namespace).set (bytes "x") (.ofInt 7) }
    ∃ r, Chosen {} 0 [negative, zero, small] (some (say "big")) (m.later 1) 3 r ∧
      exec {} 0 (.branch default negative.condition negative.body otherwise) m = r ∧
      exec {} 0 (.branch default negative.condition negative.body
        (otherwise.nested fun c _ _ => c.token)) m = (r.1, r.2.later 2) ∧
      r.1 = .ok () ∧ r.2.output.data.toList = bytes "small" := by
  intro x say negative zero small otherwise m
  have harms : [negative, zero, small] = [negative, zero] ++ small :: [] := rfl
  have hnone : NoneHolds {} [negative, zero] (m.later 1) (m.later 1) :=
    .cons rfl (.cons rfl (.nil _))
  have hchosen : Chosen {} 0 [negative, zero, small] (some (say "big")) (m.later 1) 3
      (execBlock {} 0 small.body (m.later 1)) := .holds harms hnone rfl
  obtain ⟨hchain, r', hnested, hsame⟩ := (branch_as_nested Env.default_unmetered 0
    (fun c _ _ => c.token) default negative.condition negative.body otherwise m).2 2 _ hchosen
  rw [hsame.result fun _ _ _ => rfl] at hnested
  exact ⟨_, hchosen, hchain, hnested, rfl, rfl⟩

end LineScript
