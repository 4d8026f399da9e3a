import LineScript.Proofs.ValueInvariant

/-!
# Canonical values

Values of hosts can be anything that fits into a tagged word with a text. The values that scripts
make have nothing in the part that their tag does not use (`Value.IsCanonical`). This is an
invariant of all runs with the functions of the language. On canonical values of one type the
equality of the host, which compares contents, and the operator `==` of scripts are the same test.
-/

namespace LineScript

namespace Value

/-- The tag is one of the language, a truth value is zero or one, a text has a zero word and all
other values have an empty text. -/
def IsCanonical (v : Value) : Prop :=
  match v.tag with
  | .int | .float => v.text = []
  | .text => v.word = 0
  | .bool => (v.word = 0 ∨ v.word = 1) ∧ v.text = []
  | .other _ => False

instance : (v : Value) → Decidable v.IsCanonical
  | ⟨.int, _, text⟩ | ⟨.float, _, text⟩ => inferInstanceAs (Decidable (text = []))
  | ⟨.text, word, _⟩ => inferInstanceAs (Decidable (word = 0))
  | ⟨.bool, word, text⟩ => inferInstanceAs (Decidable ((word = 0 ∨ word = 1) ∧ text = []))
  | ⟨.other _, _, _⟩ => inferInstanceAs (Decidable False)

/-! ## Values that operators make -/

theorem isCanonical_ofInt (i : Int64) : (ofInt i).IsCanonical := rfl

theorem isCanonical_ofFloat (x : Binary64) : (ofFloat x).IsCanonical := rfl

theorem isCanonical_ofText (text : Bytes) : (ofText text).IsCanonical := rfl

theorem isCanonical_ofBool (b : Bool) : (ofBool b).IsCanonical := by
  cases b with
  | false => exact ⟨.inl rfl, rfl⟩
  | true => exact ⟨.inr rfl, rfl⟩

theorem isCanonical_of_intOp {op : BinOp} {a b : Int64} {v : Value} (h : intOp op a b = .ok v) :
    v.IsCanonical := by
  cases op <;> simp only [intOp] at h
  case add | sub | mul =>
    cases h
    exact isCanonical_ofInt _
  case div | mod =>
    by_cases hb : b = 0
    · rw [if_pos hb] at h
      cases h
    · rw [if_neg hb] at h
      cases h
      exact isCanonical_ofInt _
  all_goals
    cases h
    exact isCanonical_ofBool _

theorem isCanonical_of_floatOp {op : BinOp} {x y : Binary64} {v : Value}
    (h : floatOp op x y = some v) : v.IsCanonical := by
  cases op <;> cases h
  case add | sub | mul | div => exact isCanonical_ofFloat _
  all_goals exact isCanonical_ofBool _

theorem isCanonical_of_textOp {op : BinOp} {a b : Bytes} {v : Value} (h : textOp op a b = some v) :
    v.IsCanonical := by
  cases op <;> cases h
  case add => exact isCanonical_ofText _
  all_goals exact isCanonical_ofBool _

theorem isCanonical_of_boolOp {op : BinOp} {a b : Bool} {v : Value} (h : boolOp op a b = some v) :
    v.IsCanonical := by
  cases op <;> cases h
  all_goals exact isCanonical_ofBool _

theorem orMismatch_eq_ok {op : BinOp} {l r v : Value} {o : Option Value}
    (h : orMismatch op l r o = .ok v) : o = some v := by
  cases o with
  | none => cases h
  | some w =>
    cases h
    rfl

/-- Whatever the operands, the result of an operator is canonical. -/
theorem isCanonical_of_apply {op : BinOp} {l r v : Value} (h : apply op l r = .ok v) :
    v.IsCanonical := by
  unfold apply at h
  split at h
  · exact isCanonical_of_intOp h
  split at h
  · exact isCanonical_of_floatOp (orMismatch_eq_ok h)
  split at h
  · exact isCanonical_of_textOp (orMismatch_eq_ok h)
  split at h
  · exact isCanonical_of_boolOp (orMismatch_eq_ok h)
  · cases h

/-! ## The two equalities -/

theorem toInt_inj {v w : Value} : v.toInt = w.toInt ↔ v.word = w.word := by
  constructor
  · intro h
    rw [← UInt64.toUInt64_toInt64 v.word, ← UInt64.toUInt64_toInt64 w.word]
    exact congrArg Int64.toUInt64 h
  · exact fun h => congrArg UInt64.toInt64 h

/-- On canonical values of one type the operator `==` finds what equality of contents finds. -/
theorem apply_eq_of_tag_eq {v w : Value} (hv : v.IsCanonical) (hw : w.IsCanonical)
    (htag : v.tag = w.tag) : apply .eq v w = .ok (ofBool (v.equal w)) := by
  obtain ⟨tag, a, s⟩ := v
  obtain ⟨tag', b, t⟩ := w
  cases htag
  cases tag with
  | int =>
    show Except.ok (ofBool (decide (_ = _))) = .ok (ofBool (decide (a = b)))
    rw [decide_eq_decide.mpr toInt_inj]
  | float => simp [apply, isNumeric, orMismatch, floatOp, equal]
  | text => simp [apply, isNumeric, orMismatch, textOp, equal]
  | bool =>
    obtain ⟨ha | ha, -⟩ := hv <;> obtain ⟨hb | hb, -⟩ := hw <;> cases ha <;> cases hb <;> rfl
  | other code => exact hv.elim

-- a host can pass in a second way to be true, which only the operator takes for the first one
example :
    let v : Value := ⟨.bool, 2, []⟩
    ¬v.IsCanonical ∧ v.equal (ofBool true) = false ∧
      apply .eq v (ofBool true) = .ok (ofBool true) :=
  ⟨by decide, rfl, rfl⟩

theorem equal_of_tag_ne {v w : Value} (htag : v.tag ≠ w.tag) : v.equal w = false := by
  unfold equal
  rw [beq_false_of_ne htag, Bool.false_and]

/-- Numbers of different types are compared as floating-point numbers. -/
theorem apply_eq_of_isNumeric {v w : Value} (htag : v.tag ≠ w.tag) (hv : v.isNumeric)
    (hw : w.isNumeric) : apply .eq v w = .ok (ofBool (v.toFloat.eq w.toFloat)) := by
  have hint : ¬(v.tag = .int ∧ w.tag = .int) := fun h => htag (h.1.trans h.2.symm)
  unfold apply
  rw [if_neg hint, hv, hw]
  rfl

/-- No other values of different types are compared. -/
theorem apply_eq_of_not_isNumeric {v w : Value} (htag : v.tag ≠ w.tag)
    (h : ¬(v.isNumeric ∧ w.isNumeric)) :
    apply .eq v w = .error (.operands (bytes "==") v.tag w.tag) := by
  have hsame : ∀ tag, ¬(v.tag = tag ∧ w.tag = tag) := fun _ h => htag (h.1.trans h.2.symm)
  unfold apply
  rw [if_neg (hsame _), if_neg (by simpa using h), if_neg (hsame _), if_neg (hsame _)]
  rfl

theorem binary_eq (v w : Value) : binary (bytes "==") v w = apply .eq v w := rfl

end Value

/-! ## Values that functions make -/

/-- The result of an action, if there is one, is canonical. -/
def Action.YieldsCanonical (a : Action Value) : Prop := ∀ m w, (a m).1 = .ok w → w.IsCanonical

namespace Action.YieldsCanonical

theorem pure {v : Value} (hv : v.IsCanonical) : YieldsCanonical (Pure.pure v) := by
  rintro m _ ⟨⟩
  exact hv

theorem fail (f : Failure) : YieldsCanonical (Action.fail f) := nofun

theorem ofExcept {r : Except Failure Value} (hr : ∀ w, r = .ok w → w.IsCanonical) :
    YieldsCanonical (Action.ofExcept r) := by
  cases r with
  | ok v => exact pure (hr v rfl)
  | error f => exact fail f

theorem bind {α : Type} (a : Action α) {f : α → Action Value} (hf : ∀ x, (f x).YieldsCanonical) :
    YieldsCanonical (a >>= f) := by
  intro m w hw
  obtain ⟨x, m', -, hr⟩ | ⟨s, m', -, hr⟩ := bind_cases a f m
  · rw [hr] at hw
    exact hf x m' w hw
  · rw [hr] at hw
    cases hw

end Action.YieldsCanonical

/-- Canonical arguments give a canonical result. -/
def Func.KeepsCanonical (f : Func) : Prop :=
  ∀ args, (∀ v ∈ args, v.IsCanonical) → (f args).YieldsCanonical

namespace Func

open Value

variable {v w : Value} {name : Bytes}

theorem converted_eq_ok {o : Option Value} (h : converted name v o = .ok w) : o = some w := by
  cases o with
  | none => cases h
  | some v =>
    cases h
    rfl

/-- A result that a constructor of values makes from something, if there is something. -/
theorem isCanonical_of_map {α : Type} {make : α → Value} (hmake : ∀ a, (make a).IsCanonical)
    {o : Option α} (h : o.map make = some w) : w.IsCanonical := by
  obtain ⟨a, -, rfl⟩ := Option.map_eq_some_iff.mp h
  exact hmake a

theorem isCanonical_of_toInt (hv : v.IsCanonical) (h : toInt v = .ok w) : w.IsCanonical := by
  have hw := converted_eq_ok h
  split at hw
  · cases hw
    exact hv
  · exact isCanonical_of_map isCanonical_ofInt hw
  · exact isCanonical_of_map isCanonical_ofInt hw
  · cases hw
    exact isCanonical_ofInt _
  · cases hw

theorem isCanonical_of_toFloat (h : toFloat v = .ok w) : w.IsCanonical := by
  have hw := converted_eq_ok h
  split at hw
  · cases hw
    exact isCanonical_ofFloat _
  · cases hw
    exact isCanonical_ofFloat _
  · exact isCanonical_of_map isCanonical_ofFloat hw
  · cases hw
    exact isCanonical_ofFloat _
  · cases hw

theorem isCanonical_of_toBool (h : toBool v = .ok w) : w.IsCanonical := by
  have hw := converted_eq_ok h
  split at hw
  · dsimp only at hw
    split at hw
    · cases hw
      exact isCanonical_ofBool _
    split at hw
    · cases hw
      exact isCanonical_ofBool _
    · cases hw
  · exact isCanonical_of_map isCanonical_ofBool hw

theorem isCanonical_of_length (h : length v = .ok w) : w.IsCanonical := by
  unfold length at h
  split at h
  · cases h
    exact isCanonical_ofInt _
  · cases h

theorem isCanonical_of_sqrt (h : sqrt v = .ok w) : w.IsCanonical := by
  unfold sqrt at h
  cases hx : number (bytes "sqrt") v with
  | ok x =>
    rw [hx] at h
    cases h
    exact isCanonical_ofFloat _
  | error f =>
    rw [hx] at h
    cases h

theorem isCanonical_of_abs (hv : v.IsCanonical) (h : abs v = .ok w) : w.IsCanonical := by
  unfold abs at h
  split at h
  · cases h
    split
    · exact isCanonical_ofInt _
    · exact hv
  · cases h
    exact isCanonical_ofFloat _
  · cases h

theorem isCanonical_of_round (h : round v = .ok w) : w.IsCanonical := by
  unfold round at h
  split at h
  · cases h
  · exact isCanonical_of_map isCanonical_ofInt (converted_eq_ok h)

theorem isCanonical_of_power {base exponent : Value} (h : power base exponent = .ok w) :
    w.IsCanonical := by
  unfold power at h
  split at h
  · cases h
    exact isCanonical_ofInt _
  · cases hx : number (bytes "pow") base with
    | error f =>
      rw [hx] at h
      cases h
    | ok x =>
      cases hy : number (bytes "pow") exponent with
      | error f =>
        rw [hx, hy] at h
        cases h
      | ok y =>
        rw [hx, hy] at h
        cases h
        exact isCanonical_ofFloat _

theorem unary_keepsCanonical {compute : Value → Except Failure Value}
    (h : ∀ v w, v.IsCanonical → compute v = .ok w → w.IsCanonical) :
    (unary name compute).KeepsCanonical := by
  intro args hargs
  unfold unary
  split
  · next v => exact .ofExcept fun w => h v w (hargs v List.mem_cons_self)
  · exact .fail _

theorem pow_keepsCanonical : pow.KeepsCanonical := by
  intro args _
  unfold pow
  split
  · exact .ofExcept fun _ => isCanonical_of_power
  · exact .fail _

theorem format_keepsCanonical : format.KeepsCanonical := by
  intro args _
  unfold format
  split
  · exact .fail _
  · split
    · exact .pure (isCanonical_ofText _)
    · exact .fail _

theorem input_keepsCanonical : input.KeepsCanonical := by
  intro args _
  have hread : Action.YieldsCanonical do return .ofText (← Action.readLine (bytes "input")) :=
    .bind _ fun line => .pure (isCanonical_ofText line)
  unfold input
  split
  · exact hread
  · exact .bind _ fun _ => hread
  · exact .fail _

theorem print_keepsCanonical : print.KeepsCanonical :=
  fun _ _ => .bind _ fun _ => .pure (isCanonical_ofInt _)

end Func

theorem Registry.standard_keepsCanonical {name : Bytes} {f : Func}
    (h : standard.get? name = some f) : f.KeepsCanonical := by
  have hn := Table.mem_of_get?_ofList h
  simp only [List.mem_cons, Prod.mk.injEq, List.not_mem_nil, or_false] at hn
  obtain ⟨-, rfl⟩ | ⟨-, rfl⟩ | ⟨-, rfl⟩ | ⟨-, rfl⟩ | ⟨-, rfl⟩ | ⟨-, rfl⟩ | ⟨-, rfl⟩ | ⟨-, rfl⟩ |
    ⟨-, rfl⟩ | ⟨-, rfl⟩ | ⟨-, rfl⟩ | ⟨-, rfl⟩ | ⟨-, rfl⟩ := hn
  · exact Func.unary_keepsCanonical fun _ _ => Func.isCanonical_of_toInt
  · exact Func.unary_keepsCanonical fun _ _ _ => Func.isCanonical_of_toFloat
  · exact Func.unary_keepsCanonical fun _ _ _ h => by cases h; exact Value.isCanonical_ofText _
  · exact Func.unary_keepsCanonical fun _ _ _ => Func.isCanonical_of_toBool
  · exact Func.unary_keepsCanonical fun _ _ _ => Func.isCanonical_of_length
  · exact Func.unary_keepsCanonical fun _ _ _ h => by cases h; exact Value.isCanonical_ofText _
  · exact Func.unary_keepsCanonical fun _ _ _ => Func.isCanonical_of_sqrt
  · exact Func.unary_keepsCanonical fun _ _ => Func.isCanonical_of_abs
  · exact Func.unary_keepsCanonical fun _ _ _ => Func.isCanonical_of_round
  · exact Func.pow_keepsCanonical
  · exact Func.format_keepsCanonical
  · exact Func.input_keepsCanonical
  · exact Func.print_keepsCanonical

/-! ## Runs -/

theorem isCanonical_invariant : ValueInvariant .standard Value.IsCanonical where
  ofInt := Value.isCanonical_ofInt
  ofFloat := Value.isCanonical_ofFloat
  ofText := Value.isCanonical_ofText
  ofBool := Value.isCanonical_ofBool
  apply _ _ h := Value.isCanonical_of_apply h
  call {name f args} hf hargs {m} hm := by
    have hspares : (f args).Spares [] := by
      have hcall := (@Action.Spares.related [] {} rfl 0).call name args
      simp only [Interpretation.actions, Registry.call, hf] at hcall
      exact hcall
    exact ⟨hm.of_changedAt (hspares m), Registry.standard_keepsCanonical hf args hargs m⟩

/-- A run that starts with canonical variables, however it ends, leaves canonical variables, and all
values that it meets are canonical. So for two values of the same type that it meets `==` yields
whether they are equal. Values of different types are never equal, and `==` fails on them by their
types unless both are numbers. -/
theorem run_meets_canonical {env : Env} (hfun : env.functions = .standard) (rounds : Nat)
    (program : Block) {m : Machine} (hm : m.vars.All Value.IsCanonical) :
    (execute env rounds program m).2.vars.All Value.IsCanonical ∧
      (∀ v, Meets env rounds program m v → v.IsCanonical) ∧
      ∀ v w, Meets env rounds program m v → Meets env rounds program m w →
        (v.tag = w.tag → Value.binary (bytes "==") v w = .ok (.ofBool (v.equal w))) ∧
        (v.tag ≠ w.tag → v.equal w = false ∧
          (v.isNumeric ∧ w.isNumeric →
            Value.binary (bytes "==") v w = .ok (.ofBool (v.toFloat.eq w.toFloat))) ∧
          (¬(v.isNumeric ∧ w.isNumeric) →
            ∃ f, Value.binary (bytes "==") v w = .error f ∧ f.kind = .typeMismatch)) := by
  have hinvariant : ValueInvariant env.functions Value.IsCanonical := hfun ▸ isCanonical_invariant
  have hmeets : ∀ v, Meets env rounds program m v → v.IsCanonical :=
    fun _ hv => hinvariant.of_meets hm hv
  refine ⟨hinvariant.execute_vars rounds program hm, hmeets, fun v w hv hw => ⟨?_, ?_⟩⟩
  · intro htag
    rw [Value.binary_eq]
    exact Value.apply_eq_of_tag_eq (hmeets v hv) (hmeets w hw) htag
  · intro htag
    refine ⟨Value.equal_of_tag_ne htag, fun h => ?_, fun h => ?_⟩
    · rw [Value.binary_eq]
      exact Value.apply_eq_of_isNumeric htag h.1 h.2
    · rw [Value.binary_eq]
      exact ⟨_, Value.apply_eq_of_not_isNumeric htag h, rfl⟩

/-- A run that compares what it reads from a text and then fails has the text and the truth value
beside each other. -/
theorem run_meets_canonical_failing :
    let t : Expr := .var default (bytes "t")
    let test : Expr := .binary default (.call default (bytes "int") [t]) .eq (.int default 1)
    let program : Block := [.assign default (bytes "b") test,
      .print default (.binary default (.var default (bytes "b")) .eq t)]
    let m : Machine := { vars := ({} : Namespace).set (bytes "t") (.ofText (bytes "1")) }
    let r := execute {} 0 program m
    r.1 = .error (.failed ⟨.operands (bytes "==") .bool .text, some 0⟩) ∧
      r.2.vars.get? (bytes "b") = some (.ofBool true) ∧ r.2.vars.All Value.IsCanonical ∧
      Meets {} 0 program m (.ofBool true) ∧ Meets {} 0 program m (.ofText (bytes "1")) ∧
      ∃ f, Value.binary (bytes "==") (.ofBool true) (.ofText (bytes "1")) = .error f ∧
        f.kind = .typeMismatch := by
  intro t test program m r
  have hm : m.vars.All Value.IsCanonical := by
    have hempty : ({} : Namespace).All Value.IsCanonical := nofun
    exact hempty.set (bytes "t") (Value.isCanonical_ofText _)
  obtain ⟨hvars, -, hpairs⟩ :=
    run_meets_canonical (rfl : Env.functions {} = .standard) 0 program hm
  have htext : Meets {} 0 program m (.ofText (bytes "1")) :=
    ⟨_, List.mem_cons_self, .inl ⟨bytes "t", rfl⟩⟩
  have htest : Meets {} 0 program m (.ofBool true) :=
    ⟨_, List.mem_cons_self, .inr ⟨test, rfl⟩⟩
  obtain ⟨-, hdifferent⟩ := hpairs _ _ htest htext
  exact ⟨rfl, rfl, hvars, htest, htext, (hdifferent nofun).2.2 (by decide)⟩

end LineScript
