import LineScript.Proofs.RunRelation

/-!
# Types without values

What type an operator's result has, and whether there is a result at all, can be told from the types
of its operands. So the type of an expression without calls, or the failure that its evaluation ends
in, can be told from the types of the variables (`Expr.typeIn`). Only a zero divisor is a matter of
values. Two evaluations with variables of the same types therefore end alike.
-/

namespace LineScript

/-! ## Operators on types -/

/-- The type at which two operands meet: an integer beside a floating-point number is converted. -/
def Tag.common? : Tag → Tag → Option Tag
  | int, int => some int
  | int, float | float, int | float, float => some float
  | text, text => some text
  | bool, bool => some bool
  | _, _ => none

namespace BinOp

/-- The types whose values an operator can be applied to. -/
def isDefinedOn (op : BinOp) : Tag → Bool
  | .int => true
  | .float => op != mod
  | .text => op == add || op == eq || op == ne
  | .bool => op == eq || op == ne
  | .other _ => false

/-- The type of the result: comparisons yield truth values, other operators keep to the type. -/
def yields (op : BinOp) (t : Tag) : Tag := if op.strength = 0 then .bool else t

/-- What an operator makes of two types. -/
def onTypes (op : BinOp) (l r : Tag) : Except Failure Tag :=
  match l.common? r with
  | some t => if op.isDefinedOn t then .ok (op.yields t) else .error (.operands op.symbol l r)
  | none => .error (.operands op.symbol l r)

theorem onTypes_error {op : BinOp} {l r : Tag} {f : Failure} (h : op.onTypes l r = .error f) :
    f = .operands op.symbol l r := by
  cases hc : l.common? r with
  | none =>
    simp only [onTypes, hc] at h
    cases h
    rfl
  | some t =>
    simp only [onTypes, hc] at h
    by_cases hop : op.isDefinedOn t
    · rw [if_pos hop] at h
      cases h
    · rw [if_neg hop] at h
      cases h
      rfl

end BinOp

namespace Value

theorem intOp_tag (op : BinOp) (a b : Int64) :
    (∃ f, intOp op a b = .error f ∧ f.kind = .divisionByZero) ∨
      ∃ v, intOp op a b = .ok v ∧ v.tag = op.yields .int := by
  cases h : intOp op a b with
  | error f => exact .inl ⟨f, rfl, intOp_error h⟩
  | ok v =>
    refine .inr ⟨v, rfl, ?_⟩
    cases op <;> simp only [intOp] at h
    case div | mod =>
      by_cases hb : b = 0
      · rw [if_pos hb] at h
        cases h
      · rw [if_neg hb] at h
        cases h
        rfl
    all_goals
      cases h
      rfl

theorem floatOp_tag (op : BinOp) (x y : Binary64) :
    (floatOp op x y).map tag = if op.isDefinedOn .float then some (op.yields .float) else none := by
  cases op <;> rfl

theorem textOp_tag (op : BinOp) (a b : Bytes) :
    (textOp op a b).map tag = if op.isDefinedOn .text then some (op.yields .text) else none := by
  cases op <;> rfl

theorem boolOp_tag (op : BinOp) (a b : Bool) :
    (boolOp op a b).map tag = if op.isDefinedOn .bool then some (op.yields .bool) else none := by
  cases op <;> rfl

theorem orMismatch_tag {op : BinOp} {l r : Value} {t : Tag} {o : Option Value}
    (ht : l.tag.common? r.tag = some t)
    (h : o.map tag = if op.isDefinedOn t then some (op.yields t) else none) :
    (orMismatch op l r o).map tag = op.onTypes l.tag r.tag := by
  simp only [BinOp.onTypes, ht]
  by_cases hop : op.isDefinedOn t
  · rw [if_pos hop] at h ⊢
    obtain ⟨v, rfl, hv⟩ := Option.map_eq_some_iff.mp h
    rw [← hv]
    rfl
  · rw [if_neg hop] at h ⊢
    rw [Option.map_eq_none_iff.mp h]
    rfl

/-- An operator divides by zero, or it does to values what it does to their types. -/
theorem apply_tag (op : BinOp) (l r : Value) :
    (∃ f, apply op l r = .error f ∧ f.kind = .divisionByZero) ∨
      (apply op l r).map tag = op.onTypes l.tag r.tag := by
  obtain ⟨tag, word, text⟩ := l
  obtain ⟨tag', word', text'⟩ := r
  cases tag <;> cases tag'
  case int.int =>
    refine (intOp_tag op _ _).imp_right ?_
    rintro ⟨v, hv, htag⟩
    show (intOp op _ _).map Value.tag = .ok (op.yields .int)
    rw [hv, ← htag]
    rfl
  case int.float | float.int | float.float =>
    exact .inr (orMismatch_tag rfl (floatOp_tag op _ _))
  case text.text => exact .inr (orMismatch_tag rfl (textOp_tag op _ _))
  case bool.bool => exact .inr (orMismatch_tag rfl (boolOp_tag op _ _))
  all_goals exact .inr rfl

end Value

/-! ## Expressions -/

/-- The types of the variables that have a value. -/
def Table.types (vars : Namespace) (name : Bytes) : Option Tag := (vars.get? name).map Value.tag

namespace Expr

/-- Is no function called? -/
def isCallFree : Expr → Bool
  | .int .. | .float .. | .text .. | .bool .. | .var .. => true
  | .binary _ left _ right => left.isCallFree && right.isCallFree
  | .call .. => false

/-- The type of an expression's value, or the failure that its evaluation ends in, for variables of
the given types. Functions are not looked into: a call counts as that of an undefined function. -/
def typeIn (types : Bytes → Option Tag) : Expr → Except Failure Tag
  | .int .. => .ok .int
  | .float .. => .ok .float
  | .text .. => .ok .text
  | .bool .. => .ok .bool
  | .var _ name =>
    match types name with
    | some t => .ok t
    | none => .error (.undefinedVariable name)
  | .binary _ left op right => do
    let l ← left.typeIn types
    let r ← right.typeIn types
    op.onTypes l r
  | .call _ name _ => .error (.undefinedFunction name)

/-- An expression without calls fails by a variable that has no value or by an operator that is not
defined for its operands. -/
theorem typeIn_error {types : Bytes → Option Tag} {e : Expr} (he : e.isCallFree) {f : Failure}
    (h : e.typeIn types = .error f) :
    (∃ name ∈ e.reads, types name = none ∧ f = .undefinedVariable name) ∨
      ∃ (op : BinOp) (l r : Tag), f = .operands op.symbol l r := by
  induction e using isCallFree.induct with
  | case1 | case2 | case3 | case4 => cases h
  | case5 t name =>
    cases hname : types name with
    | some t => simp [typeIn, hname] at h
    | none =>
      simp only [typeIn, hname] at h
      cases h
      exact .inl ⟨name, by simp [reads], hname, rfl⟩
  | case6 t left op right ihl ihr =>
    simp only [isCallFree, Bool.and_eq_true] at he
    simp only [typeIn] at h
    have hleft : ∀ name ∈ left.reads, name ∈ (binary t left op right).reads := by
      simp +contextual [reads]
    have hright : ∀ name ∈ right.reads, name ∈ (binary t left op right).reads := by
      simp +contextual [reads]
    cases hl : left.typeIn types with
    | error g =>
      rw [hl] at h
      cases h
      exact (ihl he.1 hl).imp_left fun ⟨name, hn, h⟩ => ⟨name, hleft name hn, h⟩
    | ok l =>
      cases hr : right.typeIn types with
      | error g =>
        rw [hl, hr] at h
        cases h
        exact (ihr he.2 hr).imp_left fun ⟨name, hn, h⟩ => ⟨name, hright name hn, h⟩
      | ok r =>
        rw [hl, hr] at h
        exact .inr ⟨op, l, r, BinOp.onTypes_error h⟩
  | case7 => cases he

end Expr

/-! ## Evaluation -/

/-- A result that types foretell: a value of the type or the failure, unless it is a division by
zero. -/
inductive Foretold (t : Except Failure Tag) : Except Stop Value → Prop where
  | value {v : Value} (h : t = .ok v.tag) : Foretold t (.ok v)
  | failure {f : Failure} (h : t = .error f) : Foretold t (.error (.failed ⟨f, none⟩))
  | zeroDivision {f : Failure} (h : f.kind = .divisionByZero) :
    Foretold t (.error (.failed ⟨f, none⟩))

namespace Foretold

variable {result : Except Stop Value}

theorem of_ok {t : Tag} (h : Foretold (.ok t) result)
    (hzero : ∀ err, result = .error (.failed err) → err.failure.kind ≠ .divisionByZero) :
    ∃ v, result = .ok v ∧ v.tag = t := by
  cases h with
  | value h => exact ⟨_, rfl, (Except.ok.inj h).symm⟩
  | failure h => cases h
  | zeroDivision hkind => exact absurd hkind (hzero _ rfl)

theorem of_error {f : Failure} (h : Foretold (.error f) result)
    (hzero : ∀ err, result = .error (.failed err) → err.failure.kind ≠ .divisionByZero) :
    result = .error (.failed ⟨f, none⟩) := by
  cases h with
  | value h => cases h
  | failure h => rw [Except.error.inj h]
  | zeroDivision hkind => exact absurd hkind (hzero _ rfl)

theorem apply (op : BinOp) (l r : Value) (m : Machine) :
    ∃ result, Action.ofExcept (Value.apply op l r) m = (result, m) ∧
      Foretold (op.onTypes l.tag r.tag) result := by
  obtain ⟨f, hf, hkind⟩ | htag := Value.apply_tag op l r
  · rw [hf]
    exact ⟨_, rfl, .zeroDivision hkind⟩
  · cases hv : Value.apply op l r with
    | ok v =>
      rw [hv] at htag
      exact ⟨_, rfl, .value htag.symm⟩
    | error f =>
      rw [hv] at htag
      exact ⟨_, rfl, .failure htag.symm⟩

end Foretold

/-- The evaluation of an expression without calls leaves the machine as it is and ends in the way
that the types of the variables foretell. -/
theorem eval_foretold (env : Env) {e : Expr} (he : e.isCallFree) (m : Machine) :
    ∃ result, eval env e m = (result, m) ∧ Foretold (e.typeIn m.vars.types) result := by
  induction e using Expr.isCallFree.induct with
  | case1 | case2 | case3 | case4 => exact ⟨_, rfl, .value rfl⟩
  | case5 t name =>
    have hlookup : Action.lookup name m = (.ok (m.vars.get? name), m) := rfl
    simp only [eval, Expr.typeIn, Table.types]
    rw [Action.bind_ok hlookup]
    cases m.vars.get? name with
    | some v => exact ⟨_, rfl, .value rfl⟩
    | none => exact ⟨_, rfl, .failure rfl⟩
  | case6 t left op right ihl ihr =>
    simp only [Expr.isCallFree, Bool.and_eq_true] at he
    simp only [eval, Expr.typeIn]
    obtain ⟨result, hl, hleft⟩ := ihl he.1
    cases hleft with
    | zeroDivision hkind => exact ⟨_, Action.bind_error hl, .zeroDivision hkind⟩
    | failure h =>
      rw [h]
      exact ⟨_, Action.bind_error hl, .failure rfl⟩
    | value h =>
      -- the left operand leaves the machine, so the right one sees the same variables
      rw [h, Action.bind_ok hl]
      obtain ⟨result', hr, hright⟩ := ihr he.2
      cases hright with
      | zeroDivision hkind => exact ⟨_, Action.bind_error hr, .zeroDivision hkind⟩
      | failure h =>
        rw [h]
        exact ⟨_, Action.bind_error hr, .failure rfl⟩
      | value h =>
        rw [h, Action.bind_ok hr]
        exact Foretold.apply op _ _ m
  | case7 => cases he

/-- The types of results depend on the types of operands, not on their values. Take an expression
without calls and two machines whose variables have the same names and types. If neither evaluation
divides by zero, both yield values of one type, or both fail in the same way: by a variable that has
no value, or by an operator that is not defined for the types of its operands. -/
theorem eval_depends_on_types (env env' : Env) {e : Expr} (he : e.isCallFree) {m m' : Machine}
    (hvars : ∀ name, (m'.vars.get? name).map Value.tag = (m.vars.get? name).map Value.tag)
    (hm : ∀ err, (eval env e m).1 = .error (.failed err) → err.failure.kind ≠ .divisionByZero)
    (hm' : ∀ err, (eval env' e m').1 = .error (.failed err) →
      err.failure.kind ≠ .divisionByZero) :
    (∃ v v', (eval env e m).1 = .ok v ∧ (eval env' e m').1 = .ok v' ∧ v'.tag = v.tag) ∨
      ∃ f, (eval env e m).1 = .error (.failed ⟨f, none⟩) ∧
        (eval env' e m').1 = .error (.failed ⟨f, none⟩) ∧
        ((∃ name ∈ e.reads, m.vars.get? name = none ∧ f = .undefinedVariable name) ∨
          ∃ (op : BinOp) (l r : Tag), f = .operands op.symbol l r) := by
  have htypes : m'.vars.types = m.vars.types := funext hvars
  obtain ⟨result, hr, h⟩ := eval_foretold env he m
  obtain ⟨result', hr', h'⟩ := eval_foretold env' he m'
  rw [htypes] at h'
  rw [hr] at hm ⊢
  rw [hr'] at hm' ⊢
  cases ht : e.typeIn m.vars.types with
  | ok t =>
    rw [ht] at h h'
    obtain ⟨v, rfl, hv⟩ := h.of_ok hm
    obtain ⟨v', rfl, hv'⟩ := h'.of_ok hm'
    exact .inl ⟨v, v', rfl, rfl, hv'.trans hv.symm⟩
  | error f =>
    rw [ht] at h h'
    obtain rfl := h.of_error hm
    obtain rfl := h'.of_error hm'
    refine .inr ⟨f, rfl, rfl, (Expr.typeIn_error he ht).imp_left ?_⟩
    rintro ⟨name, hname, hnone, hf⟩
    exact ⟨name, hname, Option.map_eq_none_iff.mp hnone, hf⟩

/-- Two quotients of integers, neither of which can be added to a text. -/
theorem eval_depends_on_types_quotient :
    let sum : Expr := .binary default
      (.binary default (.var default (bytes "x")) .div (.var default (bytes "y"))) .add
      (.text default (bytes "a"))
    let vars (x y : Int64) : Namespace :=
      (({} : Namespace).set (bytes "x") (.ofInt x)).set (bytes "y") (.ofInt y)
    let r := (eval {} sum { vars := vars 7 2 }).1
    let r' := (eval {} sum { vars := vars 1 (-3) }).1
    sum.isCallFree ∧ (∀ name, (vars 1 (-3)).types name = (vars 7 2).types name) ∧
      ∃ f, r = .error (.failed ⟨f, none⟩) ∧ r' = .error (.failed ⟨f, none⟩) ∧
        f = .operands (bytes "+") .int .text := by
  intro sum vars r r'
  have hresult : r = .error (.failed ⟨.operands (bytes "+") .int .text, none⟩) := rfl
  have hresult' : r' = .error (.failed ⟨.operands (bytes "+") .int .text, none⟩) := rfl
  have htypes : ∀ name, (vars 1 (-3)).types name = (vars 7 2).types name := by
    intro name
    simp only [vars, Table.types, Table.get?_set, apply_ite (Option.map Value.tag)]
    rfl
  have hzero : ∀ {s : Except Stop Value},
      s = .error (.failed ⟨.operands (bytes "+") .int .text, none⟩) →
      ∀ err, s = .error (.failed err) → err.failure.kind ≠ .divisionByZero := by
    rintro _ rfl _ ⟨⟩
    nofun
  obtain ⟨v, -, hv, -⟩ | ⟨f, hf, hf', -⟩ := @eval_depends_on_types {} {} sum rfl
    { vars := vars 7 2 } { vars := vars 1 (-3) } htypes (hzero hresult) (hzero hresult')
  · cases hresult.symm.trans hv
  · refine ⟨rfl, htypes, f, hf, hf', ?_⟩
    cases hresult.symm.trans hf
    rfl

end LineScript
