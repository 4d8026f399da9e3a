import LineScript.Function.Registry
import LineScript.Run.Eval

/-!
# What the functions of the language do

Of the functions that every script can call, `input` and `print` use the input and the output. All
others only compute: their result does not depend on the machine, and they fail only by what the
script gave them (`Func.Computes`). No function reaches the variables or takes a step.
-/

namespace LineScript

/-! ## Failures that scripts bring about -/

/-- The kinds of failure that a script brings about by itself. The others come from budgets, from
input and output and from hosts. -/
def FailureKind.isInternal : FailureKind → Bool
  | typeMismatch | divisionByZero | undefinedVariable | undefinedFunction | arityMismatch
  | invalidArgument => true
  | stepLimit | canceled | writeFailed | readFailed | hostFailed => false

namespace Value

theorem orMismatch_error {op : BinOp} {l r : Value} {o : Option Value} {f : Failure}
    (h : orMismatch op l r o = .error f) : f.kind = .typeMismatch := by
  cases o with
  | none =>
    cases h
    rfl
  | some v => cases h

theorem intOp_error {op : BinOp} {a b : Int64} {f : Failure} (h : intOp op a b = .error f) :
    f.kind = .divisionByZero := by
  cases op <;> simp only [intOp] at h
  case div | mod =>
    split at h
    · cases h
      rfl
    · cases h
  all_goals cases h

/-- Operators fail by the types of their operands or by a zero divisor. -/
theorem apply_error {op : BinOp} {l r : Value} {f : Failure} (h : apply op l r = .error f) :
    f.kind.isInternal := by
  unfold apply at h
  split at h
  · rw [intOp_error h]
    rfl
  all_goals
    repeat' split at h
    all_goals
      rw [orMismatch_error h]
      rfl

theorem truth_error {v : Value} {f : Failure} (h : truth v = .error f) :
    f.kind = .typeMismatch := by
  unfold truth at h
  split at h
  all_goals cases h
  rfl

end Value

/-! ## Functions that only compute -/

/-- A function that only computes: whatever the machine, it turns its arguments into a result or
into a failure that the script brought about. -/
def Func.Computes (f : Func) : Prop :=
  ∀ args, ∃ r : Except Failure Value, f args = Action.ofExcept r ∧
    ∀ e, r = .error e → e.kind.isInternal

namespace Func

variable {v w : Value} {name : Bytes} {f : Failure}

theorem converted_error {o : Option Value} (h : converted name v o = .error f) :
    f.kind.isInternal := by
  cases o with
  | none =>
    cases h
    rfl
  | some w => cases h

theorem number_error (h : number name v = .error f) : f.kind.isInternal := by
  unfold number at h
  split at h <;> cases h
  rfl

theorem length_error (h : length v = .error f) : f.kind.isInternal := by
  unfold length at h
  split at h <;> cases h
  rfl

theorem sqrt_error (h : sqrt v = .error f) : f.kind.isInternal := by
  unfold sqrt at h
  cases hx : number (bytes "sqrt") v with
  | ok x =>
    rw [hx] at h
    cases h
  | error g =>
    rw [hx] at h
    cases h
    exact number_error hx

theorem abs_error (h : abs v = .error f) : f.kind.isInternal := by
  unfold abs at h
  split at h <;> cases h
  rfl

theorem round_error (h : round v = .error f) : f.kind.isInternal := by
  unfold round at h
  split at h
  · next hx =>
    cases h
    exact number_error hx
  · exact converted_error h

theorem power_error (h : power v w = .error f) : f.kind.isInternal := by
  unfold power at h
  split at h
  · cases h
  · cases hx : number (bytes "pow") v with
    | error g =>
      rw [hx] at h
      cases h
      exact number_error hx
    | ok x =>
      cases hy : number (bytes "pow") w with
      | error g =>
        rw [hx, hy] at h
        cases h
        exact number_error hy
      | ok y =>
        rw [hx, hy] at h
        cases h

theorem unary_computes {compute : Value → Except Failure Value}
    (h : ∀ v e, compute v = .error e → e.kind.isInternal) : (unary name compute).Computes := by
  intro args
  unfold unary
  split
  · next v => exact ⟨compute v, rfl, h v⟩
  · exact ⟨.error _, rfl, by rintro _ ⟨⟩; rfl⟩

theorem pow_computes : pow.Computes := by
  intro args
  unfold pow
  split
  · next base exponent => exact ⟨power base exponent, rfl, fun _ => power_error⟩
  · exact ⟨.error _, rfl, by rintro _ ⟨⟩; rfl⟩

theorem format_computes : format.Computes := by
  intro args
  unfold format
  split
  · exact ⟨.error _, rfl, by rintro _ ⟨⟩; rfl⟩
  · split
    · exact ⟨.ok _, rfl, nofun⟩
    · exact ⟨.error _, rfl, by rintro _ ⟨⟩; rfl⟩

end Func

/-! ## The functions of the language -/

/-- What is found in a table is one of the entries that it was made of. -/
theorem Table.mem_of_get?_ofList {α : Type} {entries : List (Bytes × α)} {name : Bytes} {a : α}
    (h : (Table.ofList entries).get? name = some a) : (name, a) ∈ entries := by
  -- the table that the fold starts from is empty
  have hfold : ∀ (entries : List (Bytes × α)) (t : Table α),
      (entries.foldl (fun t entry => t.set entry.1 entry.2) t).get? name = some a →
        t.get? name = some a ∨ (name, a) ∈ entries := by
    intro entries
    induction entries with
    | nil => exact fun t h => .inl h
    | cons entry rest ih =>
      intro t h
      obtain ⟨n, b⟩ := entry
      rcases ih (t.set n b) h with h | hrest
      · rw [Table.get?_set] at h
        split at h
        · next hn =>
          cases h
          exact .inr (hn ▸ List.mem_cons_self)
        · exact .inl h
      · exact .inr (List.mem_cons_of_mem _ hrest)
  rcases hfold entries ⟨[]⟩ h with h | h
  · cases h
  · exact h

/-- A function of the language only computes, unless it is `input` or `print`. -/
theorem Registry.standard_cases {name : Bytes} {f : Func} (h : standard.get? name = some f) :
    (name = bytes "input" ∧ f = Func.input) ∨ (name = bytes "print" ∧ f = Func.print) ∨
      f.Computes := by
  have hn := Table.mem_of_get?_ofList h
  simp only [List.mem_cons, Prod.mk.injEq, List.not_mem_nil, or_false] at hn
  obtain ⟨-, rfl⟩ | ⟨-, rfl⟩ | ⟨-, rfl⟩ | ⟨-, rfl⟩ | ⟨-, rfl⟩ | ⟨-, rfl⟩ | ⟨-, rfl⟩ | ⟨-, rfl⟩ |
    ⟨-, rfl⟩ | ⟨-, rfl⟩ | ⟨-, rfl⟩ | hinput | hprint := hn
  · exact .inr (.inr (Func.unary_computes fun _ _ => Func.converted_error))
  · exact .inr (.inr (Func.unary_computes fun _ _ => Func.converted_error))
  · exact .inr (.inr (Func.unary_computes fun _ _ h => by cases h))
  · exact .inr (.inr (Func.unary_computes fun _ _ => Func.converted_error))
  · exact .inr (.inr (Func.unary_computes fun _ _ => Func.length_error))
  · exact .inr (.inr (Func.unary_computes fun _ _ h => by cases h))
  · exact .inr (.inr (Func.unary_computes fun _ _ => Func.sqrt_error))
  · exact .inr (.inr (Func.unary_computes fun _ _ => Func.abs_error))
  · exact .inr (.inr (Func.unary_computes fun _ _ => Func.round_error))
  · exact .inr (.inr Func.pow_computes)
  · exact .inr (.inr Func.format_computes)
  · exact .inl hinput
  · exact .inr (.inl hprint)

/-! ## Answers -/

theorem Action.pure_inj {α : Type} {a b : α} : (pure a : Action α) = pure b ↔ a = b := by
  constructor
  · intro h
    have hresult : ((.ok a : Except Stop α), ({} : Machine)) = (.ok b, {}) := congrFun h {}
    cases hresult
    rfl
  · exact fun h => h ▸ rfl

theorem Action.fail_ne_pure {α : Type} (f : Failure) (a : α) : (fail f : Action α) ≠ pure a := by
  intro h
  have hresult : ((.error (.failed ⟨f, none⟩) : Except Stop α), ({} : Machine)) = (.ok a, {}) :=
    congrFun h {}
  cases hresult

end LineScript
