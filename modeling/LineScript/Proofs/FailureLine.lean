import LineScript.Proofs.Journal
import LineScript.Proofs.Progress

/-!
# Where a run fails

Every failure of a run has one shape: a single line, then the contexts in which the failure arose,
then its cause. The line is that of the innermost statement that was running, or that of the
condition when it is the condition of an `altfel daca`. Which activities are running can be read off
the journal: those that have begun and not ended.
-/

namespace LineScript

/-! ## Running activities -/

/-- The running activities after a happening, the innermost first. -/
def Happening.track (running : List Activity) : Happening → List Activity
  | .began activity => activity :: running
  | .ended => running.tail
  | .wrote _ _ | .received _ => running

/-- The activities that have begun and not ended, the innermost first. -/
def Journal.running (journal : Journal) : List Activity := journal.foldl Happening.track []

/-- A journal that adds some activities to those that are running before. -/
def Journal.Adds (inner : List Activity) (journal : Journal) : Prop :=
  ∀ outer, journal.foldl Happening.track outer = inner ++ outer

namespace Journal.Adds

theorem nil : Adds [] [] := fun _ => rfl

theorem append {inner inner' : List Activity} {journal journal' : Journal}
    (h : Adds inner journal) (h' : Adds inner' journal') :
    Adds (inner' ++ inner) (journal ++ journal') := by
  intro outer
  rw [List.foldl_append, h outer, h', List.append_assoc]

/-- An activity that has ended is not running. -/
theorem ended {journal : Journal} (h : Adds [] journal) (activity : Activity) :
    Adds [] (.began activity :: journal ++ [.ended]) := by
  intro outer
  rw [List.foldl_append]
  show (journal.foldl Happening.track (activity :: outer)).tail = outer
  rw [h (activity :: outer)]
  rfl

/-- An activity that has not ended is running, outside of those that began after it. -/
theorem began {inner : List Activity} {journal : Journal} (h : Adds inner journal)
    (activity : Activity) : Adds (inner ++ [activity]) (.began activity :: journal) := by
  intro outer
  rw [List.foldl_cons, h, List.append_assoc]
  rfl

theorem running_eq {inner : List Activity} {journal : Journal} (h : Adds inner journal) :
    journal.running = inner := (h []).trans (List.append_nil inner)

end Journal.Adds

/-! ## Located failures -/

/-- How the language may stop, when the given activities are running: by a failure on the line of
the innermost of them, or not at all. -/
def Stop.LocatedAt (running : List Activity) : Stop → Prop
  | .failed e => e.line = running.head?.map Activity.line ∧ e.failure.kind ≠ .hostFailed
  | .crashed _ => False
  | .unfinished => True

/-- A step is refused because of the limit of steps or of a cancellation. -/
theorem Env.refusal_kind {env : Env} {k : Nat} {f : Failure} (h : env.refusal k = some f) :
    f.kind = .stepLimit ∨ f.kind = .canceled := by
  unfold refusal at h
  by_cases hlimit : 0 < env.stepLimit ∧ env.stepLimit < Int64.ofNat k
  · rw [if_pos hlimit] at h
    cases h
    exact .inl rfl
  · rw [if_neg hlimit] at h
    obtain ⟨-, hf⟩ := Option.ite_none_right_eq_some.mp h
    cases hf
    exact .inr rfl

/-- All activities have ended, or the run has stopped in the innermost that has not. -/
def Recording.Located {α : Type} (r : Recording α) : Prop :=
  ∃ inner, r.journal.Adds inner ∧ (∀ x, r.result = .ok x → inner = []) ∧
    ∀ stop, r.result = .error stop → stop.LocatedAt inner

/-- An action after which all activities have ended, unless it stopped in one of them. -/
def Recorded.Locates {α : Type} (a : Recorded α) : Prop := ∀ m, (a m).Located

namespace Recorded.Locates

variable {α β : Type}

/-- An action within one activity. -/
theorem of_stops {a : Recorded α} {b : Action α} (hab : Erases α a b)
    (hjournal : ∀ m, (a m).journal.Adds [])
    (hstops : ∀ m stop, (b m).1 = .error stop → stop.LocatedAt []) : a.Locates := by
  intro m
  refine ⟨[], hjournal m, fun _ _ => rfl, fun stop hstop => hstops m stop ?_⟩
  rw [hab m]
  exact hstop

theorem silent {a : Action α} (h : a.Stepless (Stop.LocatedAt [])) :
    (Recorded.silent a).Locates :=
  of_stops (Erases.silent a) (fun _ => .nil) fun _ _ => h.stops

theorem bind {a : Recorded α} {f : α → Recorded β} (ha : a.Locates) (hf : ∀ x, (f x).Locates) :
    (a >>= f).Locates := by
  intro m
  obtain ⟨inner, hadds, hok, herror⟩ := ha m
  match hm : a m with
  | ⟨.ok x, m', journal⟩ =>
    rw [hm] at hadds hok
    -- nothing of the first action is still running when the second begins
    obtain rfl := hok x rfl
    obtain ⟨inner', hadds', hresult⟩ := hf x m'
    rw [bind_ok hm]
    exact ⟨inner', by simpa using hadds.append hadds', hresult⟩
  | ⟨.error stop, m', journal⟩ =>
    rw [hm] at hadds herror
    rw [bind_error hm]
    exact ⟨inner, hadds, nofun, by rintro _ ⟨⟩; exact herror stop rfl⟩

theorem write (context text : Bytes) : (Recorded.write context text).Locates :=
  of_stops (fun _ => rfl) (fun _ _ => rfl) fun _ _ =>
    (Action.Stepless.write (P := Stop.LocatedAt []) ⟨rfl, nofun⟩).stops

theorem readLine (context : Bytes) : (Recorded.readLine context).Locates := by
  refine of_stops (Erases.readLine context) (fun m _ => ?_) fun _ _ =>
    (Action.Stepless.readLine (P := Stop.LocatedAt []) ⟨rfl, nofun⟩).stops
  unfold Recorded.readLine
  split <;> rfl

theorem takeStep (env : Env) : (Recorded.silent (takeStep env)).Locates := by
  refine of_stops (Erases.silent _) (fun _ => .nil) fun m stop hstop => ?_
  cases hf : env.refusal (m.taken + 1) with
  | none =>
    simp only [LineScript.takeStep, hf] at hstop
    cases hstop
  | some f =>
    simp only [LineScript.takeStep, hf] at hstop
    cases hstop
    refine ⟨rfl, fun hhost => ?_⟩
    obtain hkind | hkind := Env.refusal_kind hf
    all_goals
      rw [hkind] at hhost
      cases hhost

/-- An activity that fails joins the ones that are still running, and its line is taken only where
the failure has none from within. -/
theorem during {a : Recorded α} (activity : Activity) (ha : a.Locates) :
    (a.during activity).Locates := by
  intro m
  obtain ⟨inner, hadds, hok, herror⟩ := ha m
  match hm : a m with
  | ⟨.ok x, m', journal⟩ =>
    rw [hm] at hadds hok
    obtain rfl := hok x rfl
    rw [during_ok hm]
    exact ⟨[], hadds.ended activity, fun _ _ => rfl, nofun⟩
  | ⟨.error stop, m', journal⟩ =>
    rw [hm] at hadds herror
    rw [during_error hm]
    refine ⟨inner ++ [activity], hadds.began activity, nofun, ?_⟩
    rintro _ ⟨⟩
    have hlocated := herror stop rfl
    match stop with
    | .failed e =>
      refine ⟨?_, hlocated.2⟩
      cases inner <;> simp [RunError.atLine, hlocated.1]
    | .unfinished => trivial

theorem related {env : Env} (hfun : env.functions = .standard) (rounds : Nat) :
    (Interpretation.recorded env rounds).Related (Interpretation.actions env rounds)
      (fun _ => True) (fun _ => True) fun _ a _ => a.Locates := by
  have hinternal : ∀ f : Failure, f.kind.isInternal → f.kind ≠ .hostFailed := by
    intro f hf hhost
    simp [hhost, FailureKind.isInternal] at hf
  have hunfinished : ∀ a : Recorded Bool, (Recorded.iterate 0 a).Locates := fun a _ =>
    ⟨[], .nil, nofun, by rintro _ ⟨⟩; trivial⟩
  exact Interpretation.Congruent.recorded_related
    ⟨fun x => silent (.pure x), bind, fun {_ f} hf => silent (.fail ⟨rfl, hinternal f hf⟩)⟩ hfun
    (fun name => silent (.lookup name)) (fun name v => silent (.store name v)) write readLine
    (takeStep env) during fun a _ => hunfinished a

end Recorded.Locates

theorem record_located {env : Env} (hfun : env.functions = .standard) (rounds : Nat)
    (program : Block) (m : Machine) : (record env rounds program m).Located :=
  (Recorded.Locates.related hfun rounds).block program (fun _ _ => trivial) (fun _ _ => trivial)
    { m with taken := 0 }

/-- But for the journal, the record of a run is the run. -/
theorem execute_eq_record {env : Env} (hfun : env.functions = .standard) (rounds : Nat)
    (program : Block) (m : Machine) :
    execute env rounds program m =
      ((record env rounds program m).result, (record env rounds program m).machine) := by
  obtain ⟨inner, -, -, hstops⟩ := record_located hfun rounds program m
  rw [execute_eq, execBlock_eq_record hfun]
  match hresult : (record env rounds program m).result with
  | .ok x => rfl
  | .error stop =>
    have hlocated := hstops stop hresult
    match stop with
    | .failed e => rfl
    | .unfinished => rfl

/-! ## The shape of a failure -/

/-- A layer of an error. -/
inductive ErrorLayer where
  /-- The line on which a run failed. -/
  | line (line : Int)
  /-- The context in which a failure arose. -/
  | context (context : Bytes)
  /-- The cause itself. -/
  | cause (f : Failure)

/-- The layers of a failure, the outermost first. -/
def Failure.layers : Failure → List ErrorLayer
  | .within context f => .context context :: f.layers
  | f => [.cause f]

/-- The layers of an error, the outermost first. -/
def RunError.layers (e : RunError) : List ErrorLayer :=
  e.line.toList.map .line ++ e.failure.layers

/-- A failure is a cause in some contexts, and of the kind of the cause. -/
theorem Failure.exists_cause (f : Failure) :
    ∃ (contexts : List Bytes) (cause : Failure),
      f.layers = contexts.map .context ++ [.cause cause] ∧ cause.kind = f.kind := by
  induction f with
  | within context f ih =>
    obtain ⟨contexts, cause, hlayers, hkind⟩ := ih
    exact ⟨context :: contexts, cause, by simp [layers, hlayers], hkind⟩
  | _ => exact ⟨[], _, rfl, rfl⟩

/-- A failure of a block has a line, so that an activity is running. -/
theorem Stop.LocatedAt.exists_activity {env : Env} {rounds : Nat} {program : Block}
    {m m' : Machine} {e : RunError} {running : List Activity}
    (hlocated : (Stop.failed e).LocatedAt running)
    (hrun : execBlock env rounds program m = (.error (.failed e), m')) :
    ∃ activity, running.head? = some activity ∧ e.line = some activity.line := by
  have hplaced : (execBlock env rounds program).atLine 0 m = execBlock env rounds program m := by
    rw [Interpretation.execBlock_eq_reading, Interpretation.block_placed env rounds program 0]
  rw [Action.atLine_failed hrun, hrun] at hplaced
  have hline : (e.atLine 0).line = e.line := by
    injection hplaced with hstop
    injection hstop with hstop
    injection hstop with hstop
    rw [hstop]
  cases running with
  | nil =>
    rw [hlocated.1] at hline
    cases hline
  | cons activity outer => exact ⟨activity, rfl, hlocated.1⟩

/-- Every failure of a run has one shape: one line, contexts, and a cause that a script, a budget,
the input or the output brought about. The line is that of the innermost activity that is running
when the failure arises: of a statement, or of the condition of an `altfel daca`. -/
theorem run_fails_on_innermost_line {env : Env} (hfun : env.functions = .standard) {rounds : Nat}
    {program : Block} {m m' : Machine} {stop : Stop}
    (hrun : execute env rounds program m = (.error stop, m')) (hstop : stop ≠ .unfinished) :
    ∃ (e : RunError) (activity : Activity) (contexts : List Bytes) (cause : Failure),
      stop = .failed e ∧
      (record env rounds program m).journal.running.head? = some activity ∧
      e.layers = .line activity.line :: contexts.map .context ++ [.cause cause] ∧
      cause.kind ∈ [.undefinedVariable, .undefinedFunction, .typeMismatch, .divisionByZero,
        .arityMismatch, .invalidArgument, .stepLimit, .canceled, .writeFailed, .readFailed] := by
  obtain ⟨inner, hadds, -, hlocated⟩ := record_located hfun rounds program m
  rw [execute_eq_record hfun] at hrun
  have hresult := congrArg Prod.fst hrun
  replace hlocated := hlocated stop hresult
  match stop with
  | .failed e =>
    have hblock : execBlock env rounds program { m with taken := 0 } =
        (.error (.failed e), m') := by
      rw [execBlock_eq_record hfun, hrun]
    obtain ⟨activity, hactivity, hline⟩ := hlocated.exists_activity hblock
    obtain ⟨contexts, cause, hlayers, hkind⟩ := e.failure.exists_cause
    refine ⟨e, activity, contexts, cause, rfl, by rw [hadds.running_eq, hactivity], ?_, ?_⟩
    · simp [RunError.layers, hline, hlayers]
    · have hhost : cause.kind ≠ .hostFailed := hkind ▸ hlocated.2
      cases hcause : cause.kind <;> simp_all

/-- In a loop on line 2 a conditional on line 3 fails in the condition of its `altfel daca`, which
stands on line 4. All three are running then. -/
theorem run_fails_on_innermost_line_elseIf :
    let c : Expr := .text ⟨.string, bytes "x", 4⟩ (bytes "x")
    let inner : Stmt :=
      .branch ⟨.keyword, bytes "daca", 3⟩ (.bool default false) [] (.elseIf c [] .absent)
    let outer : Stmt := .whileLoop ⟨.keyword, bytes "cat", 2⟩ (.bool default true) [inner]
    (record {} 1 [outer] {}).journal.running =
        [.condition c, .statement inner, .statement outer] ∧
      ∃ (e : RunError) (m' : Machine) (contexts : List Bytes) (cause : Failure),
        execute {} 1 [outer] {} = (.error (.failed e), m') ∧
          e.layers = .line 4 :: contexts.map .context ++ [.cause cause] := by
  intro c inner outer
  have hrunning : (record {} 1 [outer] {}).journal.running =
      [.condition c, .statement inner, .statement outer] := rfl
  have hrun : execute {} 1 [outer] {} =
      (.error (.failed ⟨.within (bytes "condition") (.noTruthValue .text), some 4⟩),
        { taken := 2 }) := rfl
  obtain ⟨e, activity, contexts, cause, he, hactivity, hlayers, -⟩ :=
    run_fails_on_innermost_line rfl hrun nofun
  rw [hrunning] at hactivity
  cases he
  cases hactivity
  exact ⟨hrunning, _, _, contexts, cause, hrun, hlayers⟩

end LineScript
