import Mathlib.Data.List.DropRight
import LineScript.Proofs.Journal

/-!
# Lines of input in order

An input can be cut into its lines before anything is read (`Input.lines`). The input operations of
a run receive these lines one after the other, wherever in a program they stand, and empty texts
when no line is left. What is received and what remains is thus a matter of how many lines have been
received (`Delivered`).
-/

namespace LineScript

/-! ## The lines of an input -/

namespace Input

/-- The bytes cut after each newline. What stands after the last newline is a piece if it is not
empty. -/
def pieces : Bytes → List Bytes
  | [] => []
  | b :: rest =>
    if b = 0x0a then [b] :: pieces rest
    else
      match pieces rest with
      | [] => [[b]]
      | piece :: later => (b :: piece) :: later

/-- The pieces without the carriage returns and newlines at their ends. -/
def lines (s : Bytes) : List Bytes :=
  (pieces s).map (List.rdropWhile fun b => b == 0x0a || b == 0x0d)

/-- The text that is received after `n` others: a line, or nothing when there are no more. -/
def delivery (i : Input) (n : Nat) : Bytes := (lines i.rest).getD n []

/-- The input without its next `n` lines. -/
def after (i : Input) (n : Nat) : Input := { i with rest := ((pieces i.rest).drop n).flatten }

theorem flatten_pieces (s : Bytes) : (pieces s).flatten = s := by
  fun_induction pieces s with
  | case1 => rfl
  | case2 rest ih => simp [ih]
  | case3 b rest hb hpieces ih =>
    rw [hpieces] at ih
    simp [← ih]
  | case4 b rest hb piece later hpieces ih =>
    rw [hpieces] at ih
    simp [← ih]

/-- Cutting what begins with a piece gives that piece first. -/
theorem pieces_tail (s : Bytes) : pieces (pieces s).tail.flatten = (pieces s).tail := by
  fun_induction pieces s with
  | case1 => rfl
  | case2 rest ih => rw [List.tail_cons, flatten_pieces]
  | case3 => rfl
  | case4 b rest hb piece later hpieces ih =>
    rw [hpieces] at ih
    exact ih

theorem pieces_drop (s : Bytes) (n : Nat) :
    pieces ((pieces s).drop n).flatten = (pieces s).drop n := by
  induction n with
  | zero => rw [List.drop_zero, flatten_pieces]
  | succ n ih =>
    have htail := pieces_tail ((pieces s).drop n).flatten
    rw [ih, List.tail_drop] at htail
    exact htail

@[simp] theorem after_zero (i : Input) : i.after 0 = i := by
  simp [after, flatten_pieces]

@[simp] theorem after_after (i : Input) (n k : Nat) : (i.after n).after k = i.after (n + k) := by
  simp [after, pieces_drop]

@[simp] theorem broken_after (i : Input) (n : Nat) : (i.after n).broken = i.broken := rfl

theorem delivery_after (i : Input) (n k : Nat) :
    (i.after n).delivery k = i.delivery (n + k) := by
  simp [delivery, after, lines, pieces_drop]

theorem takeLine_eq (s : Bytes) :
    (takeLine s).1 = (pieces s).headD [] ∧ (takeLine s).2.1 = (pieces s).tail.flatten := by
  fun_induction pieces s with
  | case1 => exact ⟨rfl, rfl⟩
  | case2 rest ih => simp [takeLine, flatten_pieces]
  | case3 b rest hb hpieces ih =>
    rw [hpieces] at ih
    simp [takeLine, hb, ih]
  | case4 b rest hb piece later hpieces ih =>
    rw [hpieces] at ih
    simp [takeLine, hb, ih]

theorem readLine_eq (i : Input) :
    i.readLine.1 = i.delivery 0 ∧ i.readLine.2.2 = i.after 1 ∧
      (i.broken = false → i.readLine.2.1 ≠ .failed) := by
  obtain ⟨hline, hafter⟩ := takeLine_eq i.rest
  refine ⟨?_, ?_, fun h => ?_⟩
  · simp only [readLine, hline, delivery, lines]
    cases pieces i.rest <;> rfl
  · simp only [readLine, hafter, after, List.drop_one]
  · simp only [readLine, h]
    split
    · nofun
    · split
      · contradiction
      · split <;> nofun

end Input

theorem Action.readLine_unbroken {m : Machine} (h : m.input.broken = false) (context : Bytes) :
    readLine context m = (.ok (m.input.delivery 0), { m with input := m.input.after 1 }) := by
  obtain ⟨hline, hafter, hstatus⟩ := m.input.readLine_eq
  unfold readLine
  match hread : m.input.readLine with
  | (line, status, input) =>
    rw [hread] at hline hafter hstatus
    cases hline
    cases hafter
    cases status with
    | failed => exact absurd rfl (hstatus h)
    | line | endOfInput => rfl

/-! ## Lines that a run receives -/

/-- The line that a happening delivers, if it does. -/
def Happening.lines : Happening → List Bytes
  | .received line => [line]
  | .began _ | .ended | .wrote _ _ => []

/-- The lines that were delivered, in order. -/
def Journal.texts (journal : Journal) : List Bytes := journal.flatMap Happening.lines

@[simp] theorem Journal.texts_append (journal journal' : Journal) :
    Journal.texts (journal ++ journal') = journal.texts ++ journal'.texts :=
  List.flatMap_append

/-- What has been received are the next lines of the input, and only these are gone. -/
structure Delivered (m : Machine) {α : Type} (r : Recording α) : Prop where
  texts : r.journal.texts = (List.range r.journal.texts.length).map m.input.delivery
  input : r.machine.input = m.input.after r.journal.texts.length

/-- An action that takes its lines from the front of the input. -/
def Recorded.Delivers {α : Type} (a : Recorded α) : Prop :=
  ∀ m : Machine, m.input.broken = false → Delivered m (a m)

namespace Recorded.Delivers

variable {α β : Type}

/-- An action that does not deal with the input. -/
theorem of_erases {a : Recorded α} {b : Action α} (hab : Erases α a b)
    (htexts : ∀ m, (a m).journal.texts = []) (hinput : ∀ m, (b m).2.input = m.input) :
    a.Delivers := by
  intro m _
  refine ⟨by simp [htexts], ?_⟩
  rw [htexts, List.length_nil, Input.after_zero, ← hinput m, hab m]

theorem silent {a : Action α} (hinput : ∀ m, (a m).2.input = m.input) :
    (Recorded.silent a).Delivers :=
  of_erases (.silent a) (fun _ => rfl) hinput

/-- What the second action receives are the lines that follow those of the first. -/
theorem bind {a : Recorded α} {f : α → Recorded β} (ha : a.Delivers) (hf : ∀ x, (f x).Delivers) :
    (a >>= f).Delivers := by
  intro m hm
  obtain ⟨htexts, hinput⟩ := ha m hm
  match hr : a m with
  | ⟨.ok x, m', journal⟩ =>
    rw [hr] at htexts hinput
    dsimp only at htexts hinput
    obtain ⟨htexts', hinput'⟩ := hf x m' (by rw [hinput, Input.broken_after, hm])
    -- the second action counts lines from the first that is left to it
    have hdelivery : m'.input.delivery = m.input.delivery ∘ (journal.texts.length + ·) := by
      funext k
      rw [hinput, Input.delivery_after, Function.comp_apply]
    rw [hdelivery] at htexts'
    rw [bind_ok hr]
    refine ⟨?_, ?_⟩
    · rw [Journal.texts_append, List.length_append, List.range_add, List.map_append, ← htexts,
        List.map_map, ← htexts']
    · rw [hinput', hinput, Input.after_after, Journal.texts_append, List.length_append]
  | ⟨.error stop, m', journal⟩ =>
    rw [hr] at htexts hinput
    rw [bind_error hr]
    exact ⟨htexts, hinput⟩

theorem write (context text : Bytes) : (Recorded.write context text).Delivers := by
  refine of_erases (.write context text) (fun _ => rfl) fun m => ?_
  rw [Action.write_machine]

theorem readLine (context : Bytes) : (Recorded.readLine context).Delivers := by
  intro m hm
  have hr : Recorded.readLine context m = ⟨.ok (m.input.delivery 0),
      { m with input := m.input.after 1 }, [.received (m.input.delivery 0)]⟩ := by
    simp only [Recorded.readLine, Action.readLine_unbroken hm]
  rw [hr]
  exact ⟨rfl, rfl⟩

theorem takeStep (env : Env) : (Recorded.silent (takeStep env)).Delivers := by
  refine silent fun m => ?_
  simp only [LineScript.takeStep]
  split <;> rfl

theorem during {a : Recorded α} (activity : Activity) (ha : a.Delivers) :
    (a.during activity).Delivers := by
  intro m hm
  obtain ⟨htexts, hinput⟩ := ha m hm
  have hjournal : (a.during activity m).journal.texts = (a m).journal.texts :=
    during_flatMap a activity m rfl rfl
  refine ⟨?_, ?_⟩
  · rw [hjournal]
    exact htexts
  · rw [hjournal, during_machine]
    exact hinput

theorem related {env : Env} (hfun : env.functions = .standard) (rounds : Nat) :
    (Interpretation.recorded env rounds).Related (Interpretation.actions env rounds)
      (fun _ => True) (fun _ => True) fun _ a _ => a.Delivers :=
  Interpretation.Congruent.recorded_related
    ⟨fun x => silent (a := pure x) fun _ => rfl, bind, fun _ => silent fun _ => rfl⟩ hfun
    (fun _ => silent fun _ => rfl) (fun _ _ => silent fun _ => rfl) write readLine (takeStep env)
    during fun a b => of_erases (.unfinished a b) (fun _ => rfl) fun _ => rfl

end Recorded.Delivers

/-! ## Input operations -/

/-- The machine after a prompt has been written and a line read. -/
def Machine.prompted (m : Machine) (prompt : Bytes) : Machine :=
  { m with output := m.output.write prompt, input := m.input.after 1 }

/-- An operation that writes a prompt, takes the next line and uses it. No line is gone when the
prompt cannot be written. -/
structure Action.Asks {α : Type} (prompt : Bytes) (use : Bytes → Action α) (a : Action α) :
    Prop where
  takes {m : Machine} (hm : m.input.broken = false) (hfits : m.output.fits prompt = true) :
    a m = use (m.input.delivery 0) (m.prompted prompt)
  refused {m : Machine} (hfits : m.output.fits prompt = false) :
    ∃ e : RunError, e.failure.kind = .writeFailed ∧
      a m = (.error (.failed e), { m with output := m.output.write prompt })

namespace Action

variable {α : Type}

theorem asks_write_readLine (context context' prompt : Bytes) (use : Bytes → Action α) :
    Asks prompt use (write context prompt >>= fun _ => readLine context' >>= use) := by
  constructor
  · intro m hm hfits
    have hwrite : write context prompt m =
        (.ok (), { m with output := m.output.write prompt }) := by
      simp [write, hfits]
    have hread : readLine context' { m with output := m.output.write prompt } =
        (.ok (m.input.delivery 0), m.prompted prompt) :=
      readLine_unbroken (m := { m with output := m.output.write prompt }) hm context'
    rw [bind_ok hwrite, bind_ok hread]
  · intro m hfits
    refine ⟨⟨.within context .writeFailed, none⟩, rfl, bind_error ?_⟩
    simp [write, hfits]

/-- To write nothing is to do nothing. -/
theorem write_nil_bind (context : Bytes) (next : Action α) :
    (write context [] >>= fun _ => next) = next := by
  funext m
  have hfitting : m.output.fitting [] = 0 := by
    unfold Output.fitting
    split <;> simp
  have hwrite : write context [] m = (.ok (), m) := by
    simp [write, Output.fits, Output.write, hfitting]
  exact bind_ok hwrite

end Action

theorem inputLine_asks (env : Env) (name : Bytes) :
    (inputLine env name).Asks env.prompt fun line => Action.store name (.ofText line) := by
  have heq : inputLine env name = (Action.write (bytes "citeste prompt") env.prompt >>= fun _ =>
      Action.readLine (bytes "citeste") >>= fun line => Action.store name (.ofText line)) := by
    unfold inputLine
    by_cases h : env.prompt = []
    · rw [h, Action.write_nil_bind]
      rfl
    · simp [h]
  rw [heq]
  exact Action.asks_write_readLine _ _ _ _

theorem Func.input_asks_nothing : (Func.input []).Asks [] fun line => pure (.ofText line) := by
  have hasks := Action.asks_write_readLine (bytes "input prompt") (bytes "input") []
    fun line => (pure (.ofText line) : Action Value)
  rw [Action.write_nil_bind] at hasks
  exact hasks

theorem Func.input_asks (prompt : Value) :
    (Func.input [prompt]).Asks prompt.display fun line => pure (.ofText line) :=
  Action.asks_write_readLine _ _ _ _

/-! ## Order of delivery -/

theorem record_delivered {env : Env} (hfun : env.functions = .standard) (rounds : Nat)
    (program : Block) {m : Machine} (hm : m.input.broken = false) :
    Delivered m (record env rounds program m) := by
  obtain ⟨htexts, hinput⟩ := (Recorded.Delivers.related hfun rounds).block program
    (fun _ _ => trivial) (fun _ _ => trivial) { m with taken := 0 } hm
  exact ⟨htexts, hinput⟩

theorem eval_input {env : Env} (hfun : env.functions = .standard) (rounds : Nat) (e : Expr)
    {m : Machine} (hm : m.input.broken = false) :
    (eval env e m).2.input =
      m.input.after ((Interpretation.recorded env rounds).eval e m).journal.texts.length := by
  have herases := (Recorded.Erases.related hfun rounds).eval e (fun _ _ => trivial) m
  rw [Interpretation.eval_eq_reading env rounds, herases]
  exact ((Recorded.Delivers.related hfun rounds).eval e (fun _ _ => trivial) m hm).input

/-- Input lines are delivered in order, each exactly once. What the input operations of a run
receive are the lines of its input, from the first on, and empty texts when these are used up. What
is left is the input without as many lines. All input operations take the next line, unless their
prompt cannot be written: then no line is gone. An evaluation that receives no line leaves the input
as it is. -/
theorem input_lines_in_order {env : Env} (hfun : env.functions = .standard) (rounds : Nat)
    (program : Block) {m : Machine} (hm : m.input.broken = false) :
    let texts := (record env rounds program m).journal.texts
    texts = (List.range texts.length).map m.input.delivery ∧
      (execute env rounds program m).2.input = m.input.after texts.length ∧
      (∀ name, (inputLine env name).Asks env.prompt fun line => Action.store name (.ofText line)) ∧
      (Func.input []).Asks [] (fun line => pure (.ofText line)) ∧
      (∀ prompt, (Func.input [prompt]).Asks prompt.display fun line => pure (.ofText line)) ∧
      ∀ (e : Expr) (m' : Machine), m'.input.broken = false →
        ((Interpretation.recorded env rounds).eval e m').journal.texts = [] →
        (eval env e m').2.input = m'.input := by
  intro texts
  obtain ⟨htexts, hinput⟩ := record_delivered hfun rounds program hm
  refine ⟨htexts, ?_, inputLine_asks env, Func.input_asks_nothing, Func.input_asks,
    fun e m' hm' hnone => ?_⟩
  · rw [execute_eq, execBlock_eq_record hfun]
    exact hinput
  · rw [eval_input hfun rounds e hm', hnone, List.length_nil, Input.after_zero]

/-- Of three lines the second is empty and the third has no end. They are read by a statement, by a
call and by a statement; another call finds no more. -/
theorem input_lines_in_order_past_end :
    let call : Expr := .call default (bytes "input") []
    let program : Block := [.input default (bytes "x"), .assign default (bytes "y") call,
      .input default (bytes "z"), .assign default (bytes "t") call]
    let m : Machine := { input := { rest := bytes "a\r\n\r\nb" } }
    m.input.broken = false ∧
      (record {} 0 program m).journal.texts = [bytes "a", [], bytes "b", []] ∧
      (execute {} 0 program m).2.input = {} := by
  intro call program m
  obtain ⟨htexts, hinput, -⟩ :=
    input_lines_in_order (rfl : Env.functions {} = .standard) 0 program (m := m) rfl
  have hlength : (record {} 0 program m).journal.texts.length = 4 := by decide +kernel
  rw [hlength] at htexts hinput
  exact ⟨rfl, htexts, hinput⟩

end LineScript
