import LineScript.Proofs.BudgetedRun
import LineScript.Proofs.Journal

/-!
# Output that takes only so many bytes

An output may refuse to take more than a number of bytes. A run that writes no more than that does
not notice. Any other run is the run on an unlimited output up to the first write that does not fit:
it stores the part of that text that does, fails, and does nothing else (`Curbed`). No write failure
is ever passed over, wherever in a program the text is written.
-/

namespace LineScript

/-- The text of a write. -/
def Happening.text : Happening → Bytes
  | .wrote _ text => text
  | .began _ | .ended | .received _ => []

/-- All that was to be written, in order. -/
def Journal.written (journal : Journal) : Bytes := journal.flatMap Happening.text

@[simp] theorem Journal.written_append (journal journal' : Journal) :
    Journal.written (journal ++ journal') = journal.written ++ journal'.written :=
  List.flatMap_append

@[simp] theorem Journal.written_wrote (before : Machine) (text : Bytes) :
    Journal.written [.wrote before text] = text :=
  List.append_nil text

/-- The output with a text stored and counted. -/
def Output.extended (o : Output) (text : Bytes) : Output :=
  { o with data := o.data ++ text, count := o.count + text.length }

namespace Output

@[simp] theorem extended_nil (o : Output) : o.extended [] = o := by simp [extended]

@[simp] theorem extended_extended (o : Output) (text text' : Bytes) :
    (o.extended text).extended text' = o.extended (text ++ text') := by
  have hdata : o.data ++ text ++ text' = o.data ++ (text ++ text') := Array.ext' (by simp)
  simp [extended, hdata, Nat.add_assoc]

@[simp] theorem room_extended (o : Output) (text : Bytes) : (o.extended text).room = o.room := rfl

@[simp] theorem size_extended (o : Output) (text : Bytes) :
    (o.extended text).data.size = o.data.size + text.length := by
  simp [extended, ← Array.length_toList]

end Output

/-- The machine with an output that takes only `k` more bytes. -/
def Machine.withRoom (m : Machine) (k : Nat) : Machine :=
  { m with output := { m.output with room := some k } }

namespace Action

theorem write_unlimited {m : Machine} (h : m.output.room = none) (context text : Bytes) :
    write context text m = (.ok (), { m with output := m.output.extended text }) := by
  simp [write, Output.fits, Output.fitting, Output.write, Output.extended, h]

theorem write_withRoom_of_le {text : Bytes} {k : Nat} (h : text.length ≤ k) (m : Machine)
    (context : Bytes) :
    write context text (m.withRoom k) =
      (.ok (), { m with output := m.output.extended text }.withRoom (k - text.length)) := by
  simp [write, Machine.withRoom, Output.fits, Output.fitting, Output.write, Output.extended, h]

theorem write_withRoom_of_lt {text : Bytes} {k : Nat} (h : k < text.length) (m : Machine)
    (context : Bytes) :
    write context text (m.withRoom k) = (.error (.failed ⟨.within context .writeFailed, none⟩),
      { m with output := { m.output.extended (text.take k) with room := some 0 } }) := by
  have hfits : min k text.length = k := by omega
  simp [write, Machine.withRoom, Output.fits, Output.fitting, Output.write, Output.extended, hfits,
    Nat.ne_of_lt h]

end Action

/-! ## Runs that are cut by their output -/

/-- How a run whose output takes `k` more bytes compares with the same run on an unlimited
output. -/
inductive Curbed (m : Machine) (k : Nat) {α : Type} (r : Recording α)
    (r' : Except Stop α × Machine) : Prop where
  /-- All fits, and the run is the same. -/
  | fits (hfits : r.journal.written.length ≤ k)
    (h : r' = (r.result, r.machine.withRoom (k - r.journal.written.length)))
  /-- The run stops at the first write that does not fit. But for its output, the machine is left as
  it was before that write. -/
  | cut (e : RunError) (before : Machine) (text : Bytes) (hcut : k < r.journal.written.length)
    (hkind : e.failure.kind = .writeFailed) (hwrote : .wrote before text ∈ r.journal)
    (hle : before.output.data.size ≤ m.output.data.size + k)
    (hlt : m.output.data.size + k < before.output.data.size + text.length)
    (h : r' = (.error (.failed e), { before with
      output := { m.output.extended (r.journal.written.take k) with room := some 0 } }))

/-- Two actions, of which the second is the first on a limited output. -/
structure Recorded.Curbs (α : Type) (a : Recorded α) (b : Action α) : Prop where
  /-- An unlimited output takes everything. -/
  output {m : Machine} (hm : m.output.room = none) :
    (a m).machine.output = m.output.extended (a m).journal.written
  curbed {m : Machine} (hm : m.output.room = none) (k : Nat) : Curbed m k (a m) (b (m.withRoom k))

namespace Recorded.Curbs

variable {α β : Type}

/-- An action that does not deal with the output. -/
theorem of_erases {a : Recorded α} {b : Action α} (hab : Erases α a b)
    (hwritten : ∀ m, (a m).journal.written = []) (houtput : ∀ m, (b m).2.output = m.output)
    (h : ∀ m k, b (m.withRoom k) = ((b m).1, (b m).2.withRoom k)) : Curbs α a b := by
  constructor
  · intro m _
    rw [hwritten, Output.extended_nil, ← houtput m, hab m]
  · intro m _ k
    refine .fits (by simp [hwritten]) ?_
    rw [h m k, hab m, hwritten]
    rfl

theorem silent {a : Action α} (houtput : ∀ m, (a m).2.output = m.output)
    (h : ∀ m k, a (m.withRoom k) = ((a m).1, (a m).2.withRoom k)) : Curbs α (.silent a) a :=
  of_erases (.silent a) (fun _ => rfl) houtput h

/-- The room for the second action is what the first leaves of it. If the first is cut then so is
the whole, even where the unlimited run would go on. -/
theorem bind {a : Recorded α} {b : Action α} {f : α → Recorded β} {g : α → Action β}
    (hab : Curbs α a b) (hfg : ∀ x, Curbs β (f x) (g x)) : Curbs β (a >>= f) (b >>= g) := by
  constructor
  · intro m hm
    have houtput := hab.output hm
    match ha : a m with
    | ⟨.ok x, m₁, journal⟩ =>
      rw [ha] at houtput
      have hm₁ : m₁.output.room = none := by rw [houtput, Output.room_extended, hm]
      rw [bind_ok ha, Journal.written_append, ← Output.extended_extended, ← houtput]
      exact (hfg x).output hm₁
    | ⟨.error stop, m₁, journal⟩ =>
      rw [ha] at houtput
      rw [bind_error ha]
      exact houtput
  · intro m hm k
    have houtput := hab.output hm
    cases hab.curbed hm k with
    | fits hfits h =>
      match ha : a m with
      | ⟨.ok x, m₁, journal⟩ =>
        rw [ha] at hfits h houtput
        dsimp only at hfits houtput
        have hm₁ : m₁.output.room = none := by rw [houtput, Output.room_extended, hm]
        rw [bind_ok ha, Action.bind_ok h]
        -- all of the first action fits, and the second has the room that is left
        cases (hfg x).curbed hm₁ (k - journal.written.length) with
        | fits hfits' h' =>
          refine .fits ?_ ?_
          · simp only [Journal.written_append, List.length_append]
            omega
          · rw [h', Nat.sub_sub, Journal.written_append, List.length_append]
        | cut e before text hcut hkind hwrote hle hlt h' =>
          simp only [houtput, Output.size_extended] at hle hlt
          refine .cut e before text ?_ hkind (List.mem_append_right _ hwrote) ?_ ?_ ?_
          · simp only [Journal.written_append, List.length_append]
            omega
          · omega
          · omega
          · rw [h', houtput, Output.extended_extended, Journal.written_append, List.take_append,
              List.take_of_length_le hfits]
      | ⟨.error stop, m₁, journal⟩ =>
        rw [ha] at hfits h
        rw [bind_error ha, Action.bind_error h]
        exact .fits hfits rfl
    | cut e before text hcut hkind hwrote hle hlt h =>
      -- the first action is cut; only the unlimited run may go on to the second
      rw [Action.bind_error h]
      match ha : a m with
      | ⟨.ok x, m₁, journal⟩ =>
        rw [ha] at hcut hwrote
        dsimp only at hcut
        rw [bind_ok ha]
        refine .cut e before text ?_ hkind (List.mem_append_left _ hwrote) hle hlt ?_
        · simp only [Journal.written_append, List.length_append]
          omega
        · rw [Journal.written_append, List.take_append_of_le_length (Nat.le_of_lt hcut)]
      | ⟨.error stop, m₁, journal⟩ =>
        rw [ha] at hcut hwrote
        rw [bind_error ha]
        exact .cut e before text hcut hkind hwrote hle hlt rfl

theorem write (context text : Bytes) :
    Curbs _ (Recorded.write context text) (Action.write context text) := by
  have hunlimited : ∀ {m : Machine}, m.output.room = none → Recorded.write context text m =
      ⟨.ok (), { m with output := m.output.extended text }, [.wrote m text]⟩ := by
    intro m hm
    simp only [Recorded.write, Action.write_unlimited hm]
  constructor
  · intro m hm
    rw [hunlimited hm, Journal.written_wrote]
  · intro m hm k
    rw [hunlimited hm]
    by_cases hk : text.length ≤ k
    · refine .fits (by simpa using hk) ?_
      rw [Action.write_withRoom_of_le hk, Journal.written_wrote]
    · rw [Nat.not_le] at hk
      refine .cut ⟨.within context .writeFailed, none⟩ m text (by simpa using hk) rfl
        (List.mem_singleton_self _) (Nat.le_add_right _ _) (by omega) ?_
      rw [Action.write_withRoom_of_lt hk, Journal.written_wrote]

theorem readLine (context : Bytes) :
    Curbs _ (Recorded.readLine context) (Action.readLine context) := by
  refine of_erases (.readLine context) ?_ ?_ ?_
  · intro m
    unfold Recorded.readLine
    split <;> rfl
  · intro m
    rw [Action.readLine_machine]
  · intro m k
    simp only [Action.readLine, Machine.withRoom]
    split <;> rfl

theorem during {a : Recorded α} {b : Action α} (activity : Activity) (hab : Curbs α a b) :
    Curbs α (a.during activity) (b.atLine activity.line) := by
  have hwritten : ∀ m, (a.during activity m).journal.written = (a m).journal.written :=
    fun m => during_flatMap a activity m rfl rfl
  constructor
  · intro m hm
    rw [hwritten, during_machine, hab.output hm]
  · intro m hm k
    rw [Action.atLine_eq]
    cases hab.curbed hm k with
    | fits hfits h =>
      refine .fits (by rwa [hwritten]) ?_
      rw [h, hwritten, during_result, during_machine]
    | cut e before text hcut hkind hwrote hle hlt h =>
      refine .cut (e.atLine activity.line) before text (by rwa [hwritten]) hkind
        (mem_during hwrote activity) hle hlt ?_
      rw [h, hwritten]
      rfl

theorem takeStep (env : Env) : Curbs _ (.silent (takeStep env)) (takeStep env) := by
  apply silent
  · intro m
    simp only [LineScript.takeStep]
    split <;> rfl
  · intro m k
    simp only [LineScript.takeStep, Machine.withRoom]
    split <;> rfl

theorem related {env : Env} (hfun : env.functions = .standard) (rounds : Nat) :
    (Interpretation.recorded env rounds).Related (Interpretation.actions env rounds)
      (fun _ => True) (fun _ => True) Curbs := by
  have hpure : ∀ {α : Type} (x : α), Curbs α (pure x) (pure x) := fun x =>
    silent (a := pure x) (fun _ => rfl) fun _ _ => rfl
  exact Interpretation.Congruent.recorded_related
    ⟨hpure, bind, fun _ => silent (fun _ => rfl) fun _ _ => rfl⟩ hfun
    (fun _ => silent (fun _ => rfl) fun _ _ => rfl)
    (fun _ _ => silent (fun _ => rfl) fun _ _ => rfl) write readLine (takeStep env) during
    fun a b => of_erases (.unfinished a b) (fun _ => rfl) (fun _ => rfl) fun _ _ => rfl

end Recorded.Curbs

end LineScript
