/-!
Contract: what is known of an outcome that came about in steps.

Owns:
- a reading in steps succeeds exactly through the steps before the last;
- an action in steps goes on from the state that a step left, and stops in it at a fault;
- faults told in other words.

Does not own: what is read, and what is done.
-/

namespace PromptBlocks

/-! ### Readings -/

section Readings

variable {Fault Value Made : Type} {reading : Except Fault Value}

theorem exists_of_bind_eq_ok {next : Value → Except Fault Made} {made : Made}
    (read : reading.bind next = .ok made) :
    ∃ value, reading = .ok value ∧ next value = .ok made := by
  cases reading with
  | error fault => cases read
  | ok value => exact ⟨value, rfl, read⟩

/-- What is made of a value that was read came from a value. -/
theorem exists_of_map_eq_ok {make : Value → Made} {made : Made}
    (read : reading.map make = .ok made) : ∃ value, reading = .ok value ∧ make value = made := by
  cases reading with
  | error fault => cases read
  | ok value => exact ⟨value, rfl, Except.ok.inj read⟩

theorem eq_ok_of_mapError_eq_ok {Told : Type} {tell : Fault → Told} {value : Value}
    (read : reading.mapError tell = .ok value) : reading = .ok value := by
  cases reading with
  | error fault => cases read
  | ok held => exact congrArg _ (Except.ok.inj read)

end Readings

/-! ### Actions -/

section Actions

variable {State Fault Told Value Next : Type} (action : ExceptT Fault (StateM State) Value)

theorem run_bind (next : Value → ExceptT Fault (StateM State) Next) (state : State) :
    (action >>= next).run.run state =
      match action.run.run state with
      | (.ok value, changed) => (next value).run.run changed
      | (.error fault, changed) => (.error fault, changed) := by
  simp only [ExceptT.run_bind, StateT.run_bind]
  rcases action.run.run state with ⟨_ | _, changed⟩ <;> rfl

theorem run_adapt (tell : Fault → Told) (state : State) :
    (action.adapt tell).run.run state =
      ((action.run.run state).1.mapError tell, (action.run.run state).2) :=
  rfl

/-- Faults are told alike step by step and at the end. -/
theorem adapt_bind (next : Value → ExceptT Fault (StateM State) Next) (tell : Fault → Told) :
    (action >>= next).adapt tell = action.adapt tell >>= fun value => (next value).adapt tell := by
  funext state
  show ((action >>= next).adapt tell).run.run state = (action.adapt tell >>= _).run.run state
  rw [run_adapt, run_bind, run_bind, run_adapt]
  rcases action.run.run state with ⟨_ | _, changed⟩ <;> rfl

/-- An action whose faults are told in other words succeeds exactly when it does. -/
theorem run_eq_ok_of_adapt {tell : Fault → Told} {state changed : State} {value : Value}
    (succeeded : (action.adapt tell).run.run state = (.ok value, changed)) :
    action.run.run state = (.ok value, changed) := by
  rw [run_adapt] at succeeded
  obtain ⟨outcome, left⟩ := Prod.mk.inj succeeded
  exact Prod.ext (eq_ok_of_mapError_eq_ok outcome) left

end Actions

end PromptBlocks
