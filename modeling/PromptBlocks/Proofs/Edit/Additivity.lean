import PromptBlocks.Proofs.Edit.Completion
import PromptBlocks.Proofs.Pattern.Assignment

/-!
Contract: a completion only adds.

Owns:
- the steps of a completion are insertions;
- the completed sequence around the first window, and without one, in terms of positions.

Does not own: how close the completed sequence is to its template.
-/

namespace PromptBlocks

/-- The step puts a token in front of another or behind it and discards nothing. -/
def Step.IsInsertion (step : Step) : Prop :=
  step.operation = .insertBefore ∨ step.operation = .insertAfter

namespace Plan

theorem isInsertion_appendStep (block : Block) (count : Nat) (text : Option String) :
    (appendStep block count text).IsInsertion := by
  cases count with
  | zero => exact .inl rfl
  | succ last => exact .inr rfl

theorem isInsertion_windowStep (start : Nat) (slot : Slot) (index : Nat) :
    (windowStep start slot index).IsInsertion := by
  rw [windowStep]
  split
  · exact .inl rfl
  · exact .inr rfl

theorem isInsertion_of_mem_forCompletion {sequence : Sequence} {template : Template} {step : Step}
    (member : step ∈ (forCompletion sequence template).steps) : step.IsInsertion := by
  rw [forCompletion] at member
  split at member
  · obtain ⟨⟨slot, index⟩, -, rfl⟩ := List.mem_map.mp member
    exact isInsertion_windowStep _ slot index
  · obtain ⟨⟨slot, offset⟩, -, rfl⟩ := List.mem_map.mp member
    exact isInsertion_appendStep slot.block _ slot.preset

end Plan

namespace Template

variable {template : Template} {sequence : Sequence}

/-- The slots around a window, told by its start. -/
theorem tokens_completed_around {start : Nat} (window : template.window? sequence = some start) :
    (sequence.completed template).tokens =
      (template.slots.take start).map (Slot.tokenIn sequence.firstChain) ++ sequence.tokens ++
        (template.slots.drop (start + sequence.length)).map (Slot.tokenIn sequence.lastChain) := by
  obtain ⟨front, covered, back, split, rfl, spelled, -⟩ := exists_spelled_of_window? window
  have covers : covered.length = sequence.length := spelled.length_eq
  have inFront : template.slots.take front.length = front := by
    rw [split, List.take_left]
  have behind : template.slots.drop (front.length + sequence.length) = back := by
    rw [split, ← List.append_assoc, ← covers, ← List.length_append, List.drop_left]
  rw [inFront, behind]
  exact tokens_completed_of_window? window split covers

/-- Without tokens, all slots are behind the sequence. -/
theorem tokens_completed_of_isEmpty (empty : sequence.isEmpty = true) :
    (sequence.completed template).tokens =
      sequence.tokens ++
        (template.slots.drop sequence.length).map (Slot.tokenIn sequence.lastChain) := by
  have noWindow : template.window? sequence = none := by rw [window?, if_pos empty]
  have noTokens : sequence.tokens = [] := List.isEmpty_iff.mp empty
  rw [tokens_completed_of_noWindow noWindow, Sequence.length, noTokens, Slot.unfilled_nil]
  rfl

/-- Completing only inserts, and the tokens of the sequence stay as they are, together and in order.
With a window, at the first one: the slots in front of it come before the sequence, in the chain of its
first token, and those behind it come after, in the chain of its last.  Without one: nothing comes
before, and after come the slots that take no token when each in turn takes the first free one, which
they can do in one way only. -/
theorem completion_is_additive (template : Template) (sequence : Sequence) :
    (∀ step ∈ (Plan.forCompletion sequence template).steps, step.IsInsertion) ∧
      ((∃ start, IsLeast {start | template.HasWindowAt sequence start} start ∧
          (sequence.completed template).tokens =
            (template.slots.take start).map (Slot.tokenIn sequence.firstChain) ++
              sequence.tokens ++
                (template.slots.drop (start + sequence.length)).map
                  (Slot.tokenIn sequence.lastChain)) ∨
        ((∀ start, ¬template.HasWindowAt sequence start) ∧
          ∃ taken, Slot.TakesInTurn template.slots sequence.tokens taken ∧
            (∀ other, Slot.TakesInTurn template.slots sequence.tokens other → other = taken) ∧
            (sequence.completed template).tokens =
              sequence.tokens ++
                (Slot.leftOpen template.slots taken).map (Slot.tokenIn sequence.lastChain))) := by
  refine ⟨fun step => Plan.isInsertion_of_mem_forCompletion, ?_⟩
  cases window : template.window? sequence with
  | some start =>
    exact .inl ⟨start, isLeast_of_window? window, tokens_completed_around window⟩
  | none =>
    cases empty : sequence.isEmpty with
    | true =>
      refine .inl ⟨0, isLeast_of_isEmpty empty, ?_⟩
      rw [Nat.zero_add]
      exact tokens_completed_of_isEmpty empty
    | false =>
      have inTurn := Slot.takesInTurn_takings template.slots sequence.tokens
      refine .inr ⟨not_hasWindowAt_of_noWindow window empty, _, inTurn,
        fun other taking => taking.unique inTurn, ?_⟩
      rw [← Slot.unfilled_eq_leftOpen]
      exact tokens_completed_of_noWindow window

/-- A verb in front of its noun fills no window, so what is left open, the marker, is appended. -/
example :
    ∃ template ∈ (Catalog.builtin .en).templates,
      Sequence.completed ⟨[⟨.verb .summarize, none, 1⟩, ⟨.noun, some "report", 2⟩]⟩ template =
        ⟨[⟨.verb .summarize, none, 1⟩, ⟨.noun, some "report", 2⟩, ⟨.particle .wo, none, 2⟩]⟩ :=
  ⟨(Catalog.Builtin.templates .en)[1], List.getElem_mem _, by decide⟩

end Template

end PromptBlocks
