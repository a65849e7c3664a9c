import PromptBlocks.Edit.Plan
import PromptBlocks.Grammar.Finding
import PromptBlocks.Pattern.Match

/-!
Contract: the plans for fixes and patterns.

Owns:
- requests for a plan;
- the plan of a fix, also of one that names a stale position or an unknown block;
- the plans that apply a template and that complete a sequence to it.

Does not own: where the sequence and the catalog come from.
-/

namespace PromptBlocks

inductive PlanRequest
  | fix (fix : Fix)
  /-- Replace the sequence by the template with this id. -/
  | applyPattern (id : String)
  /-- Add the slots of the template with this id that the sequence lacks. -/
  | completePattern (id : String)
  deriving DecidableEq, Repr

namespace Plan

/-- The step that puts a block behind the last of `count` tokens. -/
def appendStep (block : Block) (count : Nat) (text : Option String) : Step :=
  match count with
  | 0 => { operation := .insertBefore, block, anchor := 0, text }
  | last + 1 => { operation := .insertAfter, block, anchor := last, text }

def operationOf : FixAction → StepOperation
  | .insertBefore => .insertBefore
  | .insertAfter => .insertAfter

/-- The plan of a fix.  A target past the end is stale, and the block is appended; a block outside
the vocabulary is not planned. -/
def forFix (sequence : Sequence) (fix : Fix) : Plan :=
  match fix.block? with
  | none => Plan.empty
  | some block =>
    if fix.target < sequence.length || (sequence.isEmpty && fix.target == 0) then
      ⟨[{ operation := operationOf fix.action, block, anchor := fix.target, text := none }]⟩
    else ⟨[appendStep block sequence.length none]⟩

/-- The plan that starts over with the template's slots in order. -/
def forTemplate (template : Template) : Plan :=
  ⟨template.slots.zipIdx.map fun (slot, index) =>
    match index with
    | 0 => { operation := .replaceAll, block := slot.block, anchor := 0, text := slot.preset }
    | last + 1 =>
      { operation := .insertAfter, block := slot.block, anchor := last, text := slot.preset }⟩

/-- The step that adds the slot at an index outside a window that starts at `start`. -/
def windowStep (start : Nat) (slot : Slot) (index : Nat) : Step :=
  if index < start then
    { operation := .insertBefore, block := slot.block, anchor := index, text := slot.preset }
  else
    { operation := .insertAfter, block := slot.block, anchor := index - 1, text := slot.preset }

/-- The plan that completes a sequence to a template.  Around a window, the slots before it go in
front and those after it behind; without one, every open slot is appended. -/
def forCompletion (sequence : Sequence) (template : Template) : Plan :=
  match template.window? sequence with
  | some start =>
    ⟨(template.slotsOutside start sequence.length).map fun (slot, index) =>
      windowStep start slot index⟩
  | none =>
    ⟨(template.openSlots sequence).zipIdx.map fun (slot, offset) =>
      appendStep slot.block (sequence.length + offset) slot.preset⟩

/-- The plan of a request; an unknown template makes an empty plan. -/
def forRequest (sequence : Sequence) (catalog : Catalog) : PlanRequest → Plan
  | .fix fix => forFix sequence fix
  | .applyPattern id => ((catalog.get? id).map forTemplate).getD Plan.empty
  | .completePattern id => ((catalog.get? id).map (forCompletion sequence)).getD Plan.empty

end Plan

end PromptBlocks
