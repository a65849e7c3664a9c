import PromptBlocks.Sequence.Basic

/-!
Contract: edit plans.

Owns: steps, plans, and the carrying out of a plan on a sequence.

Does not own: how a plan is found.
-/

namespace PromptBlocks

inductive StepOperation
  | insertBefore
  | insertAfter
  /-- Discard the sequence and start over with it. -/
  | replaceAll
  deriving DecidableEq, Repr

instance : Enumerated StepOperation where
  all := [.insertBefore, .insertAfter, .replaceAll]
  id
    | .insertBefore => "insert_before"
    | .insertAfter => "insert_after"
    | .replaceAll => "replace_all"

/-- One step, which creates one block. -/
structure Step where
  operation : StepOperation
  block : Block
  /-- A position in the sequence as the steps before leave it. -/
  anchor : Nat
  text : Option String
  deriving DecidableEq, Repr

namespace Step

def token (step : Step) : Token :=
  Token.ofBlock step.block (some (step.text.getD ""))

def apply (step : Step) (sequence : Sequence) : Sequence :=
  match step.operation with
  | .replaceAll => Sequence.empty.pushInChain step.token 0
  | .insertBefore => sequence.insert step.anchor step.token
  | .insertAfter => sequence.insertAfter step.anchor step.token

end Step

/-- Steps in the order in which they are carried out. -/
structure Plan where
  steps : List Step
  deriving DecidableEq, Repr

namespace Plan

def empty : Plan :=
  ⟨[]⟩

def length (plan : Plan) : Nat :=
  plan.steps.length

def isEmpty (plan : Plan) : Bool :=
  plan.steps.isEmpty

def apply (plan : Plan) (sequence : Sequence) : Sequence :=
  plan.steps.foldl (fun edited step => step.apply edited) sequence

end Plan

end PromptBlocks
