import PromptBlocks.Pattern.Catalog

/-!
Contract: how well a sequence matches patterns.

Owns:
- the leftmost window of a template that a whole sequence fills;
- the greedy filling of slots in any order;
- exact scores, the ranking of a catalog, and suggestions.

Does not own: the decimal text of a score.
-/

namespace PromptBlocks

/-- The tokens fill the first slots one by one. -/
def Slot.fitsAll : List Token → List Slot → Bool
  | [], _ => true
  | _ :: _, [] => false
  | token :: tokens, slot :: slots => slot.accepts token && fitsAll tokens slots

/-- The least offset at which the tokens fill a contiguous window, counted from `start`. -/
def Slot.windowFrom (tokens : List Token) (start : Nat) : List Slot → Option Nat
  | [] => none
  | slot :: later =>
    if Slot.fitsAll tokens (slot :: later) then some start else windowFrom tokens (start + 1) later

/-- Whether each slot is filled when every slot in order takes the first unused token that it
accepts. -/
def Slot.filled : List Slot → List Token → List Bool
  | [], _ => []
  | slot :: slots, tokens =>
    if tokens.any slot.accepts then true :: filled slots (tokens.eraseP slot.accepts)
    else false :: filled slots tokens

/-- How well a sequence matches one template. -/
structure Match where
  templateId : String
  templateName : String
  /-- The quality, an exact fraction from zero to one. -/
  score : Rat
  /-- The labels of the slots that the sequence leaves open. -/
  missing : List String
  isComplete : Bool
  deriving DecidableEq, Repr

namespace Template

/-- The leftmost window of the template that the whole sequence fills; the empty sequence fills
none. -/
def window? (template : Template) (sequence : Sequence) : Option Nat :=
  if sequence.isEmpty then none else Slot.windowFrom sequence.tokens 0 template.slots

/-- The slots outside a window, with their places in the template. -/
def slotsOutside (template : Template) (start length : Nat) : List (Slot × Nat) :=
  template.slots.zipIdx.filter fun (_, index) => index < start || start + length ≤ index

/-- The slots that stay open when tokens fill slots in any order. -/
def openSlots (template : Template) (sequence : Sequence) : List Slot :=
  (template.slots.zip (Slot.filled template.slots sequence.tokens)).filterMap fun (slot, isFilled) =>
    if isFilled then none else some slot

/-- The match of a sequence: in a window, the share of the slots that it covers; without one, half
the share of the slots that some token fills. -/
def matchOf (template : Template) (sequence : Sequence) : Match :=
  let outcome := fun score missing isComplete =>
    ({ templateId := template.id, templateName := template.name, score, missing, isComplete } : Match)
  let tokenCount := sequence.length
  let slotCount := template.length
  if tokenCount == 0 || slotCount == 0 then
    outcome 0 (template.slots.map Slot.label) false
  else
    match template.window? sequence with
    | some start =>
      outcome (tokenCount / slotCount : Rat)
        ((template.slotsOutside start tokenCount).map fun (slot, _) => slot.label)
        (tokenCount == slotCount)
    | none =>
      let filled := Slot.filled template.slots sequence.tokens
      let missing := (template.slots.zip filled).filter fun (_, isFilled) => !isFilled
      outcome (filled.count true / (2 * slotCount) : Rat) (missing.map fun (slot, _) => slot.label)
        false

end Template

namespace Catalog

/-- The matches of all templates, best first, equal scores in catalog order. -/
def rank (catalog : Catalog) (sequence : Sequence) : List Match :=
  (catalog.templates.map fun template => template.matchOf sequence).mergeSort fun left right =>
    right.score ≤ left.score

/-- The best matches with a positive score, at most `limit`. -/
def suggest (catalog : Catalog) (sequence : Sequence) (limit : Nat) : List Match :=
  ((catalog.rank sequence).filter fun found => 0 < found.score).take limit

end Catalog

end PromptBlocks
