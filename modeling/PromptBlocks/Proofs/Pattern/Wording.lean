import PromptBlocks.Edit.Planner
import PromptBlocks.Proofs.Pattern.Exchange
import PromptBlocks.Proofs.Pattern.Score

/-!
Contract: catalogs that differ in words only.

Owns:
- slots and templates with their display words blanked out, and the preset texts that are not matched;
- matches and plans with theirs blanked out;
- matching, ranking, look-up and completion, none of which reads a word;
- the built-in catalogs, which rank every sequence alike in both languages.

Does not own: what the words are.
-/

namespace PromptBlocks

/-! ### Without words -/

/-- The slot with its words blanked out.  The preset text of another word stays, because it takes part in
matching. -/
def Slot.unworded (slot : Slot) : Slot :=
  { slot with
    label := ""
    preset := match slot.block with
      | .other => slot.preset
      | _ => none }

def Template.unworded (template : Template) : Template :=
  { id := template.id, name := "", description := "", outline := "", sample := ""
    slots := template.slots.map Slot.unworded }

/-- The match with its words blanked out.  How many elements are missing stays. -/
def Match.unworded (found : Match) : Match :=
  { found with
    templateName := ""
    missing := found.missing.map fun _ => "" }

/-- What a step does, with which block and where; the text that it enters is left out. -/
def Step.placement (step : Step) : StepOperation × Block × Nat :=
  (step.operation, step.block, step.anchor)

def Plan.placements (plan : Plan) : List (StepOperation × Block × Nat) :=
  plan.steps.map Step.placement

/-! ### Templates -/

theorem Slot.accepts_unworded (slot : Slot) (token : Token) :
    slot.unworded.accepts token = slot.accepts token := by
  obtain ⟨block, label, isPlaceholder, preset⟩ := slot
  cases block <;> rfl

/-- Every slot gives way to the one without its words. -/
def Exchange.unwording : Exchange where
  slot := Slot.unworded
  token := id
  accepts_eq := Slot.accepts_unworded

theorem Exchange.inSequence_unwording (sequence : Sequence) :
    unwording.inSequence sequence = sequence :=
  congrArg Sequence.mk (List.map_id _)

namespace Template

theorem length_unworded (template : Template) : template.unworded.length = template.length :=
  List.length_map _

theorem window?_unworded (template : Template) (sequence : Sequence) :
    template.unworded.window? sequence = template.window? sequence := by
  have exchanged := Exchange.unwording.window?_exchange template sequence
  rwa [Exchange.inSequence_unwording] at exchanged

theorem openSlots_unworded (template : Template) (sequence : Sequence) :
    template.unworded.openSlots sequence = (template.openSlots sequence).map Slot.unworded := by
  have exchanged := Exchange.unwording.openSlots_exchange template sequence
  rwa [Exchange.inSequence_unwording] at exchanged

theorem slotsOutside_unworded (template : Template) (start length : Nat) :
    template.unworded.slotsOutside start length =
      (template.slotsOutside start length).map fun (slot, index) => (slot.unworded, index) :=
  Exchange.unwording.slotsOutside_exchange template start length

/-- Matching reads no word: they may be blanked out before or after. -/
theorem matchOf_unworded (template : Template) (sequence : Sequence) :
    template.unworded.matchOf sequence = (template.matchOf sequence).unworded := by
  have labels (slots : List Slot) :
      (slots.map Slot.unworded).map Slot.label = (slots.map Slot.label).map fun _ => "" := by
    rw [List.map_map, List.map_map]
    rfl
  rcases nothing_or_tokens_and_slots template sequence with nothing | ⟨tokens, slots⟩
  · have stillNothing : sequence.isEmpty = true ∨ template.unworded.slots = [] :=
      nothing.imp_right List.map_eq_nil_iff.mpr
    rw [matchOf_of_nothing nothing, matchOf_of_nothing stillNothing]
    exact congrArg (Match.mk template.id "" 0 · false) (labels template.slots)
  · have stillSlots : template.unworded.slots ≠ [] := fun empty =>
      slots (List.map_eq_nil_iff.mp empty)
    cases window : template.window? sequence with
    | some start =>
      have stillWindow := (template.window?_unworded sequence).trans window
      rw [matchOf_of_window? window, matchOf_of_window? stillWindow, length_unworded,
        slotsOutside_unworded, List.map_map]
      simp only [Match.unworded, List.map_map]
      rfl
    | none =>
      have stillNone := (template.window?_unworded sequence).trans window
      rw [matchOf_of_noWindow window tokens slots, matchOf_of_noWindow stillNone tokens stillSlots,
        length_unworded, openSlots_unworded, List.length_map, labels]
      rfl

theorem placement_windowStep (start : Nat) (slot : Slot) (index : Nat) :
    (Plan.windowStep start slot.unworded index).placement =
      (Plan.windowStep start slot index).placement := by
  unfold Plan.windowStep
  split <;> rfl

theorem placement_appendStep (block : Block) (count : Nat) (text other : Option String) :
    (Plan.appendStep block count text).placement = (Plan.appendStep block count other).placement := by
  cases count <;> rfl

/-- Where a sequence is completed, and with which blocks, is told by the template without its words. -/
theorem placements_forCompletion (template : Template) (sequence : Sequence) :
    (Plan.forCompletion sequence template.unworded).placements =
      (Plan.forCompletion sequence template).placements := by
  unfold Plan.forCompletion
  rw [window?_unworded]
  cases template.window? sequence with
  | some start =>
    simp only [Plan.placements, slotsOutside_unworded, List.map_map]
    exact List.map_congr_left fun (slot, index) _ => placement_windowStep start slot index
  | none =>
    simp only [Plan.placements, openSlots_unworded, List.zipIdx_map, List.map_map]
    exact List.map_congr_left fun (slot, offset) _ => placement_appendStep slot.block _ _ _

end Template

/-! ### Catalogs -/

namespace Catalog

section SameWordless

variable {first second : Catalog}
  (same : first.templates.map Template.unworded = second.templates.map Template.unworded)
include same

theorem rank_map_unworded (sequence : Sequence) :
    (first.rank sequence).map Match.unworded = (second.rank sequence).map Match.unworded := by
  -- Scores stay when words go, so the words may go before the sort.
  have wordless (catalog : Catalog) : (catalog.rank sequence).map Match.unworded =
      ((catalog.templates.map Template.unworded).map fun template =>
        template.matchOf sequence).mergeSort fun left right => right.score ≤ left.score := by
    have sameMatches : (catalog.templates.map Template.unworded).map
          (fun template => template.matchOf sequence) =
        (catalog.templates.map fun template => template.matchOf sequence).map Match.unworded := by
      rw [List.map_map, List.map_map]
      exact List.map_congr_left fun template _ => template.matchOf_unworded sequence
    rw [sameMatches, rank]
    exact List.map_mergeSort fun _ _ _ _ => rfl
  rw [wordless first, wordless second, same]

theorem get?_map_unworded (id : String) :
    (first.get? id).map Template.unworded = (second.get? id).map Template.unworded := by
  have wordless (catalog : Catalog) : (catalog.get? id).map Template.unworded =
      (catalog.templates.map Template.unworded).find? fun template => template.id == id := by
    rw [List.find?_map]
    rfl
  rw [wordless first, wordless second, same]

end SameWordless

/-- Without their words, the built-in catalogs are the same. -/
theorem builtin_map_unworded (first second : Locale) :
    (builtin first).templates.map Template.unworded =
      (builtin second).templates.map Template.unworded := by
  cases first <;> cases second <;> rfl

/-- The built-in catalogs rank every sequence alike in both languages: the same ids in the same order,
with the same scores, as complete, and with as many missing elements.  Under each id, the two complete a
sequence by the same operations with the same blocks at the same anchors, or neither has the id. -/
theorem builtin_ranks_alike (first second : Locale) (sequence : Sequence) :
    ((builtin first).rank sequence).map (fun found =>
        (found.templateId, found.score, found.isComplete, found.missing.length)) =
      ((builtin second).rank sequence).map (fun found =>
        (found.templateId, found.score, found.isComplete, found.missing.length)) ∧
    ∀ id : String,
      ((builtin first).get? id).map (fun template =>
          (Plan.forCompletion sequence template).placements) =
        ((builtin second).get? id).map fun template =>
          (Plan.forCompletion sequence template).placements := by
  have same := builtin_map_unworded first second
  constructor
  · have ranked := congrArg (List.map fun found : Match =>
      (found.templateId, found.score, found.isComplete, found.missing.length))
      (rank_map_unworded same sequence)
    simpa only [List.map_map, Function.comp_def, Match.unworded, List.length_map] using ranked
  · intro id
    have planned := congrArg (Option.map fun template : Template =>
      (Plan.forCompletion sequence template).placements) (get?_map_unworded same id)
    simpa only [Option.map_map, Function.comp_def, Template.placements_forCompletion] using planned

/-- The texts differ: the plan for two nouns side by side enters a verb of its own language. -/
example :
    let sequence : Sequence := ⟨[⟨.noun, some "A", 0⟩, ⟨.particle .to, none, 0⟩]⟩
    ((builtin .ja).get? "parallel_to").map (Plan.forCompletion sequence) ≠
      ((builtin .en).get? "parallel_to").map (Plan.forCompletion sequence) := by
  decide

end Catalog

end PromptBlocks
