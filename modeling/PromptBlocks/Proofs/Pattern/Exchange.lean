import PromptBlocks.Proofs.Pattern.Filling

/-!
Contract: matching looks at slots and tokens through acceptance alone.

Owns:
- exchanges: other slots and tokens in place of the given ones, with acceptance kept;
- windows, filled slots and open slots after an exchange.

Does not own: which exchanges there are, and what they leave of labels and texts.
-/

namespace PromptBlocks

/-- Other slots and tokens in place of the given ones.  A slot accepts a token exactly when the slot in
its place accepts the token in its place. -/
structure Exchange where
  slot : Slot → Slot
  token : Token → Token
  accepts_eq : ∀ original held, (slot original).accepts (token held) = original.accepts held

/-! ### Lists of slots and tokens -/

namespace Slot

variable (exchange : Exchange)

theorem fitsAll_exchange (tokens : List Token) (slots : List Slot) :
    fitsAll (tokens.map exchange.token) (slots.map exchange.slot) = fitsAll tokens slots := by
  induction tokens generalizing slots with
  | nil => rfl
  | cons token tokens inductionHypothesis =>
    cases slots with
    | nil => rfl
    | cons slot slots =>
      rw [List.map_cons, List.map_cons, fitsAll, fitsAll, exchange.accepts_eq, inductionHypothesis]

theorem windowFrom_exchange (tokens : List Token) (start : Nat) (slots : List Slot) :
    windowFrom (tokens.map exchange.token) start (slots.map exchange.slot) =
      windowFrom tokens start slots := by
  induction slots generalizing start with
  | nil => rfl
  | cons slot later inductionHypothesis =>
    have here := fitsAll_exchange exchange tokens (slot :: later)
    rw [List.map_cons] at here
    rw [List.map_cons, windowFrom, windowFrom, here, inductionHypothesis]

theorem accepts_comp_exchange (slot : Slot) :
    (exchange.slot slot).accepts ∘ exchange.token = slot.accepts :=
  funext fun token => exchange.accepts_eq slot token

theorem filled_exchange (slots : List Slot) (tokens : List Token) :
    filled (slots.map exchange.slot) (tokens.map exchange.token) = filled slots tokens := by
  induction slots generalizing tokens with
  | nil => rfl
  | cons slot slots inductionHypothesis =>
    rw [List.map_cons, filled, filled, List.any_map, List.eraseP_map, accepts_comp_exchange,
      inductionHypothesis, inductionHypothesis]

theorem unfilled_exchange (slots : List Slot) (tokens : List Token) :
    unfilled (slots.map exchange.slot) (tokens.map exchange.token) =
      (unfilled slots tokens).map exchange.slot := by
  rw [unfilled, unfilled, filled_exchange, List.zip_map_left, List.filterMap_map, List.map_filterMap]
  refine List.filterMap_congr ?_
  rintro ⟨slot, isFilled⟩ -
  cases isFilled <;> rfl

end Slot

/-! ### Templates and sequences -/

namespace Exchange

variable (exchange : Exchange)

def inTemplate (template : Template) : Template :=
  { template with slots := template.slots.map exchange.slot }

def inSequence (sequence : Sequence) : Sequence :=
  ⟨sequence.tokens.map exchange.token⟩

theorem window?_exchange (template : Template) (sequence : Sequence) :
    (exchange.inTemplate template).window? (exchange.inSequence sequence) =
      template.window? sequence := by
  have sameEmpty : (exchange.inSequence sequence).isEmpty = sequence.isEmpty := List.isEmpty_map
  rw [Template.window?, Template.window?, sameEmpty]
  exact congrArg (ite _ none) (Slot.windowFrom_exchange exchange sequence.tokens 0 template.slots)

theorem openSlots_exchange (template : Template) (sequence : Sequence) :
    (exchange.inTemplate template).openSlots (exchange.inSequence sequence) =
      (template.openSlots sequence).map exchange.slot :=
  Slot.unfilled_exchange exchange template.slots sequence.tokens

/-- The same places are outside a window. -/
theorem slotsOutside_exchange (template : Template) (start length : Nat) :
    (exchange.inTemplate template).slotsOutside start length =
      (template.slotsOutside start length).map fun (slot, index) => (exchange.slot slot, index) := by
  rw [Template.slotsOutside, Template.slotsOutside, inTemplate, List.zipIdx_map, List.filter_map]
  rfl

end Exchange

end PromptBlocks
