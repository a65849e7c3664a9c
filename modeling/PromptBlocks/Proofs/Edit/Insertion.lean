import PromptBlocks.Edit.Planner
import PromptBlocks.Proofs.Sequence.Positions
import PromptBlocks.Proofs.Vocabulary.Ids

/-!
Contract: a remedy carried out is one token put into the list.

Owns:
- insertion before and after the token at a split, in that token's chain;
- the new token as the neighbour of the token at a place;
- the plan of a worded remedy, whose target is a position of the sequence;
- where a fix puts its token, and where that moves the tokens behind.

Does not own: which remedies a check offers.
-/

namespace PromptBlocks

namespace Sequence

variable {sequence : Sequence} {earlier later : List Token} {token : Token}

/-- A token put before one that is there joins its chain, and moves no other. -/
theorem tokens_insert_of_getElem? {index : Nat} {anchor : Token}
    (here : sequence.tokens[index]? = some anchor) (new : Token) :
    (sequence.insert index new).tokens =
      sequence.tokens.take index ++ new.inChain anchor.chain :: sequence.tokens.drop index := by
  rw [insert_eq, chainNear_of_getElem? sequence index here]

theorem tokens_insertAfter_of_getElem? {index : Nat} {anchor : Token}
    (here : sequence.tokens[index]? = some anchor) (new : Token) :
    (sequence.insertAfter index new).tokens =
      sequence.tokens.take (index + 1) ++
        new.inChain anchor.chain :: sequence.tokens.drop (index + 1) := by
  simp only [insertAfter, here]

theorem getElem?_of_split (split : sequence.tokens = earlier ++ token :: later) :
    sequence.tokens[earlier.length]? = some token := by
  rw [split, List.getElem?_append_right (Nat.le_refl _), Nat.sub_self, List.getElem?_cons_zero]

/-- A token put before another one joins its chain. -/
theorem insert_of_split (split : sequence.tokens = earlier ++ token :: later) (new : Token) :
    (sequence.insert earlier.length new).tokens =
      earlier ++ new.inChain token.chain :: token :: later := by
  rw [tokens_insert_of_getElem? (getElem?_of_split split), split, List.take_left, List.drop_left]

theorem insertAfter_of_split (split : sequence.tokens = earlier ++ token :: later) (new : Token) :
    (sequence.insertAfter earlier.length new).tokens =
      earlier ++ token :: new.inChain token.chain :: later := by
  have front : earlier ++ token :: later = (earlier ++ [token]) ++ later := by
    rw [List.append_assoc, List.singleton_append]
  have width : earlier.length + 1 = (earlier ++ [token]).length := by
    rw [List.length_append, List.length_singleton]
  rw [tokens_insertAfter_of_getElem? (getElem?_of_split split), split, front, width, List.take_left,
    List.drop_left, List.append_assoc, List.singleton_append]

/-- The token at a place is found behind a token put in front of it. -/
theorem before_of_insert {place other : Place} {new : Token} (member : place ∈ sequence.places)
    (inserted : other ∈ (sequence.insert place.index new).places)
    (moved : other.index = place.index + 1) :
    other.token = place.token ∧ other.before = some (new.inChain place.token.chain) := by
  obtain ⟨earlier, split, position, -⟩ := mem_places.mp member
  have repaired := insert_of_split split new
  rw [← position] at repaired
  exact place_behind inserted repaired (by rw [moved, position]) rfl

/-- The token at a place is found in front of a token put behind it. -/
theorem next?_of_insertAfter {place other : Place} {new : Token} (member : place ∈ sequence.places)
    (inserted : other ∈ (sequence.insertAfter place.index new).places)
    (kept : other.index = place.index) :
    other.token = place.token ∧ other.next? = some (new.inChain place.token.chain) := by
  obtain ⟨earlier, split, position, -⟩ := mem_places.mp member
  have repaired := insertAfter_of_split split new
  rw [← position] at repaired
  have joined : place.token.sameChain (new.inChain place.token.chain) = true := beq_iff_eq.mpr rfl
  obtain rfl := place_of_split inserted repaired (kept.trans position)
  refine ⟨rfl, ?_⟩
  show (some (new.inChain place.token.chain)).filter place.token.sameChain = _
  rw [Option.filter_some, if_pos joined]

end Sequence

namespace Fix

/-- The index at which a fix puts its token. -/
def landing (fix : Fix) : Nat :=
  match fix.action with
  | .insertBefore => fix.target
  | .insertAfter => fix.target + 1

/-- Where a position is found again when a fix has put its token. -/
def moved (fix : Fix) (position : Nat) : Nat :=
  if fix.landing ≤ position then position + 1 else position

theorem block?_of_known {fix : Fix} {block : Block} (known : fix.blockType = block.id) :
    fix.block? = some block := by
  rw [block?, known, Block.ofId?_id]

end Fix

/-- Beside a target that is there, a fix is the one step that it names. -/
theorem Plan.forFix_of_inside {sequence : Sequence} {fix : Fix} {block : Block}
    (known : fix.blockType = block.id) (inside : fix.target < sequence.length) :
    forFix sequence fix =
      ⟨[{ operation := operationOf fix.action, block, anchor := fix.target, text := none }]⟩ := by
  simp only [forFix, Fix.block?_of_known known, inside, decide_true, Bool.true_or, if_true]

namespace Remedy

/-- The token that a remedy puts in; free text starts out empty. -/
def token (remedy : Remedy) : Token :=
  Token.ofBlock remedy.block (some "")

def apply (remedy : Remedy) (sequence : Sequence) : Sequence :=
  match remedy.action with
  | .insertBefore => sequence.insert remedy.target remedy.token
  | .insertAfter => sequence.insertAfter remedy.target remedy.token

theorem block?_toFix (remedy : Remedy) (label : String) :
    (remedy.toFix label).block? = some remedy.block :=
  Fix.block?_of_known rfl

/-- The plan of a remedy inside the sequence is the one step that the remedy names. -/
theorem forFix_toFix {remedy : Remedy} {sequence : Sequence}
    (inside : remedy.target < sequence.length) (label : String) :
    Plan.forFix sequence (remedy.toFix label) =
      ⟨[{ operation := Plan.operationOf remedy.action
          block := remedy.block
          anchor := remedy.target
          text := none }]⟩ :=
  Plan.forFix_of_inside rfl inside

theorem apply_forFix_toFix {remedy : Remedy} {sequence : Sequence}
    (inside : remedy.target < sequence.length) (label : String) :
    (Plan.forFix sequence (remedy.toFix label)).apply sequence = remedy.apply sequence := by
  rw [forFix_toFix inside]
  unfold apply
  cases remedy.action <;> rfl

/-- A remedy inside the sequence puts in its one token and moves no other. -/
theorem tokens_apply (remedy : Remedy) {sequence : Sequence}
    (inside : remedy.target < sequence.length) (label : String) :
    ∃ chain, (remedy.apply sequence).tokens =
      sequence.tokens.take (remedy.toFix label).landing ++
        remedy.token.inChain chain :: sequence.tokens.drop (remedy.toFix label).landing := by
  have anchor : sequence.tokens[remedy.target]? = some sequence.tokens[remedy.target] :=
    List.getElem?_eq_getElem inside
  refine ⟨sequence.tokens[remedy.target].chain, ?_⟩
  unfold apply Fix.landing Remedy.toFix
  cases remedy.action with
  | insertBefore => exact Sequence.tokens_insert_of_getElem? anchor remedy.token
  | insertAfter => exact Sequence.tokens_insertAfter_of_getElem? anchor remedy.token

end Remedy

end PromptBlocks
