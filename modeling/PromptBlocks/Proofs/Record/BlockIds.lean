import PromptBlocks.Proofs.Shelf.Lookup
import PromptBlocks.Record.Wire

/-!
Contract: which texts travel as blocks.

Owns:
- a text is read as a block exactly when it is the id of that block;
- every other text is a fault that carries it, references to saved chains among them.

Does not own: documents that are no texts.
-/

namespace PromptBlocks.Wire

open Json (Fault)

variable {text : String}

theorem ofBlockId_eq_ok_iff {block : Block} : ofBlockId text = .ok block ↔ text = block.id := by
  rw [eq_comm (a := text), ← Block.ofId?_eq_some_iff, ofBlockId]
  cases Block.ofId? text <;> simp

theorem ofBlockId_eq_error_iff {fault : Fault} :
    ofBlockId text = .error fault ↔
      (∀ block : Block, text ≠ block.id) ∧ fault = .unknownBlock text := by
  have unknown : Block.ofId? text = none ↔ ∀ block : Block, text ≠ block.id := by
    rw [Block.ofId?_eq_none_iff]
    exact forall_congr' fun block => ne_comm
  rw [← unknown, ofBlockId]
  cases Block.ofId? text <;> simp [eq_comm]

/-- Ids are read exactly: a text is the block whose id it is, and any other text is an unknown block
under that very text.  A reference to a saved chain is always unknown, whatever its id. -/
theorem blockIds_exact :
    (∀ text block, Block.ofId? text = some block ↔ text = block.id) ∧
      (∀ text block, ofBlockId text = .ok block ↔ text = block.id) ∧
      (∀ text fault, ofBlockId text = .error fault ↔
        (∀ block : Block, text ≠ block.id) ∧ fault = .unknownBlock text) ∧
      ∀ id, ofBlockId (Shelf.referenceTo id) = .error (.unknownBlock (Shelf.referenceTo id)) := by
  refine ⟨fun text block => ?_, fun _ _ => ofBlockId_eq_ok_iff,
    fun _ _ => ofBlockId_eq_error_iff, fun id => ?_⟩
  · rw [Block.ofId?_eq_some_iff]
    exact eq_comm
  · rw [ofBlockId, Shelf.ofId?_referenceTo]

end PromptBlocks.Wire
