import PromptBlocks.Proofs.Shelf.Refinement

/-!
Contract: an expansion leaves nothing to expand.

Owns:
- what is put out stands for itself, and so does the block in place of a head without any;
- every head keeps its place;
- a second expansion with the same shelf changes nothing.

Does not own: expansions with another shelf.
-/

namespace PromptBlocks.Shelf

section Settled

variable {shelf : Shelf} {visits : List Visit} {raw : ChainBlock} {head : BlockChain}
  {heads : List BlockChain}

theorem settled_placeholder (shelf : Shelf) : shelf.Settled placeholder.head := by
  have noReference : referredId? placeholder.head.blockType = none := by decide
  intro id _ refers
  rw [referredId?_eq_some_iff.mpr refers] at noReference
  cases noReference

/-- A visit puts out its block only where that refers to nothing saved. -/
theorem settled_of_mem_output (member : raw ∈ output shelf visits) : shelf.Settled raw := by
  obtain ⟨visit, -, fromVisit⟩ := List.mem_flatMap.mp member
  refine settled_iff.mpr ?_
  cases known : shelf.referred? visit.raw with
  | none =>
    rw [Visit.output_of_none known] at fromVisit
    rw [List.mem_singleton.mp fromVisit, known]
  | some found =>
    rw [Visit.output_of_some known] at fromVisit
    cases fromVisit

theorem settled_of_mem_assembled (member : raw ∈ (assembled shelf visits).blocks) :
    shelf.Settled raw := by
  rw [blocks_assembled] at member
  split at member
  · obtain rfl := List.mem_singleton.mp member
    exact settled_placeholder shelf
  · exact settled_of_mem_output member

theorem settled_of_mem_expand (expanded : head ∈ shelf.expand heads) (member : raw ∈ head.blocks) :
    shelf.Settled raw := by
  rw [expand_eq_expandHeads, expandHeads_eq_map_traceHeads] at expanded
  obtain ⟨visits, -, rfl⟩ := List.mem_map.mp expanded
  exact settled_of_mem_assembled member

end Settled

/-- An expansion gives back as many heads, and no block of theirs refers to a chain on the shelf, be it
that such a reference was replaced, closed a cycle, stood too deep or came after the budget.  So a
second expansion changes nothing. -/
theorem expand_settles (shelf : Shelf) (heads : List BlockChain) :
    (shelf.expand heads).length = heads.length ∧
      (∀ head ∈ shelf.expand heads, ∀ raw ∈ head.blocks, ∀ id, shelf.contains id = true →
        raw.blockType ≠ referenceTo id) ∧
      shelf.expand (shelf.expand heads) = shelf.expand heads := by
  have settled : ∀ head ∈ shelf.expand heads, ∀ raw ∈ head.blocks, shelf.Settled raw :=
    fun _ expanded _ member => settled_of_mem_expand expanded member
  refine ⟨?_, settled, ?_⟩
  · rw [expand_eq_expandHeads, length_expandHeads]
  · rw [expand_eq_expandHeads shelf (shelf.expand heads), expandHeads_of_settled settled]

/-- A chain that refers to itself leaves no reference, and its expansion is settled. -/
theorem expand_settles_of_loop :
    let head : BlockChain := ⟨⟨"promps_template_r", none⟩, []⟩
    let expanded : BlockChain := ⟨⟨"promps_noun", some "A"⟩, []⟩
    loopShelf.contains "r" = true ∧ expanded ∈ loopShelf.expand [head] ∧
      expanded.head.blockType ≠ referenceTo "r" ∧
      loopShelf.expand (loopShelf.expand [head]) = [expanded] := by
  intro head expanded
  have present : loopShelf.contains "r" = true := by decide
  have result : loopShelf.expand [head] = [expanded] := by decide
  have member : expanded ∈ loopShelf.expand [head] := by
    rw [result]
    exact List.mem_singleton_self _
  obtain ⟨-, settled, again⟩ := expand_settles loopShelf [head]
  refine ⟨present, member, ?_, again.trans result⟩
  exact settled expanded member expanded.head List.mem_cons_self "r" present

end PromptBlocks.Shelf
