import PromptBlocks.Proofs.Chain.Flattening
import PromptBlocks.Proofs.Shelf.Refinement

/-!
Contract: expanded chains keep the numbers of their heads.

Owns:
- the blocks of a head with each reference replaced in place, within a budget;
- the budget that the heads in front leave;
- the tokens of a chain, which are those of the replaced blocks of the head with that number.

Does not own: which saved blocks a reference leads to.
-/

namespace PromptBlocks.Shelf

/-- The blocks of a head, where a reference to a saved chain gives way to what it leads to: what the first
saved blocks put out, as many as the budget allows. -/
def replaced (shelf : Shelf) : List ChainBlock → Nat → List ChainBlock
  | [], _ => []
  | raw :: later, budget =>
    let saved := savedVisits shelf [] raw
    (if (shelf.referred? raw).isSome then output shelf (saved.take budget) else [raw]) ++
      replaced shelf later (budget - saved.length)

/-- The budget that is left for the head with a number: every saved block that the heads in front of it
lead to is one less. -/
def budgetFor (shelf : Shelf) (heads : List BlockChain) (number : Nat) : Nat :=
  blockBudget - (reads (headVisits shelf (heads.take number)).flatten).length

section Alignment

variable {shelf : Shelf} {blocks : List ChainBlock} {head : BlockChain} {heads : List BlockChain}

/-- What the cut visits of blocks put out is the blocks with their references replaced. -/
theorem output_cut_visits (shelf : Shelf) (blocks : List ChainBlock) (budget : Nat) :
    output shelf (cut budget (visits shelf [] blocks)) = replaced shelf blocks budget := by
  induction blocks generalizing budget with
  | nil => rfl
  | cons raw later inductionHypothesis =>
    rw [cut_visits_cons, output_cons, output_append, inductionHypothesis, replaced,
      ← List.append_assoc]
    congr 1
    cases known : shelf.referred? raw with
    | none =>
      rw [Visit.output_of_none known, savedVisits_of_none known, List.take_nil]
      rfl
    | some found =>
      rw [Visit.output_of_some known, List.nil_append]
      rfl

/-- Where the budget lasts, references give way to their whole plain expansion. -/
theorem replaced_of_le {budget : Nat}
    (enough : (reads (visits shelf [] blocks)).length ≤ budget) :
    replaced shelf blocks budget =
      blocks.flatMap (plainContribution shelf nestingLimit []) := by
  rw [← output_cut_visits, cut_of_le enough,
    flatMap_eq_output_visits fun raw _ => plainContribution_eq rfl]

theorem replaced_of_settled (settled : ∀ raw ∈ blocks, shelf.Settled raw) (budget : Nat) :
    replaced shelf blocks budget = blocks := by
  induction blocks generalizing budget with
  | nil => rfl
  | cons raw later inductionHypothesis =>
    obtain ⟨first, others⟩ := List.forall_mem_cons.mp settled
    rw [replaced, settled_iff.mp first, inductionHypothesis others]
    rfl

/-- The head with a number is expanded with the budget that is left for it. -/
theorem getElem?_expandHeads (shelf : Shelf) (heads : List BlockChain) (number budget : Nat) :
    (expandHeads shelf heads budget)[number]? =
      heads[number]?.map fun head =>
        assembled shelf (cut
          (budget - (reads (headVisits shelf (heads.take number)).flatten).length)
          (visits shelf [] head.blocks)) := by
  induction heads generalizing number budget with
  | nil => rfl
  | cons head later inductionHypothesis =>
    rw [expandHeads_cons]
    cases number with
    | zero => rfl
    | succ number =>
      rw [List.getElem?_cons_succ, List.getElem?_cons_succ, inductionHypothesis,
        List.take_succ_cons, headVisits, headVisits, List.map_cons, List.flatten_cons, reads_append,
        List.length_append, Nat.sub_sub]

/-- The block in place of a head without any makes no token. -/
theorem filterMap_assembled (visits : List Visit) (chain : Nat) :
    (assembled shelf visits).blocks.filterMap (ChainBlock.token? chain) =
      (output shelf visits).filterMap (ChainBlock.token? chain) := by
  have noBlock : Block.ofId? placeholder.head.blockType = none := by decide
  have noToken : ChainBlock.token? chain placeholder.head = none := by
    rw [ChainBlock.token?, noBlock]
    rfl
  rw [blocks_assembled]
  split
  · next nothing =>
    rw [nothing]
    exact List.filterMap_cons_none noToken
  · rfl

/-- The tokens of a chain of expanded heads. -/
theorem tokensIn_expand (shelf : Shelf) (heads : List BlockChain) (chain : Nat) :
    (Sequence.ofChains (shelf.expand heads) .allTopBlocks).tokensIn chain =
      (heads[chain]?.map fun head =>
        (replaced shelf head.blocks (budgetFor shelf heads chain)).filterMap
          (ChainBlock.token? chain)).getD [] := by
  rw [Sequence.tokensIn_ofChains, expand_eq_expandHeads, getElem?_expandHeads, Option.map_map]
  refine congrArg (fun made : Option (List Token) => made.getD []) (Option.map_congr fun head _ => ?_)
  rw [← output_cut_visits, ← filterMap_assembled]
  rfl

end Alignment

/-- Expanded chains keep the numbers of their heads.  The tokens of a chain come from the head with that
number only: they are what its blocks make once its references are replaced, by the whole plain expansion
where the budget lasts for the head.  So a head without references to saved chains makes the tokens that
it makes without any shelf, and a reference that nothing is saved under makes none. -/
theorem expanded_chains_align (shelf : Shelf) (heads : List BlockChain) :
    let expanded := Sequence.ofChains (shelf.expand heads) .allTopBlocks
    (∀ token ∈ expanded.tokens, token.chain < heads.length) ∧
      (∀ chain head, heads[chain]? = some head →
        expanded.tokensIn chain =
            (replaced shelf head.blocks (budgetFor shelf heads chain)).filterMap
              (ChainBlock.token? chain) ∧
          ((reads (visits shelf [] head.blocks)).length ≤ budgetFor shelf heads chain →
            expanded.tokensIn chain =
              (head.blocks.flatMap (plainContribution shelf nestingLimit [])).filterMap
                (ChainBlock.token? chain)) ∧
          ((∀ raw ∈ head.blocks, ∀ id, shelf.contains id = true → raw.blockType ≠ referenceTo id) →
            expanded.tokensIn chain = (Sequence.ofChains heads .allTopBlocks).tokensIn chain)) ∧
      ∀ id text chain, ChainBlock.token? chain { blockType := referenceTo id, text } = none := by
  intro expanded
  refine ⟨fun token member => ?_, fun chain head here => ?_, fun id text chain =>
    token?_referenceTo chain id text⟩
  · have bound := Sequence.chain_lt_of_mem_ofChains member
    rwa [expand_eq_expandHeads, length_expandHeads] at bound
  · have fromHead : expanded.tokensIn chain =
        (replaced shelf head.blocks (budgetFor shelf heads chain)).filterMap
          (ChainBlock.token? chain) := by
      rw [tokensIn_expand, here]
      rfl
    refine ⟨fromHead, fun enough => ?_, fun settled => ?_⟩
    · rw [fromHead, replaced_of_le enough]
    · rw [fromHead, replaced_of_settled settled, Sequence.tokensIn_ofChains, here]
      rfl

/-- Behind a head that is a loop, a head with a reference to nothing makes its one token, in its own
chain. -/
theorem expanded_chains_align_of_dangling :
    let head : BlockChain := ⟨⟨"promps_noun", some "B"⟩, [⟨"promps_template_q", none⟩]⟩
    let heads : List BlockChain := [⟨⟨"promps_template_r", none⟩, []⟩, head]
    heads[1]? = some head ∧ (∀ raw ∈ head.blocks, loopShelf.Settled raw) ∧
      (Sequence.ofChains (loopShelf.expand heads) .allTopBlocks).tokensIn 1 =
        [⟨.noun, some "B", 1⟩] := by
  intro head heads
  have unknown : ∀ raw ∈ head.blocks, loopShelf.referred? raw = none := by decide
  have settled : ∀ raw ∈ head.blocks, loopShelf.Settled raw :=
    fun raw member => settled_iff.mpr (unknown raw member)
  obtain ⟨-, ofHead, -⟩ := expanded_chains_align loopShelf heads
  exact ⟨rfl, settled, ((ofHead 1 head rfl).2.2 settled).trans (by decide)⟩

end PromptBlocks.Shelf
