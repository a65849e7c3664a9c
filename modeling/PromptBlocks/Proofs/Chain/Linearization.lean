import Mathlib.Data.List.Forall2
import PromptBlocks.Proofs.Chain.Flattening
import PromptBlocks.Proofs.Sequence.Places
import PromptBlocks.Proofs.Vocabulary.Ids

/-!
Contract: what flattening takes from chains, block by block.

Owns:
- known blocks, and what a token keeps of the block that it stands for;
- chains that differ in unknown blocks only, which flatten to the same sequence;
- the order of the tokens of flattened chains;
- under the policy for connected heads, the tokens of the heads with a successor.

Does not own: chains that are rebuilt from a sequence, and references to saved chains.
-/

namespace PromptBlocks

namespace ChainBlock

/-- The type of the block is the id of a block of the vocabulary. -/
def IsKnown (raw : ChainBlock) : Prop :=
  ∃ block : Block, block.id = raw.blockType

/-- What a token of a chain keeps of the block that it stands for: the type, and the text where the type
has one. -/
structure StandsFor (chain : Nat) (raw : ChainBlock) (token : Token) : Prop where
  ofType : token.block.id = raw.blockType
  ofText : token.text = if token.block.isFreeText then raw.text else none
  inChain : token.chain = chain

/-- One list of blocks arises from the other by inserting and deleting unknown blocks, anywhere. -/
inductive SameButUnknown : List ChainBlock → List ChainBlock → Prop
  | nil : SameButUnknown [] []
  | keep {left right : List ChainBlock} (raw : ChainBlock) (rest : SameButUnknown left right) :
      SameButUnknown (raw :: left) (raw :: right)
  | insert {raw : ChainBlock} {left right : List ChainBlock} (unknown : ¬ raw.IsKnown)
      (rest : SameButUnknown left right) : SameButUnknown left (raw :: right)
  | delete {raw : ChainBlock} {left right : List ChainBlock} (unknown : ¬ raw.IsKnown)
      (rest : SameButUnknown left right) : SameButUnknown (raw :: left) right

section Tokens

variable {raw : ChainBlock} {blocks left right : List ChainBlock} {chain : Nat} {token : Token}

theorem token?_eq_none_iff : raw.token? chain = none ↔ ¬ raw.IsKnown := by
  rw [token?, Option.map_eq_none_iff, Block.ofId?_eq_none_iff, IsKnown, not_exists]

instance : DecidablePred IsKnown := fun raw =>
  decidable_of_iff (raw.token? 0 ≠ none) (by rw [Ne, token?_eq_none_iff, not_not])

theorem standsFor_of_token? (made : raw.token? chain = some token) : StandsFor chain raw token := by
  obtain ⟨block, known, rfl⟩ := Option.map_eq_some_iff.mp made
  exact { ofType := Block.ofId?_eq_some_iff.mp known, ofText := rfl, inChain := rfl }

/-- The tokens of blocks stand for the known ones, one for each. -/
theorem standsFor_filterMap_token? (blocks : List ChainBlock) (chain : Nat) :
    List.Forall₂ (StandsFor chain) (blocks.filter fun raw => raw.IsKnown)
      (blocks.filterMap (token? chain)) := by
  induction blocks with
  | nil => exact .nil
  | cons raw later inductionHypothesis =>
    cases made : raw.token? chain with
    | none =>
      have unknown : ¬ raw.IsKnown := token?_eq_none_iff.mp made
      rw [List.filterMap_cons_none made, List.filter_cons_of_neg (by simpa using unknown)]
      exact inductionHypothesis
    | some token =>
      have known : raw.IsKnown := by
        by_contra unknown
        rw [token?_eq_none_iff.mpr unknown] at made
        cases made
      rw [List.filterMap_cons_some made, List.filter_cons_of_pos (by simpa using known)]
      exact .cons (standsFor_of_token? made) inductionHypothesis

theorem SameButUnknown.filterMap_token? (same : SameButUnknown left right) (chain : Nat) :
    left.filterMap (token? chain) = right.filterMap (token? chain) := by
  induction same with
  | nil => rfl
  | keep raw _ inductionHypothesis =>
    rw [List.filterMap_cons, List.filterMap_cons, inductionHypothesis]
  | insert unknown _ inductionHypothesis =>
    rw [List.filterMap_cons_none (token?_eq_none_iff.mpr unknown), inductionHypothesis]
  | delete unknown _ inductionHypothesis =>
    rw [List.filterMap_cons_none (token?_eq_none_iff.mpr unknown), inductionHypothesis]

end Tokens

end ChainBlock

namespace Sequence

open ChainBlock (SameButUnknown StandsFor)

section Linearization

variable {policy : HeadPolicy} {heads others : List BlockChain}

/-- Flattened chains stand one behind the other, in the order of their numbers. -/
theorem chain_le_of_numberedTokens (policy : HeadPolicy) (first : Nat) (heads : List BlockChain) :
    (numberedTokens policy first heads).Pairwise fun earlier later => earlier.chain ≤ later.chain := by
  induction heads generalizing first with
  | nil => exact List.Pairwise.nil
  | cons head behind inductionHypothesis =>
    rw [numberedTokens_cons, List.pairwise_append]
    refine ⟨?_, inductionHypothesis (first + 1), ?_⟩
    · refine List.pairwise_of_forall_mem_list fun earlier isEarlier later isLater => ?_
      exact Nat.le_of_eq
        ((chain_of_mem_tokensOfHead isEarlier).trans (chain_of_mem_tokensOfHead isLater).symm)
    · intro earlier ofHead later ofBehind
      have beyond := (chain_of_mem_numberedTokens ofBehind).1
      rw [chain_of_mem_tokensOfHead ofHead]
      omega

theorem numberedTokens_congr (first : Nat)
    (same : List.Forall₂ (fun head other => SameButUnknown head.blocks other.blocks) heads others) :
    numberedTokens .allTopBlocks first heads = numberedTokens .allTopBlocks first others := by
  induction same generalizing first with
  | nil => rfl
  | @cons head other _ _ sameHead _ inductionHypothesis =>
    have sameTokens : tokensOfHead .allTopBlocks head first = tokensOfHead .allTopBlocks other first :=
      sameHead.filterMap_token? first
    rw [numberedTokens_cons, numberedTokens_cons, sameTokens, inductionHypothesis]

/-- A token tells its head by its chain, so leaving out the heads without a successor leaves out their
tokens and no others. -/
theorem tokens_connectedOnly (heads : List BlockChain) :
    (ofChains heads .connectedOnly).tokens =
      (ofChains heads .allTopBlocks).tokens.filter fun token =>
        ∃ head ∈ heads[token.chain]?, head.successors ≠ [] := by
  rw [tokens_ofChains, tokens_ofChains, numberedTokens, numberedTokens, List.filter_flatMap]
  refine List.flatMap_congr fun ⟨head, chain⟩ member => ?_
  have here : heads[chain]? = some head := List.mem_zipIdx_iff_getElem?.mp member
  have told : ∀ token ∈ tokensOfHead .allTopBlocks head chain,
      decide (∃ head ∈ heads[token.chain]?, head.successors ≠ []) = head.isConnected := by
    intro token ofHead
    rw [chain_of_mem_tokensOfHead ofHead, here, Bool.eq_iff_iff]
    simp [BlockChain.isConnected]
  show (if head.isConnected then tokensOfHead .allTopBlocks head chain else []) =
    (tokensOfHead .allTopBlocks head chain).filter _
  split
  · next connected =>
    exact (List.filter_eq_self.mpr fun token ofHead => (told token ofHead).trans connected).symm
  · next isolated =>
    refine (List.filter_eq_nil_iff.mpr fun token ofHead => ?_).symm
    rw [told token ofHead]
    exact isolated

end Linearization

/-- Flattening skips the unknown blocks and nothing else.  Positions count from zero, the chains stand in
the order of their heads, and the tokens of a chain stand for the known blocks of the head with that
number, one for each and in order.  Unknown blocks that come or go, in any chains and anywhere in them,
change nothing.  Under the policy for connected heads, the sequence is what is left of this one without
the tokens of heads that have no successor, known or not. -/
theorem flattening_skips_unknown (heads : List BlockChain) :
    let all := ofChains heads .allTopBlocks
    let connected := ofChains heads .connectedOnly
    all.placed.map PlacedToken.position = List.range all.length ∧
      all.tokens.Pairwise (fun earlier later => earlier.chain ≤ later.chain) ∧
      (∀ token ∈ all.tokens, token.chain < heads.length) ∧
      (∀ chain head, heads[chain]? = some head →
        List.Forall₂ (StandsFor chain) (head.blocks.filter fun raw => raw.IsKnown)
          (all.tokensIn chain)) ∧
      (∀ others,
        List.Forall₂ (fun head other => SameButUnknown head.blocks other.blocks) heads others →
          ofChains others .allTopBlocks = all) ∧
      connected = ⟨all.tokens.filter fun token =>
        ∃ head ∈ heads[token.chain]?, head.successors ≠ []⟩ ∧
      connected.placed.map PlacedToken.position = List.range connected.length := by
  intro all connected
  refine ⟨map_position_placed all, chain_le_of_numberedTokens .allTopBlocks 0 heads,
    fun token member => chain_lt_of_mem_ofChains member, fun chain head here => ?_,
    fun others same => ?_, ?_, map_position_placed connected⟩
  · have ofHead : all.tokensIn chain = head.blocks.filterMap (ChainBlock.token? chain) := by
      rw [tokensIn_ofChains, here]
      rfl
    rw [ofHead]
    exact ChainBlock.standsFor_filterMap_token? head.blocks chain
  · exact congrArg Sequence.mk (numberedTokens_congr 0 same).symm
  · exact congrArg Sequence.mk (tokens_connectedOnly heads)

/-- An unknown block behind an isolated noun, and one in front of an isolated particle, change no token.
They are successors all the same, and the second one is a head with a successor. -/
theorem flattening_skips_unknown_of_padding :
    let noun : ChainBlock := ⟨"promps_noun", some "A"⟩
    let particle : ChainBlock := ⟨"promps_particle_ga", some "stray"⟩
    let unknown : ChainBlock := ⟨"promps_nouns", some "B"⟩
    let plain : List BlockChain := [⟨noun, []⟩, ⟨particle, []⟩]
    let padded : List BlockChain := [⟨noun, [unknown]⟩, ⟨unknown, [particle]⟩]
    List.Forall₂ (fun head other => SameButUnknown head.blocks other.blocks) plain padded ∧
      ofChains padded .allTopBlocks = ofChains plain .allTopBlocks ∧
      ofChains plain .allTopBlocks = ⟨[⟨.noun, some "A", 0⟩, ⟨.particle .ga, none, 1⟩]⟩ ∧
      ofChains plain .connectedOnly = ⟨[]⟩ ∧
      ofChains padded .connectedOnly = ofChains plain .allTopBlocks := by
  intro noun particle unknown plain padded
  have isUnknown : ¬ unknown.IsKnown := by decide
  have same : List.Forall₂ (fun head other => SameButUnknown head.blocks other.blocks) plain padded :=
    .cons (.keep noun (.insert isUnknown .nil)) (.cons (.insert isUnknown (.keep particle .nil)) .nil)
  obtain ⟨-, -, -, -, ignoring, -, -⟩ := flattening_skips_unknown plain
  exact ⟨same, ignoring padded same, by decide, by decide, by decide⟩

end Sequence

end PromptBlocks
