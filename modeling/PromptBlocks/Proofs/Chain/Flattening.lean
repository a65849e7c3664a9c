import PromptBlocks.Chain.Basic

/-!
Contract: the tokens of a flattened chain.

Owns:
- the tokens of one chain of a sequence;
- the chain of the token that a block makes;
- in flattened chains, the tokens of a chain are those of the head with that number.

Does not own: chains that are rebuilt from a sequence.
-/

namespace PromptBlocks

theorem ChainBlock.chain_of_token? {chain : Nat} {raw : ChainBlock} {token : Token}
    (made : raw.token? chain = some token) : token.chain = chain := by
  obtain ⟨block, -, rfl⟩ := Option.map_eq_some_iff.mp made
  rfl

namespace Sequence

/-- The tokens of a chain, in order. -/
def tokensIn (sequence : Sequence) (chain : Nat) : List Token :=
  sequence.tokens.filter fun token => token.chain == chain

/-- The tokens that a head makes as the chain of a number. -/
def tokensOfHead (policy : HeadPolicy) (head : BlockChain) (chain : Nat) : List Token :=
  if policy.admits head then head.blocks.filterMap (ChainBlock.token? chain) else []

/-- The tokens of heads that are numbered from a first number on. -/
def numberedTokens (policy : HeadPolicy) (first : Nat) (heads : List BlockChain) : List Token :=
  (heads.zipIdx first).flatMap fun (head, chain) => tokensOfHead policy head chain

/-- Where every head is admitted, the tokens are those of the heads' blocks. -/
theorem ofChains_allTopBlocks (heads : List BlockChain) :
    ofChains heads .allTopBlocks =
      ⟨(heads.map BlockChain.blocks).zipIdx.flatMap fun (blocks, chain) =>
        blocks.filterMap (ChainBlock.token? chain)⟩ := by
  rw [List.zipIdx_map, List.flatMap_map]
  rfl

section Flattening

variable {policy : HeadPolicy} {head : BlockChain} {heads : List BlockChain} {chain : Nat}
  {token : Token}

theorem chain_of_mem_tokensOfHead (member : token ∈ tokensOfHead policy head chain) :
    token.chain = chain := by
  unfold tokensOfHead at member
  split at member
  · obtain ⟨raw, -, made⟩ := List.mem_filterMap.mp member
    exact ChainBlock.chain_of_token? made
  · cases member

theorem tokens_ofChains (heads : List BlockChain) (policy : HeadPolicy) :
    (ofChains heads policy).tokens = numberedTokens policy 0 heads :=
  rfl

theorem numberedTokens_cons (policy : HeadPolicy) (first : Nat) (head : BlockChain)
    (later : List BlockChain) :
    numberedTokens policy first (head :: later) =
      tokensOfHead policy head first ++ numberedTokens policy (first + 1) later :=
  rfl

theorem chain_of_mem_numberedTokens {first : Nat}
    (member : token ∈ numberedTokens policy first heads) :
    first ≤ token.chain ∧ token.chain < first + heads.length := by
  obtain ⟨⟨head, chain⟩, inHeads, made⟩ := List.mem_flatMap.mp member
  rw [chain_of_mem_tokensOfHead made]
  exact ⟨(List.mem_zipIdx inHeads).1, (List.mem_zipIdx inHeads).2.1⟩

/-- Each number has the tokens of its head. -/
theorem filter_numberedTokens (policy : HeadPolicy) (heads : List BlockChain) (first index : Nat) :
    (numberedTokens policy first heads).filter (fun token => token.chain == first + index) =
      (heads[index]?.map fun head => tokensOfHead policy head (first + index)).getD [] := by
  induction heads generalizing first index with
  | nil => rfl
  | cons head later inductionHypothesis =>
    rw [numberedTokens_cons, List.filter_append]
    cases index with
    | zero =>
      have own : (tokensOfHead policy head first).filter (fun token => token.chain == first) =
          tokensOfHead policy head first :=
        List.filter_eq_self.mpr fun token member =>
          beq_iff_eq.mpr (chain_of_mem_tokensOfHead member)
      have others : (numberedTokens policy (first + 1) later).filter
          (fun token => token.chain == first) = [] := by
        refine List.filter_eq_nil_iff.mpr fun token member => ?_
        have beyond := (chain_of_mem_numberedTokens member).1
        rw [beq_iff_eq]
        omega
      rw [Nat.add_zero, own, others, List.append_nil]
      rfl
    | succ index =>
      have others := inductionHypothesis (first + 1) index
      have number : first + 1 + index = first + (index + 1) := by omega
      rw [number] at others
      have noneOwn : (tokensOfHead policy head first).filter
          (fun token => token.chain == first + (index + 1)) = [] := by
        refine List.filter_eq_nil_iff.mpr fun token member => ?_
        rw [chain_of_mem_tokensOfHead member, beq_iff_eq]
        omega
      rw [noneOwn, others, List.nil_append, List.getElem?_cons_succ]

/-- The tokens of a chain are those of the head with that number. -/
theorem tokensIn_ofChains (heads : List BlockChain) (policy : HeadPolicy) (chain : Nat) :
    (ofChains heads policy).tokensIn chain =
      (heads[chain]?.map fun head => tokensOfHead policy head chain).getD [] := by
  have numbered := filter_numberedTokens policy heads 0 chain
  rw [Nat.zero_add] at numbered
  rw [tokensIn, tokens_ofChains, numbered]

theorem chain_lt_of_mem_ofChains (member : token ∈ (ofChains heads policy).tokens) :
    token.chain < heads.length := by
  rw [tokens_ofChains] at member
  have bound := (chain_of_mem_numberedTokens member).2
  rwa [Nat.zero_add] at bound

end Flattening

end Sequence

end PromptBlocks
