import PromptBlocks.Sequence.Basic

/-!
Contract: editor chains and their flattening into sequences.

Owns:
- chains of raw blocks, whose types may lie outside the vocabulary;
- the flattening of chain heads under a policy, and the chains of a sequence;
- a builder of chains from single steps.

Does not own: saved chains and their references.
-/

namespace PromptBlocks

structure ChainBlock where
  /-- The block id, possibly outside the vocabulary. -/
  blockType : String
  text : Option String
  deriving DecidableEq, Repr

/-- A chain of blocks: the head and its successors in order. -/
structure BlockChain where
  head : ChainBlock
  successors : List ChainBlock
  deriving DecidableEq, Repr

namespace BlockChain

def blocks (chain : BlockChain) : List ChainBlock :=
  chain.head :: chain.successors

/-- The chain with the given blocks; no blocks make no chain. -/
def ofBlocks? : List ChainBlock → Option BlockChain
  | [] => none
  | head :: successors => some { head, successors }

def length (chain : BlockChain) : Nat :=
  chain.blocks.length

def isConnected (chain : BlockChain) : Bool :=
  !chain.successors.isEmpty

end BlockChain

inductive HeadPolicy
  /-- Every head, isolated ones too. -/
  | allTopBlocks
  /-- Only heads with a successor. -/
  | connectedOnly
  deriving DecidableEq, Repr

namespace HeadPolicy

instance : Inhabited HeadPolicy := ⟨.allTopBlocks⟩

instance : Enumerated HeadPolicy where
  all := [.allTopBlocks, .connectedOnly]
  id
    | .allTopBlocks => "allTopBlocks"
    | .connectedOnly => "connectedOnly"

def admits : HeadPolicy → BlockChain → Bool
  | .allTopBlocks, _ => true
  | .connectedOnly, chain => chain.isConnected

end HeadPolicy

/-- The token of a raw block; a block outside the vocabulary has none. -/
def ChainBlock.token? (chain : Nat) (raw : ChainBlock) : Option Token :=
  (Block.ofId? raw.blockType).map fun block => (Token.ofBlock block raw.text).inChain chain

def Token.toChainBlock (token : Token) : ChainBlock :=
  { blockType := token.block.id, text := token.text }

namespace Sequence

/-- The tokens of the admitted heads, each chain in order; a token's chain is the number of its head
among all heads. -/
def ofChains (heads : List BlockChain) (policy : HeadPolicy) : Sequence :=
  ⟨heads.zipIdx.flatMap fun (head, chain) =>
    if policy.admits head then head.blocks.filterMap (ChainBlock.token? chain) else []⟩

def toChains (sequence : Sequence) : List BlockChain :=
  sequence.runs.filterMap fun run => BlockChain.ofBlocks? (run.map Token.toChainBlock)

end Sequence

/-- Chains under construction: the segments of blocks written so far, the open one last. -/
structure ChainBuilder where
  segments : List (List ChainBlock)
  deriving DecidableEq, Repr

namespace ChainBuilder

def fresh : ChainBuilder :=
  ⟨[[]]⟩

/-- A builder without segments; the first block opens one. -/
def unopened : ChainBuilder :=
  ⟨[]⟩

/-- Put a block at the end of the last segment, opening one where there is none. -/
def appendToLast (raw : ChainBlock) : List (List ChainBlock) → List (List ChainBlock)
  | [] => [[raw]]
  | [segment] => [segment ++ [raw]]
  | segment :: later => segment :: appendToLast raw later

def block (builder : ChainBuilder) (raw : ChainBlock) : ChainBuilder :=
  ⟨appendToLast raw builder.segments⟩

def newChain (builder : ChainBuilder) : ChainBuilder :=
  ⟨builder.segments ++ [[]]⟩

/-- The chains of the segments that hold a block. -/
def build (builder : ChainBuilder) : List BlockChain :=
  builder.segments.filterMap BlockChain.ofBlocks?

def linearize (builder : ChainBuilder) : Sequence :=
  Sequence.ofChains builder.build default

end ChainBuilder

end PromptBlocks
