import PromptBlocks.Shelf.Basic

/-!
Contract: the expansion of references to saved chains.

Owns:
- the limits on nesting and on the saved blocks read;
- expansion of chain heads, which share one budget of saved blocks;
- plain expansion, which knows the nesting limit only and is what the budget cuts short.

Does not own: the flattening of the expanded chains.
-/

namespace PromptBlocks.Shelf

/-- How many saved chains may be open inside one another. -/
def nestingLimit : Nat :=
  8

/-- How many saved blocks one expansion reads. -/
def blockBudget : Nat :=
  10000

/-- Read saved blocks in order while the budget lasts, each for one unit of it; what a block
contributes may use up more.  Gives the contributions and the budget left. -/
def readSaved (contribution : ChainBlock → Nat → List ChainBlock × Nat) :
    List ChainBlock → Nat → List ChainBlock × Nat
  | [], budget => ([], budget)
  | _ :: _, 0 => ([], 0)
  | raw :: later, budget + 1 =>
    let (first, left) := contribution raw budget
    let (others, final) := readSaved contribution later left
    (first ++ others, final)

/-- What a block contributes: a reference to a saved chain contributes what that chain does, unless
the chain is open already or `room` more levels are used up; any other block stands for itself. -/
def contribution (shelf : Shelf) : Nat → List String → ChainBlock → Nat → List ChainBlock × Nat
  | room, opened, raw, budget =>
    match shelf.referred? raw with
    | none => ([raw], budget)
    | some (id, chain) =>
      if opened.contains id then ([], budget)
      else
        match room with
        | 0 => ([], budget)
        | room + 1 =>
          readSaved (contribution shelf room (id :: opened)) chain.blocks budget

/-- Expand the blocks of a head; its own blocks cost nothing. -/
def expandBlocks (shelf : Shelf) : List ChainBlock → Nat → List ChainBlock × Nat
  | [], budget => ([], budget)
  | raw :: later, budget =>
    let (first, left) := contribution shelf nestingLimit [] raw budget
    let (others, final) := expandBlocks shelf later left
    (first ++ others, final)

/-- The head that stands for one without blocks, so that later heads keep their numbers. -/
def placeholder : BlockChain :=
  { head := { blockType := "", text := none }, successors := [] }

/-- Expand heads in order with a shared budget. -/
def expandHeads (shelf : Shelf) : List BlockChain → Nat → List BlockChain
  | [], _ => []
  | head :: later, budget =>
    let (blocks, left) := expandBlocks shelf head.blocks budget
    (BlockChain.ofBlocks? blocks).getD placeholder :: expandHeads shelf later left

/-- Replace every reference to a saved chain by the blocks of that chain.  A shelf that holds
nothing leaves the heads as they are. -/
def expand (shelf : Shelf) (heads : List BlockChain) : List BlockChain :=
  if shelf.isEmpty then heads else expandHeads shelf heads blockBudget

/-- What a block contributes without a budget. -/
def plainContribution (shelf : Shelf) : Nat → List String → ChainBlock → List ChainBlock
  | room, opened, raw =>
    match shelf.referred? raw with
    | none => [raw]
    | some (id, chain) =>
      if opened.contains id then []
      else
        match room with
        | 0 => []
        | room + 1 => chain.blocks.flatMap (plainContribution shelf room (id :: opened))

def expandPlainly (shelf : Shelf) (heads : List BlockChain) : List BlockChain :=
  heads.map fun head =>
    (BlockChain.ofBlocks? (head.blocks.flatMap (plainContribution shelf nestingLimit []))).getD
      placeholder

end PromptBlocks.Shelf
