import PromptBlocks.Chain.Basic
import PromptBlocks.Text.Basic

/-!
Contract: chains saved under a name.

Owns:
- shelves: finite maps from ids to chains, listed by id;
- saving, removing and finding a chain;
- the block type that refers to a saved chain.

Does not own: the expansion of references.
-/

namespace PromptBlocks

/-- Saved chains by id, in strictly increasing order of ids. -/
structure Shelf where
  entries : List (String × BlockChain)
  sorted : entries.Pairwise fun left right => left.1 < right.1 := by decide

namespace Shelf

def empty : Shelf :=
  { entries := [] }

/-- Save a chain among entries in increasing order, in place of one with the same id. -/
def insertEntry (id : String) (chain : BlockChain) :
    List (String × BlockChain) → List (String × BlockChain)
  | [] => [(id, chain)]
  | (key, saved) :: later =>
    if id < key then (id, chain) :: (key, saved) :: later
    else if id = key then (id, chain) :: later
    else (key, saved) :: insertEntry id chain later

theorem mem_insertEntry {id : String} {chain : BlockChain} {entries : List (String × BlockChain)}
    {entry : String × BlockChain} (member : entry ∈ insertEntry id chain entries) :
    entry = (id, chain) ∨ entry ∈ entries := by
  induction entries with
  | nil => simpa [insertEntry] using member
  | cons first later inductionHypothesis =>
    obtain ⟨key, saved⟩ := first
    simp only [insertEntry] at member
    split at member
    · simpa using member
    · split at member
      · rcases List.mem_cons.mp member with same | inLater
        · exact .inl same
        · exact .inr (List.mem_cons_of_mem _ inLater)
      · rcases List.mem_cons.mp member with same | inLater
        · exact .inr (same ▸ List.mem_cons_self)
        · exact (inductionHypothesis inLater).imp_right (List.mem_cons_of_mem _)

theorem sorted_insertEntry (id : String) (chain : BlockChain)
    {entries : List (String × BlockChain)}
    (sorted : entries.Pairwise fun left right => left.1 < right.1) :
    (insertEntry id chain entries).Pairwise fun left right => left.1 < right.1 := by
  induction entries with
  | nil => simp [insertEntry]
  | cons first later inductionHypothesis =>
    obtain ⟨key, saved⟩ := first
    obtain ⟨firstBefore, laterSorted⟩ := List.pairwise_cons.mp sorted
    simp only [insertEntry]
    split
    · rename_i idBefore
      refine List.pairwise_cons.mpr ⟨?_, sorted⟩
      intro entry member
      rcases List.mem_cons.mp member with rfl | inLater
      · exact idBefore
      · exact String.lt_trans idBefore (firstBefore entry inLater)
    · rename_i notBefore
      split
      · rename_i same
        exact List.pairwise_cons.mpr ⟨fun entry member => same ▸ firstBefore entry member,
          laterSorted⟩
      · rename_i different
        refine List.pairwise_cons.mpr ⟨?_, inductionHypothesis laterSorted⟩
        intro entry member
        rcases mem_insertEntry member with rfl | inLater
        · refine String.not_le.mp fun idAtMost => ?_
          exact different (String.le_antisymm idAtMost (String.not_lt.mp notBefore))
        · exact firstBefore entry inLater

/-- The shelf with a chain under an id, in place of one that was there. -/
def insert (shelf : Shelf) (id : String) (chain : BlockChain) : Shelf :=
  { entries := insertEntry id chain shelf.entries
    sorted := sorted_insertEntry id chain shelf.sorted }

/-- Why a chain is not saved. -/
inductive Refusal
  | blankId
  deriving DecidableEq, Repr

/-- Save a chain.  The id is looked at first: one of blanks only is refused. -/
def register (id : String) (chain : BlockChain) : ExceptT Refusal (StateM Shelf) Unit := do
  if Text.isAllBlank id then throw .blankId
  modify fun shelf => shelf.insert id chain

theorem run_register (shelf : Shelf) (id : String) (chain : BlockChain) :
    (register id chain).run.run shelf =
      if Text.isAllBlank id then (.error .blankId, shelf) else (.ok (), shelf.insert id chain) := by
  unfold register
  split <;> rfl

/-- The shelf that saving a chain leaves, unless it is refused. -/
def register? (shelf : Shelf) (id : String) (chain : BlockChain) : Option Shelf :=
  match (register id chain).run.run shelf with
  | (.ok (), saved) => some saved
  | (.error _, _) => none

theorem register?_eq_insert (shelf : Shelf) (id : String) (chain : BlockChain) :
    shelf.register? id chain =
      if Text.isAllBlank id then none else some (shelf.insert id chain) := by
  rw [register?, run_register]
  cases Text.isAllBlank id <;> rfl

def remove (shelf : Shelf) (id : String) : Shelf :=
  { entries := shelf.entries.filter fun entry => entry.1 != id
    sorted := shelf.sorted.filter _ }

def get? (shelf : Shelf) (id : String) : Option BlockChain :=
  shelf.entries.lookup id

def contains (shelf : Shelf) (id : String) : Bool :=
  (shelf.get? id).isSome

def ids (shelf : Shelf) : List String :=
  shelf.entries.map Prod.fst

def size (shelf : Shelf) : Nat :=
  shelf.entries.length

def isEmpty (shelf : Shelf) : Bool :=
  shelf.entries.isEmpty

/-- Remove a chain, and tell whether there was one. -/
def withdraw (id : String) : StateM Shelf Bool := do
  let present := (← get).contains id
  modify fun shelf => shelf.remove id
  return present

/-- What the block type of every reference starts with. -/
def referenceMark : String :=
  "promps_template_"

/-- The block type that refers to the chain with an id. -/
def referenceTo (id : String) : String :=
  referenceMark ++ id

def referredId? (blockType : String) : Option String :=
  Text.behind? referenceMark blockType

/-- The saved chain that a block refers to, with its id. -/
def referred? (shelf : Shelf) (raw : ChainBlock) : Option (String × BlockChain) := do
  let id ← referredId? raw.blockType
  let chain ← shelf.get? id
  pure (id, chain)

end Shelf

end PromptBlocks
