import PromptBlocks.Proofs.Sequence.Places

/-!
Contract: sequences whose tokens store their positions.

Owns:
- placed tokens in a list, with edits that keep the stored positions up: an appended token is given
  the next position, and around an insertion all tokens are numbered anew;
- the placed form of a sequence, on which each of these edits does what the edit of the sequence does;
- steps taken one after the other, and those among them that append;
- where a sequence puts an inserted token, and the chain that it joins there.

Does not own: which edits are made, and where sequences come from.
-/

namespace PromptBlocks

/-- Tokens that store their positions. -/
structure PlacedSequence where
  tokens : List PlacedToken
  deriving DecidableEq, Repr

namespace PlacedSequence

def empty : PlacedSequence :=
  ⟨[]⟩

/-- Every token's place for its position, whatever its position was. -/
def renumber (tokens : List PlacedToken) : List PlacedToken :=
  tokens.zipIdx.map fun (placed, position) => { placed with position }

def ofTokens (tokens : List PlacedToken) : PlacedSequence :=
  ⟨renumber tokens⟩

/-- The chain of the token at an index, of the last one when there is none at it, and zero without
tokens. -/
def chainNear (sequence : PlacedSequence) (index : Nat) : Nat :=
  ((sequence.tokens[index]?.or sequence.tokens.getLast?).map fun placed => placed.token.chain).getD 0

/-- Append a token.  Its position is the count of those in front, which is right only as long as their
positions are. -/
def pushInChain (sequence : PlacedSequence) (placed : PlacedToken) (chain : Nat) : PlacedSequence :=
  ⟨sequence.tokens ++ [{ token := placed.token.inChain chain, position := sequence.tokens.length }]⟩

def push (sequence : PlacedSequence) (placed : PlacedToken) : PlacedSequence :=
  sequence.pushInChain placed
    ((sequence.tokens.getLast?.map fun placed => placed.token.chain).getD 0)

/-- Put a token of a chain into a slot, and number all tokens anew. -/
def insertAt (sequence : PlacedSequence) (slot : Nat) (placed : PlacedToken) (chain : Nat) :
    PlacedSequence :=
  ⟨renumber (sequence.tokens.take slot ++
    { placed with token := placed.token.inChain chain } :: sequence.tokens.drop slot)⟩

/-- Insert a token before an index, which is cut down to the length. -/
def insert (sequence : PlacedSequence) (index : Nat) (placed : PlacedToken) : PlacedSequence :=
  let slot := min index sequence.tokens.length
  sequence.insertAt slot placed (sequence.chainNear slot)

/-- Insert a token after the token at an index, or append it when there is no such token. -/
def insertAfter (sequence : PlacedSequence) (index : Nat) (placed : PlacedToken) : PlacedSequence :=
  match sequence.tokens[index]? with
  | some anchor => sequence.insertAt (index + 1) placed anchor.token.chain
  | none => sequence.push placed

end PlacedSequence

namespace Sequence

/-- The sequence with its positions stored. -/
def withPositions (sequence : Sequence) : PlacedSequence :=
  ⟨sequence.placed⟩

/-- The chain of the token at an index, of the last one when there is none at it, and zero without
tokens. -/
def chainNear (sequence : Sequence) (index : Nat) : Nat :=
  ((sequence.tokens[index]?.or sequence.tokens.getLast?).map Token.chain).getD 0

variable (sequence : Sequence) (token : Token) (index : Nat)

/-! ### Where an inserted token goes -/

theorem chainNear_of_getElem? {anchor : Token} (here : sequence.tokens[index]? = some anchor) :
    sequence.chainNear index = anchor.chain := by
  rw [chainNear, here]
  rfl

/-- Past the end, the last token is the near one. -/
theorem chainNear_of_le (outside : sequence.length ≤ index) :
    sequence.chainNear index = sequence.lastChain := by
  rw [chainNear, List.getElem?_eq_none outside]
  rfl

theorem chainNear_min_length :
    sequence.chainNear (min index sequence.length) = sequence.chainNear index := by
  rcases Nat.lt_or_ge index sequence.length with inside | outside
  · rw [Nat.min_eq_left (Nat.le_of_lt inside)]
  · rw [Nat.min_eq_right outside, chainNear_of_le sequence _ (Nat.le_refl _),
      chainNear_of_le sequence index outside]

theorem insert_eq :
    sequence.insert index token =
      ⟨sequence.tokens.take index ++
        token.inChain (sequence.chainNear index) :: sequence.tokens.drop index⟩ := by
  have joined : (chainBefore (sequence.tokens.drop index)).getD sequence.lastChain =
      sequence.chainNear index := by
    rw [chainNear, ← List.head?_drop]
    cases sequence.tokens.drop index with
    | nil => rfl
    | cons next later => rfl
  rw [insert, joined]

theorem insertAfter_eq_of_lt (inside : index < sequence.length) :
    sequence.insertAfter index token =
      ⟨sequence.tokens.take (index + 1) ++
        token.inChain (sequence.chainNear index) :: sequence.tokens.drop (index + 1)⟩ := by
  have anchor : sequence.tokens[index]? = some sequence.tokens[index] :=
    List.getElem?_eq_getElem inside
  rw [insertAfter, anchor, chainNear_of_getElem? sequence index anchor]

theorem insertAfter_eq_of_le (outside : sequence.length ≤ index) :
    sequence.insertAfter index token = sequence.push token := by
  rw [insertAfter, List.getElem?_eq_none outside]

/-! ### Placed tokens -/

theorem length_placed : sequence.placed.length = sequence.length := by
  rw [placed, List.length_map, List.length_zipIdx, length]

theorem getElem?_placed :
    sequence.placed[index]? =
      sequence.tokens[index]?.map fun token => { token, position := index } := by
  rw [placed, List.getElem?_map, List.getElem?_zipIdx, Option.map_map, Nat.zero_add]
  rfl

theorem map_chain_getLast?_placed :
    (sequence.placed.getLast?.map fun placed => placed.token.chain) =
      sequence.tokens.getLast?.map Token.chain := by
  rw [← map_token_placed, List.getLast?_map, Option.map_map]
  rfl

theorem chainNear_withPositions :
    sequence.withPositions.chainNear index = sequence.chainNear index := by
  have near : (sequence.placed[index]?.or sequence.placed.getLast?).map
        (fun placed => placed.token.chain) =
      (sequence.tokens[index]?.or sequence.tokens.getLast?).map Token.chain := by
    rw [Option.map_or, Option.map_or, getElem?_placed, map_chain_getLast?_placed, Option.map_map]
    rfl
  exact congrArg (Option.getD · 0) near

end Sequence

namespace PlacedSequence

open Sequence

theorem renumber_eq_placed (tokens : List PlacedToken) :
    renumber tokens = (ofPlaced tokens).placed := by
  rw [renumber, placed, ofPlaced, List.zipIdx_map, List.map_map]
  rfl

/-- Numbering forgets the positions that come with tokens. -/
theorem ofTokens_eq (tokens : List PlacedToken) :
    ofTokens tokens = (ofPlaced tokens).withPositions :=
  congrArg PlacedSequence.mk (renumber_eq_placed tokens)

/-! ### Edits -/

section Edits

variable (sequence : Sequence) (placed : PlacedToken)

theorem pushInChain_withPositions (chain : Nat) :
    sequence.withPositions.pushInChain placed chain =
      (sequence.pushInChain placed.token chain).withPositions := by
  have appended : (sequence.pushInChain placed.token chain).placed =
      sequence.placed ++
        [{ token := placed.token.inChain chain, position := sequence.tokens.length }] := by
    rw [Sequence.placed, Sequence.pushInChain, List.zipIdx_append, List.map_append, Nat.zero_add]
    rfl
  rw [pushInChain, withPositions, length_placed]
  exact congrArg PlacedSequence.mk appended.symm

theorem push_withPositions :
    sequence.withPositions.push placed = (sequence.push placed.token).withPositions := by
  have sameChain : (sequence.withPositions.tokens.getLast?.map fun placed => placed.token.chain) =
      sequence.tokens.getLast?.map Token.chain :=
    sequence.map_chain_getLast?_placed
  rw [push, sameChain, pushInChain_withPositions]
  rfl

theorem insertAt_withPositions (slot chain : Nat) :
    sequence.withPositions.insertAt slot placed chain =
      (Sequence.mk (sequence.tokens.take slot ++
        placed.token.inChain chain :: sequence.tokens.drop slot)).withPositions := by
  have tokens : (sequence.withPositions.tokens.take slot ++
        { placed with token := placed.token.inChain chain } ::
          sequence.withPositions.tokens.drop slot).map PlacedToken.token =
      sequence.tokens.take slot ++ placed.token.inChain chain :: sequence.tokens.drop slot := by
    rw [List.map_append, List.map_cons, List.map_take, List.map_drop, withPositions,
      map_token_placed]
  rw [insertAt, renumber_eq_placed, ofPlaced, tokens]
  rfl

theorem insert_withPositions (index : Nat) :
    sequence.withPositions.insert index placed =
      (sequence.insert index placed.token).withPositions := by
  have count : sequence.withPositions.tokens.length = sequence.length := sequence.length_placed
  rw [insert, count, insertAt_withPositions, chainNear_withPositions, chainNear_min_length, insert_eq,
    length, ← List.take_eq_take_min, ← List.drop_eq_drop_min]

theorem insertAfter_withPositions (index : Nat) :
    sequence.withPositions.insertAfter index placed =
      (sequence.insertAfter index placed.token).withPositions := by
  have here : sequence.withPositions.tokens[index]? = _ := sequence.getElem?_placed index
  rw [insertAfter, Sequence.insertAfter, here]
  cases sequence.tokens[index]? with
  | none => exact push_withPositions sequence placed
  | some anchor => exact insertAt_withPositions sequence placed (index + 1) anchor.chain

end Edits

/-- Steps that each do on stored positions what they do without them do so one after the other. -/
theorem foldl_withPositions {Item : Type} {stored : PlacedSequence → Item → PlacedSequence}
    {plain : Sequence → Item → Sequence}
    (alike : ∀ (sequence : Sequence) (item : Item),
      stored sequence.withPositions item = (plain sequence item).withPositions)
    (items : List Item) (sequence : Sequence) :
    items.foldl stored sequence.withPositions = (items.foldl plain sequence).withPositions := by
  induction items generalizing sequence with
  | nil => rfl
  | cons item later inductionHypothesis =>
    rw [List.foldl_cons, alike, inductionHypothesis, List.foldl_cons]

/-- Steps that append tokens each append them all, in the order of the steps. -/
theorem foldl_append_withPositions {Item : Type} {step : PlacedSequence → Item → PlacedSequence}
    {made : Item → List Token}
    (appends : ∀ (sequence : Sequence) (item : Item),
      step sequence.withPositions item =
        (Sequence.mk (sequence.tokens ++ made item)).withPositions)
    (items : List Item) (sequence : Sequence) :
    items.foldl step sequence.withPositions =
      (Sequence.mk (sequence.tokens ++ items.flatMap made)).withPositions := by
  rw [foldl_withPositions appends]
  congr 1
  induction items generalizing sequence with
  | nil => rw [List.foldl_nil, List.flatMap_nil, List.append_nil]
  | cons item later inductionHypothesis =>
    rw [List.foldl_cons, inductionHypothesis, List.flatMap_cons, List.append_assoc]

end PlacedSequence

end PromptBlocks
