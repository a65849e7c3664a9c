import PromptBlocks.Sequence.Place

/-!
Contract: the places of a token list as the ways to split it at a token.

Owns:
- membership: a place is a split of the list, with the last token in front as its neighbour;
- one place for each index, and the place behind a known token;
- the positions of placed tokens.

Does not own: what any rule makes of a place.
-/

namespace PromptBlocks

attribute [ext] Place

/-- A token moved to a chain is a neighbour there. -/
theorem Token.filter_sameChain_inChain (token new : Token) :
    (some (new.inChain token.chain)).filter token.sameChain = some (new.inChain token.chain) := by
  have same : token.sameChain (new.inChain token.chain) = true := beq_iff_eq.mpr rfl
  rw [Option.filter_some, if_pos same]

namespace Place

/-- The last token of a list behind a previous one. -/
theorem getLast?_cons_or (token : Token) (rest : List Token) (previous : Option Token) :
    (token :: rest).getLast?.or previous = rest.getLast?.or (some token) := by
  rw [List.getLast?_cons]
  cases rest.getLast? <;> rfl

theorem mem_listFrom {index : Nat} {previous : Option Token} {tokens : List Token} {place : Place} :
    place ∈ listFrom index previous tokens ↔
      ∃ earlier : List Token, tokens = earlier ++ place.token :: place.later ∧
        place.index = index + earlier.length ∧
        place.before = (earlier.getLast?.or previous).filter place.token.sameChain := by
  induction tokens generalizing index previous with
  | nil => simp [listFrom]
  | cons token rest inductionHypothesis =>
    rw [listFrom, List.mem_cons, inductionHypothesis]
    constructor
    · rintro (rfl | ⟨earlier, rfl, position, neighbour⟩)
      · exact ⟨[], rfl, rfl, rfl⟩
      · refine ⟨token :: earlier, rfl, ?_, ?_⟩
        · rw [position, List.length_cons]
          omega
        · rw [neighbour, getLast?_cons_or]
    · rintro ⟨earlier, split, position, neighbour⟩
      cases earlier with
      | nil =>
        left
        obtain ⟨sameToken, sameLater⟩ := List.cons.inj split
        exact Place.ext position (sameToken ▸ neighbour) sameToken.symm sameLater.symm
      | cons first earlier =>
        right
        obtain ⟨rfl, rfl⟩ := List.cons.inj split
        refine ⟨earlier, rfl, ?_, ?_⟩
        · rw [position, List.length_cons]
          omega
        · rw [neighbour, getLast?_cons_or]

theorem index_lt_of_listFrom (index : Nat) (previous : Option Token) (tokens : List Token) :
    (listFrom index previous tokens).Pairwise fun left right => left.index < right.index := by
  induction tokens generalizing index previous with
  | nil => exact List.Pairwise.nil
  | cons token rest inductionHypothesis =>
    refine List.pairwise_cons.mpr ⟨?_, inductionHypothesis _ _⟩
    intro place member
    obtain ⟨earlier, -, position, -⟩ := mem_listFrom.mp member
    show index < place.index
    omega

end Place

namespace Sequence

/-- Positions count the tokens from zero. -/
theorem map_position_placed (sequence : Sequence) :
    sequence.placed.map PlacedToken.position = List.range sequence.length := by
  have positions : sequence.placed.map PlacedToken.position =
      sequence.tokens.zipIdx.map Prod.snd := by
    rw [placed, List.map_map]
    rfl
  rw [positions, List.zipIdx_map_snd, List.range_eq_range', length]

theorem map_token_placed (sequence : Sequence) :
    sequence.placed.map PlacedToken.token = sequence.tokens := by
  have tokens : sequence.placed.map PlacedToken.token = sequence.tokens.zipIdx.map Prod.fst := by
    rw [placed, List.map_map]
    rfl
  rw [tokens, List.zipIdx_map_fst]

theorem ofPlaced_placed (sequence : Sequence) : ofPlaced sequence.placed = sequence :=
  congrArg Sequence.mk sequence.map_token_placed

/-- A place of a sequence is a split of its tokens. -/
theorem mem_places {sequence : Sequence} {place : Place} :
    place ∈ sequence.places ↔
      ∃ earlier : List Token, sequence.tokens = earlier ++ place.token :: place.later ∧
        place.index = earlier.length ∧
        place.before = earlier.getLast?.filter place.token.sameChain := by
  rw [places, Place.mem_listFrom]
  simp only [Nat.zero_add, Option.or_none]

theorem index_lt_length {sequence : Sequence} {place : Place} (member : place ∈ sequence.places) :
    place.index < sequence.length := by
  obtain ⟨earlier, split, position, -⟩ := mem_places.mp member
  rw [length, split, position, List.length_append, List.length_cons]
  omega

theorem place_eq_of_index_eq {sequence : Sequence} {left right : Place}
    (leftMember : left ∈ sequence.places) (rightMember : right ∈ sequence.places)
    (same : left.index = right.index) : left = right := by
  obtain ⟨leftEarlier, leftSplit, leftIndex, leftBefore⟩ := mem_places.mp leftMember
  obtain ⟨rightEarlier, rightSplit, rightIndex, rightBefore⟩ := mem_places.mp rightMember
  have lengths : leftEarlier.length = rightEarlier.length := by omega
  obtain ⟨rfl, tails⟩ := List.append_inj (leftSplit.symm.trans rightSplit) lengths
  obtain ⟨sameToken, sameLater⟩ := List.cons.inj tails
  exact Place.ext same (by rw [leftBefore, rightBefore, sameToken]) sameToken sameLater

theorem place_of_split {sequence : Sequence} {place : Place} {earlier later : List Token}
    {token : Token} (member : place ∈ sequence.places)
    (split : sequence.tokens = earlier ++ token :: later) (position : place.index = earlier.length) :
    place =
      { index := earlier.length
        before := earlier.getLast?.filter token.sameChain
        token
        later } :=
  place_eq_of_index_eq member (mem_places.mpr ⟨earlier, split, rfl, rfl⟩) position

/-- The place right behind a token of its chain. -/
theorem place_behind {sequence : Sequence} {place : Place} {earlier later : List Token}
    {front token : Token} (member : place ∈ sequence.places)
    (split : sequence.tokens = earlier ++ front :: token :: later)
    (position : place.index = earlier.length + 1) (joined : front.chain = token.chain) :
    place.token = token ∧ place.before = some front := by
  have regrouped : sequence.tokens = (earlier ++ [front]) ++ token :: later := by
    rw [split, List.append_assoc, List.singleton_append]
  have width : place.index = (earlier ++ [front]).length := by
    rw [position, List.length_append, List.length_singleton]
  have same : token.sameChain front = true := beq_iff_eq.mpr joined.symm
  obtain rfl := place_of_split member regrouped width
  refine ⟨rfl, ?_⟩
  show (earlier ++ [front]).getLast?.filter token.sameChain = some front
  rw [List.getLast?_concat, Option.filter_some, if_pos same]

end Sequence

end PromptBlocks
