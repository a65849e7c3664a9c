import Mathlib.Data.List.Basic
import PromptBlocks.Proofs.Sequence.Places

/-!
Contract: a sequence read by its positions.

Owns:
- the block and the chain at a position, and its neighbours within its run;
- stretches of positions within one run, and the first verb;
- what a place holds, read at its index.

Does not own: what any rule asks of a position.
-/

namespace PromptBlocks

namespace Sequence

def blockAt? (sequence : Sequence) (position : Nat) : Option Block :=
  sequence.tokens[position]?.map Token.block

def kindAt? (sequence : Sequence) (position : Nat) : Option BlockKind :=
  (sequence.blockAt? position).map Block.kind

def chainAt? (sequence : Sequence) (position : Nat) : Option Nat :=
  sequence.tokens[position]?.map Token.chain

/-- The block in front of a position, when it is of the same run. -/
def blockInFront? (sequence : Sequence) : Nat → Option Block
  | 0 => none
  | front + 1 =>
    if sequence.chainAt? front = sequence.chainAt? (front + 1) then sequence.blockAt? front else none

def kindInFront? (sequence : Sequence) (position : Nat) : Option BlockKind :=
  (sequence.blockInFront? position).map Block.kind

/-- The block behind a position, when it is of the same run. -/
def blockBehind? (sequence : Sequence) (position : Nat) : Option Block :=
  if sequence.chainAt? (position + 1) = sequence.chainAt? position then
    sequence.blockAt? (position + 1)
  else none

def kindBehind? (sequence : Sequence) (position : Nat) : Option BlockKind :=
  (sequence.blockBehind? position).map Block.kind

/-- The tokens from a position to a later one are of one run: they all have one chain. -/
def OneRun (sequence : Sequence) (first last : Nat) : Prop :=
  ∃ chain, ∀ position, first ≤ position → position ≤ last → sequence.chainAt? position = some chain

/-- The position of a verb with no verb in front of it, whatever the runs. -/
def IsFirstVerb (sequence : Sequence) (position : Nat) : Prop :=
  sequence.kindAt? position = some .verb ∧
    ∀ earlier < position, sequence.kindAt? earlier ≠ some .verb

variable {sequence : Sequence} {place : Place} {position : Nat}

/-! ### The tokens at and behind a place -/

theorem getElem?_index (member : place ∈ sequence.places) :
    sequence.tokens[place.index]? = some place.token := by
  obtain ⟨earlier, split, index, -⟩ := mem_places.mp member
  rw [split, index, List.getElem?_append_right (Nat.le_refl _), Nat.sub_self]
  rfl

theorem token_mem (member : place ∈ sequence.places) : place.token ∈ sequence.tokens :=
  List.mem_of_getElem? (getElem?_index member)

theorem getElem?_behind (member : place ∈ sequence.places) (offset : Nat) :
    sequence.tokens[place.index + 1 + offset]? = place.later[offset]? := by
  obtain ⟨earlier, split, index, -⟩ := mem_places.mp member
  have behind : place.index + 1 + offset - earlier.length = offset + 1 := by omega
  rw [split, List.getElem?_append_right (by omega), behind, List.getElem?_cons_succ]

theorem exists_place_of_blockAt? {block : Block} (here : sequence.blockAt? position = some block) :
    ∃ place ∈ sequence.places, place.index = position ∧ place.token.block = block := by
  obtain ⟨token, found, rfl⟩ := Option.map_eq_some_iff.mp here
  obtain ⟨inside, rfl⟩ := List.getElem?_eq_some_iff.mp found
  have split : sequence.tokens = sequence.tokens.take position ++
      sequence.tokens[position] :: sequence.tokens.drop (position + 1) := by
    rw [← List.drop_eq_getElem_cons inside, List.take_append_drop]
  have width : position = (sequence.tokens.take position).length := by
    rw [List.length_take]
    omega
  let place : Place :=
    { index := position
      before := (sequence.tokens.take position).getLast?.filter sequence.tokens[position].sameChain
      token := sequence.tokens[position]
      later := sequence.tokens.drop (position + 1) }
  exact ⟨place, mem_places.mpr ⟨_, split, width, rfl⟩, rfl, rfl⟩

theorem exists_place_of_kindAt? {kind : BlockKind} (here : sequence.kindAt? position = some kind) :
    ∃ place ∈ sequence.places, place.index = position ∧ place.token.kind = kind := by
  obtain ⟨block, found, rfl⟩ := Option.map_eq_some_iff.mp here
  obtain ⟨place, member, index, rfl⟩ := exists_place_of_blockAt? found
  exact ⟨place, member, index, rfl⟩

theorem blockAt?_index (member : place ∈ sequence.places) :
    sequence.blockAt? place.index = some place.token.block := by
  rw [blockAt?, getElem?_index member, Option.map_some]

theorem kindAt?_index (member : place ∈ sequence.places) :
    sequence.kindAt? place.index = some place.token.kind := by
  rw [kindAt?, blockAt?_index member]
  rfl

theorem chainAt?_index (member : place ∈ sequence.places) :
    sequence.chainAt? place.index = some place.token.chain := by
  rw [chainAt?, getElem?_index member, Option.map_some]

/-! ### Neighbours -/

/-- A neighbour is in sight when it is of the token's chain. -/
theorem map_block_filter_sameChain (token neighbour : Token) :
    ((some neighbour).filter token.sameChain).map Token.block =
      if some neighbour.chain = some token.chain then some neighbour.block else none := by
  rw [Option.filter_some]
  by_cases joined : neighbour.chain = token.chain
  · have same : token.sameChain neighbour = true := beq_iff_eq.mpr joined.symm
    rw [if_pos same, if_pos (congrArg some joined)]
    rfl
  · have apart : ¬ token.sameChain neighbour = true := fun same =>
      joined (beq_iff_eq.mp same).symm
    rw [if_neg apart, if_neg fun same => joined (Option.some.inj same)]
    rfl

theorem blockInFront?_index (member : place ∈ sequence.places) :
    sequence.blockInFront? place.index = place.before.map Token.block := by
  obtain ⟨earlier, split, index, before⟩ := mem_places.mp member
  rcases List.eq_nil_or_concat' earlier with rfl | ⟨others, front, rfl⟩
  · rw [index, before]
    rfl
  · have width : place.index = others.length + 1 := by
      rw [index, List.length_append, List.length_singleton]
    have inFront : sequence.tokens[others.length]? = some front := by
      rw [split, List.append_assoc, List.getElem?_append_right (Nat.le_refl _), Nat.sub_self]
      rfl
    have here := chainAt?_index member
    rw [width] at here
    rw [width, blockInFront?, here, chainAt?, blockAt?, inFront, before, List.getLast?_concat,
      map_block_filter_sameChain]
    rfl

theorem kindInFront?_index (member : place ∈ sequence.places) :
    sequence.kindInFront? place.index = place.before.map Token.kind := by
  rw [kindInFront?, blockInFront?_index member, Option.map_map]
  rfl

theorem blockBehind?_index (member : place ∈ sequence.places) :
    sequence.blockBehind? place.index = place.next?.map Token.block := by
  have behind := getElem?_behind member 0
  rw [Nat.add_zero] at behind
  rw [blockBehind?, chainAt?_index member, chainAt?, blockAt?, behind, Place.next?]
  cases place.later with
  | nil => rfl
  | cons token rest =>
    rw [List.getElem?_cons_zero, List.head?_cons, map_block_filter_sameChain]
    rfl

theorem kindBehind?_index (member : place ∈ sequence.places) :
    sequence.kindBehind? place.index = place.next?.map Token.kind := by
  rw [kindBehind?, blockBehind?_index member, Option.map_map]
  rfl

/-! ### Followers -/

/-- Something among the first elements that pass a test: it and all in front of it pass. -/
theorem any_takeWhile_iff {α : Type} {elements : List α} {passes holds : α → Bool} :
    (elements.takeWhile passes).any holds = true ↔
      ∃ (offset : Nat) (element : α), elements[offset]? = some element ∧ holds element = true ∧
        ∀ index : Nat, index ≤ offset →
          ∃ other, elements[index]? = some other ∧ passes other = true := by
  induction elements with
  | nil => simp
  | cons first rest inductionHypothesis =>
    by_cases passed : passes first = true
    · rw [List.takeWhile_cons_of_pos passed, List.any_cons, Bool.or_eq_true, inductionHypothesis]
      constructor
      · rintro (here | ⟨offset, element, found, holds, all⟩)
        · refine ⟨0, first, rfl, here, fun index bound => ?_⟩
          obtain rfl := Nat.le_zero.mp bound
          exact ⟨first, rfl, passed⟩
        · refine ⟨offset + 1, element, found, holds, fun index bound => ?_⟩
          cases index with
          | zero => exact ⟨first, rfl, passed⟩
          | succ index => exact all index (by omega)
      · rintro ⟨offset, element, found, holds, all⟩
        cases offset with
        | zero =>
          obtain rfl := Option.some.inj found
          exact .inl holds
        | succ offset =>
          exact .inr ⟨offset, element, found, holds, fun index bound => all (index + 1) (by omega)⟩
    · rw [List.takeWhile_cons_of_neg passed]
      constructor
      · intro none
        cases none
      · rintro ⟨offset, -, -, -, all⟩
        obtain ⟨other, isFirst, passedOther⟩ := all 0 (Nat.zero_le _)
        obtain rfl := Option.some.inj isFirst
        exact absurd passedOther passed

/-- What follows a place in its run stands at later positions of the run. -/
theorem any_followers_iff (member : place ∈ sequence.places) (holds : Block → Bool) :
    (place.followers.any fun token => holds token.block) = true ↔
      ∃ later, place.index < later ∧ sequence.OneRun place.index later ∧
        ∃ block, sequence.blockAt? later = some block ∧ holds block = true := by
  rw [Place.followers, any_takeWhile_iff]
  constructor
  · rintro ⟨offset, token, found, holds, joined⟩
    refine ⟨place.index + 1 + offset, by omega, ⟨place.token.chain, ?_⟩, token.block, ?_, holds⟩
    · intro position from_ upTo
      rcases Nat.eq_or_lt_of_le from_ with rfl | behind
      · exact chainAt?_index member
      · obtain ⟨index, rfl⟩ := Nat.exists_eq_add_of_le (Nat.succ_le_of_lt behind)
        obtain ⟨other, isOther, same⟩ := joined index (by omega)
        rw [chainAt?, getElem?_behind member, isOther]
        exact congrArg some (beq_iff_eq.mp same).symm
    · rw [blockAt?, getElem?_behind member, found]
      rfl
  · rintro ⟨later, behind, ⟨chain, inRun⟩, block, found, holds⟩
    obtain ⟨offset, rfl⟩ := Nat.exists_eq_add_of_le (Nat.succ_le_of_lt behind)
    have own := inRun place.index (Nat.le_refl _) (by omega)
    rw [chainAt?_index member] at own
    rw [blockAt?, getElem?_behind member] at found
    obtain ⟨token, isToken, rfl⟩ := Option.map_eq_some_iff.mp found
    refine ⟨offset, token, isToken, holds, fun index bound => ?_⟩
    have there := inRun (place.index + 1 + index) (by omega) (by omega)
    rw [chainAt?, getElem?_behind member] at there
    obtain ⟨other, isOther, ofChain⟩ := Option.map_eq_some_iff.mp there
    exact ⟨other, isOther, beq_iff_eq.mpr ((Option.some.inj own).trans ofChain.symm)⟩

/-! ### The whole sequence -/

/-- What holds of no token up to a split holds at no position up to it. -/
theorem forall_blockAt?_iff {earlier later : List Token}
    (split : sequence.tokens = earlier ++ later) (Holds : Block → Prop) :
    (∀ index < earlier.length, ∀ block, sequence.blockAt? index = some block → Holds block) ↔
      ∀ token ∈ earlier, Holds token.block := by
  constructor
  · intro everywhere token member
    obtain ⟨index, inside, rfl⟩ := List.getElem_of_mem member
    refine everywhere index inside _ ?_
    rw [blockAt?, split, List.getElem?_append_left inside, List.getElem?_eq_getElem inside]
    rfl
  · intro everywhere index inside block found
    rw [blockAt?, split, List.getElem?_append_left inside, List.getElem?_eq_getElem inside] at found
    obtain rfl := Option.some.inj found
    exact everywhere _ (List.getElem_mem inside)

end Sequence

end PromptBlocks
