import Mathlib.Data.List.Basic
import PromptBlocks.Proofs.Sequence.Stretches

/-!
Contract: token lists that differ in texts and chain numbers only.

Owns:
- alike lists: the same blocks, and the same neighbours of one chain;
- what is in sight from a place, in blocks;
- the places of alike lists, which have the same in sight.

Does not own: what any rule makes of it.
-/

namespace PromptBlocks

/-- Two lists with the same blocks in order, whose neighbours are of one chain at the same places.  Texts
and chain numbers may differ. -/
inductive Alike : List Token → List Token → Prop
  | nil : Alike [] []
  | cons {left right : Token} {leftRest rightRest : List Token}
      (sameBlock : left.block = right.block)
      (sameJoin : leftRest.head?.map left.sameChain = rightRest.head?.map right.sameChain)
      (rest : Alike leftRest rightRest) :
      Alike (left :: leftRest) (right :: rightRest)

namespace Alike

variable {left right leftBack rightBack : List Token}

theorem map_block (alike : Alike left right) : left.map Token.block = right.map Token.block := by
  induction alike with
  | nil => rfl
  | cons sameBlock _ _ inductionHypothesis =>
    rw [List.map_cons, List.map_cons, sameBlock, inductionHypothesis]

theorem isEmpty_eq (alike : Alike left right) : left.isEmpty = right.isEmpty := by
  cases alike <;> rfl

/-- Alike lists one behind the other are alike when they join in the same way. -/
theorem append (front : Alike left right) (back : Alike leftBack rightBack)
    (sameJoin : ∀ leftLast ∈ left.getLast?, ∀ rightLast ∈ right.getLast?,
      leftBack.head?.map leftLast.sameChain = rightBack.head?.map rightLast.sameChain) :
    Alike (left ++ leftBack) (right ++ rightBack) := by
  induction front with
  | nil => exact back
  | @cons leftToken rightToken leftRest rightRest sameBlock ownJoin rest inductionHypothesis =>
    cases rest with
    | nil => exact .cons sameBlock (sameJoin leftToken rfl rightToken rfl) back
    | cons _ _ _ =>
      rw [List.getLast?_cons_cons, List.getLast?_cons_cons] at sameJoin
      exact .cons sameBlock ownJoin (inductionHypothesis sameJoin)

/-- Tokens in front of alike lists of other chains join them in the same way: not at all. -/
theorem sameJoin_of_apart (alike : Alike left right) {leftToken rightToken : Token}
    (leftApart : ∀ next ∈ left.head?, next.chain ≠ leftToken.chain)
    (rightApart : ∀ next ∈ right.head?, next.chain ≠ rightToken.chain) :
    left.head?.map leftToken.sameChain = right.head?.map rightToken.sameChain := by
  cases alike with
  | nil => rfl
  | @cons leftNext rightNext =>
    have leftCut : leftToken.sameChain leftNext = false :=
      beq_false_of_ne (leftApart leftNext rfl).symm
    have rightCut : rightToken.sameChain rightNext = false :=
      beq_false_of_ne (rightApart rightNext rfl).symm
    simp only [List.head?_cons, Option.map_some, leftCut, rightCut]

/-- Lists of one chain each are alike when their blocks are. -/
theorem of_map_block {leftChain rightChain : Nat}
    (sameBlocks : left.map Token.block = right.map Token.block)
    (leftOf : ∀ token ∈ left, token.chain = leftChain)
    (rightOf : ∀ token ∈ right, token.chain = rightChain) : Alike left right := by
  induction left generalizing right with
  | nil =>
    obtain rfl := List.map_eq_nil_iff.mp sameBlocks.symm
    exact .nil
  | cons leftToken leftRest inductionHypothesis =>
    cases right with
    | nil => cases sameBlocks
    | cons rightToken rightRest =>
      obtain ⟨sameBlock, sameRest⟩ := List.cons.inj sameBlocks
      obtain ⟨leftHead, leftTail⟩ := List.forall_mem_cons.mp leftOf
      obtain ⟨rightHead, rightTail⟩ := List.forall_mem_cons.mp rightOf
      have rest := inductionHypothesis sameRest leftTail rightTail
      refine .cons sameBlock ?_ rest
      cases rest with
      | nil => rfl
      | @cons leftNext rightNext =>
        have leftJoined : leftToken.sameChain leftNext = true :=
          beq_iff_eq.mpr (leftHead.trans (leftTail leftNext List.mem_cons_self).symm)
        have rightJoined : rightToken.sameChain rightNext = true :=
          beq_iff_eq.mpr (rightHead.trans (rightTail rightNext List.mem_cons_self).symm)
        simp only [List.head?_cons, Option.map_some, leftJoined, rightJoined]

end Alike

/-! ### Sights -/

theorem Token.sameChain_comm (left right : Token) : left.sameChain right = right.sameChain left :=
  BEq.comm

/-- What is in sight from a place: its index, and the blocks beside it in its run. -/
structure Sight where
  index : Nat
  before : Option Block
  block : Block
  behind : List Block

namespace Place

def sight (place : Place) : Sight :=
  { index := place.index
    before := place.before.map Token.block
    block := place.token.block
    behind := place.followers.map Token.block }

section Sight

variable {left right : Place}

theorem index_congr (same : left.sight = right.sight) : left.index = right.index :=
  congrArg Sight.index same

theorem block_congr (same : left.sight = right.sight) : left.token.block = right.token.block :=
  congrArg Sight.block same

theorem kind_congr (same : left.sight = right.sight) : left.token.kind = right.token.kind :=
  congrArg Block.kind (block_congr same)

theorem before_congr (same : left.sight = right.sight) :
    left.before.map Token.block = right.before.map Token.block :=
  congrArg Sight.before same

theorem any_followers_congr (same : left.sight = right.sight) (holds : Block → Bool) :
    (left.followers.any fun token => holds token.block) =
      right.followers.any fun token => holds token.block := by
  have sameBehind : left.followers.map Token.block = right.followers.map Token.block :=
    congrArg Sight.behind same
  have counted := congrArg (List.any · holds) sameBehind
  rw [List.any_map, List.any_map] at counted
  exact counted

theorem any_before_congr (same : left.sight = right.sight) (holds : Block → Bool) :
    (left.before.any fun token => holds token.block) =
      right.before.any fun token => holds token.block := by
  have counted := congrArg (Option.any holds) (before_congr same)
  simpa only [Option.any_map] using counted

theorem any_next?_congr (same : left.sight = right.sight) (holds : Block → Bool) :
    (left.next?.any fun token => holds token.block) =
      right.next?.any fun token => holds token.block := by
  have sameNext := congrArg (List.head? ∘ Sight.behind) same
  simp only [Function.comp, sight, List.head?_map, ← next?_eq_head?_followers] at sameNext
  have counted := congrArg (Option.any holds) sameNext
  simpa only [Option.any_map] using counted

end Sight

end Place

namespace Alike

variable {left right : List Token}

/-- The followers of alike tokens in front of alike lists are the same blocks. -/
theorem map_takeWhile (rest : Alike left right) {leftToken rightToken : Token}
    (sameJoin : left.head?.map leftToken.sameChain = right.head?.map rightToken.sameChain) :
    (left.takeWhile leftToken.sameChain).map Token.block =
      (right.takeWhile rightToken.sameChain).map Token.block := by
  induction rest generalizing leftToken rightToken with
  | nil => rfl
  | @cons leftNext rightNext leftRest rightRest sameBlock nextJoin _ inductionHypothesis =>
    have sameNext : leftToken.sameChain leftNext = rightToken.sameChain rightNext :=
      Option.some.inj sameJoin
    cases joined : rightToken.sameChain rightNext with
    | false => simp [sameNext, joined]
    | true =>
      rw [joined] at sameNext
      -- Within one chain, the run goes on from the next token as from the first.
      have leftChain : leftToken.sameChain = leftNext.sameChain := by
        funext token
        rw [Token.sameChain, Token.sameChain, beq_iff_eq.mp sameNext]
      have rightChain : rightToken.sameChain = rightNext.sameChain := by
        funext token
        rw [Token.sameChain, Token.sameChain, beq_iff_eq.mp joined]
      rw [List.takeWhile_cons_of_pos sameNext, List.takeWhile_cons_of_pos joined, List.map_cons,
        List.map_cons, sameBlock, leftChain, rightChain, inductionHypothesis nextJoin]

/-- Behind previous tokens that look the same, the places of alike lists have the same in sight. -/
theorem map_sight_listFrom (alike : Alike left right) (index : Nat)
    {leftPrevious rightPrevious : Option Token}
    (sameFront : ∀ leftToken ∈ left.head?, ∀ rightToken ∈ right.head?,
      (leftPrevious.filter leftToken.sameChain).map Token.block =
        (rightPrevious.filter rightToken.sameChain).map Token.block) :
    (Place.listFrom index leftPrevious left).map Place.sight =
      (Place.listFrom index rightPrevious right).map Place.sight := by
  induction alike generalizing index leftPrevious rightPrevious with
  | nil => rfl
  | @cons leftToken rightToken leftRest rightRest sameBlock sameJoin rest inductionHypothesis =>
    have laterFront : ∀ leftNext ∈ leftRest.head?, ∀ rightNext ∈ rightRest.head?,
        ((some leftToken).filter leftNext.sameChain).map Token.block =
          ((some rightToken).filter rightNext.sameChain).map Token.block := by
      intro leftNext isLeftNext rightNext isRightNext
      rw [Option.mem_def] at isLeftNext isRightNext
      rw [isLeftNext, isRightNext] at sameJoin
      have sameNext : leftNext.sameChain leftToken = rightNext.sameChain rightToken := by
        rw [leftNext.sameChain_comm, rightNext.sameChain_comm]
        exact Option.some.inj sameJoin
      cases joined : rightNext.sameChain rightToken with
      | false => simp [Option.filter_some, sameNext, joined]
      | true => simp [Option.filter_some, sameNext, joined, sameBlock]
    have here := sameFront leftToken rfl rightToken rfl
    have behind := rest.map_takeWhile sameJoin
    rw [Place.listFrom, Place.listFrom, List.map_cons, List.map_cons,
      inductionHypothesis (index + 1) laterFront]
    simp only [Place.sight, Place.followers, here, behind, sameBlock]

end Alike

theorem Sequence.map_sight_places {left right : Sequence} (alike : Alike left.tokens right.tokens) :
    left.places.map Place.sight = right.places.map Place.sight :=
  alike.map_sight_listFrom 0 fun _ _ _ _ => rfl

end PromptBlocks
