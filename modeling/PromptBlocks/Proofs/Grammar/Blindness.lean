import PromptBlocks.Proofs.Grammar.Report
import PromptBlocks.Proofs.Grammar.Sight
import PromptBlocks.Proofs.Sequence.Neighbours

/-!
Contract: what a check of a sequence cannot see.

Owns:
- sequences of one shape: the same block at every position, and the same neighbours of one chain;
- sequences of one shape are alike, so their checks agree.

Does not own: what a check finds.
-/

namespace PromptBlocks

namespace Sequence

/-- Two sequences of one shape.  Position by position they have the same block, and neighbours are of one
chain in both or in neither.  Nothing is said of texts, or of the numbers of the chains. -/
structure SameShape (left right : Sequence) : Prop where
  length_eq : left.length = right.length
  blockAt?_eq : ∀ position, left.blockAt? position = right.blockAt? position
  joined_iff : ∀ position, position + 1 < left.length →
    (left.chainAt? position = left.chainAt? (position + 1) ↔
      right.chainAt? position = right.chainAt? (position + 1))

namespace SameShape

variable {left right : Token} {leftRest rightRest : List Token}

theorem tail (same : SameShape ⟨left :: leftRest⟩ ⟨right :: rightRest⟩) :
    SameShape ⟨leftRest⟩ ⟨rightRest⟩ where
  length_eq := Nat.succ.inj same.length_eq
  blockAt?_eq position := same.blockAt?_eq (position + 1)
  joined_iff position inside := same.joined_iff (position + 1) (Nat.succ_lt_succ inside)

theorem block_eq (same : SameShape ⟨left :: leftRest⟩ ⟨right :: rightRest⟩) :
    left.block = right.block :=
  Option.some.inj (same.blockAt?_eq 0)

theorem sameJoin (same : SameShape ⟨left :: leftRest⟩ ⟨right :: rightRest⟩) :
    leftRest.head?.map left.sameChain = rightRest.head?.map right.sameChain := by
  have lengths : leftRest.length = rightRest.length := same.tail.length_eq
  cases leftRest with
  | nil =>
    obtain rfl := List.eq_nil_of_length_eq_zero lengths.symm
    rfl
  | cons leftNext leftOthers =>
    cases rightRest with
    | nil => cases lengths
    | cons rightNext rightOthers =>
      have joined : some left.chain = some leftNext.chain ↔ some right.chain = some rightNext.chain :=
        same.joined_iff 0 (Nat.succ_lt_succ (Nat.succ_pos leftOthers.length))
      rw [Option.some_inj, Option.some_inj] at joined
      refine congrArg some (Bool.eq_iff_iff.mpr ?_)
      rw [Token.sameChain, Token.sameChain, beq_iff_eq, beq_iff_eq]
      exact joined

end SameShape

theorem SameShape.alike {left right : Sequence} (same : SameShape left right) :
    Alike left.tokens right.tokens := by
  obtain ⟨leftTokens⟩ := left
  obtain ⟨rightTokens⟩ := right
  have lengths : leftTokens.length = rightTokens.length := same.length_eq
  induction leftTokens generalizing rightTokens with
  | nil =>
    obtain rfl := List.eq_nil_of_length_eq_zero lengths.symm
    exact .nil
  | cons leftToken leftRest inductionHypothesis =>
    cases rightTokens with
    | nil => cases lengths
    | cons rightToken rightRest =>
      have rest := inductionHypothesis rightRest same.tail same.tail.length_eq
      exact .cons same.block_eq same.sameJoin rest

end Sequence

namespace Grammar

open Sequence (SameShape)

/-- A check ignores everything but the blocks and where the runs end.  Two sequences of one shape get the
same report, to the last word, under every grammar and in every language, whatever texts their tokens
carry and however their chains are numbered. -/
theorem check_sees_shape_only {left right : Sequence} (same : SameShape left right)
    (grammar display : Locale) : check left grammar display = check right grammar display :=
  check_congr same.alike grammar display

/-- A stray text on a particle, and a chain number that comes back behind another chain, are not seen. -/
theorem check_sees_shape_only_of_reused_chain :
    let left : Sequence :=
      ⟨[⟨.noun, some "A", 5⟩, ⟨.particle .ga, some "stray", 5⟩, ⟨.particle .wo, none, 2⟩,
        ⟨.verb .analyze, none, 5⟩]⟩
    let right : Sequence :=
      ⟨[⟨.noun, none, 0⟩, ⟨.particle .ga, none, 0⟩, ⟨.particle .wo, none, 1⟩,
        ⟨.verb .analyze, some "B", 2⟩]⟩
    SameShape left right ∧
      (∀ grammar display, check left grammar display = check right grammar display) ∧
      findingOf .ja ⟨.particleWithoutNoun, .error, 2, "を", some ⟨.insertBefore, .noun, 2⟩⟩ ∈
        (check right .ja .ja).findings := by
  intro left right
  have joined : ∀ position < 3, (left.chainAt? position = left.chainAt? (position + 1) ↔
      right.chainAt? position = right.chainAt? (position + 1)) := by
    decide
  have same : SameShape left right :=
    { length_eq := rfl
      blockAt?_eq := fun position => by
        rw [Sequence.blockAt?, Sequence.blockAt?, ← List.getElem?_map, ← List.getElem?_map]
        rfl
      joined_iff := fun position inside => joined position (Nat.lt_of_succ_lt_succ inside) }
  exact ⟨same, check_sees_shape_only same, mem_findings.mpr ⟨rfl, _, by decide, rfl⟩⟩

/-- Where a run ends is seen: behind a noun of another chain, a particle lacks its noun. -/
example :
    notes .ja ⟨[⟨.noun, none, 0⟩, ⟨.particle .to, none, 0⟩]⟩ = [] ∧
      notes .ja ⟨[⟨.noun, none, 0⟩, ⟨.particle .to, none, 1⟩]⟩ ≠ [] := by
  decide

end Grammar

end PromptBlocks
