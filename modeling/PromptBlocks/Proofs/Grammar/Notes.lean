import PromptBlocks.Grammar.Finding
import PromptBlocks.Proofs.Sequence.Places

/-!
Contract: lists of notes in which no two share position and code.

Owns:
- distinct notes, and lists of them with codes from one stretch of the ranking;
- such lists from rules that look at one place, and their concatenation.

Does not own: the rules of any profile.
-/

namespace PromptBlocks.Note

/-- Notes of one position differ in their codes. -/
def Distinct (left right : Note) : Prop :=
  left.position = right.position → left.code ≠ right.code

/-- Distinct notes whose codes rank from `low` to below `high`. -/
structure Spread (low high : Nat) (notes : List Note) : Prop where
  distinct : notes.Pairwise Distinct
  ranked : ∀ note ∈ notes, low ≤ note.code.rank ∧ note.code.rank < high

theorem Spread.append {low middle high : Nat} {front back : List Note} (left : Spread low middle front)
    (right : Spread middle high back) (ordered : low ≤ middle ∧ middle ≤ high) :
    Spread low high (front ++ back) where
  distinct := by
    refine List.pairwise_append.mpr ⟨left.distinct, right.distinct, ?_⟩
    intro first inFront second inBack _ equal
    have below := (left.ranked first inFront).2
    have above := (right.ranked second inBack).1
    rw [equal] at below
    omega
  ranked := by
    intro note member
    rcases List.mem_append.mp member with inFront | inBack
    · have bounds := left.ranked note inFront
      omega
    · have bounds := right.ranked note inBack
      omega

/-- A rule that reports at the place it looks at spreads over the places of a sequence. -/
theorem Spread.ofPlaces {low high : Nat} (sequence : Sequence) (rule : Place → List Note)
    (located : ∀ place, ∀ note ∈ rule place, note.position = place.index)
    (inner : ∀ place, Spread low high (rule place)) :
    Spread low high (sequence.places.flatMap rule) where
  distinct := by
    refine List.pairwise_flatMap.mpr ⟨fun place _ => (inner place).distinct, ?_⟩
    refine (Place.index_lt_of_listFrom 0 none sequence.tokens).imp ?_
    intro first second before left inLeft right inRight same
    have leftIndex := located first left inLeft
    have rightIndex := located second right inRight
    omega
  ranked := by
    intro note member
    obtain ⟨place, -, inRule⟩ := List.mem_flatMap.mp member
    exact (inner place).ranked note inRule

theorem Spread.ofRule {low high : Nat} (sequence : Sequence) (rule : Place → Option Note)
    (located : ∀ place note, rule place = some note →
      note.position = place.index ∧ low ≤ note.code.rank ∧ note.code.rank < high) :
    Spread low high (sequence.places.filterMap rule) where
  distinct := by
    refine List.pairwise_filterMap.mpr ?_
    refine (Place.index_lt_of_listFrom 0 none sequence.tokens).imp ?_
    intro first second before left leftRule right rightRule same
    have leftIndex := (located first left leftRule).1
    have rightIndex := (located second right rightRule).1
    omega
  ranked := by
    intro note member
    obtain ⟨place, -, fired⟩ := List.mem_filterMap.mp member
    exact (located place note fired).2

end PromptBlocks.Note
