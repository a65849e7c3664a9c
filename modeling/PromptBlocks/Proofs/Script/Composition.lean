import PromptBlocks.Proofs.Script.RoundTrip
import PromptBlocks.Proofs.Sequence.Places

/-!
Contract: reading scripts piece by piece.

Owns:
- a script in two pieces, with a line break or two spaces between them, is read as the sequence of
  the first piece followed by that of the second;
- the chains of a sequence that is read, which are numbered without gaps.

Does not own: how a single piece is cut.
-/

namespace PromptBlocks.Script

open Sequence

/-- A text whose sentences are those of two pieces is read as the one piece followed by the other. -/
theorem read_of_sentences {text front back : String}
    (joined : sentences text.toList = sentences front.toList ++ sentences back.toList) :
    read text = (read front).followedBy (read back) := by
  have filled := (legibleRuns_sentences front.toList).ne_nil
  rw [read_eq_ofRuns, joined, List.map_append, ofRuns_append filled, ← read_eq_ofRuns,
    ← read_eq_ofRuns]

theorem runsNumbered_read (text : String) : (read text).RunsNumbered := by
  obtain ⟨runs, legible, reading⟩ := exists_legibleRuns text
  rw [reading]
  exact runsNumbered_ofRuns legible.ne_nil

/-- Reading is compositional.  Two pieces with a line break or two spaces between them, whatever blanks
stand beside these, are read as the tokens of the first piece and behind them those of the second, whose
chains are numbered on.  In whatever is read, positions count from zero, and the chains are the numbers
from zero on, in order and without gaps, each in one stretch that is not empty. -/
theorem read_composes (front back : String) :
    read (front ++ "\n" ++ back) = (read front).followedBy (read back) ∧
      read (front ++ "  " ++ back) = (read front).followedBy (read back) ∧
      ∀ text,
        (read text).placed.map PlacedToken.position = List.range (read text).length ∧
          ∃ sizes : List Nat, sizes.length = (read text).runs.length ∧ (∀ size ∈ sizes, 0 < size) ∧
            (read text).tokens.map Token.chain =
              sizes.zipIdx.flatMap fun (size, chain) => List.replicate size chain := by
  refine ⟨read_of_sentences ?_, read_of_sentences ?_, fun text =>
    ⟨map_position_placed _, (read text).runs.map List.length, List.length_map _, ?_,
      (runsNumbered_read text).map_chain⟩⟩
  · rw [String.toList_append, String.toList_append, List.append_assoc]
    exact sentences_append_break front.toList back.toList
  · rw [String.toList_append, String.toList_append, List.append_assoc]
    exact sentences_append_pair front.toList back.toList
  · intro size member
    obtain ⟨run, inside, rfl⟩ := List.mem_map.mp member
    exact List.length_pos_iff.mpr (ne_nil_of_mem_runs inside)

/-- Five spaces make one boundary, though they hold two pairs. -/
example :
    (read ("_N:A " ++ "  " ++ "  が")).tokens = [⟨.noun, some "A", 0⟩, ⟨.particle .ga, none, 1⟩] := by
  decide

end PromptBlocks.Script
