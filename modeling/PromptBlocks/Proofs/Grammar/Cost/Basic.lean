import PromptBlocks.Grammar.Finding

/-!
Contract: how many fixes a finding can take until it is settled for good.

Owns: the cost of a finding code, and the cost of a list of notes.

Does not own: what a fix does to the cost.
-/

namespace PromptBlocks

/-- The fixes that a finding can still cost.  A marker put in for a missing subject or object may
itself lack the noun in front of it, so such a finding costs two. -/
def FindingCode.repairCost : FindingCode → Nat
  | .particleWithoutNoun => 1
  | .consecutiveParticles => 1
  | .consecutiveNouns => 1
  | .missingSubject => 2
  | .missingObject => 2
  | .articleNotBeforeNoun => 1
  | .prepositionWithoutObject => 1
  | .verbNotAtEnd => 0
  | .consecutiveArticles => 0
  | .pleasePosition => 0
  | .periodNotAtEnd => 0
  | .missingVerb => 0

namespace Note

def repairCost : List Note → Nat
  | [] => 0
  | note :: later => note.code.repairCost + repairCost later

@[simp] theorem repairCost_nil : repairCost [] = 0 :=
  rfl

@[simp] theorem repairCost_cons (note : Note) (notes : List Note) :
    repairCost (note :: notes) = note.code.repairCost + repairCost notes :=
  rfl

@[simp] theorem repairCost_append (front back : List Note) :
    repairCost (front ++ back) = repairCost front + repairCost back := by
  induction front with
  | nil => exact (Nat.zero_add _).symm
  | cons note later inductionHypothesis =>
    rw [List.cons_append, repairCost_cons, repairCost_cons, inductionHypothesis, Nat.add_assoc]

theorem repairCost_eq_zero {notes : List Note}
    (free : ∀ note ∈ notes, note.code.repairCost = 0) : repairCost notes = 0 := by
  induction notes with
  | nil => rfl
  | cons note later inductionHypothesis =>
    rw [repairCost_cons, free note List.mem_cons_self,
      inductionHypothesis fun other member => free other (List.mem_cons_of_mem _ member)]

/-- Rules that look at the place of the head cost what they report there. -/
theorem repairCost_filterMap_cons {α : Type} (rule : α → Option Note) (first : α) (later : List α) :
    repairCost ((first :: later).filterMap rule) =
      repairCost (rule first).toList + repairCost (later.filterMap rule) := by
  rw [List.filterMap_cons]
  cases rule first with
  | none => exact (Nat.zero_add _).symm
  | some note => rw [Option.toList_some, repairCost_cons, repairCost_cons, repairCost_nil, Nat.add_zero]

end Note

end PromptBlocks
