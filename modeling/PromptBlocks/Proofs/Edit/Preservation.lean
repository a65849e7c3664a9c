import Mathlib.Data.List.Basic
import PromptBlocks.Proofs.Edit.Insertion

/-!
Contract: what a plan keeps of the sequence that it edits.

Owns:
- the chain that a token joins at a cut of a sequence;
- the labels of the runs, and insertions that leave them alone;
- plans without a restart, which add tokens and nothing else;
- plans with a restart, which forget all that came before.

Does not own: which plans the planner makes.
-/

namespace PromptBlocks

/-! ### Labels of runs -/

namespace Sequence

/-- The chain of each run, read off its first token. -/
def labelsOf (runs : List (List Token)) : List (Option Nat) :=
  runs.map fun run => run.head?.map Token.chain

def runLabels (sequence : Sequence) : List (Option Nat) :=
  labelsOf sequence.runs

/-- A chain in front of labels: it adds one unless it is the first of them. -/
def prependLabel (chain : Nat) (labels : List (Option Nat)) : List (Option Nat) :=
  if labels.head? = some (some chain) then labels else some chain :: labels

theorem prependLabel_twice (chain : Nat) (labels : List (Option Nat)) :
    prependLabel chain (prependLabel chain labels) = prependLabel chain labels := by
  by_cases present : labels.head? = some (some chain)
  · simp [prependLabel, present]
  · simp [prependLabel, present]

theorem labelsOf_extendRuns (token : Token) (runs : List (List Token)) :
    labelsOf (extendRuns token runs) = prependLabel token.chain (labelsOf runs) := by
  unfold extendRuns
  split
  · next next run later =>
    by_cases same : token.chain = next.chain
    · simp [labelsOf, prependLabel, Token.sameChain, same]
    · simp [labelsOf, prependLabel, Token.sameChain, same, Ne.symm same]
  · next unfilled =>
    cases runs with
    | nil => rfl
    | cons run later =>
      cases run with
      | nil => rfl
      | cons next rest => exact absurd rfl (unfilled next rest later)

theorem labelsOf_cons (token : Token) (rest : List Token) :
    labelsOf (runsOf (token :: rest)) = prependLabel token.chain (labelsOf (runsOf rest)) :=
  labelsOf_extendRuns token (runsOf rest)

/-- What changes no label behind some tokens changes none with those tokens in front. -/
theorem labelsOf_append_congr {left right : List Token}
    (same : labelsOf (runsOf left) = labelsOf (runsOf right)) (front : List Token) :
    labelsOf (runsOf (front ++ left)) = labelsOf (runsOf (front ++ right)) := by
  induction front with
  | nil => exact same
  | cons token rest inductionHypothesis =>
    rw [List.cons_append, List.cons_append, labelsOf_cons, labelsOf_cons, inductionHypothesis]

/-! ### Where a token joins -/

/-- The chain that a token joins between two parts of a sequence: that of a neighbour, or zero where it
has none. -/
inductive Joins : Nat → List Token → List Token → Prop
  | behind (front : List Token) (next : Token) (later : List Token) :
      Joins next.chain front (next :: later)
  | after (front : List Token) (last : Token) (back : List Token) :
      Joins last.chain (front ++ [last]) back
  | alone : Joins 0 [] []

section Joins

variable {sequence : Sequence} {chain : Nat} {front back : List Token}

theorem joins_lastChain (sequence : Sequence) : Joins sequence.lastChain sequence.tokens [] := by
  unfold lastChain
  rcases List.eq_nil_or_concat' sequence.tokens with empty | ⟨front, last, split⟩
  · rw [empty]
    exact .alone
  · rw [split, List.getLast?_concat]
    exact .after front last []

/-- Between tokens of a sequence, a token in the chain of a neighbour leaves the labels alone. -/
theorem Joins.labelsOf_insert (joins : Joins chain front back) (nonempty : front ++ back ≠ [])
    (token : Token) :
    labelsOf (runsOf (front ++ token.inChain chain :: back)) =
      labelsOf (runsOf (front ++ back)) := by
  cases joins with
  | behind _ next later =>
    refine labelsOf_append_congr ?_ front
    rw [labelsOf_cons, labelsOf_cons]
    exact prependLabel_twice next.chain _
  | after earlier last =>
    rw [List.append_assoc, List.append_assoc, List.singleton_append, List.singleton_append]
    refine labelsOf_append_congr ?_ earlier
    rw [labelsOf_cons, labelsOf_cons, labelsOf_cons]
    exact prependLabel_twice last.chain _
  | alone => exact absurd rfl nonempty

theorem Joins.eq_zero (joins : Joins chain front back)
    (inZero : ∀ token ∈ front ++ back, token.chain = 0) : chain = 0 := by
  cases joins with
  | behind _ next later => exact inZero next (by simp)
  | after earlier last => exact inZero last (by simp)
  | alone => rfl

theorem exists_split_of_lt {index : Nat} (inside : index < sequence.length) :
    ∃ earlier token later, sequence.tokens = earlier ++ token :: later ∧
      earlier.length = index := by
  have insideTokens : index < sequence.tokens.length := inside
  refine ⟨sequence.tokens.take index, sequence.tokens[index], sequence.tokens.drop (index + 1),
    ?_, List.length_take_of_le (Nat.le_of_lt insideTokens)⟩
  rw [List.getElem_cons_drop, List.take_append_drop]

theorem exists_joins_insert (sequence : Sequence) (index : Nat) (token : Token) :
    ∃ chain front back, Joins chain front back ∧ sequence.tokens = front ++ back ∧
      (sequence.insert index token).tokens = front ++ token.inChain chain :: back := by
  by_cases inside : index < sequence.length
  · obtain ⟨earlier, next, later, split, rfl⟩ := exists_split_of_lt inside
    exact ⟨next.chain, earlier, next :: later, .behind _ _ _, split, insert_of_split split token⟩
  · have past : sequence.tokens.length ≤ index := Nat.le_of_not_lt inside
    refine ⟨_, _, _, sequence.joins_lastChain, (List.append_nil _).symm, ?_⟩
    rw [insert, List.drop_of_length_le past, List.take_of_length_le past]
    rfl

theorem exists_joins_insertAfter (sequence : Sequence) (index : Nat) (token : Token) :
    ∃ chain front back, Joins chain front back ∧ sequence.tokens = front ++ back ∧
      (sequence.insertAfter index token).tokens = front ++ token.inChain chain :: back := by
  by_cases inside : index < sequence.length
  · obtain ⟨earlier, anchor, later, split, rfl⟩ := exists_split_of_lt inside
    refine ⟨anchor.chain, earlier ++ [anchor], later, .after _ _ _, ?_, ?_⟩
    · rw [split, List.append_assoc, List.singleton_append]
    · rw [insertAfter_of_split split, List.append_assoc, List.singleton_append]
  · have past : sequence.tokens[index]? = none :=
      List.getElem?_eq_none (Nat.le_of_not_lt inside)
    refine ⟨_, _, _, sequence.joins_lastChain, (List.append_nil _).symm, ?_⟩
    rw [insertAfter, past]
    rfl

end Joins

end Sequence

/-! ### One step -/

namespace Step

def isRestart (step : Step) : Bool :=
  step.operation == .replaceAll

/-- A step that is no restart puts one token in, which joins the chain of a neighbour. -/
theorem exists_joins {step : Step} (adds : step.isRestart = false) (sequence : Sequence) :
    ∃ chain front back, Sequence.Joins chain front back ∧ sequence.tokens = front ++ back ∧
      (step.apply sequence).tokens = front ++ step.token.inChain chain :: back := by
  unfold apply
  cases operation : step.operation with
  | insertBefore => exact sequence.exists_joins_insert step.anchor step.token
  | insertAfter => exact sequence.exists_joins_insertAfter step.anchor step.token
  | replaceAll =>
    rw [isRestart, operation] at adds
    cases adds

theorem apply_of_isRestart {step : Step} (restarts : step.isRestart = true) (sequence : Sequence) :
    step.apply sequence = ⟨[step.token.inChain 0]⟩ := by
  rw [apply, beq_iff_eq.mp restarts]
  rfl

/-- No step leaves chain zero. -/
theorem chain_apply {step : Step} {sequence : Sequence}
    (inZero : ∀ token ∈ sequence.tokens, token.chain = 0) :
    ∀ token ∈ (step.apply sequence).tokens, token.chain = 0 := by
  cases restarts : step.isRestart with
  | true => simp [apply_of_isRestart restarts, Token.inChain]
  | false =>
    obtain ⟨chain, front, back, joins, split, result⟩ := exists_joins restarts sequence
    rw [split] at inZero
    have zero : chain = 0 := joins.eq_zero inZero
    intro token member
    rw [result, List.mem_append, List.mem_cons] at member
    rcases member with inFront | rfl | inBack
    · exact inZero token (List.mem_append_left _ inFront)
    · exact zero
    · exact inZero token (List.mem_append_right _ inBack)

end Step

/-! ### Plans -/

/-- What an edit keeps of a sequence when it adds a number of tokens: all tokens in order, and the labels
of the runs, unless there were none. -/
structure Sequence.Extends (sequence edited : Sequence) (added : Nat) : Prop where
  length_eq : edited.length = sequence.length + added
  sublist : sequence.tokens.Sublist edited.tokens
  runLabels_eq : sequence.isEmpty = false → edited.runLabels = sequence.runLabels

namespace Sequence.Extends

variable {sequence edited final : Sequence} {added more : Nat}

theorem refl (sequence : Sequence) : sequence.Extends sequence 0 :=
  ⟨rfl, List.Sublist.refl _, fun _ => rfl⟩

theorem trans (first : sequence.Extends edited added) (second : edited.Extends final more) :
    sequence.Extends final (added + more) where
  length_eq := by rw [second.length_eq, first.length_eq, Nat.add_assoc]
  sublist := first.sublist.trans second.sublist
  runLabels_eq nonempty := by
    have stillNonempty : edited.isEmpty = false := by
      have kept := first.sublist.length_le
      rw [Sequence.isEmpty, List.isEmpty_eq_false_iff, ← List.length_pos_iff] at nonempty ⊢
      exact Nat.lt_of_lt_of_le nonempty kept
    rw [second.runLabels_eq stillNonempty, first.runLabels_eq nonempty]

end Sequence.Extends

theorem Step.extends_apply {step : Step} (adds : step.isRestart = false) (sequence : Sequence) :
    sequence.Extends (step.apply sequence) 1 := by
  obtain ⟨chain, front, back, joins, split, result⟩ := exists_joins adds sequence
  refine ⟨?_, ?_, fun nonempty => ?_⟩
  · rw [Sequence.length, Sequence.length, result, split, List.length_append, List.length_cons,
      List.length_append, Nat.add_assoc]
  · rw [split, result]
    exact (List.sublist_cons_self _ back).append_left front
  · rw [Sequence.isEmpty, List.isEmpty_eq_false_iff, split] at nonempty
    rw [Sequence.runLabels, Sequence.runLabels, Sequence.runs, Sequence.runs, result, split]
    exact joins.labelsOf_insert nonempty step.token

namespace Plan

variable {plan : Plan} {steps front back : List Step} {restart : Step}

def restarts (plan : Plan) : Bool :=
  plan.steps.any Step.isRestart

theorem apply_cons (step : Step) (steps : List Step) (sequence : Sequence) :
    Plan.apply ⟨step :: steps⟩ sequence = Plan.apply ⟨steps⟩ (step.apply sequence) :=
  rfl

theorem extends_apply (adds : ∀ step ∈ steps, step.isRestart = false) (sequence : Sequence) :
    sequence.Extends (Plan.apply ⟨steps⟩ sequence) steps.length := by
  induction steps generalizing sequence with
  | nil => exact .refl sequence
  | cons step later inductionHypothesis =>
    obtain ⟨stepAdds, laterAdds⟩ := List.forall_mem_cons.mp adds
    rw [apply_cons, List.length_cons, Nat.add_comm]
    exact (Step.extends_apply stepAdds sequence).trans (inductionHypothesis laterAdds _)

theorem chain_apply {sequence : Sequence} (inZero : ∀ token ∈ sequence.tokens, token.chain = 0) :
    ∀ token ∈ (Plan.apply ⟨steps⟩ sequence).tokens, token.chain = 0 := by
  induction steps generalizing sequence with
  | nil => exact inZero
  | cons step later inductionHypothesis => exact inductionHypothesis (Step.chain_apply inZero)

/-- From a restart on, a plan does the same whatever came before. -/
theorem apply_of_restart (restarts : restart.isRestart = true) (front back : List Step)
    (sequence : Sequence) :
    Plan.apply ⟨front ++ restart :: back⟩ sequence =
      Plan.apply ⟨back⟩ ⟨[restart.token.inChain 0]⟩ := by
  rw [Plan.apply, List.foldl_append, List.foldl_cons, Step.apply_of_isRestart restarts]
  rfl

theorem exists_last_restart (restarts : steps.any Step.isRestart = true) :
    ∃ front restart back, steps = front ++ restart :: back ∧ restart.isRestart = true ∧
      ∀ step ∈ back, step.isRestart = false := by
  induction steps with
  | nil => cases restarts
  | cons step later inductionHypothesis =>
    cases laterRestarts : later.any Step.isRestart with
    | true =>
      obtain ⟨front, restart, back, rfl, isRestart, last⟩ := inductionHypothesis laterRestarts
      exact ⟨step :: front, restart, back, rfl, isRestart, last⟩
    | false =>
      rw [List.any_cons, laterRestarts, Bool.or_false] at restarts
      refine ⟨[], step, later, rfl, restarts, fun other member => ?_⟩
      exact Bool.eq_false_iff.mpr (List.any_eq_false.mp laterRestarts other member)

/-- Carrying out any plan keeps the work that it does not discard.  Without a restart, each step adds one
token; the tokens of the sequence stay in order with their blocks, texts and chains, and no run begins,
splits or merges.  With a restart, all tokens are of chain zero, and neither the sequence nor the steps
before the last restart matter.  Positions always count the tokens from zero. -/
theorem apply_keeps (plan : Plan) (sequence : Sequence) :
    (plan.restarts = false →
      (plan.apply sequence).length = sequence.length + plan.length ∧
        sequence.tokens.Sublist (plan.apply sequence).tokens ∧
        (sequence.isEmpty = false → (plan.apply sequence).runLabels = sequence.runLabels)) ∧
      (plan.restarts = true →
        (∀ token ∈ (plan.apply sequence).tokens, token.chain = 0) ∧
          ∃ front restart back, plan.steps = front ++ restart :: back ∧
            restart.operation = .replaceAll ∧
            (∀ step ∈ back, step.operation ≠ .replaceAll) ∧
            ∀ otherFront other,
              Plan.apply ⟨otherFront ++ restart :: back⟩ other = plan.apply sequence) ∧
      (plan.apply sequence).placed.map PlacedToken.position =
        List.range (plan.apply sequence).length := by
  refine ⟨fun adds => ?_, fun restarts => ?_, Sequence.map_position_placed _⟩
  · have everyAdds : ∀ step ∈ plan.steps, step.isRestart = false := fun step member =>
      Bool.eq_false_iff.mpr (List.any_eq_false.mp adds step member)
    obtain ⟨longer, kept, sameLabels⟩ := extends_apply everyAdds sequence
    exact ⟨longer, kept, sameLabels⟩
  · obtain ⟨front, restart, back, split, isRestart, last⟩ := exists_last_restart restarts
    have result : plan.apply sequence = Plan.apply ⟨back⟩ ⟨[restart.token.inChain 0]⟩ := by
      rw [← apply_of_restart isRestart front back sequence, ← split]
    refine ⟨?_, front, restart, back, split, beq_iff_eq.mp isRestart, ?_, ?_⟩
    · rw [result]
      exact chain_apply (by simp [Token.inChain])
    · intro step member
      exact beq_eq_false_iff_ne.mp (last step member)
    · intro otherFront other
      rw [apply_of_restart isRestart, result]

/-- Anchors past the end append to the last run, before a token or behind it. -/
example :
    Plan.apply ⟨[⟨.insertBefore, .noun, 9, some "b"⟩, ⟨.insertAfter, .particle .ga, 9, none⟩]⟩
        ⟨[⟨.noun, some "a", 4⟩]⟩ =
      ⟨[⟨.noun, some "a", 4⟩, ⟨.noun, some "b", 4⟩, ⟨.particle .ga, none, 4⟩]⟩ := by
  decide

end Plan

end PromptBlocks
