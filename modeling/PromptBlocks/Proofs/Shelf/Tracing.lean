import PromptBlocks.Proofs.Shelf.Visits

/-!
Contract: the saved blocks that an expansion with a budget reads, in order.

Owns:
- the expansion with a budget, recording its visits in place of what it puts out;
- the expansion puts out what the recorded visits do, for the same price;
- the recorded reads of a block are the first ones it leads to without a budget.

Does not own: the heads that share the budget.
-/

namespace PromptBlocks.Shelf

/-- `readSaved`, recording visits. -/
def traceSaved (opened : List String) (trace : ChainBlock → Nat → List Visit × Nat) :
    List ChainBlock → Nat → List Visit × Nat
  | [], budget => ([], budget)
  | _ :: _, 0 => ([], 0)
  | raw :: later, budget + 1 =>
    let (first, left) := trace raw budget
    let (others, final) := traceSaved opened trace later left
    ({ raw, opened } :: (first ++ others), final)

/-- `contribution`, recording the visits that the block leads to. -/
def trace (shelf : Shelf) : Nat → List String → ChainBlock → Nat → List Visit × Nat
  | room, opened, raw, budget =>
    match shelf.referred? raw with
    | none => ([], budget)
    | some (id, chain) =>
      if opened.contains id then ([], budget)
      else
        match room with
        | 0 => ([], budget)
        | room + 1 =>
          traceSaved (id :: opened) (trace shelf room (id :: opened)) chain.blocks budget

section Trace

variable {shelf : Shelf} {opened : List String} {raw : ChainBlock} {id : String}
  {chain : BlockChain} {room : Nat}

theorem trace_of_none (unknown : shelf.referred? raw = none) (room : Nat) (opened : List String)
    (budget : Nat) : trace shelf room opened raw budget = ([], budget) := by
  rw [trace, unknown]

theorem trace_of_contains (known : shelf.referred? raw = some (id, chain))
    (repeats : opened.contains id = true) (room budget : Nat) :
    trace shelf room opened raw budget = ([], budget) := by
  rw [trace, known]
  exact if_pos repeats

theorem trace_zero (known : shelf.referred? raw = some (id, chain)) (budget : Nat) :
    trace shelf 0 opened raw budget = ([], budget) := by
  simp [trace, known]

theorem trace_succ (known : shelf.referred? raw = some (id, chain))
    (fresh : opened.contains id = false) (room budget : Nat) :
    trace shelf (room + 1) opened raw budget =
      traceSaved (id :: opened) (trace shelf room (id :: opened)) chain.blocks budget := by
  rw [trace, known]
  simp only [fresh, Bool.false_eq_true, if_false]

/-! ### The recorded visits are those of the expansion -/

theorem readSaved_eq {contribution : ChainBlock → Nat → List ChainBlock × Nat}
    {trace : ChainBlock → Nat → List Visit × Nat} {blocks : List ChainBlock}
    (each : ∀ raw ∈ blocks, ∀ budget, contribution raw budget =
      (output shelf ({ raw, opened } :: (trace raw budget).1), (trace raw budget).2))
    (budget : Nat) :
    readSaved contribution blocks budget =
      (output shelf (traceSaved opened trace blocks budget).1,
        (traceSaved opened trace blocks budget).2) := by
  induction blocks generalizing budget with
  | nil => rfl
  | cons raw later inductionHypothesis =>
    obtain ⟨first, others⟩ := List.forall_mem_cons.mp each
    -- Without a budget both stop; else the block costs one before it contributes.
    cases budget with
    | zero => rfl
    | succ budget =>
      simp only [readSaved, traceSaved, first budget, inductionHypothesis others, output_cons,
        output_append, List.append_assoc]

/-- A block contributes what its recorded visits put out, for the same price. -/
theorem contribution_eq (room : Nat) (opened : List String) (raw : ChainBlock) (budget : Nat) :
    contribution shelf room opened raw budget =
      (output shelf ({ raw, opened } :: (trace shelf room opened raw budget).1),
        (trace shelf room opened raw budget).2) := by
  induction room, opened, raw using expansion_induction shelf generalizing budget with
  | unknown unknown =>
    rw [trace_of_none unknown, output_cons, Visit.output_of_none unknown, contribution, unknown]
    rfl
  | repeats known contained =>
    rw [trace_of_contains known contained, output_cons, Visit.output_of_some known, contribution,
      known]
    exact if_pos contained
  | full known fresh =>
    rw [trace_zero known, output_cons, Visit.output_of_some known]
    simp [contribution, known]
  | opens known fresh inductionHypothesis =>
    rw [trace_succ known fresh, output_cons, Visit.output_of_some known, List.nil_append,
      contribution, known]
    simp only [fresh, Bool.false_eq_true, if_false]
    exact readSaved_eq inductionHypothesis budget

/-! ### The recorded visits come first without a budget -/

theorem traceSaved_eq_take {trace : ChainBlock → Nat → List Visit × Nat} {blocks : List ChainBlock}
    (each : ∀ raw ∈ blocks, ∀ budget, trace raw budget =
      ((savedVisits shelf opened raw).take budget,
        budget - (savedVisits shelf opened raw).length))
    (budget : Nat) :
    traceSaved opened trace blocks budget =
      ((visits shelf opened blocks).take budget,
        budget - (visits shelf opened blocks).length) := by
  induction blocks generalizing budget with
  | nil => simp [traceSaved]
  | cons raw later inductionHypothesis =>
    obtain ⟨first, others⟩ := List.forall_mem_cons.mp each
    cases budget with
    | zero => simp [traceSaved]
    | succ budget =>
      simp only [traceSaved, first budget, inductionHypothesis others, visits_cons,
        List.take_succ_cons, List.take_append, List.length_cons, List.length_append,
        Nat.add_sub_add_right, Nat.sub_sub]

/-- The reads that a block leads to are the first ones of its visits without a budget, as many as the
budget allows, and each costs one. -/
theorem trace_eq_take (depth : room + opened.length = nestingLimit) (budget : Nat) :
    trace shelf room opened raw budget =
      ((savedVisits shelf opened raw).take budget,
        budget - (savedVisits shelf opened raw).length) := by
  induction room, opened, raw using expansion_induction shelf generalizing budget with
  | unknown unknown =>
    rw [trace_of_none unknown, savedVisits_of_none unknown]
    simp
  | repeats known contained =>
    rw [trace_of_contains known contained, savedVisits_of_contains known contained]
    simp
  | full known fresh =>
    rw [trace_zero known, savedVisits_of_limit known (by omega)]
    simp
  | opens known fresh inductionHypothesis =>
    rw [trace_succ known fresh, savedVisits_of_opens known fresh (by omega)]
    refine traceSaved_eq_take (fun saved member => inductionHypothesis saved member ?_) budget
    rw [List.length_cons]
    omega

end Trace

end PromptBlocks.Shelf
