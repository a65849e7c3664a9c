import PromptBlocks.Shelf.Expansion

/-!
Contract: the blocks that an expansion without a budget comes to, in order.

Owns:
- visits: blocks with the saved chains that are open around them;
- the visits of blocks, depth first and from left to right;
- plain expansion is what the visits put out.

Does not own: the budget.
-/

namespace PromptBlocks.Shelf

/-- A block that an expansion comes to. -/
structure Visit where
  raw : ChainBlock
  /-- The ids of the saved chains that are open around the block, the innermost first.  A block of a
  head has none. -/
  opened : List String
  deriving DecidableEq, Repr

/-- The block was read from a saved chain. -/
def Visit.isRead (visit : Visit) : Bool :=
  !visit.opened.isEmpty

/-- What a visit puts out by itself: the block, unless it refers to a saved chain. -/
def Visit.output (shelf : Shelf) (visit : Visit) : List ChainBlock :=
  match shelf.referred? visit.raw with
  | none => [visit.raw]
  | some _ => []

/-- The visits that a block leads to.  A reference leads to the blocks of its saved chain, each
followed by what it leads to in turn, unless the chain is open already or too many chains are. -/
def savedVisits (shelf : Shelf) (opened : List String) (raw : ChainBlock) : List Visit :=
  match shelf.referred? raw with
  | none => []
  | some (id, chain) =>
    if opened.contains id then []
    else if _deeper : opened.length < nestingLimit then
      chain.blocks.flatMap fun saved =>
        { raw := saved, opened := id :: opened } :: savedVisits shelf (id :: opened) saved
    else []
termination_by nestingLimit - opened.length
decreasing_by
  rw [List.length_cons]
  omega

/-- The visits of blocks, each followed by the visits that it leads to. -/
def visits (shelf : Shelf) (opened : List String) (blocks : List ChainBlock) : List Visit :=
  blocks.flatMap fun raw => { raw, opened } :: savedVisits shelf opened raw

def output (shelf : Shelf) (visits : List Visit) : List ChainBlock :=
  visits.flatMap (Visit.output shelf)

/-- The head made of what visits put out. -/
def assembled (shelf : Shelf) (visits : List Visit) : BlockChain :=
  (BlockChain.ofBlocks? (output shelf visits)).getD placeholder

section Visits

variable {shelf : Shelf} {opened : List String} {raw : ChainBlock} {id : String} {chain : BlockChain}

@[simp] theorem output_nil (shelf : Shelf) : output shelf [] = [] :=
  rfl

@[simp] theorem output_cons (shelf : Shelf) (visit : Visit) (later : List Visit) :
    output shelf (visit :: later) = visit.output shelf ++ output shelf later :=
  rfl

@[simp] theorem output_append (shelf : Shelf) (front back : List Visit) :
    output shelf (front ++ back) = output shelf front ++ output shelf back :=
  List.flatMap_append

@[simp] theorem visits_nil (shelf : Shelf) (opened : List String) : visits shelf opened [] = [] :=
  rfl

theorem visits_cons (shelf : Shelf) (opened : List String) (raw : ChainBlock)
    (later : List ChainBlock) :
    visits shelf opened (raw :: later) =
      { raw, opened } :: (savedVisits shelf opened raw ++ visits shelf opened later) :=
  rfl

theorem Visit.output_of_none (unknown : shelf.referred? raw = none) (opened : List String) :
    Visit.output shelf { raw, opened } = [raw] := by
  rw [Visit.output, unknown]

theorem Visit.output_of_some (known : shelf.referred? raw = some (id, chain))
    (opened : List String) : Visit.output shelf { raw, opened } = [] := by
  rw [Visit.output, known]

theorem savedVisits_of_none (unknown : shelf.referred? raw = none) (opened : List String) :
    savedVisits shelf opened raw = [] := by
  rw [savedVisits, unknown]

/-- A chain is not opened inside itself. -/
theorem savedVisits_of_contains (known : shelf.referred? raw = some (id, chain))
    (repeats : opened.contains id = true) : savedVisits shelf opened raw = [] := by
  rw [savedVisits, known]
  exact if_pos repeats

/-- No chain is opened inside as many as the limit allows. -/
theorem savedVisits_of_limit (known : shelf.referred? raw = some (id, chain))
    (full : nestingLimit ≤ opened.length) : savedVisits shelf opened raw = [] := by
  rw [savedVisits, known]
  simp [Nat.not_lt.mpr full]

theorem savedVisits_of_opens (known : shelf.referred? raw = some (id, chain))
    (fresh : opened.contains id = false) (deeper : opened.length < nestingLimit) :
    savedVisits shelf opened raw = visits shelf (id :: opened) chain.blocks := by
  rw [savedVisits, known]
  simp only [fresh, Bool.false_eq_true, if_false, deeper, dite_true]
  rfl

/-- Whatever a block leads to is read from saved chains. -/
theorem isRead_of_mem_savedVisits {visit : Visit} (member : visit ∈ savedVisits shelf opened raw) :
    visit.isRead = true := by
  induction opened, raw using savedVisits.induct shelf with
  | case1 opened raw unknown =>
    rw [savedVisits_of_none unknown] at member
    cases member
  | case2 opened raw id chain known repeats =>
    rw [savedVisits_of_contains known repeats] at member
    cases member
  | case3 opened raw id chain known fresh deeper inductionHypothesis =>
    rw [savedVisits_of_opens known (Bool.eq_false_iff.mpr fresh) deeper] at member
    obtain ⟨saved, -, inside⟩ := List.mem_flatMap.mp member
    rcases List.mem_cons.mp inside with rfl | further
    · rfl
    · exact inductionHypothesis saved further
  | case4 opened raw id chain known fresh full =>
    rw [savedVisits_of_limit known (Nat.not_lt.mp full)] at member
    cases member

/-! ### Plain expansion -/

/-- Induction along an expansion: the cases are those of its definition, and where a saved chain is
opened, the statement is at hand for each of its blocks, one level further down. -/
@[elab_as_elim]
theorem expansion_induction (shelf : Shelf) {motive : Nat → List String → ChainBlock → Prop}
    (unknown : ∀ {room opened raw}, shelf.referred? raw = none → motive room opened raw)
    (repeats : ∀ {room opened raw id chain}, shelf.referred? raw = some (id, chain) →
      opened.contains id = true → motive room opened raw)
    (full : ∀ {opened raw id chain}, shelf.referred? raw = some (id, chain) →
      opened.contains id = false → motive 0 opened raw)
    (opens : ∀ {room opened raw id chain}, shelf.referred? raw = some (id, chain) →
      opened.contains id = false →
      (∀ saved ∈ chain.blocks, motive room (id :: opened) saved) → motive (room + 1) opened raw)
    (room : Nat) (opened : List String) (raw : ChainBlock) : motive room opened raw := by
  induction room generalizing opened raw with
  | zero =>
    cases known : shelf.referred? raw with
    | none => exact unknown known
    | some found =>
      cases contained : opened.contains found.1 with
      | true => exact repeats known contained
      | false => exact full known contained
  | succ room inductionHypothesis =>
    cases known : shelf.referred? raw with
    | none => exact unknown known
    | some found =>
      cases contained : opened.contains found.1 with
      | true => exact repeats known contained
      | false =>
        exact opens known contained fun saved _ => inductionHypothesis (found.1 :: opened) saved

theorem flatMap_eq_output_visits {expand : ChainBlock → List ChainBlock} {blocks : List ChainBlock}
    (each : ∀ raw ∈ blocks,
      expand raw = output shelf ({ raw, opened } :: savedVisits shelf opened raw)) :
    blocks.flatMap expand = output shelf (visits shelf opened blocks) := by
  induction blocks with
  | nil => rfl
  | cons raw later inductionHypothesis =>
    obtain ⟨first, others⟩ := List.forall_mem_cons.mp each
    rw [List.flatMap_cons, first, inductionHypothesis others, visits_cons, output_cons,
      output_cons, output_append, List.append_assoc]

/-- Without a budget, a block contributes what its visits put out. -/
theorem plainContribution_eq {room : Nat} (depth : room + opened.length = nestingLimit) :
    plainContribution shelf room opened raw =
      output shelf ({ raw, opened } :: savedVisits shelf opened raw) := by
  induction room, opened, raw using expansion_induction shelf with
  | unknown unknown =>
    rw [savedVisits_of_none unknown, output_cons, Visit.output_of_none unknown]
    simp [plainContribution, unknown]
  | repeats known contained =>
    rw [savedVisits_of_contains known contained, output_cons, Visit.output_of_some known,
      plainContribution, known]
    exact if_pos contained
  | full known fresh =>
    rw [savedVisits_of_limit known (by omega), output_cons, Visit.output_of_some known]
    simp [plainContribution, known]
  | opens known fresh inductionHypothesis =>
    rw [savedVisits_of_opens known fresh (by omega), output_cons, Visit.output_of_some known,
      List.nil_append, plainContribution, known]
    simp only [fresh, Bool.false_eq_true, if_false]
    refine flatMap_eq_output_visits fun saved member => inductionHypothesis saved member ?_
    rw [List.length_cons]
    omega

theorem expandPlainly_eq (shelf : Shelf) (heads : List BlockChain) :
    expandPlainly shelf heads =
      (heads.map fun head => visits shelf [] head.blocks).map (assembled shelf) := by
  rw [expandPlainly, List.map_map]
  refine List.map_congr_left fun head _ => ?_
  rw [flatMap_eq_output_visits fun raw _ => plainContribution_eq rfl]
  rfl

end Visits

end PromptBlocks.Shelf
