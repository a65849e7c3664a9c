import PromptBlocks.Proofs.Shelf.Refinement

/-!
Contract: what an expansion depends on.

Owns:
- the ids that a block reaches through references to saved chains;
- shelves that agree on the ids reached expand alike;
- heads are expanded without regard to those that follow.

Does not own: what the heads in front leave of the budget.
-/

namespace PromptBlocks.Shelf

/-- A block reaches an id when it refers to it, or to a saved chain with a block that reaches it. -/
inductive Reaches (shelf : Shelf) (id : String) : ChainBlock → Prop
  | here {raw : ChainBlock} (refers : raw.blockType = referenceTo id) : Reaches shelf id raw
  | through {raw saved : ChainBlock} {other : String} {chain : BlockChain}
      (refers : raw.blockType = referenceTo other) (found : shelf.get? other = some chain)
      (member : saved ∈ chain.blocks) (further : Reaches shelf id saved) : Reaches shelf id raw

/-- What reaches an id refers to it, or some saved block does. -/
theorem Reaches.exists_refers {shelf : Shelf} {id : String} {raw : ChainBlock}
    (reaches : shelf.Reaches id raw) :
    raw.blockType = referenceTo id ∨
      ∃ saved ∈ shelf.entries.flatMap fun entry => entry.2.blocks,
        saved.blockType = referenceTo id := by
  induction reaches with
  | here refers => exact .inl refers
  | @through _ saved other chain _ found member _ inductionHypothesis =>
    rcases inductionHypothesis with refers | further
    · obtain ⟨front, back, split, -⟩ := List.lookup_eq_some_iff.mp found
      have entry : (other, chain) ∈ shelf.entries := by
        rw [split]
        exact List.mem_append_right _ List.mem_cons_self
      exact .inr ⟨saved, List.mem_flatMap.mpr ⟨(other, chain), entry, member⟩, refers⟩
    · exact .inr further

/-! ### Shelves that agree -/

section Agree

variable {shelf other : Shelf} {raw : ChainBlock} {opened : List String} {room : Nat}
  {blocks : List ChainBlock} {heads : List BlockChain}

theorem referred?_congr (agree : ∀ id, shelf.Reaches id raw → other.get? id = shelf.get? id) :
    other.referred? raw = shelf.referred? raw := by
  unfold referred?
  cases reference : referredId? raw.blockType with
  | none => rfl
  | some id =>
    have same := agree id (.here (referredId?_eq_some_iff.mp reference))
    simp only [Option.bind_eq_bind, Option.bind_some, same]

theorem readSaved_congr {first second : ChainBlock → Nat → List ChainBlock × Nat}
    (each : ∀ raw ∈ blocks, ∀ budget, first raw budget = second raw budget) (budget : Nat) :
    readSaved first blocks budget = readSaved second blocks budget := by
  induction blocks generalizing budget with
  | nil => rfl
  | cons raw later inductionHypothesis =>
    obtain ⟨here, others⟩ := List.forall_mem_cons.mp each
    cases budget with
    | zero => rfl
    | succ budget => simp only [readSaved, here budget, inductionHypothesis others]

/-- A block contributes the same where the shelves agree on all ids that it reaches. -/
theorem contribution_congr (agree : ∀ id, shelf.Reaches id raw → other.get? id = shelf.get? id)
    (budget : Nat) :
    contribution other room opened raw budget = contribution shelf room opened raw budget := by
  have sameReference := referred?_congr agree
  induction room, opened, raw using expansion_induction shelf generalizing budget with
  | unknown unknown =>
    rw [contribution, contribution, sameReference, unknown]
  | repeats known contained =>
    rw [contribution, contribution, sameReference, known]
    simp only [contained, if_true]
  | full known fresh =>
    simp [contribution, sameReference, known]
  | opens known fresh inductionHypothesis =>
    rw [contribution, contribution, sameReference, known]
    simp only [fresh, Bool.false_eq_true, if_false]
    obtain ⟨refers, found⟩ := referred?_eq_some_iff.mp known
    refine readSaved_congr (fun saved member budget => ?_) budget
    have agreeInside : ∀ id, shelf.Reaches id saved → other.get? id = shelf.get? id :=
      fun id further => agree id (.through refers found member further)
    exact inductionHypothesis saved member agreeInside budget (referred?_congr agreeInside)

theorem expandBlocks_congr
    (agree : ∀ raw ∈ blocks, ∀ id, shelf.Reaches id raw → other.get? id = shelf.get? id)
    (budget : Nat) : expandBlocks other blocks budget = expandBlocks shelf blocks budget := by
  induction blocks generalizing budget with
  | nil => rfl
  | cons raw later inductionHypothesis =>
    obtain ⟨here, others⟩ := List.forall_mem_cons.mp agree
    simp only [expandBlocks, contribution_congr here, inductionHypothesis others]

theorem expandHeads_congr
    (agree : ∀ head ∈ heads, ∀ raw ∈ head.blocks, ∀ id, shelf.Reaches id raw →
      other.get? id = shelf.get? id)
    (budget : Nat) : expandHeads other heads budget = expandHeads shelf heads budget := by
  induction heads generalizing budget with
  | nil => rfl
  | cons head later inductionHypothesis =>
    obtain ⟨here, others⟩ := List.forall_mem_cons.mp agree
    simp only [expandHeads, expandBlocks_congr here, inductionHypothesis others]

/-- Heads are expanded alike where the shelves differ in an id only that no block of the heads reaches. -/
theorem expand_of_unreached {id : String}
    (unreached : ∀ head ∈ heads, ∀ raw ∈ head.blocks, ¬shelf.Reaches id raw)
    (agree : ∀ reached, reached ≠ id → other.get? reached = shelf.get? reached) :
    other.expand heads = shelf.expand heads := by
  rw [expand_eq_expandHeads, expand_eq_expandHeads]
  refine expandHeads_congr (fun head inHeads raw inHead reached reaches => ?_) blockBudget
  exact agree reached fun same => unreached head inHeads raw inHead (same ▸ reaches)

end Agree

/-- Heads in front of others use the budget as if they were alone. -/
theorem take_expandHeads (shelf : Shelf) (front back : List BlockChain) (budget : Nat) :
    (expandHeads shelf (front ++ back) budget).take front.length =
      expandHeads shelf front budget := by
  induction front generalizing budget with
  | nil => rfl
  | cons head later inductionHypothesis =>
    rw [List.cons_append, expandHeads_cons, expandHeads_cons, List.length_cons,
      List.take_succ_cons, inductionHypothesis]

/-- An expansion depends on nothing but the heads in front and the ids that are reached.  Heads that
follow change nothing in front of them.  An id that no block of the heads reaches may come, change or go.
And the shortcut for a shelf without chains gives what the expansion gives. -/
theorem expand_depends (shelf : Shelf) (heads : List BlockChain) :
    (∀ later, (shelf.expand (heads ++ later)).take heads.length = shelf.expand heads) ∧
      (∀ id, (∀ head ∈ heads, ∀ raw ∈ head.blocks, ¬shelf.Reaches id raw) →
        (∀ chain registered, shelf.register? id chain = some registered →
          registered.expand heads = shelf.expand heads) ∧
          (shelf.remove id).expand heads = shelf.expand heads) ∧
      shelf.expand heads = expandHeads shelf heads blockBudget := by
  refine ⟨fun later => ?_, fun id unreached => ⟨fun chain registered saved => ?_, ?_⟩,
    expand_eq_expandHeads shelf heads⟩
  · rw [expand_eq_expandHeads, expand_eq_expandHeads, take_expandHeads]
  · refine expand_of_unreached unreached fun reached apart => ?_
    rw [get?_register saved, if_neg apart]
  · refine expand_of_unreached unreached fun reached apart => ?_
    rw [get?_remove, if_neg apart]

/-- The loop reaches itself only, so a chain saved under another id does not enter its expansion. -/
theorem expand_depends_of_loop :
    let head : BlockChain := ⟨⟨"promps_template_r", none⟩, []⟩
    let chain : BlockChain := ⟨⟨"promps_verb_analyze", none⟩, []⟩
    (∀ raw ∈ head.blocks, ¬loopShelf.Reaches "q" raw) ∧
      ∃ registered, loopShelf.register? "q" chain = some registered ∧
        registered.expand [head] = [⟨⟨"promps_noun", some "A"⟩, []⟩] := by
  intro head chain
  have unmentioned : ∀ saved ∈ loopShelf.entries.flatMap fun entry => entry.2.blocks,
      referredId? saved.blockType ≠ some "q" := by
    decide
  have unreached : ∀ raw ∈ head.blocks, ¬loopShelf.Reaches "q" raw := by
    intro raw member reaches
    rcases reaches.exists_refers with refers | ⟨saved, inShelf, refers⟩
    · rw [List.mem_singleton.mp member] at refers
      exact absurd (referredId?_eq_some_iff.mpr refers) (by decide)
    · exact unmentioned saved inShelf (referredId?_eq_some_iff.mpr refers)
  obtain ⟨registered, saved⟩ : ∃ registered, loopShelf.register? "q" chain = some registered :=
    Option.isSome_iff_exists.mp (by decide)
  obtain ⟨-, frame, -⟩ := expand_depends loopShelf [head]
  obtain ⟨unchanged, -⟩ := frame "q" fun other member => List.mem_singleton.mp member ▸ unreached
  exact ⟨unreached, registered, saved, (unchanged chain registered saved).trans (by decide)⟩

end PromptBlocks.Shelf
