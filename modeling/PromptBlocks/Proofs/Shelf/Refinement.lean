import Mathlib.Data.List.Flatten
import Mathlib.Data.List.Forall2
import PromptBlocks.Proofs.Shelf.Cut
import PromptBlocks.Proofs.Shelf.Lookup
import PromptBlocks.Proofs.Shelf.Tracing

/-!
Contract: the expansion with a budget refines the expansion without one.

Owns:
- the visits of heads that share a budget, which are the cut visits without one;
- the expansion of heads is what their cut visits put out, and equal to the plain one where the
  budget lasts;
- bounds on what an expansion puts out.

Does not own: the order of visits below one block.
-/

namespace PromptBlocks.Shelf

/-! ### Heads -/

/-- `expandBlocks`, recording visits. -/
def traceBlocks (shelf : Shelf) : List ChainBlock → Nat → List Visit × Nat
  | [], budget => ([], budget)
  | raw :: later, budget =>
    let (first, left) := trace shelf nestingLimit [] raw budget
    let (others, final) := traceBlocks shelf later left
    ({ raw, opened := [] } :: (first ++ others), final)

/-- `expandHeads`, recording visits. -/
def traceHeads (shelf : Shelf) : List BlockChain → Nat → List (List Visit)
  | [], _ => []
  | head :: later, budget =>
    let (visits, left) := traceBlocks shelf head.blocks budget
    visits :: traceHeads shelf later left

def headVisits (shelf : Shelf) (heads : List BlockChain) : List (List Visit) :=
  heads.map fun head => visits shelf [] head.blocks

section Heads

variable {shelf : Shelf} {head : BlockChain} {heads : List BlockChain} {blocks : List ChainBlock}
  {budget : Nat}

theorem expandBlocks_eq (shelf : Shelf) (blocks : List ChainBlock) (budget : Nat) :
    expandBlocks shelf blocks budget =
      (output shelf (traceBlocks shelf blocks budget).1, (traceBlocks shelf blocks budget).2) := by
  induction blocks generalizing budget with
  | nil => rfl
  | cons raw later inductionHypothesis =>
    simp only [expandBlocks, traceBlocks, contribution_eq, inductionHypothesis, output_cons,
      output_append, List.append_assoc]

/-- The heads are expanded to what their recorded visits put out. -/
theorem expandHeads_eq_map_traceHeads (shelf : Shelf) (heads : List BlockChain) (budget : Nat) :
    expandHeads shelf heads budget = (traceHeads shelf heads budget).map (assembled shelf) := by
  induction heads generalizing budget with
  | nil => rfl
  | cons head later inductionHypothesis =>
    simp only [expandHeads, traceHeads, expandBlocks_eq, inductionHypothesis, List.map_cons,
      assembled]

theorem reads_savedVisits (shelf : Shelf) (opened : List String) (raw : ChainBlock) :
    reads (savedVisits shelf opened raw) = savedVisits shelf opened raw :=
  List.filter_eq_self.mpr fun _ member => isRead_of_mem_savedVisits member

theorem reads_visits_cons (shelf : Shelf) (raw : ChainBlock) (later : List ChainBlock) :
    reads (visits shelf [] (raw :: later)) =
      savedVisits shelf [] raw ++ reads (visits shelf [] later) := by
  rw [visits_cons, reads_cons_own rfl, reads_append, reads_savedVisits]

/-- A head's own block is free, and behind it come reads only, of which the cut takes the first. -/
theorem cut_visits_cons (shelf : Shelf) (raw : ChainBlock) (later : List ChainBlock) (budget : Nat) :
    cut budget (visits shelf [] (raw :: later)) =
      { raw, opened := [] } :: ((savedVisits shelf [] raw).take budget ++
        cut (budget - (savedVisits shelf [] raw).length) (visits shelf [] later)) := by
  have areReads : ∀ visit ∈ savedVisits shelf [] raw, visit.isRead = true :=
    fun visit member => isRead_of_mem_savedVisits member
  rw [visits_cons, cut_cons_own rfl, cut_append, reads_savedVisits, cut_of_reads areReads]

/-- The recorded visits of blocks are the cut ones, and each read costs one. -/
theorem traceBlocks_eq_cut (shelf : Shelf) (blocks : List ChainBlock) (budget : Nat) :
    traceBlocks shelf blocks budget =
      (cut budget (visits shelf [] blocks), budget - (reads (visits shelf [] blocks)).length) := by
  induction blocks generalizing budget with
  | nil => rfl
  | cons raw later inductionHypothesis =>
    rw [cut_visits_cons, reads_visits_cons, List.length_append, ← Nat.sub_sub]
    simp only [traceBlocks, trace_eq_take (show nestingLimit + [].length = nestingLimit from rfl),
      inductionHypothesis]

theorem traceHeads_eq_cutHeads (shelf : Shelf) (heads : List BlockChain) (budget : Nat) :
    traceHeads shelf heads budget = cutHeads budget (headVisits shelf heads) := by
  induction heads generalizing budget with
  | nil => rfl
  | cons head later inductionHypothesis =>
    simp only [traceHeads, traceBlocks_eq_cut, inductionHypothesis, headVisits, List.map_cons,
      cutHeads]

/-- The heads in turn, each with the budget that those before it have left. -/
theorem expandHeads_cons (shelf : Shelf) (head : BlockChain) (later : List BlockChain)
    (budget : Nat) :
    expandHeads shelf (head :: later) budget =
      assembled shelf (cut budget (visits shelf [] head.blocks)) ::
        expandHeads shelf later (budget - (reads (visits shelf [] head.blocks)).length) := by
  simp only [expandHeads, expandBlocks_eq, traceBlocks_eq_cut, assembled]

theorem length_expandHeads (shelf : Shelf) (heads : List BlockChain) (budget : Nat) :
    (expandHeads shelf heads budget).length = heads.length := by
  induction heads generalizing budget with
  | nil => rfl
  | cons head later inductionHypothesis =>
    rw [expandHeads_cons, List.length_cons, List.length_cons, inductionHypothesis]

/-- Blocks that stand for themselves are left alone, and cost nothing. -/
theorem expandBlocks_of_settled (settled : ∀ raw ∈ blocks, shelf.Settled raw) (budget : Nat) :
    expandBlocks shelf blocks budget = (blocks, budget) := by
  induction blocks generalizing budget with
  | nil => rfl
  | cons raw later inductionHypothesis =>
    obtain ⟨first, others⟩ := List.forall_mem_cons.mp settled
    rw [expandBlocks, contribution, settled_iff.mp first]
    simp only [inductionHypothesis others, List.singleton_append]

theorem expandHeads_of_settled (settled : ∀ head ∈ heads, ∀ raw ∈ head.blocks, shelf.Settled raw)
    (budget : Nat) : expandHeads shelf heads budget = heads := by
  induction heads generalizing budget with
  | nil => rfl
  | cons head later inductionHypothesis =>
    obtain ⟨first, others⟩ := List.forall_mem_cons.mp settled
    rw [expandHeads, expandBlocks_of_settled first]
    simp only [inductionHypothesis others]
    rfl

/-- Nothing saved, nothing expanded: the shortcut for such a shelf changes nothing. -/
theorem expand_eq_expandHeads (shelf : Shelf) (heads : List BlockChain) :
    expand shelf heads = expandHeads shelf heads blockBudget := by
  unfold expand
  split
  · next empty =>
    exact (expandHeads_of_settled (fun _ _ raw _ => settled_of_isEmpty empty raw) blockBudget).symm
  · rfl

/-! ### What a head puts out -/

theorem length_output_le (shelf : Shelf) (visits : List Visit) :
    (output shelf visits).length ≤ visits.length := by
  induction visits with
  | nil => exact Nat.le_refl 0
  | cons visit later inductionHypothesis =>
    have atMostOne : (visit.output shelf).length ≤ 1 := by
      unfold Visit.output
      split
      · exact Nat.le_refl 1
      · exact Nat.zero_le 1
    rw [output_cons, List.length_append, List.length_cons]
    omega

theorem blocks_assembled (shelf : Shelf) (visits : List Visit) :
    (assembled shelf visits).blocks =
      if output shelf visits = [] then placeholder.blocks else output shelf visits := by
  unfold assembled
  cases output shelf visits with
  | nil => rfl
  | cons raw later => rfl

theorem length_assembled_le {visits : List Visit} (nonempty : 0 < visits.length) :
    (assembled shelf visits).length ≤ visits.length := by
  rw [BlockChain.length, blocks_assembled]
  split
  · exact nonempty
  · exact length_output_le shelf visits

theorem output_sublist_assembled (shelf : Shelf) (visits : List Visit) :
    (output shelf visits).Sublist (assembled shelf visits).blocks := by
  rw [blocks_assembled]
  split
  · next empty =>
    rw [empty]
    exact List.nil_sublist _
  · exact List.Sublist.refl _

theorem own_visits (shelf : Shelf) (blocks : List ChainBlock) :
    own (visits shelf [] blocks) = blocks.map fun raw => { raw, opened := [] } := by
  induction blocks with
  | nil => rfl
  | cons raw later inductionHypothesis =>
    have noneOwn : own (savedVisits shelf [] raw) = [] := by
      refine List.filter_eq_nil_iff.mpr fun visit member => ?_
      rw [isRead_of_mem_savedVisits member]
      exact Bool.false_ne_true
    rw [visits_cons, own_cons_own rfl, own_append, noneOwn, inductionHypothesis]
    rfl

theorem output_own (shelf : Shelf) (blocks : List ChainBlock) :
    output shelf (blocks.map fun raw => { raw, opened := [] }) =
      blocks.filter fun raw => (shelf.referred? raw).isNone := by
  induction blocks with
  | nil => rfl
  | cons raw later inductionHypothesis =>
    rw [List.map_cons, output_cons, inductionHypothesis]
    cases known : shelf.referred? raw with
    | none =>
      rw [Visit.output_of_none known, List.filter_cons_of_pos (by rw [known]; rfl)]
      rfl
    | some found =>
      rw [Visit.output_of_some known, List.filter_cons_of_neg (by rw [known]; exact Bool.false_ne_true)]
      rfl

/-- The blocks of a head that stand for themselves are put out in order, whatever the budget. -/
theorem own_blocks_sublist (shelf : Shelf) (head : BlockChain) (budget : Nat) :
    (head.blocks.filter fun raw => (shelf.referred? raw).isNone).Sublist
      (assembled shelf (cut budget (visits shelf [] head.blocks))).blocks := by
  have kept : (own (visits shelf [] head.blocks)).Sublist
      (cut budget (visits shelf [] head.blocks)) := by
    rw [← own_cut budget]
    exact List.filter_sublist
  rw [← output_own, ← own_visits]
  exact (kept.flatMap _).trans (output_sublist_assembled shelf _)

theorem length_assembled_cut_le (shelf : Shelf) (head : BlockChain) (budget : Nat) :
    (assembled shelf (cut budget (visits shelf [] head.blocks))).length ≤
      head.length + min budget (reads (visits shelf [] head.blocks)).length := by
  have length : (cut budget (visits shelf [] head.blocks)).length =
      head.length + min budget (reads (visits shelf [] head.blocks)).length := by
    rw [length_cut, own_visits, List.length_map]
    rfl
  -- A head has at least one block of its own, so the placeholder is no longer than its visits.
  rw [← length]
  refine length_assembled_le ?_
  rw [length, BlockChain.length, BlockChain.blocks, List.length_cons]
  omega

/-- Heads put out no more than their own blocks and the budget. -/
theorem length_expandHeads_le (shelf : Shelf) (heads : List BlockChain) (budget : Nat) :
    ((expandHeads shelf heads budget).flatMap BlockChain.blocks).length ≤
      (heads.flatMap BlockChain.blocks).length + budget := by
  induction heads generalizing budget with
  | nil => exact Nat.zero_le _
  | cons head later inductionHypothesis =>
    have first := length_assembled_cut_le shelf head budget
    have others := inductionHypothesis (budget - (reads (visits shelf [] head.blocks)).length)
    rw [expandHeads_cons, List.flatMap_cons, List.flatMap_cons, List.length_append,
      List.length_append]
    rw [BlockChain.length, BlockChain.length] at first
    omega

theorem forall₂_own_blocks (shelf : Shelf) (heads : List BlockChain) (budget : Nat) :
    List.Forall₂ (fun head expanded =>
        (head.blocks.filter fun raw => (shelf.referred? raw).isNone).Sublist expanded.blocks)
      heads (expandHeads shelf heads budget) := by
  induction heads generalizing budget with
  | nil => exact .nil
  | cons head later inductionHypothesis =>
    rw [expandHeads_cons]
    exact .cons (own_blocks_sublist shelf head budget) (inductionHypothesis _)

end Heads

theorem cutHeads_of_le {budget : Nat} {heads : List (List Visit)}
    (enough : (reads heads.flatten).length ≤ budget) : cutHeads budget heads = heads := by
  induction heads generalizing budget with
  | nil => rfl
  | cons visits later inductionHypothesis =>
    rw [List.flatten_cons, reads_append, List.length_append] at enough
    rw [cutHeads, cut_of_le (by omega), inductionHypothesis (by omega)]

/-- Expansion with a budget refines expansion without one.  Recording its visits shows that it reads
the first saved blocks that plain expansion reads, over all heads and as many as the budget allows;
what it puts out is what plain expansion does, less the reads behind those.  So the two agree where
the budget lasts, the budget bounds what is put out, and a head's own blocks that stand for themselves
are put out in any case. -/
theorem expand_refines (shelf : Shelf) (heads : List BlockChain) :
    shelf.expand heads = (traceHeads shelf heads blockBudget).map (assembled shelf) ∧
      reads (traceHeads shelf heads blockBudget).flatten =
        (reads (headVisits shelf heads).flatten).take blockBudget ∧
      shelf.expandPlainly heads = (headVisits shelf heads).map (assembled shelf) ∧
      shelf.expand heads = (cutHeads blockBudget (headVisits shelf heads)).map (assembled shelf) ∧
      ((reads (headVisits shelf heads).flatten).length ≤ blockBudget →
        shelf.expand heads = shelf.expandPlainly heads) ∧
      ((shelf.expand heads).flatMap BlockChain.blocks).length ≤
        (heads.flatMap BlockChain.blocks).length + blockBudget ∧
      List.Forall₂ (fun head expanded =>
          (head.blocks.filter fun raw => (shelf.referred? raw).isNone).Sublist expanded.blocks)
        heads (shelf.expand heads) := by
  have recorded : shelf.expand heads = (traceHeads shelf heads blockBudget).map (assembled shelf) := by
    rw [expand_eq_expandHeads, expandHeads_eq_map_traceHeads]
  have plain := expandPlainly_eq shelf heads
  refine ⟨recorded, ?_, plain, ?_, ?_, ?_, ?_⟩
  · rw [traceHeads_eq_cutHeads, flatten_cutHeads, reads_cut]
  · rw [recorded, traceHeads_eq_cutHeads]
  · intro enough
    rw [recorded, traceHeads_eq_cutHeads, cutHeads_of_le enough, plain]
    rfl
  · rw [expand_eq_expandHeads]
    exact length_expandHeads_le shelf heads blockBudget
  · rw [expand_eq_expandHeads]
    exact forall₂_own_blocks shelf heads blockBudget

/-- A shelf with one chain, which ends with a reference to itself. -/
def loopShelf : Shelf :=
  { entries := [("r", ⟨⟨"promps_noun", some "A"⟩, [⟨"promps_template_r", none⟩]⟩)] }

/-- The chain that refers to itself is read once, its own reference included, and the budget lasts
for that. -/
theorem expand_refines_of_loop :
    reads (headVisits loopShelf [⟨⟨"promps_template_r", none⟩, []⟩]).flatten =
        [⟨⟨"promps_noun", some "A"⟩, ["r"]⟩, ⟨⟨"promps_template_r", none⟩, ["r"]⟩] ∧
      loopShelf.expand [⟨⟨"promps_template_r", none⟩, []⟩] =
        loopShelf.expandPlainly [⟨⟨"promps_template_r", none⟩, []⟩] := by
  have known : loopShelf.referred? ⟨"promps_template_r", none⟩ =
      some ("r", ⟨⟨"promps_noun", some "A"⟩, [⟨"promps_template_r", none⟩]⟩) := by
    decide
  have unknown : loopShelf.referred? ⟨"promps_noun", some "A"⟩ = none := by
    decide
  have visited : reads (headVisits loopShelf [⟨⟨"promps_template_r", none⟩, []⟩]).flatten =
      [⟨⟨"promps_noun", some "A"⟩, ["r"]⟩, ⟨⟨"promps_template_r", none⟩, ["r"]⟩] := by
    rw [headVisits, List.map_singleton, List.flatten_singleton, BlockChain.blocks, visits_cons,
      savedVisits_of_opens known rfl (by decide), BlockChain.blocks, visits_cons,
      savedVisits_of_none unknown, visits_cons, savedVisits_of_contains known rfl]
    rfl
  refine ⟨visited, ?_⟩
  obtain ⟨-, -, -, -, agree, -, -⟩ :=
    expand_refines loopShelf [⟨⟨"promps_template_r", none⟩, []⟩]
  refine agree ?_
  rw [visited]
  decide

end PromptBlocks.Shelf
