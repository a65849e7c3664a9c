import Mathlib.Data.List.Perm.Subperm
import PromptBlocks.Proofs.Pattern.Share

/-!
Contract: how many slots the tokens can fill at all.

Owns:
- fillings: some of the slots with tokens that they accept, each token in one slot;
- slots that give way to those behind them;
- the greedy filling is a filling, and the largest where every slot gives way.

Does not own: which slots give way, and the score that is made of the filled slots.
-/

namespace PromptBlocks.Slot

/-- So many of the slots can be given tokens that they accept, each token to one slot. -/
def Fillable (slots : List Slot) (tokens : List Token) (count : Nat) : Prop :=
  ∃ chosen used, chosen.Sublist slots ∧ used.Subperm tokens ∧ Spelled chosen used ∧
    chosen.length = count

/-- Where both slots accept a token, the later one accepts all that the earlier one does. -/
def YieldsTo (earlier later : Slot) : Prop :=
  ∀ shared, earlier.accepts shared = true → later.accepts shared = true →
    ∀ token, earlier.accepts token = true → later.accepts token = true

section Fillings

variable {slot : Slot} {slots chosen : List Slot} {tokens left used front back : List Token}
  {token : Token} {count : Nat}

theorem Fillable.perm {shuffled : List Token} (same : tokens.Perm shuffled)
    (fillable : Fillable slots tokens count) : Fillable slots shuffled count := by
  obtain ⟨chosen, used, inSlots, inTokens, spelled, counted⟩ := fillable
  exact ⟨chosen, used, inSlots, same.subperm_left.mp inTokens, spelled, counted⟩

/-- The slot that a token fills. -/
theorem Spelled.exists_split (spelled : Spelled chosen (front ++ token :: back)) :
    ∃ first slot last, chosen = first ++ slot :: last ∧ Spelled first front ∧
      slot.accepts token = true ∧ Spelled last back := by
  induction front generalizing chosen with
  | nil =>
    obtain ⟨slot, last, accepted, rest, rfl⟩ := List.forall₂_cons_right_iff.mp spelled
    exact ⟨[], slot, last, rfl, List.Forall₂.nil, accepted, rest⟩
  | cons head front inductionHypothesis =>
    obtain ⟨other, others, accepted, rest, rfl⟩ := List.forall₂_cons_right_iff.mp spelled
    obtain ⟨first, slot, last, rfl, inFront, here, behind⟩ := inductionHypothesis rest
    exact ⟨other :: first, slot, last, rfl, List.Forall₂.cons accepted inFront, here, behind⟩

/-- The first token that a slot accepts, and the others. -/
theorem exists_perm_of_any (taken : tokens.any slot.accepts = true) :
    ∃ token, slot.accepts token = true ∧
      tokens.Perm (token :: tokens.eraseP slot.accepts) := by
  obtain ⟨member, inTokens, accepted⟩ := List.any_eq_true.mp taken
  obtain ⟨token, front, back, -, accepts, split, erased⟩ :=
    List.exists_of_eraseP inTokens accepted
  refine ⟨token, accepts, ?_⟩
  rw [erased, split]
  exact List.perm_middle

/-- The greedy filling is a filling. -/
theorem fillable_filledCount (slots : List Slot) (tokens : List Token) :
    Fillable slots tokens (filledCount slots tokens) := by
  induction slots generalizing tokens with
  | nil => exact ⟨[], [], List.Sublist.slnil, List.nil_subperm, List.Forall₂.nil, rfl⟩
  | cons slot slots inductionHypothesis =>
    cases taken : tokens.any slot.accepts with
    | true =>
      obtain ⟨token, accepted, split⟩ := exists_perm_of_any taken
      obtain ⟨chosen, used, inSlots, inTokens, spelled, counted⟩ :=
        inductionHypothesis (tokens.eraseP slot.accepts)
      refine ⟨slot :: chosen, token :: used, inSlots.cons_cons slot, ?_,
        List.Forall₂.cons accepted spelled, ?_⟩
      · exact split.subperm_left.mpr ((List.subperm_cons token).mpr inTokens)
      · rw [filledCount_cons_of_any taken, List.length_cons, counted]
    | false =>
      obtain ⟨chosen, used, inSlots, inTokens, spelled, counted⟩ := inductionHypothesis tokens
      refine ⟨chosen, used, inSlots.cons slot, inTokens, spelled, ?_⟩
      rw [filledCount_cons_of_not_any taken, counted]

theorem subperm_of_not_mem (within : used.Subperm (token :: left)) (unused : token ∉ used) :
    used.Subperm left := by
  have erased := within.erase token
  rwa [List.erase_of_not_mem unused, List.erase_cons_head] at erased

/-- Without one of the tokens, all but one of the slots stay filled. -/
theorem exists_filling_without (within : used.Subperm (token :: left))
    (spelled : Spelled chosen used) :
    ∃ fewer others, fewer.Sublist chosen ∧ others.Subperm left ∧ Spelled fewer others ∧
      chosen.length ≤ fewer.length + 1 := by
  by_cases unused : token ∉ used
  · exact ⟨chosen, used, List.Sublist.refl _, subperm_of_not_mem within unused, spelled,
      Nat.le_succ _⟩
  · obtain ⟨front, back, rfl⟩ := List.append_of_mem (not_not.mp unused)
    obtain ⟨first, slot, last, rfl, inFront, -, behind⟩ := spelled.exists_split
    refine ⟨first ++ last, front ++ back, (List.sublist_cons_self slot last).append_left first, ?_,
      List.rel_append inFront behind, ?_⟩
    · exact (List.subperm_cons token).mp (List.perm_middle.subperm_right.mp within)
    · simp only [List.length_append, List.length_cons]
      omega

/-- A slot may as well have another token that it accepts: what is filled behind it stays filled, since
the slot that has to give this token up accepts the one it gets for it. -/
theorem exists_filling_instead {other : Token} (within : (other :: used).Subperm (token :: left))
    (accepted : slot.accepts other = true) (acceptsToo : slot.accepts token = true)
    (yields : ∀ later ∈ chosen, slot.YieldsTo later) (spelled : Spelled chosen used) :
    ∃ others, others.Subperm left ∧ Spelled chosen others := by
  by_cases unused : token ∉ used
  · refine ⟨used, ?_, spelled⟩
    by_cases same : token = other
    · rw [same] at within
      exact (List.subperm_cons other).mp within
    · have unusedToo : token ∉ other :: used := List.not_mem_cons_of_ne_of_not_mem same unused
      exact (List.sublist_cons_self other used).subperm.trans (subperm_of_not_mem within unusedToo)
  · obtain ⟨front, back, rfl⟩ := List.append_of_mem (not_not.mp unused)
    obtain ⟨first, holder, last, rfl, inFront, holds, behind⟩ := spelled.exists_split
    have takesOver : holder.accepts other = true :=
      yields holder (by simp) token acceptsToo holds other accepted
    refine ⟨front ++ other :: back, ?_,
      List.rel_append inFront (List.Forall₂.cons takesOver behind)⟩
    have swapped : (other :: (front ++ token :: back)).Perm (token :: (front ++ other :: back)) :=
      ((List.perm_middle.cons other).trans (List.Perm.swap token other _)).trans
        (List.perm_middle.symm.cons token)
    exact (List.subperm_cons token).mp (swapped.subperm_right.mp within)

/-- Where every slot yields to those behind it, no filling is larger than the greedy one. -/
theorem length_le_filledCount (yields : slots.Pairwise YieldsTo) (inSlots : chosen.Sublist slots)
    (inTokens : used.Subperm tokens) (spelled : Spelled chosen used) :
    chosen.length ≤ filledCount slots tokens := by
  induction yields generalizing chosen tokens used with
  | nil =>
    rw [List.sublist_nil.mp inSlots]
    exact Nat.zero_le _
  | @cons slot slots yieldsToAll _ inductionHypothesis =>
    cases taken : tokens.any slot.accepts with
    | false =>
      rw [filledCount_cons_of_not_any taken]
      cases inSlots with
      | cons _ inRest => exact inductionHypothesis inRest inTokens spelled
      | cons_cons _ inRest =>
        -- The slot accepts no token, so it has none.
        obtain ⟨token, others, accepted, -, rfl⟩ := List.forall₂_cons_left_iff.mp spelled
        have inside : token ∈ tokens := inTokens.subset List.mem_cons_self
        have available : tokens.any slot.accepts = true := List.any_eq_true.mpr ⟨_, inside, accepted⟩
        rw [taken] at available
        cases available
    | true =>
      obtain ⟨token, acceptsToo, split⟩ := exists_perm_of_any taken
      have within := split.subperm_left.mp inTokens
      rw [filledCount_cons_of_any taken]
      cases inSlots with
      | cons _ inRest =>
        obtain ⟨fewer, others, fewerChosen, inLeft, spelledStill, enough⟩ :=
          exists_filling_without within spelled
        have rest := inductionHypothesis (fewerChosen.trans inRest) inLeft spelledStill
        omega
      | cons_cons _ inRest =>
        obtain ⟨other, others, accepted, rest, rfl⟩ := List.forall₂_cons_left_iff.mp spelled
        obtain ⟨instead, inLeft, spelledStill⟩ := exists_filling_instead within accepted acceptsToo
          (fun later member => yieldsToAll later (inRest.subset member)) rest
        exact Nat.succ_le_succ (inductionHypothesis inRest inLeft spelledStill)

theorem isGreatest_filledCount (yields : slots.Pairwise YieldsTo) (tokens : List Token) :
    IsGreatest {count | Fillable slots tokens count} (filledCount slots tokens) := by
  refine ⟨fillable_filledCount slots tokens, ?_⟩
  rintro count ⟨chosen, used, inSlots, inTokens, spelled, rfl⟩
  exact length_le_filledCount yields inSlots inTokens spelled

/-- Where every slot yields to those behind it, the order of the tokens does not matter. -/
theorem filledCount_perm (yields : slots.Pairwise YieldsTo) {shuffled : List Token}
    (same : tokens.Perm shuffled) : filledCount slots tokens = filledCount slots shuffled := by
  have sameFillings : {count | Fillable slots tokens count} =
      {count | Fillable slots shuffled count} :=
    Set.ext fun count => ⟨Fillable.perm same, Fillable.perm same.symm⟩
  have greatest := isGreatest_filledCount yields tokens
  rw [sameFillings] at greatest
  exact greatest.unique (isGreatest_filledCount yields shuffled)

end Fillings

end PromptBlocks.Slot
