import Mathlib.Data.List.Basic
import PromptBlocks.Proofs.Shelf.Visits

/-!
Contract: cutting visits after a number of reads.

Owns:
- the visits that are reads, and those of a head's own blocks;
- the cut, which leaves the first reads and all own blocks;
- the cut of heads that share a budget.

Does not own: the expansion that such a cut describes.
-/

namespace PromptBlocks.Shelf

def reads (visits : List Visit) : List Visit :=
  visits.filter Visit.isRead

/-- The visits that are no reads: the blocks of a head. -/
def own (visits : List Visit) : List Visit :=
  visits.filter fun visit => !visit.isRead

/-- The visits without the reads that come after as many as the budget allows. -/
def cut : Nat → List Visit → List Visit
  | _, [] => []
  | budget, visit :: later =>
    if visit.isRead then
      match budget with
      | 0 => cut 0 later
      | budget + 1 => visit :: cut budget later
    else visit :: cut budget later

/-- The visits of heads in order, cut after as many reads of all heads together. -/
def cutHeads : Nat → List (List Visit) → List (List Visit)
  | _, [] => []
  | budget, visits :: later =>
    cut budget visits :: cutHeads (budget - (reads visits).length) later

section Cut

variable {visit : Visit} {front back later : List Visit}

theorem cut_cons_own (own : visit.isRead = false) (budget : Nat) :
    cut budget (visit :: later) = visit :: cut budget later := by
  simp [cut, own]

theorem cut_cons_read_zero (isRead : visit.isRead = true) :
    cut 0 (visit :: later) = cut 0 later := by
  rw [cut, if_pos isRead]

theorem cut_cons_read_succ (isRead : visit.isRead = true) (budget : Nat) :
    cut (budget + 1) (visit :: later) = visit :: cut budget later := by
  rw [cut, if_pos isRead]

theorem reads_cons_own (own : visit.isRead = false) : reads (visit :: later) = reads later :=
  List.filter_cons_of_neg (Bool.eq_false_iff.mp own)

theorem reads_cons_read (isRead : visit.isRead = true) :
    reads (visit :: later) = visit :: reads later :=
  List.filter_cons_of_pos isRead

theorem own_cons_own (own : visit.isRead = false) :
    Shelf.own (visit :: later) = visit :: Shelf.own later :=
  List.filter_cons_of_pos (congrArg Bool.not own)

theorem own_cons_read (isRead : visit.isRead = true) : own (visit :: later) = own later :=
  List.filter_cons_of_neg (by rw [isRead]; exact Bool.false_ne_true)

theorem reads_append (front back : List Visit) :
    reads (front ++ back) = reads front ++ reads back :=
  List.filter_append front back

theorem own_append (front back : List Visit) : own (front ++ back) = own front ++ own back :=
  List.filter_append front back

/-- The budget that is left behind some visits cuts those that follow. -/
theorem cut_append (budget : Nat) (front back : List Visit) :
    cut budget (front ++ back) = cut budget front ++ cut (budget - (reads front).length) back := by
  induction front generalizing budget with
  | nil => rfl
  | cons visit later inductionHypothesis =>
    rw [List.cons_append]
    cases isRead : visit.isRead with
    | false =>
      rw [cut_cons_own isRead, cut_cons_own isRead, reads_cons_own isRead, inductionHypothesis,
        List.cons_append]
    | true =>
      rw [reads_cons_read isRead, List.length_cons]
      cases budget with
      | zero =>
        rw [cut_cons_read_zero isRead, cut_cons_read_zero isRead, inductionHypothesis,
          Nat.zero_sub, Nat.zero_sub]
      | succ budget =>
        rw [cut_cons_read_succ isRead, cut_cons_read_succ isRead, inductionHypothesis,
          List.cons_append, Nat.add_sub_add_right]

theorem reads_cut (budget : Nat) (visits : List Visit) :
    reads (cut budget visits) = (reads visits).take budget := by
  induction visits generalizing budget with
  | nil => exact List.take_nil.symm
  | cons visit later inductionHypothesis =>
    cases isRead : visit.isRead with
    | false =>
      rw [cut_cons_own isRead, reads_cons_own isRead, reads_cons_own isRead, inductionHypothesis]
    | true =>
      rw [reads_cons_read isRead]
      cases budget with
      | zero => rw [cut_cons_read_zero isRead, inductionHypothesis, List.take_zero, List.take_zero]
      | succ budget =>
        rw [cut_cons_read_succ isRead, reads_cons_read isRead, inductionHypothesis,
          List.take_succ_cons]

theorem cut_of_le {budget : Nat} {visits : List Visit} (enough : (reads visits).length ≤ budget) :
    cut budget visits = visits := by
  induction visits generalizing budget with
  | nil => rfl
  | cons visit later inductionHypothesis =>
    cases isRead : visit.isRead with
    | false =>
      rw [reads_cons_own isRead] at enough
      rw [cut_cons_own isRead, inductionHypothesis enough]
    | true =>
      rw [reads_cons_read isRead, List.length_cons] at enough
      cases budget with
      | zero => omega
      | succ budget => rw [cut_cons_read_succ isRead, inductionHypothesis (by omega)]

theorem own_cut (budget : Nat) (visits : List Visit) : own (cut budget visits) = own visits := by
  induction visits generalizing budget with
  | nil => rfl
  | cons visit later inductionHypothesis =>
    cases isRead : visit.isRead with
    | false =>
      rw [cut_cons_own isRead, own_cons_own isRead, own_cons_own isRead, inductionHypothesis]
    | true =>
      rw [own_cons_read isRead]
      cases budget with
      | zero => rw [cut_cons_read_zero isRead, inductionHypothesis]
      | succ budget =>
        rw [cut_cons_read_succ isRead, own_cons_read isRead, inductionHypothesis]

theorem length_cut (budget : Nat) (visits : List Visit) :
    (cut budget visits).length = (own visits).length + min budget (reads visits).length := by
  rw [List.length_eq_length_filter_add Visit.isRead]
  show (reads (cut budget visits)).length + (own (cut budget visits)).length = _
  rw [reads_cut, own_cut, List.length_take, Nat.add_comm]

theorem cut_of_reads {budget : Nat} {visits : List Visit}
    (areReads : ∀ visit ∈ visits, visit.isRead = true) : cut budget visits = visits.take budget := by
  induction visits generalizing budget with
  | nil => exact List.take_nil.symm
  | cons visit later inductionHypothesis =>
    obtain ⟨isRead, laterReads⟩ := List.forall_mem_cons.mp areReads
    cases budget with
    | zero => rw [cut_cons_read_zero isRead, inductionHypothesis laterReads, List.take_zero,
        List.take_zero]
    | succ budget => rw [cut_cons_read_succ isRead, inductionHypothesis laterReads,
        List.take_succ_cons]

/-- Cutting heads cuts their visits in a row. -/
theorem flatten_cutHeads (budget : Nat) (heads : List (List Visit)) :
    (cutHeads budget heads).flatten = cut budget heads.flatten := by
  induction heads generalizing budget with
  | nil => rfl
  | cons visits later inductionHypothesis =>
    rw [cutHeads, List.flatten_cons, List.flatten_cons, inductionHypothesis, cut_append]

end Cut

end PromptBlocks.Shelf
