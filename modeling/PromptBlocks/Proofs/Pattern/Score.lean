import Mathlib.Algebra.Field.Rat
import Mathlib.Algebra.Order.Field.Basic
import Mathlib.Algebra.Order.Ring.Rat
import Mathlib.Tactic.Linarith
import PromptBlocks.Proofs.Pattern.Filling

/-!
Contract: what the score of a match says.

Owns:
- the match of a sequence in a window and without one;
- scores never pass one, and only a complete match reaches it;
- a sequence that spells out a template: its window, its missing slots and its score;
- the best match of a catalog with a template that is complete.

Does not own: sequences that a plan has edited.
-/

namespace PromptBlocks

namespace Template

variable {template : Template} {sequence : Sequence}

/-- The sequence fills the slots of the template one by one, none left over. -/
def SpelledBy (template : Template) (sequence : Sequence) : Prop :=
  Slot.Spelled template.slots sequence.tokens

/-- Where a sequence fills a window, it spells out the slots there. -/
theorem exists_spelled_of_window? {start : Nat} (window : template.window? sequence = some start) :
    ∃ front covered back, template.slots = front ++ (covered ++ back) ∧ front.length = start ∧
      Slot.Spelled covered sequence.tokens ∧ sequence.isEmpty = false := by
  unfold window? at window
  by_cases empty : sequence.isEmpty = true
  · rw [if_pos empty] at window
    cases window
  · rw [if_neg empty] at window
    obtain ⟨front, covered, back, split, position, spelled⟩ :=
      Slot.exists_spelled_of_windowFrom window
    exact ⟨front, covered, back, split, by omega, spelled, Bool.eq_false_iff.mpr empty⟩

theorem length_le_of_window? {start : Nat} (window : template.window? sequence = some start) :
    sequence.length ≤ template.length := by
  obtain ⟨front, covered, back, split, -, spelled, -⟩ := exists_spelled_of_window? window
  have covers := spelled.length_eq
  have whole := congrArg List.length split
  rw [List.length_append, List.length_append] at whole
  unfold length Sequence.length
  omega

/-- A window of at least as many tokens as the template has slots is the whole template. -/
theorem spelledBy_of_window? {start : Nat} (window : template.window? sequence = some start)
    (enough : template.length ≤ sequence.length) : template.SpelledBy sequence := by
  obtain ⟨front, covered, back, split, -, spelled, -⟩ := exists_spelled_of_window? window
  have covers := spelled.length_eq
  have slots := congrArg List.length split
  rw [List.length_append, List.length_append] at slots
  unfold length Sequence.length at enough
  have noFront : front = [] := List.length_eq_zero_iff.mp (by omega)
  have noBack : back = [] := List.length_eq_zero_iff.mp (by omega)
  rw [noFront, noBack, List.append_nil, List.nil_append] at split
  rw [SpelledBy, split]
  exact spelled

theorem length_pos_of_window? {start : Nat} (window : template.window? sequence = some start) :
    0 < sequence.length := by
  obtain ⟨_, _, _, -, -, -, nonempty⟩ := exists_spelled_of_window? window
  refine List.length_pos_iff.mpr fun empty => ?_
  rw [Sequence.isEmpty, empty] at nonempty
  cases nonempty

/-! ### The match -/

theorem matchOf_of_window? {start : Nat} (window : template.window? sequence = some start) :
    template.matchOf sequence =
      { templateId := template.id
        templateName := template.name
        score := (sequence.length / template.length : Rat)
        missing := (template.slotsOutside start sequence.length).map fun (slot, _) => slot.label
        isComplete := sequence.length == template.length } := by
  have tokens := length_pos_of_window? window
  have slots := length_le_of_window? window
  have counted : (sequence.length == 0 || template.length == 0) = false := by
    rw [Bool.or_eq_false_iff, beq_eq_false_iff_ne, beq_eq_false_iff_ne]
    omega
  unfold matchOf
  simp only [counted, window]
  rfl

theorem matchOf_of_noWindow (window : template.window? sequence = none)
    (tokens : sequence.isEmpty = false) (slots : template.slots ≠ []) :
    template.matchOf sequence =
      { templateId := template.id
        templateName := template.name
        score := ((template.length - (template.openSlots sequence).length : Nat) /
          (2 * template.length) : Rat)
        missing := (template.openSlots sequence).map Slot.label
        isComplete := false } := by
  have counted : (sequence.length == 0 || template.length == 0) = false := by
    rw [Bool.or_eq_false_iff, beq_eq_false_iff_ne, beq_eq_false_iff_ne]
    have noTokens : sequence.tokens ≠ [] := by
      intro empty
      rw [Sequence.isEmpty, empty] at tokens
      cases tokens
    exact ⟨fun none => noTokens (List.length_eq_zero_iff.mp none),
      fun none => slots (List.length_eq_zero_iff.mp none)⟩
  have total := Slot.filledCount_add_length_unfilled template.slots sequence.tokens
  have filled : (Slot.filled template.slots sequence.tokens).count true =
      template.length - (template.openSlots sequence).length :=
    Nat.eq_sub_of_add_eq total
  have missing := Slot.map_filter_zip_filled template.slots sequence.tokens
  unfold matchOf
  simp only [counted, window, filled]
  rw [openSlots, ← Slot.unfilled, ← missing, List.map_map]
  rfl

theorem matchOf_of_nothing (nothing : sequence.isEmpty = true ∨ template.slots = []) :
    template.matchOf sequence =
      { templateId := template.id
        templateName := template.name
        score := 0
        missing := template.slots.map Slot.label
        isComplete := false } := by
  have counted : (sequence.length == 0 || template.length == 0) = true := by
    rw [Bool.or_eq_true, beq_iff_eq, beq_iff_eq]
    refine nothing.imp (fun empty => ?_) fun empty => ?_
    · exact List.length_eq_zero_iff.mpr (List.isEmpty_iff.mp empty)
    · rw [length, empty, List.length_nil]
  unfold matchOf
  simp only [counted, if_true]

/-- Either there is nothing to match, or there are tokens and slots. -/
theorem nothing_or_tokens_and_slots (template : Template) (sequence : Sequence) :
    (sequence.isEmpty = true ∨ template.slots = []) ∨
      (sequence.isEmpty = false ∧ template.slots ≠ []) := by
  rw [← Bool.not_eq_true, ne_eq, ← not_or]
  exact em _

theorem cast_length_pos (slots : template.slots ≠ []) : (0 : Rat) < template.length :=
  Nat.cast_pos.mpr (List.length_pos_iff.mpr slots)

/-- No score passes one, and complete matches are those that reach it. -/
theorem score_bound (template : Template) (sequence : Sequence) :
    (template.matchOf sequence).score ≤ 1 ∧
      ((template.matchOf sequence).score = 1 ↔ (template.matchOf sequence).isComplete = true) := by
  rcases nothing_or_tokens_and_slots template sequence with nothing | ⟨tokens, slots⟩
  · rw [matchOf_of_nothing nothing]
    exact ⟨zero_le_one, by simp⟩
  · have counted := cast_length_pos slots
    cases window : template.window? sequence with
    | some start =>
      have covers := length_le_of_window? window
      rw [matchOf_of_window? window]
      constructor
      · exact (div_le_one counted).mpr (Nat.cast_le.mpr covers)
      · rw [beq_iff_eq, div_eq_one_iff_eq counted.ne', Nat.cast_inj]
    | none =>
      have half : ((template.length - (template.openSlots sequence).length : Nat) : Rat) <
          2 * template.length := by
        have fewer : ((template.length - (template.openSlots sequence).length : Nat) : Rat) ≤
            template.length := Nat.cast_le.mpr (Nat.sub_le _ _)
        linarith
      have below := (div_lt_one (by linarith)).mpr half
      rw [matchOf_of_noWindow window tokens slots]
      exact ⟨below.le, by simp [below.ne]⟩

/-! ### Sequences that spell out a template -/

theorem window?_of_spelledBy (spelled : template.SpelledBy sequence) (slots : template.slots ≠ []) :
    template.window? sequence = some 0 := by
  have nonempty : sequence.isEmpty = false := by
    have counted : template.slots.length = sequence.tokens.length := Slot.Spelled.length_eq spelled
    rw [Sequence.isEmpty, List.isEmpty_eq_false_iff]
    intro empty
    rw [empty, List.length_nil, List.length_eq_zero_iff] at counted
    exact slots counted
  rw [window?, nonempty, if_neg Bool.false_ne_true]
  exact Slot.windowFrom_of_spelled spelled slots 0

/-- The slots outside a window are those in front of it and those behind it. -/
theorem slotsOutside_of_split {front covered back : List Slot}
    (split : template.slots = front ++ (covered ++ back)) :
    template.slotsOutside front.length covered.length =
      front.zipIdx ++ back.zipIdx (front.length + covered.length) := by
  have frontKept : front.zipIdx.filter (fun (_, index) =>
      index < front.length || front.length + covered.length ≤ index) = front.zipIdx := by
    refine List.filter_eq_self.mpr ?_
    rintro ⟨slot, index⟩ member
    obtain ⟨-, inFront, -⟩ := List.mem_zipIdx member
    simp only [Bool.or_eq_true, decide_eq_true_eq]
    omega
  have coveredDropped : (covered.zipIdx front.length).filter (fun (_, index) =>
      index < front.length || front.length + covered.length ≤ index) = [] := by
    refine List.filter_eq_nil_iff.mpr ?_
    rintro ⟨slot, index⟩ member
    obtain ⟨behind, inFront, -⟩ := List.mem_zipIdx member
    simp only [Bool.or_eq_true, decide_eq_true_eq]
    omega
  have backKept : (back.zipIdx (front.length + covered.length)).filter (fun (_, index) =>
      index < front.length || front.length + covered.length ≤ index) =
        back.zipIdx (front.length + covered.length) := by
    refine List.filter_eq_self.mpr ?_
    rintro ⟨slot, index⟩ member
    obtain ⟨behind, -, -⟩ := List.mem_zipIdx member
    simp only [Bool.or_eq_true, decide_eq_true_eq]
    omega
  rw [slotsOutside, split, List.zipIdx_append, List.zipIdx_append, List.filter_append,
    List.filter_append, Nat.zero_add, frontKept, coveredDropped, backKept, List.nil_append]

theorem slotsOutside_of_spelledBy (spelled : template.SpelledBy sequence) :
    template.slotsOutside 0 sequence.length = [] := by
  have counted : template.slots.length = sequence.length := Slot.Spelled.length_eq spelled
  have split : template.slots = [] ++ (template.slots ++ []) := (List.append_nil _).symm
  have outside := slotsOutside_of_split split
  rw [counted] at outside
  exact outside

/-- A sequence that spells out a template is a complete match. -/
theorem matchOf_eq_of_spelledBy (spelled : template.SpelledBy sequence) (slots : template.slots ≠ []) :
    template.matchOf sequence =
      { templateId := template.id
        templateName := template.name
        score := 1
        missing := []
        isComplete := true } := by
  have counted : template.length = sequence.length := Slot.Spelled.length_eq spelled
  rw [matchOf_of_window? (window?_of_spelledBy spelled slots), slotsOutside_of_spelledBy spelled,
    ← counted, div_self (cast_length_pos slots).ne', beq_self_eq_true]
  rfl

theorem matchOf_of_spelledBy (spelled : template.SpelledBy sequence) (slots : template.slots ≠ []) :
    (template.matchOf sequence).missing = [] ∧ (template.matchOf sequence).isComplete = true := by
  rw [matchOf_eq_of_spelledBy spelled slots]
  exact ⟨rfl, rfl⟩

end Template

/-! ### The ranking -/

theorem Match.rank_trans (first second third : Match)
    (firstSecond : decide (second.score ≤ first.score) = true)
    (secondThird : decide (third.score ≤ second.score) = true) :
    decide (third.score ≤ first.score) = true := by
  simp only [decide_eq_true_eq] at firstSecond secondThird ⊢
  exact secondThird.trans firstSecond

theorem Match.rank_total (first second : Match) :
    (decide (second.score ≤ first.score) || decide (first.score ≤ second.score)) = true := by
  simp only [Bool.or_eq_true, decide_eq_true_eq]
  exact le_total second.score first.score

theorem Catalog.rank_perm (catalog : Catalog) (sequence : Sequence) :
    (catalog.rank sequence).Perm
      (catalog.templates.map fun template => template.matchOf sequence) :=
  List.mergeSort_perm _ _

theorem Catalog.pairwise_rank (catalog : Catalog) (sequence : Sequence) :
    (catalog.rank sequence).Pairwise fun left right => right.score ≤ left.score :=
  (List.pairwise_mergeSort Match.rank_trans Match.rank_total _).imp of_decide_eq_true

/-- With a complete match in the catalog, the best one is complete too. -/
theorem Catalog.exists_head?_rank {catalog : Catalog} {template : Template} {sequence : Sequence}
    (member : template ∈ catalog.templates)
    (complete : (template.matchOf sequence).isComplete = true) :
    ∃ best, (catalog.rank sequence).head? = some best ∧ best.isComplete = true := by
  have sorted := catalog.pairwise_rank sequence
  have here : template.matchOf sequence ∈ catalog.rank sequence :=
    (catalog.rank_perm sequence).mem_iff.mpr (List.mem_map.mpr ⟨template, member, rfl⟩)
  cases order : catalog.rank sequence with
  | nil =>
    rw [order] at here
    cases here
  | cons best others =>
    rw [order] at here sorted
    have bestFound := (catalog.rank_perm sequence).mem_iff.mp (order ▸ List.mem_cons_self)
    obtain ⟨other, -, rfl⟩ := List.mem_map.mp bestFound
    have full := (template.score_bound sequence).2.mpr complete
    have reached : (template.matchOf sequence).score ≤ (other.matchOf sequence).score := by
      rcases List.mem_cons.mp here with same | behind
      · rw [same]
      · exact (List.pairwise_cons.mp sorted).1 _ behind
    obtain ⟨bound, completes⟩ := other.score_bound sequence
    rw [full] at reached
    exact ⟨_, rfl, completes.mp (le_antisymm bound reached)⟩

end PromptBlocks
