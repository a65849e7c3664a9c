import Mathlib.Data.List.Nodup
import PromptBlocks.Proofs.Pattern.Catalog
import PromptBlocks.Proofs.Pattern.Share

/-!
Contract: which of two templates comes before the other in a ranking.

Owns:
- the order of two members of a list;
- precedence: the better score or, on equal scores, the earlier place in the catalog;
- when templates with a window come before all others, in terms of lengths and filled slots;
- a catalog in which one does not.

Does not own: which slots are filled.
-/

namespace PromptBlocks

/-! ### Two members of a list -/

section Pairs

variable {α : Type} {left right : α} {items : List α}

theorem pair_sublist_or_of_mem (inLeft : left ∈ items) (inRight : right ∈ items)
    (different : left ≠ right) : [left, right].Sublist items ∨ [right, left].Sublist items := by
  induction items with
  | nil => cases inLeft
  | cons item items inductionHypothesis =>
    rcases List.mem_cons.mp inLeft with rfl | leftBehind
    · have rightBehind : right ∈ items := (List.mem_cons.mp inRight).resolve_left different.symm
      exact .inl ((List.singleton_sublist.mpr rightBehind).cons_cons left)
    · rcases List.mem_cons.mp inRight with rfl | rightBehind
      · exact .inr ((List.singleton_sublist.mpr leftBehind).cons_cons right)
      · exact (inductionHypothesis leftBehind rightBehind).imp (·.cons item) (·.cons item)

/-- In a list without repetition, two members come in one order only. -/
theorem not_pair_sublist_of_nodup (distinct : items.Nodup) (ordered : [left, right].Sublist items) :
    ¬[right, left].Sublist items := by
  induction items with
  | nil => cases ordered
  | cons item items inductionHypothesis =>
    obtain ⟨fresh, distinct⟩ := List.nodup_cons.mp distinct
    intro reversed
    cases ordered with
    | cons _ ordered =>
      cases reversed with
      | cons _ reversed => exact inductionHypothesis distinct ordered reversed
      | cons_cons _ _ => exact fresh (ordered.subset (by simp))
    | cons_cons _ ordered =>
      cases reversed with
      | cons _ reversed => exact fresh (reversed.subset (by simp))
      | cons_cons _ reversed => exact fresh (reversed.subset (by simp))

end Pairs

/-! ### Precedence -/

namespace Catalog

variable {catalog : Catalog} {sequence : Sequence} {first second : Template}

/-- The match of the first template comes before that of the second in the ranking. -/
def RanksBefore (catalog : Catalog) (sequence : Sequence) (first second : Template) : Prop :=
  [first.matchOf sequence, second.matchOf sequence].Sublist (catalog.rank sequence)

theorem templateId_matchOf (template : Template) (sequence : Sequence) :
    (template.matchOf sequence).templateId = template.id := by
  unfold Template.matchOf
  dsimp only
  split
  · rfl
  · split <;> rfl

theorem nodup_rank (distinct : (catalog.templates.map Template.id).Nodup) (sequence : Sequence) :
    (catalog.rank sequence).Nodup := by
  rw [(catalog.rank_perm sequence).nodup_iff]
  refine List.Nodup.of_map Match.templateId ?_
  rw [List.map_map]
  exact (List.map_congr_left fun template _ => templateId_matchOf template sequence) ▸ distinct

theorem mem_rank {template : Template} (member : template ∈ catalog.templates)
    (sequence : Sequence) : template.matchOf sequence ∈ catalog.rank sequence :=
  (catalog.rank_perm sequence).mem_iff.mpr (List.mem_map_of_mem member)

theorem RanksBefore.score_le (before : catalog.RanksBefore sequence first second) :
    (second.matchOf sequence).score ≤ (first.matchOf sequence).score :=
  List.pairwise_iff_forall_sublist.mp (catalog.pairwise_rank sequence) before

/-- Templates of a catalog stay in their order unless their scores are the other way round. -/
theorem ranksBefore_of_sublist (earlier : [first, second].Sublist catalog.templates)
    (noWorse : (second.matchOf sequence).score ≤ (first.matchOf sequence).score) :
    catalog.RanksBefore sequence first second :=
  List.pair_sublist_mergeSort Match.rank_trans Match.rank_total (decide_eq_true noWorse)
    (earlier.map fun template : Template => template.matchOf sequence)

/-- One template comes before another when it scores better or, on equal scores, when it comes first in
the catalog. -/
theorem ranksBefore_iff (wellFormed : catalog.WellFormed) (inFirst : first ∈ catalog.templates)
    (inSecond : second ∈ catalog.templates) (different : first ≠ second) :
    catalog.RanksBefore sequence first second ↔
      (second.matchOf sequence).score < (first.matchOf sequence).score ∨
        (second.matchOf sequence).score = (first.matchOf sequence).score ∧
          [first, second].Sublist catalog.templates := by
  constructor
  · intro before
    rcases before.score_le.lt_or_eq with worse | equal
    · exact .inl worse
    · refine .inr ⟨equal, ?_⟩
      refine (pair_sublist_or_of_mem inFirst inSecond different).resolve_right fun reversed => ?_
      exact not_pair_sublist_of_nodup (nodup_rank wellFormed.nodup_ids sequence) before
        (ranksBefore_of_sublist reversed equal.ge)
  · rintro (better | ⟨equal, earlier⟩)
    · have apart : first.matchOf sequence ≠ second.matchOf sequence := fun same =>
        better.ne (congrArg Match.score same).symm
      refine (pair_sublist_or_of_mem (mem_rank inFirst sequence) (mem_rank inSecond sequence)
        apart).resolve_right fun reversed => ?_
      exact better.not_ge (RanksBefore.score_le reversed)
    · exact ranksBefore_of_sublist earlier equal.le

/-! ### Windows first -/

variable {inOrder disordered : Template}

theorem score_lt_score_iff (nonempty : sequence.isEmpty = false)
    (fits : inOrder.HasWindow sequence) (misfits : ¬disordered.HasWindow sequence)
    (someSlots : inOrder.slots ≠ []) (slots : disordered.slots ≠ []) :
    (disordered.matchOf sequence).score < (inOrder.matchOf sequence).score ↔
      disordered.filledCount sequence * inOrder.length <
        sequence.length * (2 * disordered.length) := by
  have windowed := Template.cast_length_pos someSlots
  have windowless := Template.cast_length_pos slots
  rw [Template.score_of_hasWindow nonempty fits,
    Template.score_of_not_hasWindow nonempty slots misfits,
    div_lt_div_iff₀ (mul_pos two_pos windowless) windowed]
  exact_mod_cast Iff.rfl

theorem score_eq_score_iff (nonempty : sequence.isEmpty = false)
    (fits : inOrder.HasWindow sequence) (misfits : ¬disordered.HasWindow sequence)
    (someSlots : inOrder.slots ≠ []) (slots : disordered.slots ≠ []) :
    (disordered.matchOf sequence).score = (inOrder.matchOf sequence).score ↔
      disordered.filledCount sequence * inOrder.length =
        sequence.length * (2 * disordered.length) := by
  have windowed := Template.cast_length_pos someSlots
  have windowless := Template.cast_length_pos slots
  rw [Template.score_of_hasWindow nonempty fits,
    Template.score_of_not_hasWindow nonempty slots misfits,
    div_eq_div_iff (mul_pos two_pos windowless).ne' windowed.ne']
  exact_mod_cast Iff.rfl

/-- The ranking of the catalog puts every template with a window before every one without. -/
def PutsWindowsFirst (catalog : Catalog) (sequence : Sequence) : Prop :=
  ∀ inOrder ∈ catalog.templates, ∀ disordered ∈ catalog.templates,
    inOrder.HasWindow sequence → ¬disordered.HasWindow sequence →
      catalog.RanksBefore sequence inOrder disordered

/-- A template with a window comes before one without when it is short enough for the slots that the
other one fills. -/
theorem ranksBefore_window_iff (wellFormed : catalog.WellFormed)
    (nonempty : sequence.isEmpty = false) (inFirst : inOrder ∈ catalog.templates)
    (inSecond : disordered ∈ catalog.templates) (fits : inOrder.HasWindow sequence)
    (misfits : ¬disordered.HasWindow sequence) :
    catalog.RanksBefore sequence inOrder disordered ↔
      disordered.filledCount sequence * inOrder.length <
          sequence.length * (2 * disordered.length) ∨
        disordered.filledCount sequence * inOrder.length =
            sequence.length * (2 * disordered.length) ∧
          [inOrder, disordered].Sublist catalog.templates := by
  have someSlots := wellFormed.slots_ne_nil inOrder inFirst
  have slots := wellFormed.slots_ne_nil disordered inSecond
  have different : inOrder ≠ disordered := fun same => misfits (same ▸ fits)
  rw [ranksBefore_iff wellFormed inFirst inSecond different,
    score_lt_score_iff nonempty fits misfits someSlots slots,
    score_eq_score_iff nonempty fits misfits someSlots slots]

/-- Windows come first in the ranking of a sequence exactly when, for every template with a window and
every one without, the slots that the second fills times the length of the first stay below the tokens
times twice the length of the second; where the two are equal, the first one has to stand first in the
catalog.  That is so for every sequence when no template is twice as long as another one. -/
theorem putsWindowsFirst_iff {templates : List Template}
    (accepted : ofTemplates templates = .ok catalog) (nonempty : sequence.isEmpty = false) :
    (catalog.PutsWindowsFirst sequence ↔
      ∀ inOrder ∈ catalog.templates, ∀ disordered ∈ catalog.templates,
        inOrder.HasWindow sequence → ¬disordered.HasWindow sequence →
          disordered.filledCount sequence * inOrder.length <
              sequence.length * (2 * disordered.length) ∨
            disordered.filledCount sequence * inOrder.length =
                sequence.length * (2 * disordered.length) ∧
              [inOrder, disordered].Sublist catalog.templates) ∧
      ((∀ longer ∈ catalog.templates, ∀ shorter ∈ catalog.templates,
          longer.length < 2 * shorter.length) →
        catalog.PutsWindowsFirst sequence) := by
  obtain ⟨-, wellFormed⟩ := ofTemplates_eq_ok_iff.mp accepted
  constructor
  · constructor
    · intro first inOrder inFirst disordered inSecond fits misfits
      have before := first inOrder inFirst disordered inSecond fits misfits
      exact (ranksBefore_window_iff wellFormed nonempty inFirst inSecond fits misfits).mp before
    · intro short inOrder inFirst disordered inSecond fits misfits
      refine (ranksBefore_window_iff wellFormed nonempty inFirst inSecond fits misfits).mpr ?_
      exact short inOrder inFirst disordered inSecond fits misfits
  · intro balanced inOrder inFirst disordered inSecond fits misfits
    refine (ranksBefore_window_iff wellFormed nonempty inFirst inSecond fits misfits).mpr (.inl ?_)
    calc disordered.filledCount sequence * inOrder.length
        ≤ sequence.length * inOrder.length :=
          Nat.mul_le_mul_right _ (Slot.filledCount_le_tokens disordered.slots sequence.tokens)
      _ < sequence.length * (2 * disordered.length) :=
          Nat.mul_lt_mul_of_pos_left (balanced inOrder inFirst disordered inSecond)
            (Template.length_of_isEmpty nonempty)

/-- A noun and its marker fill a window of the basic sentence.  No built-in template is twice as long as
another one, so the basic sentence comes before the object-verb pattern, where they fill one slot. -/
theorem putsWindowsFirst_of_builtin :
    let sequence : Sequence := ⟨[⟨.noun, some "Doc", 0⟩, ⟨.particle .ga, none, 0⟩]⟩
    ofTemplates (Builtin.templates .ja) = .ok (builtin .ja) ∧ sequence.isEmpty = false ∧
      (∀ longer ∈ (builtin .ja).templates, ∀ shorter ∈ (builtin .ja).templates,
        longer.length < 2 * shorter.length) ∧
      (builtin .ja).RanksBefore sequence (Builtin.templates .ja)[0] (Builtin.templates .ja)[1] := by
  intro sequence
  have accepted : ofTemplates (Builtin.templates .ja) = .ok (builtin .ja) := by decide
  have balanced : ∀ longer ∈ (builtin .ja).templates, ∀ shorter ∈ (builtin .ja).templates,
      longer.length < 2 * shorter.length := by decide
  have nonempty : sequence.isEmpty = false := rfl
  have window : ((Builtin.templates .ja)[0]).window? sequence = some 0 := by decide
  have noWindow : ((Builtin.templates .ja)[1]).window? sequence = none := by decide
  have first := (putsWindowsFirst_iff accepted nonempty).2 balanced
  exact ⟨accepted, nonempty, balanced, first _ (List.getElem_mem _) _ (List.getElem_mem _)
    (Template.hasWindow_of_window? window) (Template.not_hasWindow_of_noWindow noWindow nonempty)⟩

/-- A long template beside one that is less than half as long. -/
def lopsided : List Template :=
  [ { id := "full_sentence", name := "", description := "", outline := "", sample := ""
      slots :=
        [Builtin.noun .en "主語" "Subject", Builtin.verb .en .summarize, Builtin.article .definite,
          Builtin.noun .en "目的語" "Object",
          { block := .punctuation .period, label := ".", isPlaceholder := false, preset := none }] },
    { id := "bare_order", name := "", description := "", outline := "", sample := ""
      slots := [Builtin.verb .en .summarize, Builtin.noun .en "目的語" "Object"] } ]

/-- A noun and a verb fill a window of the long template, but the short one comes first: in the wrong
order they fill both its slots, and half of two slots is more than two slots of five. -/
theorem not_putsWindowsFirst_of_lopsided :
    let sequence : Sequence := ⟨[⟨.noun, some "Team", 0⟩, ⟨.verb .summarize, none, 0⟩]⟩
    ofTemplates lopsided = .ok ⟨lopsided⟩ ∧ sequence.isEmpty = false ∧
      ¬(⟨lopsided⟩ : Catalog).PutsWindowsFirst sequence := by
  intro sequence
  have accepted : ofTemplates lopsided = .ok ⟨lopsided⟩ := by decide
  obtain ⟨-, wellFormed⟩ := ofTemplates_eq_ok_iff.mp accepted
  have inFirst : lopsided[0] ∈ (⟨lopsided⟩ : Catalog).templates := List.getElem_mem _
  have inSecond : lopsided[1] ∈ (⟨lopsided⟩ : Catalog).templates := List.getElem_mem _
  have nonempty : sequence.isEmpty = false := rfl
  have window : (lopsided[0]).window? sequence = some 0 := by decide
  have noWindow : (lopsided[1]).window? sequence = none := by decide
  have fits := Template.hasWindow_of_window? window
  have misfits := Template.not_hasWindow_of_noWindow noWindow nonempty
  refine ⟨accepted, nonempty, fun first => ?_⟩
  have before := first _ inFirst _ inSecond fits misfits
  rw [ranksBefore_window_iff wellFormed nonempty inFirst inSecond fits misfits] at before
  rcases before with worse | ⟨equal, -⟩
  · exact absurd worse (by decide)
  · exact absurd equal (by decide)

end Catalog

end PromptBlocks
