import Mathlib.Data.List.Infix
import Mathlib.Data.List.Nodup
import PromptBlocks.Proofs.Number.Rounding
import PromptBlocks.Proofs.Pattern.Share
import PromptBlocks.Record.Pattern

/-!
Contract: the order in which a catalog ranks its templates.

Owns:
- the ranking as an arrangement of all templates with their places;
- the positive scores, which stand in front of the zero ones;
- the suggestions as a part of the ranking that grows with the limit;
- the rounded scores, which rank as the exact ones do.

Does not own: what a score says of a template.
-/

namespace PromptBlocks

/-! ### Tests that hold in front -/

section Front

variable {α : Type} {items : List α} {test : α → Bool}

/-- Where a test never holds behind an item that fails it, it holds in front and nowhere else. -/
theorem exists_front_of_pairwise
    (ordered : items.Pairwise fun earlier later => test later = true → test earlier = true) :
    ∃ front back, items = front ++ back ∧ (∀ item ∈ front, test item = true) ∧
      ∀ item ∈ back, test item = false := by
  induction items with
  | nil => exact ⟨[], [], rfl, by simp, by simp⟩
  | cons item items inductionHypothesis =>
    obtain ⟨behind, ordered⟩ := List.pairwise_cons.mp ordered
    cases holds : test item with
    | true =>
      obtain ⟨front, back, rfl, inFront, inBack⟩ := inductionHypothesis ordered
      exact ⟨item :: front, back, rfl, List.forall_mem_cons.mpr ⟨holds, inFront⟩, inBack⟩
    | false =>
      refine ⟨[], item :: items, rfl, by simp, List.forall_mem_cons.mpr ⟨holds, ?_⟩⟩
      intro later inItems
      exact Bool.eq_false_iff.mpr fun alsoHolds => by
        rw [behind later inItems alsoHolds] at holds
        cases holds

theorem countP_append_of_front {front back : List α} (inFront : ∀ item ∈ front, test item = true)
    (inBack : ∀ item ∈ back, test item = false) : (front ++ back).countP test = front.length := by
  have noneBehind : back.countP test = 0 :=
    List.countP_eq_zero.mpr fun item member => Bool.eq_false_iff.mp (inBack item member)
  rw [List.countP_append, List.countP_eq_length.mpr inFront, noneBehind, Nat.add_zero]

end Front

/-- The exact value of the score in the record of a match. -/
def Match.roundedScore (found : Match) : Rat :=
  found.toRecord.score.toRat

/-! ### Scores as coarse fractions -/

namespace Template

variable {template : Template} {sequence : Sequence}

theorem filledCount_le_length (template : Template) (sequence : Sequence) :
    template.filledCount sequence ≤ template.length := by
  have total := Slot.filledCount_add_length_unfilled template.slots sequence.tokens
  exact (Nat.le_add_right _ _).trans_eq total

/-- The score of a short template is a coarse fraction. -/
theorem exists_isCoarse_score (short : template.length < 2 ^ 26) (sequence : Sequence) :
    ∃ limit, Binary64.IsCoarse limit (template.matchOf sequence).score := by
  rcases nothing_or_tokens_and_slots template sequence with nothing | ⟨tokens, slots⟩
  · rw [matchOf_of_nothing nothing]
    exact ⟨1, .inl rfl, le_rfl, zero_le_one, by norm_num⟩
  have slotCount := cast_length_pos slots
  have positive : 0 < template.length := List.length_pos_iff.mpr slots
  have shortCast : (template.length : Rat) < 2 ^ 26 := by exact_mod_cast short
  by_cases fits : template.HasWindow sequence
  · refine ⟨1, .inl rfl, template.score_nonneg sequence, (score_bound template sequence).1, ?_⟩
    have den := Binary64.den_div_le positive sequence.length
    rw [score_of_hasWindow tokens fits, mul_one]
    exact (Nat.cast_le.mpr den).trans_lt shortCast
  · -- Half a share has one factor of two more in its denominator.
    have den := Binary64.den_div_le (Nat.mul_pos two_pos positive) (template.filledCount sequence)
    have denCast : (((template.filledCount sequence : Rat) / (2 * template.length : Nat)).den : Rat) ≤
        2 * template.length := by exact_mod_cast den
    have share : (template.filledCount sequence : Rat) ≤ template.length :=
      Nat.cast_le.mpr (template.filledCount_le_length sequence)
    refine ⟨1 / 2, .inr rfl, template.score_nonneg sequence, ?_, ?_⟩
    · rw [score_of_not_hasWindow tokens slots fits, div_le_div_iff₀ (by positivity) two_pos]
      linarith
    · rw [score_of_not_hasWindow tokens slots fits]
      push_cast at denCast
      linarith

end Template

namespace Catalog

variable {catalog : Catalog} {sequence : Sequence}

/-! ### The arrangement -/

/-- An arrangement of the templates with their places: the larger score comes first, and of equal
scores the earlier place. -/
structure IsArrangement (catalog : Catalog) (sequence : Sequence) (arranged : List (Template × Nat)) :
    Prop where
  perm : arranged.Perm catalog.templates.zipIdx
  ordered : arranged.Pairwise fun (earlier, place) (later, laterPlace) =>
    (later.matchOf sequence).score < (earlier.matchOf sequence).score ∨
      (later.matchOf sequence).score = (earlier.matchOf sequence).score ∧ place < laterPlace

/-- The first template goes in front of the second or may change places with it. -/
def scoresAtLeast (sequence : Sequence) (first second : Template) : Bool :=
  (second.matchOf sequence).score ≤ (first.matchOf sequence).score

theorem scoresAtLeast_trans (first second third : Template)
    (left : scoresAtLeast sequence first second = true)
    (right : scoresAtLeast sequence second third = true) :
    scoresAtLeast sequence first third = true :=
  Match.rank_trans _ _ _ left right

theorem scoresAtLeast_total (first second : Template) :
    (scoresAtLeast sequence first second || scoresAtLeast sequence second first) = true :=
  Match.rank_total _ _

/-- Templates of which the first goes in front by score and place score better or stand in order. -/
theorem score_lt_or_of_zipIdxLE {first second : Template × Nat}
    (before : List.zipIdxLE (scoresAtLeast sequence) first second = true)
    (different : first.2 ≠ second.2) :
    (second.1.matchOf sequence).score < (first.1.matchOf sequence).score ∨
      (second.1.matchOf sequence).score = (first.1.matchOf sequence).score ∧ first.2 < second.2 := by
  unfold List.zipIdxLE at before
  split at before
  · next atLeast =>
    have noWorse := of_decide_eq_true atLeast
    split at before
    · next atMost =>
      have noBetter := of_decide_eq_true atMost
      have inOrder := of_decide_eq_true before
      exact .inr ⟨noWorse.antisymm noBetter, by omega⟩
    · next worse => exact .inl (not_le.mp fun noBetter => worse (decide_eq_true noBetter))
  · cases before

theorem exists_isArrangement (catalog : Catalog) (sequence : Sequence) :
    ∃ arranged, catalog.IsArrangement sequence arranged ∧
      catalog.rank sequence = arranged.map fun (template, _) => template.matchOf sequence := by
  let arranged := catalog.templates.zipIdx.mergeSort (List.zipIdxLE (scoresAtLeast sequence))
  have perm : arranged.Perm catalog.templates.zipIdx := List.mergeSort_perm _ _
  have places : (arranged.map Prod.snd).Nodup := by
    rw [(perm.map Prod.snd).nodup_iff, List.zipIdx_map_snd]
    exact List.nodup_range' 1
  have sorted : arranged.Pairwise fun earlier later =>
      List.zipIdxLE (scoresAtLeast sequence) earlier later = true :=
    List.pairwise_mergeSort (List.zipIdxLE_trans scoresAtLeast_trans)
      (List.zipIdxLE_total scoresAtLeast_total) _
  have ordered := (sorted.and (List.pairwise_map.mp places)).imp
    fun ⟨before, different⟩ => score_lt_or_of_zipIdxLE before different
  refine ⟨arranged, ⟨perm, ordered⟩, ?_⟩
  have ranked : (catalog.templates.mergeSort (scoresAtLeast sequence)).map
      (fun template => template.matchOf sequence) = catalog.rank sequence :=
    List.map_mergeSort fun _ _ _ _ => rfl
  rw [← ranked, ← List.mergeSort_zipIdx, List.map_map]
  rfl

/-! ### Positive scores -/

/-- How many templates have a positive score. -/
def positiveCount (catalog : Catalog) (sequence : Sequence) : Nat :=
  catalog.templates.countP fun template => 0 < (template.matchOf sequence).score

/-- The positive scores of a ranking stand in front of the zero ones. -/
theorem exists_front_rank (catalog : Catalog) (sequence : Sequence) :
    ∃ front back, catalog.rank sequence = front ++ back ∧
      front.length = catalog.positiveCount sequence ∧ (∀ found ∈ front, 0 < found.score) ∧
      ∀ found ∈ back, found.score = 0 := by
  have ordered : (catalog.rank sequence).Pairwise fun earlier later =>
      decide (0 < later.score) = true → decide (0 < earlier.score) = true :=
    (catalog.pairwise_rank sequence).imp fun noBetter positive =>
      decide_eq_true ((of_decide_eq_true positive).trans_le noBetter)
  obtain ⟨front, back, split, inFront, inBack⟩ := exists_front_of_pairwise ordered
  refine ⟨front, back, split, ?_, fun found member => of_decide_eq_true (inFront found member), ?_⟩
  · have counted := (catalog.rank_perm sequence).countP_eq fun found => decide (0 < found.score)
    rw [split, countP_append_of_front inFront inBack, List.countP_map] at counted
    exact counted
  · intro found member
    have inRank : found ∈ catalog.rank sequence := split ▸ List.mem_append_right front member
    obtain ⟨template, -, rfl⟩ := List.mem_map.mp ((catalog.rank_perm sequence).mem_iff.mp inRank)
    exact (not_lt.mp (of_decide_eq_false (inBack _ member))).antisymm (template.score_nonneg sequence)

/-- The suggestions are the ranking, cut at the limit and behind the positive scores. -/
theorem suggest_eq_take (catalog : Catalog) (sequence : Sequence) (limit : Nat) :
    catalog.suggest sequence limit =
      (catalog.rank sequence).take (min limit (catalog.positiveCount sequence)) := by
  obtain ⟨front, back, split, length, inFront, inBack⟩ := catalog.exists_front_rank sequence
  have kept : (catalog.rank sequence).filter (fun found => 0 < found.score) = front := by
    have allFront := List.filter_eq_self.mpr fun found member => decide_eq_true (inFront found member)
    have noneBack : back.filter (fun found => decide (0 < found.score)) = [] :=
      List.filter_eq_nil_iff.mpr fun found member => by rw [inBack found member]; simp
    rw [split, List.filter_append, allFront, noneBack, List.append_nil]
  rw [suggest, kept, ← List.take_take, split, List.take_left' length]

/-! ### Rounded scores -/

theorem roundedScore_lt_iff {first second : Match} {limit secondLimit : Rat}
    (coarse : Binary64.IsCoarse limit first.score)
    (secondCoarse : Binary64.IsCoarse secondLimit second.score) :
    first.roundedScore < second.roundedScore ↔ first.score < second.score :=
  coarse.toRat_ofRat_lt_iff secondCoarse

theorem roundedScore_pos_iff {found : Match} {limit : Rat} (coarse : Binary64.IsCoarse limit found.score) :
    0 < found.roundedScore ↔ 0 < found.score := by
  have zero : Binary64.IsCoarse 1 0 := ⟨.inl rfl, le_rfl, zero_le_one, by norm_num⟩
  rw [← zero.toRat_ofRat_lt_iff coarse, Binary64.toRat_ofRat_zero]
  rfl

/-- Every match in a ranking of short templates has a coarse score. -/
theorem exists_isCoarse_of_mem_rank (short : ∀ template ∈ catalog.templates, template.length < 2 ^ 26)
    {found : Match} (member : found ∈ catalog.rank sequence) :
    ∃ limit, Binary64.IsCoarse limit found.score := by
  obtain ⟨template, inCatalog, rfl⟩ := List.mem_map.mp ((catalog.rank_perm sequence).mem_iff.mp member)
  exact Template.exists_isCoarse_score (short template inCatalog) sequence

/-- Rounding neither swaps nor merges the scores of short templates. -/
theorem rank_eq_mergeSort_roundedScore
    (short : ∀ template ∈ catalog.templates, template.length < 2 ^ 26) (sequence : Sequence) :
    catalog.rank sequence =
      (catalog.templates.map fun template => template.matchOf sequence).mergeSort fun left right =>
        right.roundedScore ≤ left.roundedScore := by
  rw [rank, ← List.map_id (List.mergeSort _ _), List.map_mergeSort, List.map_id]
  intro left inLeft right inRight
  obtain ⟨limit, coarse⟩ :=
    exists_isCoarse_of_mem_rank short ((catalog.rank_perm sequence).mem_iff.mpr inLeft)
  obtain ⟨rightLimit, rightCoarse⟩ :=
    exists_isCoarse_of_mem_rank short ((catalog.rank_perm sequence).mem_iff.mpr inRight)
  rw [decide_eq_decide, ← not_lt, ← not_lt]
  exact not_congr (roundedScore_lt_iff coarse rightCoarse).symm

theorem suggest_eq_take_roundedScore
    (short : ∀ template ∈ catalog.templates, template.length < 2 ^ 26) (sequence : Sequence)
    (limit : Nat) :
    catalog.suggest sequence limit =
      ((catalog.rank sequence).filter fun found => 0 < found.roundedScore).take limit := by
  have sameTest : (catalog.rank sequence).filter (fun found => 0 < found.score) =
      (catalog.rank sequence).filter fun found => 0 < found.roundedScore := by
    refine List.filter_congr fun found member => ?_
    obtain ⟨limit, coarse⟩ := exists_isCoarse_of_mem_rank short member
    exact decide_eq_decide.mpr (roundedScore_pos_iff coarse).symm
  rw [suggest, sameTest]

/-- A ranking loses no template and orders them by score and place, in exact as in rounded arithmetic, and
the suggestions are its first positive scores. -/
theorem ranking_is_faithful (short : ∀ template ∈ catalog.templates, template.length < 2 ^ 26)
    (sequence : Sequence) :
    (∃ arranged, catalog.IsArrangement sequence arranged ∧
        catalog.rank sequence = arranged.map fun (template, _) => template.matchOf sequence) ∧
      (catalog.rank sequence =
        (catalog.templates.map fun template => template.matchOf sequence).mergeSort fun left right =>
          right.roundedScore ≤ left.roundedScore) ∧
      (∀ limit, catalog.suggest sequence limit =
        ((catalog.rank sequence).filter fun found => 0 < found.roundedScore).take limit) ∧
      (∀ limit, catalog.suggest sequence limit =
        (catalog.rank sequence).take (min limit (catalog.positiveCount sequence))) ∧
      (∀ found ∈ (catalog.rank sequence).take (catalog.positiveCount sequence), 0 < found.score) ∧
      (∀ found ∈ (catalog.rank sequence).drop (catalog.positiveCount sequence), found.score = 0) ∧
      ∀ limit more, catalog.suggest sequence limit <+: catalog.suggest sequence (limit + more) := by
  obtain ⟨front, back, split, length, inFront, inBack⟩ := catalog.exists_front_rank sequence
  refine ⟨catalog.exists_isArrangement sequence, rank_eq_mergeSort_roundedScore short sequence,
    suggest_eq_take_roundedScore short sequence, catalog.suggest_eq_take sequence, ?_, ?_, ?_⟩
  · rwa [split, List.take_left' length]
  · rwa [split, List.drop_left' length]
  · intro limit more
    exact List.take_prefix_take_left (Nat.le_add_right limit more)

/-- Five of the nine built-in templates have a slot for the object marker, and no more are suggested. -/
theorem ranking_is_faithful_of_builtin :
    let sequence : Sequence := ⟨[⟨.particle .wo, none, 0⟩]⟩
    (∀ template ∈ (builtin .ja).templates, template.length < 2 ^ 26) ∧
      (builtin .ja).positiveCount sequence = 5 ∧
      (builtin .ja).suggest sequence 8 = ((builtin .ja).rank sequence).take 5 := by
  intro sequence
  have short : ∀ template ∈ (builtin .ja).templates, template.length < 2 ^ 26 := by decide
  have counted : (builtin .ja).positiveCount sequence = 5 := by
    simp only [positiveCount, Template.score_pos_iff]
    decide
  obtain ⟨-, -, -, suggested, -⟩ := ranking_is_faithful short sequence
  have eight := suggested 8
  rw [counted] at eight
  exact ⟨short, counted, eight⟩

end Catalog

end PromptBlocks
