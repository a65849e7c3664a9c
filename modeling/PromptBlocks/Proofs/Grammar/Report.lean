import PromptBlocks.Grammar.Report
import PromptBlocks.Proofs.Grammar.English
import PromptBlocks.Proofs.Grammar.Japanese
import PromptBlocks.Proofs.Vocabulary.Ids

/-!
Contract: the report of a sequence holds every note of its profile.

Owns:
- findings of which none restates another pass the dropping of restatements unchanged;
- the notes of a profile are such findings;
- the findings of a check are the worded notes, in some order;
- checks that are passed.

Does not own: that order, and the rules of the profiles.
-/

namespace PromptBlocks

namespace Finding

theorem subsumes_comm (left right : Finding) : left.subsumes right = right.subsumes left := by
  unfold subsumes
  rw [BEq.comm (a := left.position)]
  cases left.fix <;> cases right.fix <;> simp only [Fix.sameRemedy, BEq.comm]

/-- Where no finding restates an earlier one, none is dropped. -/
theorem dropRestated_eq_self {kept findings : List Finding}
    (fresh : ∀ earlier ∈ kept, ∀ finding ∈ findings, earlier.subsumes finding = false)
    (distinct : findings.Pairwise fun left right => left.subsumes right = false) :
    dropRestated kept findings = findings := by
  induction findings generalizing kept with
  | nil => rfl
  | cons finding later inductionHypothesis =>
    obtain ⟨headDistinct, laterDistinct⟩ := List.pairwise_cons.mp distinct
    have notRestated : ¬ ((kept.takeWhile fun earlier => earlier.position == finding.position).any
        fun earlier => earlier.subsumes finding) = true := by
      rw [List.any_eq_true]
      rintro ⟨earlier, nearby, restates⟩
      have member := (List.takeWhile_sublist _).subset nearby
      rw [fresh earlier member finding List.mem_cons_self] at restates
      cases restates
    simp only [dropRestated]
    rw [if_neg notRestated, inductionHypothesis ?_ laterDistinct]
    intro earlier member next inLater
    rcases List.mem_cons.mp member with rfl | inKept
    · exact headDistinct next inLater
    · exact fresh earlier inKept next (List.mem_cons_of_mem _ inLater)

end Finding

namespace Grammar

variable {grammar display : Locale} {sequence : Sequence}

theorem distinct_notes (grammar : Locale) (sequence : Sequence) :
    (notes grammar sequence).Pairwise Note.Distinct := by
  cases grammar with
  | ja => exact (Japanese.spread_notes sequence).distinct
  | en => exact (English.spread_notes sequence).distinct

theorem code_eq_of_remedy {left right : Note} {remedy : Remedy}
    (leftMember : left ∈ notes grammar sequence) (rightMember : right ∈ notes grammar sequence)
    (position : left.position = right.position)
    (leftRemedy : left.remedy = some remedy) (rightRemedy : right.remedy = some remedy) :
    left.code = right.code := by
  cases grammar with
  | ja =>
    exact Japanese.Reported.code_eq (Japanese.mem_notes.mp leftMember)
      (Japanese.mem_notes.mp rightMember) position leftRemedy rightRemedy
  | en =>
    exact English.Reported.code_eq (English.mem_notes.mp leftMember)
      (English.mem_notes.mp rightMember) position leftRemedy rightRemedy

/-- Fixes of one remedy come from equal remedies, as ids tell blocks apart. -/
theorem remedy_eq_of_sameRemedy {left right : Remedy} {leftLabel rightLabel : String}
    (same : (left.toFix leftLabel).sameRemedy (right.toFix rightLabel) = true) : left = right := by
  simp only [Fix.sameRemedy, Remedy.toFix, Bool.and_eq_true, beq_iff_eq] at same
  obtain ⟨⟨sameAction, sameId⟩, sameTarget⟩ := same
  obtain ⟨leftAction, leftBlock, leftTarget⟩ := left
  obtain ⟨rightAction, rightBlock, rightTarget⟩ := right
  obtain rfl : leftAction = rightAction := sameAction
  obtain rfl : leftBlock = rightBlock := Block.id_injective sameId
  obtain rfl : leftTarget = rightTarget := sameTarget
  rfl

theorem findingOf_subsumes_eq_false {left right : Note}
    (leftMember : left ∈ notes grammar sequence) (rightMember : right ∈ notes grammar sequence)
    (distinct : Note.Distinct left right) :
    (findingOf display left).subsumes (findingOf display right) = false := by
  refine Bool.eq_false_iff.mpr fun restates => ?_
  simp only [Finding.subsumes, findingOf, Bool.and_eq_true, beq_iff_eq] at restates
  obtain ⟨position, restated⟩ := restates
  refine distinct position ?_
  cases leftRemedy : left.remedy with
  | none => simpa [leftRemedy] using restated
  | some leftFix =>
    cases rightRemedy : right.remedy with
    | none => simpa [leftRemedy, rightRemedy] using restated
    | some rightFix =>
      simp only [leftRemedy, rightRemedy, Option.map_some] at restated
      obtain rfl := remedy_eq_of_sameRemedy restated
      exact code_eq_of_remedy leftMember rightMember position leftRemedy rightRemedy

/-- The findings of a check are the worded notes of the profile in their ranking; no note is dropped as
a restatement. -/
theorem findings_eq_mergeSort (nonempty : sequence.isEmpty = false) (grammar display : Locale) :
    (check sequence grammar display).findings =
      ((notes grammar sequence).map (findingOf display)).mergeSort Finding.ranksBefore := by
  have distinct : ((notes grammar sequence).map (findingOf display)).Pairwise
      fun left right => left.subsumes right = false := by
    refine List.pairwise_map.mpr ((distinct_notes grammar sequence).imp_of_mem ?_)
    intro left right leftMember rightMember distinct
    exact findingOf_subsumes_eq_false leftMember rightMember distinct
  -- Ranking permutes distinct findings, which leaves nothing to drop.
  have ranked := List.mergeSort_perm ((notes grammar sequence).map (findingOf display))
    Finding.ranksBefore
  have rankedDistinct := ranked.symm.pairwise distinct fun restates =>
    (Finding.subsumes_comm _ _).trans restates
  rw [check, nonempty]
  exact (Report.findings_ofFindings _).trans
    (Finding.dropRestated_eq_self (by simp) rankedDistinct)

theorem findings_perm (nonempty : sequence.isEmpty = false) (grammar display : Locale) :
    (check sequence grammar display).findings.Perm
      ((notes grammar sequence).map (findingOf display)) := by
  rw [findings_eq_mergeSort nonempty]
  exact List.mergeSort_perm _ _

theorem mem_findings {finding : Finding} :
    finding ∈ (check sequence grammar display).findings ↔
      sequence.isEmpty = false ∧ ∃ note ∈ notes grammar sequence, findingOf display note = finding := by
  cases empty : sequence.isEmpty with
  | true => simp [check, empty, Report.clean]
  | false => simp [(findings_perm empty grammar display).mem_iff]

/-- A check is passed when none of its findings is an error. -/
theorem isValid_check (sequence : Sequence) (grammar display : Locale) :
    (check sequence grammar display).isValid = true ↔
      ∀ finding ∈ (check sequence grammar display).findings, finding.severity ≠ .error := by
  have ordered : ∃ findings, check sequence grammar display = Report.ofOrdered findings := by
    unfold check
    split
    · exact ⟨[], rfl⟩
    · exact ⟨_, rfl⟩
  obtain ⟨findings, report⟩ := ordered
  rw [report, Report.ofOrdered_eq]
  simp [List.countP_eq_zero]

end Grammar

end PromptBlocks
