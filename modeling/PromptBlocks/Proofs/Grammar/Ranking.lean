import PromptBlocks.Proofs.Grammar.Report

/-!
Contract: the ranking of findings leaves no choice.

Owns:
- the ranking is a total order, strict on the findings of a check;
- strictly ranked lists of the same findings are equal;
- what a report without one finding, or with one more, looks like.

Does not own: what is found.
-/

namespace PromptBlocks

theorem FindingCode.rank_injective {left right : FindingCode} (same : left.rank = right.rank) :
    left = right := by
  cases left <;> cases right <;> first | rfl | cases same

namespace Finding

variable {left right : Finding}

theorem ranksBefore_iff :
    left.ranksBefore right = true ↔
      left.position < right.position ∨ left.position = right.position ∧
        (left.severity.rank < right.severity.rank ∨ left.severity.rank = right.severity.rank ∧
          left.code.rank ≤ right.code.rank) := by
  simp [ranksBefore]

theorem ranksBefore_total (left right : Finding) :
    (left.ranksBefore right || right.ranksBefore left) = true := by
  rw [Bool.or_eq_true, ranksBefore_iff, ranksBefore_iff]
  omega

theorem ranksBefore_trans (left middle right : Finding)
    (first : left.ranksBefore middle = true) (second : middle.ranksBefore right = true) :
    left.ranksBefore right = true := by
  rw [ranksBefore_iff] at first second ⊢
  omega

/-- Findings in their ranking, no two of one rank. -/
def Ranked (findings : List Finding) : Prop :=
  findings.Pairwise fun earlier later => later.ranksBefore earlier = false

theorem Ranked.sublist {findings fewer : List Finding} (ranked : Ranked findings)
    (part : fewer.Sublist findings) : Ranked fewer :=
  List.Pairwise.sublist part ranked

/-- The ranking leaves one order for given findings. -/
theorem Ranked.eq_of_perm {first second : List Finding} (firstRanked : Ranked first)
    (secondRanked : Ranked second) (same : first.Perm second) : first = second := by
  refine List.Perm.eq_of_pairwise ?_ firstRanked secondRanked same
  intro left right _ _ notBehind notBefore
  have total := ranksBefore_total left right
  rw [notBehind, notBefore] at total
  cases total

/-- With some finding more or none, a ranked report is the same but for that one place. -/
theorem Ranked.exists_split {found kept : List Finding} {added : Option Finding}
    (foundRanked : Ranked found) (keptRanked : Ranked kept)
    (same : found.Perm (kept ++ added.toList)) :
    ∃ front back, kept = front ++ back ∧ found = front ++ added.toList ++ back := by
  cases added with
  | none =>
    have equal : found = kept := foundRanked.eq_of_perm keptRanked (by simpa using same)
    exact ⟨kept, [], by simp, by simp [equal]⟩
  | some finding =>
    have member : finding ∈ found := same.mem_iff.mpr (by simp)
    obtain ⟨front, back, rfl⟩ := List.append_of_mem member
    have rest : (front ++ back).Perm kept := by
      have tailed := List.perm_append_singleton finding kept
      exact (List.perm_cons finding).mp (List.perm_middle.symm.trans (same.trans tailed))
    have restRanked : Ranked (front ++ back) :=
      foundRanked.sublist ((List.sublist_cons_self finding back).append_left front)
    exact ⟨front, back, (restRanked.eq_of_perm keptRanked rest).symm, by simp⟩

end Finding

namespace Grammar

variable {grammar display : Locale} {sequence : Sequence}

theorem ranksBefore_findingOf_antisymm {left right : Note}
    (forth : (findingOf display left).ranksBefore (findingOf display right) = true)
    (back : (findingOf display right).ranksBefore (findingOf display left) = true) :
    left.position = right.position ∧ left.code = right.code := by
  rw [Finding.ranksBefore_iff] at forth back
  simp only [findingOf] at forth back
  have sameRank : left.code.rank = right.code.rank := by omega
  exact ⟨by omega, FindingCode.rank_injective sameRank⟩

/-- The findings of a check stand in their ranking, no two of one rank. -/
theorem ranked_findings (sequence : Sequence) (grammar display : Locale) :
    Finding.Ranked (check sequence grammar display).findings := by
  cases empty : sequence.isEmpty with
  | true =>
    rw [check, empty]
    exact List.Pairwise.nil
  | false =>
    have ordered : ((check sequence grammar display).findings).Pairwise
        fun earlier later => earlier.ranksBefore later = true := by
      rw [findings_eq_mergeSort empty]
      exact List.pairwise_mergeSort Finding.ranksBefore_trans Finding.ranksBefore_total _
    have distinct : ((check sequence grammar display).findings).Pairwise fun left right =>
        ¬ (left.ranksBefore right = true ∧ right.ranksBefore left = true) := by
      refine (findings_perm empty grammar display).symm.pairwise ?_ ?_
      · refine List.pairwise_map.mpr ((distinct_notes grammar sequence).imp ?_)
        rintro left right distinct ⟨forth, back⟩
        obtain ⟨position, code⟩ := ranksBefore_findingOf_antisymm forth back
        exact distinct position code
      · exact fun apart both => apart both.symm
    refine (ordered.and distinct).imp ?_
    rintro left right ⟨before, apart⟩
    exact Bool.eq_false_iff.mpr fun behind => apart ⟨before, behind⟩

end Grammar

end PromptBlocks
