import Mathlib.Data.Prod.Lex
import PromptBlocks.Proofs.Grammar.Ranking

/-!
Contract: what a report keeps of any list of findings.

Owns:
- the key that findings are ranked by, and the stable ranking of a list;
- thinning a ranked list: a finding goes when it restates one that stays in front of it;
- on a ranked list, what is restated nearby is all that is restated;
- reports of any findings are the thinned stable ranking, are settled, and do not depend on the order of
  findings with distinct keys.

Does not own: which findings a check makes.
-/

namespace PromptBlocks

/-- Codes are ranked in the order of their declaration. -/
theorem FindingCode.rank_eq_ctorIdx (code : FindingCode) : code.rank = code.ctorIdx := by
  cases code <;> rfl

namespace Finding

/-- What findings are ranked by: the position, then errors before warnings, then the order in which
the codes are declared. -/
def key (finding : Finding) : Nat ×ₗ Nat ×ₗ Nat :=
  toLex (finding.position, toLex (finding.severity.rank, finding.code.ctorIdx))

/-- The later finding says the same of its position again: it has the same remedy or, where one of the
two has none, the same code. -/
def Restates (later earlier : Finding) : Prop :=
  earlier.position = later.position ∧
    ((∃ first second, earlier.fix = some first ∧ later.fix = some second ∧
        first.action = second.action ∧ first.blockType = second.blockType ∧
        first.target = second.target) ∨
      (earlier.fix = none ∨ later.fix = none) ∧ earlier.code = later.code)

/-- The findings sorted by their keys, those of one key in the order in which they came. -/
structure IsStableRanking (findings ranked : List Finding) : Prop where
  perm : ranked.Perm findings
  ordered : ranked.Pairwise fun earlier later => earlier.key ≤ later.key
  stable : ∀ key, ranked.filter (fun finding => finding.key = key) =
    findings.filter fun finding => finding.key = key

/-- Marks say which findings stay.  A finding is dropped exactly when it restates one that stays in
front of it. -/
structure IsThinning (ranked : List Finding) (marks : List Bool) (kept : List Finding) : Prop where
  length_eq : marks.length = ranked.length
  kept_eq : kept = ((ranked.zip marks).filter Prod.snd).map Prod.fst
  dropped_iff : ∀ (index : Nat) (finding : Finding), ranked[index]? = some finding →
    (marks[index]? = some false ↔
      ∃ earlier < index, marks[earlier]? = some true ∧
        ∃ front, ranked[earlier]? = some front ∧ finding.Restates front)

/-! ### Ranking -/

section Ranking

variable {findings other : List Finding}

theorem ranksBefore_iff_key_le (left right : Finding) :
    left.ranksBefore right = true ↔ left.key ≤ right.key := by
  simp only [ranksBefore_iff, key, FindingCode.rank_eq_ctorIdx, Prod.Lex.toLex_le_toLex]

theorem isStableRanking_mergeSort (findings : List Finding) :
    IsStableRanking findings (findings.mergeSort ranksBefore) where
  perm := List.mergeSort_perm _ _
  ordered := (List.pairwise_mergeSort ranksBefore_trans ranksBefore_total findings).imp
    fun before => (ranksBefore_iff_key_le _ _).mp before
  stable := by
    intro key
    have ofOneKey : (findings.filter fun finding => finding.key = key).Pairwise
        fun earlier later => earlier.ranksBefore later = true := by
      refine List.pairwise_of_forall_mem_list fun earlier inFront later behind => ?_
      have first := of_decide_eq_true (List.mem_filter.mp inFront).2
      have second := of_decide_eq_true (List.mem_filter.mp behind).2
      rw [ranksBefore_iff_key_le, first, second]
    -- Being in order, the findings of one key are found in this order among the ranked ones.
    have kept := (List.sublist_mergeSort ranksBefore_trans ranksBefore_total ofOneKey
      List.filter_sublist).filter fun finding => decide (finding.key = key)
    rw [List.filter_filter] at kept
    simp only [Bool.and_self] at kept
    refine (kept.eq_of_length ?_).symm
    exact ((List.mergeSort_perm findings ranksBefore).filter _).length_eq.symm

theorem ranked_mergeSort (distinct : (findings.map key).Nodup) :
    Ranked (findings.mergeSort ranksBefore) := by
  have ordered := (isStableRanking_mergeSort findings).ordered
  have apart : (findings.mergeSort ranksBefore).Pairwise fun left right => left.key ≠ right.key :=
    List.pairwise_map.mp (((List.mergeSort_perm findings ranksBefore).map key).nodup_iff.mpr distinct)
  refine (ordered.and apart).imp ?_
  rintro earlier later ⟨before, different⟩
  refine Bool.eq_false_iff.mpr fun behind => different ?_
  exact le_antisymm before ((ranksBefore_iff_key_le _ _).mp behind)

/-- With distinct keys, the order in which findings came does not matter. -/
theorem mergeSort_eq_of_perm (same : other.Perm findings) (distinct : (findings.map key).Nodup) :
    other.mergeSort ranksBefore = findings.mergeSort ranksBefore := by
  have otherDistinct : (other.map key).Nodup := (same.map key).nodup_iff.mpr distinct
  refine (ranked_mergeSort otherDistinct).eq_of_perm (ranked_mergeSort distinct) ?_
  exact (List.mergeSort_perm _ _).trans (same.trans (List.mergeSort_perm _ _).symm)

end Ranking

/-! ### Thinning -/

section Thinning

variable {kept findings : List Finding} {finding : Finding} {index : Nat}

theorem subsumes_iff_restates (earlier later : Finding) :
    earlier.subsumes later = true ↔ later.Restates earlier := by
  unfold subsumes Restates
  cases earlier.fix <;> cases later.fix <;> simp [Fix.sameRemedy, and_assoc]

/-- Keep each finding that none of those kept before it subsumes, near or far. -/
def thin (kept : List Finding) : List Finding → List Finding
  | [] => []
  | finding :: later =>
    if kept.any fun earlier => earlier.subsumes finding then thin kept later
    else finding :: thin (finding :: kept) later

/-- Behind positions that never fall, only the findings kept last can be at the position of the next. -/
theorem any_takeWhile_subsumes {finding : Finding}
    (falling : kept.Pairwise fun later earlier => earlier.position ≤ later.position)
    (behind : ∀ earlier ∈ kept, earlier.position ≤ finding.position) :
    ((kept.takeWhile fun earlier => earlier.position == finding.position).any
        fun earlier => earlier.subsumes finding) =
      kept.any fun earlier => earlier.subsumes finding := by
  induction falling with
  | nil => rfl
  | @cons last kept further _ inductionHypothesis =>
    have rest := inductionHypothesis fun earlier member =>
      behind earlier (List.mem_cons_of_mem last member)
    by_cases here : last.position = finding.position
    · rw [List.takeWhile_cons, if_pos (beq_iff_eq.mpr here), List.any_cons, List.any_cons, rest]
    · -- The last one kept is at an earlier position, and so are all the others.
      have before : last.position < finding.position :=
        Nat.lt_of_le_of_ne (behind last List.mem_cons_self) here
      rw [List.takeWhile_cons, if_neg (by simpa using here)]
      refine (List.any_eq_false.mpr fun earlier member restates => ?_).symm
      have samePosition := ((subsumes_iff_restates earlier finding).mp restates).1
      have noLater : earlier.position ≤ last.position := by
        rcases List.mem_cons.mp member with rfl | member
        · exact le_rfl
        · exact further earlier member
      omega

/-- On a list in the order of positions, dropping what is restated nearby drops all that is restated. -/
theorem dropRestated_eq_thin
    (falling : kept.Pairwise fun later earlier => earlier.position ≤ later.position)
    (behind : ∀ earlier ∈ kept, ∀ finding ∈ findings, earlier.position ≤ finding.position)
    (rising : findings.Pairwise fun earlier later => earlier.position ≤ later.position) :
    dropRestated kept findings = thin kept findings := by
  induction rising generalizing kept with
  | nil => rfl
  | @cons finding later ahead _ inductionHypothesis =>
    have sameTest := any_takeWhile_subsumes falling fun earlier member =>
      behind earlier member finding List.mem_cons_self
    have behindLater : ∀ earlier ∈ kept, ∀ next ∈ later, earlier.position ≤ next.position :=
      fun earlier member next inLater =>
        behind earlier member next (List.mem_cons_of_mem finding inLater)
    simp only [dropRestated, thin, sameTest]
    split
    · exact inductionHypothesis falling behindLater
    · refine congrArg (finding :: ·) (inductionHypothesis ?_ ?_)
      · exact List.pairwise_cons.mpr
          ⟨fun earlier member => behind earlier member finding List.mem_cons_self, falling⟩
      · intro earlier member next inLater
        rcases List.mem_cons.mp member with rfl | inKept
        · exact ahead next inLater
        · exact behindLater earlier inKept next inLater

/-- What is kept of ranked findings. -/
theorem dropRestated_mergeSort (findings : List Finding) :
    dropRestated [] (findings.mergeSort ranksBefore) = thin [] (findings.mergeSort ranksBefore) := by
  refine dropRestated_eq_thin List.Pairwise.nil (by simp) ?_
  refine (List.pairwise_mergeSort ranksBefore_trans ranksBefore_total findings).imp ?_
  intro earlier later before
  rw [ranksBefore_iff] at before
  omega

/-- Which findings stay when those in `kept` have stayed in front of them. -/
def stays (kept : List Finding) : List Finding → List Bool
  | [] => []
  | finding :: later =>
    if kept.any fun earlier => earlier.subsumes finding then false :: stays kept later
    else true :: stays (finding :: kept) later

theorem length_stays (kept findings : List Finding) :
    (stays kept findings).length = findings.length := by
  induction findings generalizing kept with
  | nil => rfl
  | cons finding later inductionHypothesis =>
    rw [stays]
    split <;> simp [inductionHypothesis]

theorem thin_eq (kept findings : List Finding) :
    thin kept findings =
      ((findings.zip (stays kept findings)).filter Prod.snd).map Prod.fst := by
  induction findings generalizing kept with
  | nil => rfl
  | cons finding later inductionHypothesis =>
    rw [thin, stays]
    split <;> simp [inductionHypothesis]

theorem stays_eq_false_iff (here : findings[index]? = some finding) :
    (stays kept findings)[index]? = some false ↔
      (∃ front ∈ kept, front.subsumes finding = true) ∨
        ∃ earlier < index, (stays kept findings)[earlier]? = some true ∧
          ∃ front, findings[earlier]? = some front ∧ front.subsumes finding = true := by
  induction findings generalizing kept index with
  | nil => cases here
  | cons first later inductionHypothesis =>
    by_cases restated : (kept.any fun earlier => earlier.subsumes first) = true
    · rw [stays, if_pos restated]
      cases index with
      | zero =>
        obtain rfl := Option.some.inj here
        simpa using restated
      | succ index =>
        rw [List.getElem?_cons_succ] at here
        rw [List.getElem?_cons_succ, inductionHypothesis here, Nat.exists_lt_succ_left]
        simp
    · rw [stays, if_neg restated]
      cases index with
      | zero =>
        obtain rfl := Option.some.inj here
        simpa using restated
      | succ index =>
        rw [List.getElem?_cons_succ] at here
        rw [List.getElem?_cons_succ, inductionHypothesis here, Nat.exists_lt_succ_left]
        simp [or_assoc, or_left_comm]

theorem isThinning_thin (ranked : List Finding) :
    IsThinning ranked (stays [] ranked) (thin [] ranked) where
  length_eq := length_stays [] ranked
  kept_eq := thin_eq [] ranked
  dropped_iff := by
    intro index finding here
    rw [stays_eq_false_iff here]
    simp [subsumes_iff_restates]

theorem thin_sublist (kept findings : List Finding) :
    (thin kept findings).Sublist findings := by
  induction findings generalizing kept with
  | nil => exact List.Sublist.slnil
  | cons finding later inductionHypothesis =>
    rw [thin]
    split
    · exact (inductionHypothesis kept).cons finding
    · exact (inductionHypothesis (finding :: kept)).cons_cons finding

/-- What stays restates nothing that stayed in front of it. -/
theorem subsumes_of_mem_thin {earlier : Finding} (stayed : earlier ∈ kept)
    (member : finding ∈ thin kept findings) : earlier.subsumes finding = false := by
  induction findings generalizing kept with
  | nil => cases member
  | cons first later inductionHypothesis =>
    rw [thin] at member
    by_cases restated : (kept.any fun earlier => earlier.subsumes first) = true
    · rw [if_pos restated] at member
      exact inductionHypothesis stayed member
    · rw [if_neg restated] at member
      rcases List.mem_cons.mp member with rfl | later
      · refine Bool.eq_false_iff.mpr fun restates => restated ?_
        exact List.any_eq_true.mpr ⟨earlier, stayed, restates⟩
      · exact inductionHypothesis (List.mem_cons_of_mem _ stayed) later

theorem pairwise_thin (kept findings : List Finding) :
    (thin kept findings).Pairwise fun left right => left.subsumes right = false := by
  induction findings generalizing kept with
  | nil => exact List.Pairwise.nil
  | cons finding later inductionHypothesis =>
    rw [thin]
    split
    · exact inductionHypothesis kept
    · refine List.pairwise_cons.mpr ⟨fun next member => ?_, inductionHypothesis _⟩
      exact subsumes_of_mem_thin List.mem_cons_self member

end Thinning

end Finding

namespace Report

theorem ofFindings_eq (findings : List Finding) :
    ofFindings findings = ofOrdered (Finding.thin [] (findings.mergeSort Finding.ranksBefore)) :=
  congrArg ofOrdered (Finding.dropRestated_mergeSort findings)

/-- The findings of a report are in order and free of restatements, so reporting them again changes
nothing. -/
theorem ofFindings_findings (findings : List Finding) :
    ofFindings (ofFindings findings).findings = ofFindings findings := by
  let kept := Finding.thin [] (findings.mergeSort Finding.ranksBefore)
  have ordered : kept.Pairwise fun earlier later => earlier.ranksBefore later = true :=
    (List.pairwise_mergeSort Finding.ranksBefore_trans Finding.ranksBefore_total findings).sublist
      (Finding.thin_sublist [] _)
  have nothingDropped : Finding.dropRestated [] kept = kept :=
    Finding.dropRestated_eq_self (by simp) (Finding.pairwise_thin [] _)
  have again : ofFindings kept = ofOrdered kept := by
    rw [ofFindings, List.mergeSort_of_pairwise ordered, nothingDropped]
  rw [ofFindings_eq findings, ofOrdered_eq]
  exact again.trans (ofOrdered_eq kept)

/-- The report of any findings keeps a part of their stable ranking: a finding is dropped exactly when it
restates one that stays in front of it.  The counts are those of what is kept, and the report is valid
when it counts no error.  Reporting what was kept changes nothing, and neither does another order of
findings with distinct keys. -/
theorem ofFindings_thins_ranking (findings : List Finding) :
    (∃ ranked marks, Finding.IsStableRanking findings ranked ∧
        (ofFindings findings).findings.Sublist ranked ∧
        Finding.IsThinning ranked marks (ofFindings findings).findings) ∧
      (ofFindings findings).errorCount =
        (ofFindings findings).findings.countP (fun finding => finding.severity == .error) ∧
      (ofFindings findings).warningCount =
        (ofFindings findings).findings.countP (fun finding => finding.severity == .warning) ∧
      ((ofFindings findings).isValid = true ↔ (ofFindings findings).errorCount = 0) ∧
      ofFindings (ofFindings findings).findings = ofFindings findings ∧
      ∀ other : List Finding, other.Perm findings → (findings.map Finding.key).Nodup →
        ofFindings other = ofFindings findings := by
  let ranked := findings.mergeSort Finding.ranksBefore
  have report := (ofFindings_eq findings).trans (ofOrdered_eq (Finding.thin [] ranked))
  have kept : (ofFindings findings).findings = Finding.thin [] ranked :=
    congrArg Report.findings report
  refine ⟨⟨ranked, Finding.stays [] ranked, Finding.isStableRanking_mergeSort findings, ?_, ?_⟩,
    ?_, ?_, ?_, ofFindings_findings findings, ?_⟩
  · rw [kept]
    exact Finding.thin_sublist [] ranked
  · rw [kept]
    exact Finding.isThinning_thin ranked
  · rw [kept, report]
  · rw [kept, report]
  · rw [report]
    exact beq_iff_eq
  · intro other same distinct
    rw [ofFindings, ofFindings, Finding.mergeSort_eq_of_perm same distinct]

end Report

end PromptBlocks
