import PromptBlocks.Grammar.Report

/-!
Contract: reports without their words.

Owns:
- findings and reports whose messages, suggestions and labels are blanked out;
- ranking, dropping and counting findings, none of which reads a word;
- the two tables of words, which agree on what has a suggestion;
- checks in two display languages, which agree but for the words.

Does not own: what the words are.
-/

namespace PromptBlocks

namespace Finding

/-- The finding with every word blanked out.  Whether there is a suggestion stays, and so does what a fix
does, with which block and where. -/
def unworded (finding : Finding) : Finding :=
  { finding with
    message := ""
    suggestion := finding.suggestion.map fun _ => ""
    fix := finding.fix.map fun fix => { fix with label := "" } }

theorem ranksBefore_unworded (left right : Finding) :
    left.unworded.ranksBefore right.unworded = left.ranksBefore right :=
  rfl

theorem subsumes_unworded (earlier later : Finding) :
    earlier.unworded.subsumes later.unworded = earlier.subsumes later := by
  unfold subsumes unworded
  cases earlier.fix <;> cases later.fix <;> rfl

theorem mergeSort_map_unworded (findings : List Finding) :
    (findings.map unworded).mergeSort ranksBefore = (findings.mergeSort ranksBefore).map unworded :=
  (List.map_mergeSort fun left _ right _ => (ranksBefore_unworded left right).symm).symm

/-- Whether something near was kept that says the same does not depend on words. -/
theorem any_nearby_unworded (kept : List Finding) (finding : Finding) :
    (((kept.map unworded).takeWhile fun earlier => earlier.position == finding.unworded.position).any
        fun earlier => earlier.subsumes finding.unworded) =
      (kept.takeWhile fun earlier => earlier.position == finding.position).any
        fun earlier => earlier.subsumes finding := by
  rw [List.takeWhile_map, List.any_map]
  exact congrArg (List.any _) (funext fun earlier => subsumes_unworded earlier finding)

theorem dropRestated_map_unworded (kept findings : List Finding) :
    dropRestated (kept.map unworded) (findings.map unworded) =
      (dropRestated kept findings).map unworded := by
  induction findings generalizing kept with
  | nil => rfl
  | cons finding later inductionHypothesis =>
    simp only [List.map_cons, dropRestated, any_nearby_unworded]
    split
    · exact inductionHypothesis kept
    · rw [List.map_cons, ← List.map_cons, inductionHypothesis]

end Finding

namespace Report

/-- The report with every word of its findings blanked out. -/
def unworded (report : Report) : Report :=
  { report with findings := report.findings.map Finding.unworded }

theorem ofOrdered_map_unworded (findings : List Finding) :
    ofOrdered (findings.map Finding.unworded) = (ofOrdered findings).unworded := by
  rw [ofOrdered_eq, ofOrdered_eq, List.countP_map, List.countP_map]
  rfl

/-- Reporting reads no word: findings may be blanked out before or after. -/
theorem ofFindings_map_unworded (findings : List Finding) :
    ofFindings (findings.map Finding.unworded) = (ofFindings findings).unworded := by
  have dropped := Finding.dropRestated_map_unworded [] (findings.mergeSort Finding.ranksBefore)
  rw [List.map_nil] at dropped
  rw [ofFindings, Finding.mergeSort_map_unworded, dropped, ofOrdered_map_unworded, ofFindings]

end Report

namespace Grammar

/-! ### The two tables -/

/-- No entry of either table lacks its suggestion, whatever its message quotes. -/
theorem isSome_suggestion_wording (display : Locale) (subject : String) (code : FindingCode) :
    (wording display subject code).suggestion.isSome = true := by
  cases display <;> cases code <;> rfl

/-- The tables agree on which codes have a suggestion. -/
theorem blank_suggestion_wording (first second : Locale) (subject : String) (code : FindingCode) :
    ((wording first subject code).suggestion.map fun _ => "") =
      (wording second subject code).suggestion.map fun _ => "" := by
  obtain ⟨left, hasLeft⟩ :=
    Option.isSome_iff_exists.mp (isSome_suggestion_wording first subject code)
  obtain ⟨right, hasRight⟩ :=
    Option.isSome_iff_exists.mp (isSome_suggestion_wording second subject code)
  rw [hasLeft, hasRight]
  rfl

/-- In any two languages, a note has a suggestion in both or in neither, and its fix does the same. -/
theorem unworded_findingOf (first second : Locale) (note : Note) :
    (findingOf first note).unworded = (findingOf second note).unworded := by
  have sameSuggestion := blank_suggestion_wording first second note.subject note.code
  have sameFix (display : Locale) :
      ((findingOf display note).fix.map fun fix => { fix with label := "" }) =
        note.remedy.map fun remedy => remedy.toFix "" := by
    rw [findingOf, Option.map_map]
    rfl
  rw [Finding.unworded, Finding.unworded, sameFix first, sameFix second]
  exact congrArg (fun suggestion => Finding.mk note.code "" note.position note.severity suggestion _)
    sameSuggestion

/-! ### Checks -/

/-- The display language changes nothing but words.  Checks of one sequence under one grammar, in any two
languages, report the same findings in the same order, with the same counts: they differ in messages,
suggestions and labels only. -/
theorem check_differs_in_words_only (sequence : Sequence) (grammar first second : Locale) :
    (check sequence grammar first).unworded = (check sequence grammar second).unworded := by
  cases empty : sequence.isEmpty with
  | true =>
    rw [check, check, empty]
    rfl
  | false =>
    have worded : ∀ display, (check sequence grammar display).unworded =
        Report.ofFindings
          (((notes grammar sequence).map (findingOf display)).map Finding.unworded) := by
      intro display
      rw [Report.ofFindings_map_unworded, check, empty]
      rfl
    have sameNotes : ((notes grammar sequence).map (findingOf first)).map Finding.unworded =
        ((notes grammar sequence).map (findingOf second)).map Finding.unworded := by
      rw [List.map_map, List.map_map]
      exact List.map_congr_left fun note _ => unworded_findingOf first second note
    rw [worded first, worded second, sameNotes]

/-- The words do differ. -/
example :
    findingOf .ja ⟨.missingVerb, .warning, 0, "", none⟩ ≠
      findingOf .en ⟨.missingVerb, .warning, 0, "", none⟩ := by
  decide

end Grammar

end PromptBlocks
