import PromptBlocks.Grammar.English
import PromptBlocks.Grammar.Japanese
import PromptBlocks.Grammar.Wording

/-!
Contract: ordered reports of findings, and the check of a sequence.

Owns:
- the ranking of findings and the dropping of restatements;
- reports with their counts;
- the check of a sequence under a grammar profile, worded in a display language.

Does not own: the rules of the profiles.
-/

namespace PromptBlocks

/-- The findings of a check, in order, with their counts. -/
structure Report where
  /-- There is no error; warnings are allowed. -/
  isValid : Bool
  findings : List Finding
  errorCount : Nat
  warningCount : Nat
  deriving DecidableEq, Repr

namespace Finding

/-- The first finding does not rank behind the second: by position, then errors first, then by
code. -/
def ranksBefore (left right : Finding) : Bool :=
  left.position < right.position || (left.position == right.position &&
    (left.severity.rank < right.severity.rank || (left.severity.rank == right.severity.rank &&
      left.code.rank ≤ right.code.rank)))

/-- The second finding restates the first: the same position and the same remedy or, where one of
them has none, the same code. -/
def subsumes (kept later : Finding) : Bool :=
  kept.position == later.position &&
    match kept.fix, later.fix with
    | some left, some right => left.sameRemedy right
    | _, _ => kept.code == later.code

/-- Keep each finding that none of those kept right before it, at its position, subsumes.  What has been
kept is given last first. -/
def dropRestated (kept : List Finding) : List Finding → List Finding
  | [] => []
  | finding :: later =>
    let nearby := kept.takeWhile fun earlier => earlier.position == finding.position
    if nearby.any fun earlier => earlier.subsumes finding then dropRestated kept later
    else finding :: dropRestated (finding :: kept) later

end Finding

namespace Report

/-- The report without findings. -/
def clean : Report :=
  { isValid := true, findings := [], errorCount := 0, warningCount := 0 }

/-- Add a finding behind the others and count it; an error spoils the report. -/
def add (report : Report) (finding : Finding) : Report :=
  let grown := { report with findings := report.findings ++ [finding] }
  match finding.severity with
  | .error => { grown with isValid := false, errorCount := grown.errorCount + 1 }
  | .warning => { grown with warningCount := grown.warningCount + 1 }

/-- The report over findings that are already in order. -/
def ofOrdered (findings : List Finding) : Report :=
  findings.foldl add clean

/-- Added one by one, findings are counted by their severities. -/
theorem foldl_add (findings : List Finding) (report : Report) :
    findings.foldl add report =
      { isValid := report.isValid && !findings.any fun finding => finding.severity == .error
        findings := report.findings ++ findings
        errorCount :=
          report.errorCount + findings.countP fun finding => finding.severity == .error
        warningCount :=
          report.warningCount + findings.countP fun finding => finding.severity == .warning } := by
  induction findings generalizing report with
  | nil => simp
  | cons finding later inductionHypothesis =>
    rw [List.foldl_cons, inductionHypothesis, add]
    have apart : (Severity.warning == .error) = false := rfl
    cases severity : finding.severity <;> simp [severity, apart] <;> omega

/-- The counts of a report count its findings, and it is valid when there is no error to count. -/
theorem ofOrdered_eq (findings : List Finding) :
    ofOrdered findings =
      { isValid := (findings.countP fun finding => finding.severity == .error) == 0
        findings
        errorCount := findings.countP fun finding => finding.severity == .error
        warningCount := findings.countP fun finding => finding.severity == .warning } := by
  have valid : (!findings.any fun finding => finding.severity == .error) =
      ((findings.countP fun finding => finding.severity == .error) == 0) := by
    rw [Bool.eq_iff_iff]
    simp
  rw [ofOrdered, foldl_add, clean, List.nil_append, Nat.zero_add, Nat.zero_add, Bool.true_and, valid]

/-- The report over any findings: ranked, and without restatements. -/
def ofFindings (findings : List Finding) : Report :=
  ofOrdered (Finding.dropRestated [] (findings.mergeSort Finding.ranksBefore))

theorem findings_ofFindings (findings : List Finding) :
    (ofFindings findings).findings =
      Finding.dropRestated [] (findings.mergeSort Finding.ranksBefore) := by
  rw [ofFindings, ofOrdered_eq]

end Report

namespace Grammar

def notes (grammar : Locale) (sequence : Sequence) : List Note :=
  match grammar with
  | .ja => Japanese.notes sequence
  | .en => English.notes sequence

/-- Check a sequence under a grammar profile and word the findings in a display language.  The empty
sequence is clean. -/
def check (sequence : Sequence) (grammar display : Locale) : Report :=
  if sequence.isEmpty then Report.clean
  else Report.ofFindings ((notes grammar sequence).map (findingOf display))

end Grammar

end PromptBlocks
