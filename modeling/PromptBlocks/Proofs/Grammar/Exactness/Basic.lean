import PromptBlocks.Proofs.Grammar.Report

/-!
Contract: reports that hold exactly the findings that a rule table asks for.

Owns:
- what it is for a report to hold one finding for each code and position of a table, and no other;
- notes are those of a table when each one is deserved and each deserved one is noted;
- a check that words all notes of its profile reports exactly their table.

Does not own: the tables.
-/

namespace PromptBlocks

/-- The report has one finding for each code and position that deserve one, and no other. -/
structure Report.ReportsExactly (report : Report) (Deserved : FindingCode → Nat → Prop) : Prop where
  once : (report.findings.map fun finding => (finding.code, finding.position)).Nodup
  found_iff : ∀ code position,
    (∃ finding ∈ report.findings, finding.code = code ∧ finding.position = position) ↔
      Deserved code position

namespace Grammar

variable {grammar display : Locale} {sequence : Sequence} {Deserved : FindingCode → Nat → Prop}

theorem noted_iff_of_reported {noted : List Note} {Reported : Note → Prop}
    (mem_noted : ∀ {note : Note}, note ∈ noted ↔ Reported note)
    (deserved_of_reported : ∀ {note : Note}, Reported note → Deserved note.code note.position)
    (exists_of_deserved : ∀ {code : FindingCode} {position : Nat}, Deserved code position →
      ∃ note, Reported note ∧ note.code = code ∧ note.position = position)
    (code : FindingCode) (position : Nat) :
    (∃ note ∈ noted, note.code = code ∧ note.position = position) ↔ Deserved code position := by
  constructor
  · rintro ⟨note, member, rfl, rfl⟩
    exact deserved_of_reported (mem_noted.mp member)
  · intro deserved
    obtain ⟨note, reported, sameCode, samePosition⟩ := exists_of_deserved deserved
    exact ⟨note, mem_noted.mpr reported, sameCode, samePosition⟩

/-- A check that words all notes reports exactly what its profile notes. -/
theorem reportsExactly_check
    (worded : (check sequence grammar display).findings.Perm
      ((notes grammar sequence).map (findingOf display)))
    (noted_iff : ∀ code position,
      (∃ note ∈ notes grammar sequence, note.code = code ∧ note.position = position) ↔
        Deserved code position) :
    (check sequence grammar display).ReportsExactly Deserved where
  once := by
    have places := worded.map fun finding => (finding.code, finding.position)
    rw [List.map_map] at places
    refine places.nodup_iff.mpr (List.pairwise_map.mpr ((distinct_notes grammar sequence).imp ?_))
    intro left right distinct same
    obtain ⟨code, position⟩ := Prod.mk.inj same
    exact distinct position code
  found_iff := by
    intro code position
    rw [← noted_iff]
    constructor
    · rintro ⟨finding, found, rfl, rfl⟩
      obtain ⟨note, member, rfl⟩ := List.mem_map.mp (worded.mem_iff.mp found)
      exact ⟨note, member, rfl, rfl⟩
    · rintro ⟨note, member, rfl, rfl⟩
      exact ⟨findingOf display note, worded.mem_iff.mpr (List.mem_map_of_mem member), rfl, rfl⟩

end Grammar

end PromptBlocks
