import PromptBlocks.Proofs.Grammar.Local
import PromptBlocks.Proofs.Grammar.Ranking

/-!
Contract: a check finds in a sequence what it finds in each of its runs.

Owns:
- the local findings of a check, which are those about one place within its run;
- the local findings of a sequence, run by run.

Does not own: findings about a whole sequence.
-/

namespace PromptBlocks

namespace Finding

/-- The finding is about one place within its run, and not about the whole sequence. -/
def isLocal (finding : Finding) : Bool :=
  !finding.code.isGlobal

theorem ranksBefore_shift (offset : Nat) (left right : Finding) :
    (left.shift offset).ranksBefore (right.shift offset) = left.ranksBefore right := by
  rw [Bool.eq_iff_iff, ranksBefore_iff, ranksBefore_iff]
  simp only [shift]
  omega

theorem Ranked.shift {findings : List Finding} (ranked : Ranked findings) (offset : Nat) :
    Ranked (findings.map (Finding.shift offset)) := by
  refine List.pairwise_map.mpr (ranked.imp fun behind => ?_)
  rw [ranksBefore_shift, behind]

end Finding

namespace Grammar

variable {grammar display : Locale} {sequence : Sequence}

/-- The findings about one place within its run, in the order of the report. -/
def localFindings (sequence : Sequence) (grammar display : Locale) : List Finding :=
  (check sequence grammar display).findings.filter Finding.isLocal

theorem ranked_localFindings (sequence : Sequence) (grammar display : Locale) :
    Finding.Ranked (localFindings sequence grammar display) :=
  (ranked_findings sequence grammar display).sublist List.filter_sublist

theorem filter_isLocal_notes_perm (grammar display : Locale) (sequence : Sequence) :
    (((notes grammar sequence).map (findingOf display)).filter Finding.isLocal).Perm
      ((sequence.places.flatMap (notesAt grammar)).map (findingOf display)) := by
  have localKept : ∀ note ∈ sequence.places.flatMap (notesAt grammar),
      (Finding.isLocal ∘ findingOf display) note = true := by
    intro note member
    obtain ⟨place, -, atPlace⟩ := List.mem_flatMap.mp member
    exact congrArg (! ·) (isGlobal_of_mem_notesAt atPlace)
  have globalDropped : ∀ note ∈ globalNotes grammar sequence.tokens,
      ¬ (Finding.isLocal ∘ findingOf display) note = true := by
    intro note member
    have dropped : (Finding.isLocal ∘ findingOf display) note = false :=
      congrArg (! ·) (isGlobal_of_mem_globalNotes member)
    rw [dropped]
    exact Bool.false_ne_true
  refine (((notes_perm grammar sequence).map _).filter _).trans ?_
  rw [List.filter_map, List.filter_append, List.filter_eq_self.mpr localKept,
    List.filter_eq_nil_iff.mpr globalDropped, List.append_nil]

theorem localFindings_perm (sequence : Sequence) (grammar display : Locale) :
    (localFindings sequence grammar display).Perm
      ((sequence.places.flatMap (notesAt grammar)).map (findingOf display)) := by
  cases empty : sequence.isEmpty with
  | false =>
    exact ((findings_perm empty grammar display).filter _).trans
      (filter_isLocal_notes_perm grammar display sequence)
  | true =>
    have noTokens : sequence.tokens = [] := List.isEmpty_iff.mp empty
    simp [localFindings, check, empty, Report.clean, Sequence.places, noTokens, Place.listFrom]

theorem position_lt_of_mem_localFindings {finding : Finding}
    (member : finding ∈ localFindings sequence grammar display) :
    finding.position < sequence.length := by
  obtain ⟨note, atPlaces, rfl⟩ :=
    List.mem_map.mp ((localFindings_perm sequence grammar display).mem_iff.mp member)
  obtain ⟨place, inside, atPlace⟩ := List.mem_flatMap.mp atPlaces
  have located : note.position = place.index := (located_of_mem_notesAt atPlace).1
  have bound := Sequence.index_lt_length inside
  show note.position < sequence.length
  omega

/-- The local findings of runs that start at given positions, each run checked by itself. -/
def findingsOfRuns (grammar display : Locale) (runs : List (Nat × List Token)) : List Finding :=
  runs.flatMap fun (start, run) =>
    (localFindings ⟨run⟩ grammar display).map (Finding.shift start)

theorem start_le_of_mem_findingsOfRuns {runs : List (List Token)} {first : Nat} {finding : Finding}
    (member : finding ∈ findingsOfRuns grammar display (Sequence.startsFrom first runs)) :
    first ≤ finding.position := by
  induction runs generalizing first with
  | nil => cases member
  | cons run later inductionHypothesis =>
    rcases List.mem_append.mp member with inRun | inLater
    · obtain ⟨alone, -, rfl⟩ := List.mem_map.mp inRun
      exact Nat.le_add_left first alone.position
    · have beyond := inductionHypothesis inLater
      omega

/-- Runs one behind the other keep the ranking: whatever is found in a run lies before the next. -/
theorem ranked_findingsOfRuns (grammar display : Locale) (runs : List (List Token)) (first : Nat) :
    Finding.Ranked (findingsOfRuns grammar display (Sequence.startsFrom first runs)) := by
  induction runs generalizing first with
  | nil => exact List.Pairwise.nil
  | cons run later inductionHypothesis =>
    refine List.pairwise_append.mpr
      ⟨(ranked_localFindings ⟨run⟩ grammar display).shift first, inductionHypothesis _, ?_⟩
    intro earlier inRun behind inLater
    obtain ⟨alone, found, rfl⟩ := List.mem_map.mp inRun
    have inside : alone.position < run.length := position_lt_of_mem_localFindings found
    have beyond := start_le_of_mem_findingsOfRuns inLater
    rw [Bool.eq_false_iff, ne_eq, Finding.ranksBefore_iff]
    show ¬ (behind.position < alone.position + first ∨ _ = alone.position + first ∧ _)
    omega

theorem findingsOfRuns_perm (runs : List (Nat × List Token)) :
    (findingsOfRuns grammar display runs).Perm
      ((runs.flatMap fun (start, run) =>
        ((Sequence.mk run).places.map (Place.shift start)).flatMap (notesAt grammar)).map
          (findingOf display)) := by
  rw [List.map_flatMap]
  refine List.Perm.flatMap_left runs ?_
  rintro ⟨start, run⟩ -
  have moved : (((Sequence.mk run).places.map (Place.shift start)).flatMap (notesAt grammar)).map
        (findingOf display) =
      (((Sequence.mk run).places.flatMap (notesAt grammar)).map (findingOf display)).map
        (Finding.shift start) := by
    simp only [List.flatMap_map, notesAt_shift, List.map_flatMap, List.map_map]
    refine List.flatMap_congr fun place _ => List.map_congr_left fun note _ => ?_
    exact findingOf_shift display start note
  show ((localFindings ⟨run⟩ grammar display).map (Finding.shift start)).Perm _
  rw [moved]
  exact (localFindings_perm ⟨run⟩ grammar display).map _

/-- A check is local to runs.  But for the findings about the whole sequence, it finds in a sequence, in
order, what it finds in each run by itself, moved to where the run starts. -/
theorem localFindings_runs (sequence : Sequence) (grammar display : Locale) :
    (check sequence grammar display).findings.filter (fun finding => !finding.code.isGlobal) =
      sequence.startedRuns.flatMap fun (start, run) =>
        ((check ⟨run⟩ grammar display).findings.filter fun finding =>
          !finding.code.isGlobal).map (Finding.shift start) := by
  have runByRun : (localFindings sequence grammar display).Perm
      (findingsOfRuns grammar display sequence.startedRuns) := by
    refine (localFindings_perm sequence grammar display).trans ?_
    rw [Sequence.flatMap_places (notesAt_inRun grammar)]
    exact (findingsOfRuns_perm sequence.startedRuns).symm
  exact (ranked_localFindings sequence grammar display).eq_of_perm
    (ranked_findingsOfRuns grammar display sequence.runs 0) runByRun

end Grammar

end PromptBlocks
