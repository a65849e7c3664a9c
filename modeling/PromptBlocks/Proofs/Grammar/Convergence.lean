import PromptBlocks.Proofs.Grammar.Cost.English
import PromptBlocks.Proofs.Grammar.Cost.Japanese
import PromptBlocks.Proofs.Grammar.Resolution

/-!
Contract: fixing one finding after another comes to an end, whatever finding is picked.

Owns:
- steps and runs of fixes, and sequences that offer no fix;
- the cost of the notes as counts of the report, and its fall along a run;
- the length of runs under each profile, and what a run can end with.

Does not own: what a single fix does to the cost.
-/

namespace PromptBlocks

def Report.count (report : Report) (code : FindingCode) : Nat :=
  report.findings.countP fun finding => finding.code == code

namespace Grammar

/-- Check the sequence, pick any finding that offers a fix, and carry out the plan of that fix. -/
def FixStep (grammar display : Locale) (earlier later : Sequence) : Prop :=
  ∃ finding ∈ (check earlier grammar display).findings, ∃ fix, finding.fix = some fix ∧
    later = (Plan.forFix earlier fix).apply earlier

/-- Fixes one after another, with their number. -/
inductive FixRun (grammar display : Locale) : Sequence → Nat → Sequence → Prop
  | done (sequence : Sequence) : FixRun grammar display sequence 0 sequence
  | step {start next final : Sequence} {length : Nat}
      (first : FixStep grammar display start next)
      (rest : FixRun grammar display next length final) :
      FixRun grammar display start (length + 1) final

def Settled (grammar display : Locale) (sequence : Sequence) : Prop :=
  ∀ finding ∈ (check sequence grammar display).findings, finding.fix = none

section Step

variable {grammar display : Locale} {earlier later start final : Sequence} {length : Nat}

theorem fixStep_iff :
    FixStep grammar display earlier later ↔
      ∃ note ∈ notes grammar earlier, ∃ remedy, note.remedy = some remedy ∧
        later = remedy.apply earlier := by
  constructor
  · rintro ⟨finding, found, fix, offered, rfl⟩
    obtain ⟨note, member, -, remedy, hasRemedy, rfl⟩ := note_of_offered found offered
    obtain ⟨-, inside⟩ := inside_of_mem_notes member hasRemedy
    exact ⟨note, member, remedy, hasRemedy, Remedy.apply_forFix_toFix inside _⟩
  · rintro ⟨note, member, remedy, hasRemedy, rfl⟩
    obtain ⟨-, inside⟩ := inside_of_mem_notes member hasRemedy
    have nonempty : earlier.isEmpty = false := by
      rw [Sequence.isEmpty, List.isEmpty_eq_false_iff_exists_mem]
      exact ⟨_, List.getElem_mem inside⟩
    have offered : (findingOf display note).fix =
        some (remedy.toFix (wording display note.subject note.code).label) := by
      rw [findingOf, hasRemedy]
      rfl
    exact ⟨_, mem_findings.mpr ⟨nonempty, note, member, rfl⟩, _, offered,
      (Remedy.apply_forFix_toFix inside _).symm⟩

theorem FixStep.repairCost_lt (step : FixStep grammar display earlier later) :
    Note.repairCost (notes grammar later) < Note.repairCost (notes grammar earlier) := by
  obtain ⟨note, member, remedy, hasRemedy, rfl⟩ := fixStep_iff.mp step
  cases grammar with
  | ja => exact (Japanese.mem_notes.mp member).repairCost_lt hasRemedy
  | en =>
    have settled := (English.mem_notes.mp member).repairCost_succ hasRemedy
    show Note.repairCost (English.notes _) < Note.repairCost (English.notes _)
    omega

theorem FixStep.repairCost_succ (step : FixStep .en display earlier later) :
    Note.repairCost (notes .en later) + 1 = Note.repairCost (notes .en earlier) := by
  obtain ⟨note, member, remedy, hasRemedy, rfl⟩ := fixStep_iff.mp step
  exact (English.mem_notes.mp member).repairCost_succ hasRemedy

/-- No run goes on for ever: the cost of the notes falls with every step. -/
theorem wellFounded_fixStep (grammar display : Locale) :
    WellFounded fun later earlier => FixStep grammar display earlier later :=
  Subrelation.wf (fun step => step.repairCost_lt)
    (measure fun sequence => Note.repairCost (notes grammar sequence)).wf

theorem FixRun.length_add_repairCost_le (run : FixRun grammar display start length final) :
    length + Note.repairCost (notes grammar final) ≤ Note.repairCost (notes grammar start) := by
  induction run with
  | done => omega
  | step first _ inductionHypothesis =>
    have fall := first.repairCost_lt
    omega

theorem FixRun.length_add_repairCost_eq (run : FixRun .en display start length final) :
    length + Note.repairCost (notes .en final) = Note.repairCost (notes .en start) := by
  induction run with
  | done => omega
  | step first _ inductionHypothesis =>
    have fall := first.repairCost_succ
    omega

end Step

/-! ### The cost as counts of the report -/

theorem repairCost_eq_countP (found : List Note) :
    Note.repairCost found =
      (found.countP (fun note => note.code == .particleWithoutNoun) +
          found.countP (fun note => note.code == .consecutiveParticles) +
          found.countP (fun note => note.code == .consecutiveNouns)) +
        2 * (found.countP (fun note => note.code == .missingSubject) +
          found.countP (fun note => note.code == .missingObject)) +
        (found.countP (fun note => note.code == .articleNotBeforeNoun) +
          found.countP (fun note => note.code == .prepositionWithoutObject)) := by
  induction found with
  | nil => rfl
  | cons note later inductionHypothesis =>
    rw [Note.repairCost_cons, inductionHypothesis]
    simp only [List.countP_cons]
    cases note.code <;> simp [FindingCode.repairCost] <;> omega

variable {grammar display : Locale} {sequence : Sequence}

theorem ranked_of_mem_notes {note : Note} (member : note ∈ notes grammar sequence) :
    match grammar with
    | .ja => note.code.rank < 6
    | .en => 6 ≤ note.code.rank := by
  cases grammar with
  | ja => exact ((Japanese.spread_notes sequence).ranked note member).2
  | en => exact ((English.spread_notes sequence).ranked note member).1

/-- A report counts the notes of its profile; what the empty sequence lacks costs nothing. -/
theorem count_check (sequence : Sequence) (grammar display : Locale) (code : FindingCode)
    (costs : 0 < code.repairCost) :
    (check sequence grammar display).count code =
      (notes grammar sequence).countP fun note => note.code == code := by
  cases empty : sequence.isEmpty with
  | false =>
    rw [Report.count, (findings_perm empty grammar display).countP_eq, List.countP_map]
    rfl
  | true =>
    -- The check passes over the empty sequence, but the English profile notes its missing verb.
    obtain rfl : sequence = ⟨[]⟩ := congrArg Sequence.mk (List.isEmpty_iff.mp empty)
    cases grammar with
    | ja => rfl
    | en =>
      refine (List.countP_eq_zero.mpr fun note member equal => ?_).symm
      obtain rfl := List.mem_singleton.mp member
      rw [← beq_iff_eq.mp equal] at costs
      cases costs

theorem countP_notes_of_rank (sequence : Sequence) (grammar : Locale) (code : FindingCode)
    (foreign : match grammar with
      | .ja => 6 ≤ code.rank
      | .en => code.rank < 6) :
    ((notes grammar sequence).countP fun note => note.code == code) = 0 := by
  refine List.countP_eq_zero.mpr fun note member equal => ?_
  have ranked := ranked_of_mem_notes member
  rw [beq_iff_eq.mp equal] at ranked
  cases grammar with
  | ja => exact absurd ranked (Nat.not_lt.mpr foreign)
  | en => exact absurd foreign (Nat.not_lt.mpr ranked)

/-- The cost of Japanese notes, read off the report. -/
theorem repairCost_ja (sequence : Sequence) (display : Locale) :
    Note.repairCost (notes .ja sequence) =
      ((check sequence .ja display).count .particleWithoutNoun +
          (check sequence .ja display).count .consecutiveParticles +
          (check sequence .ja display).count .consecutiveNouns) +
        2 * ((check sequence .ja display).count .missingSubject +
          (check sequence .ja display).count .missingObject) := by
  -- The other profile's codes drop out by their rank, and the rest are counts of the report.
  rw [repairCost_eq_countP, countP_notes_of_rank sequence .ja .articleNotBeforeNoun (by decide),
    countP_notes_of_rank sequence .ja .prepositionWithoutObject (by decide),
    count_check sequence .ja display .particleWithoutNoun (by decide),
    count_check sequence .ja display .consecutiveParticles (by decide),
    count_check sequence .ja display .consecutiveNouns (by decide),
    count_check sequence .ja display .missingSubject (by decide),
    count_check sequence .ja display .missingObject (by decide)]
  rfl

theorem repairCost_en (sequence : Sequence) (display : Locale) :
    Note.repairCost (notes .en sequence) =
      (check sequence .en display).count .articleNotBeforeNoun +
        (check sequence .en display).count .prepositionWithoutObject := by
  rw [repairCost_eq_countP, countP_notes_of_rank sequence .en .particleWithoutNoun (by decide),
    countP_notes_of_rank sequence .en .consecutiveParticles (by decide),
    countP_notes_of_rank sequence .en .consecutiveNouns (by decide),
    countP_notes_of_rank sequence .en .missingSubject (by decide),
    countP_notes_of_rank sequence .en .missingObject (by decide),
    count_check sequence .en display .articleNotBeforeNoun (by decide),
    count_check sequence .en display .prepositionWithoutObject (by decide)]
  omega

/-! ### What a run ends with -/

section Settled

variable {final : Sequence}

theorem settled_iff :
    Settled grammar display final ↔ ∀ note ∈ notes grammar final, note.remedy = none := by
  constructor
  · intro settled note member
    rw [Option.eq_none_iff_forall_ne_some]
    intro remedy hasRemedy
    have step : FixStep grammar display final (remedy.apply final) :=
      fixStep_iff.mpr ⟨note, member, remedy, hasRemedy, rfl⟩
    obtain ⟨finding, found, fix, offered, -⟩ := step
    rw [settled finding found] at offered
    cases offered
  · intro unfixed finding found
    obtain ⟨-, note, member, rfl⟩ := mem_findings.mp found
    exact Option.map_eq_none_iff.mpr (unfixed note member)

/-- Without remedies, nothing is left but verbs that are not at the end. -/
theorem Settled.finding_ja {finding : Finding} (settled : Settled .ja display final)
    (found : finding ∈ (check final .ja display).findings) :
    finding.code = .verbNotAtEnd ∧ finding.severity = .warning := by
  obtain ⟨-, note, member, rfl⟩ := mem_findings.mp found
  have unfixed := settled_iff.mp settled note member
  cases Japanese.mem_notes.mp member with
  | verb => exact ⟨rfl, rfl⟩
  | _ => cases unfixed

theorem Settled.code_en {finding : Finding} (settled : Settled .en display final)
    (found : finding ∈ (check final .en display).findings) :
    finding.code ≠ .articleNotBeforeNoun ∧ finding.code ≠ .prepositionWithoutObject := by
  obtain ⟨-, note, member, rfl⟩ := mem_findings.mp found
  have unfixed := settled_iff.mp settled note member
  cases English.mem_notes.mp member with
  | article => cases unfixed
  | preposition => cases unfixed
  | _ => simp [findingOf]

theorem Settled.count_en (settled : Settled .en display final) :
    (check final .en display).count .articleNotBeforeNoun = 0 ∧
      (check final .en display).count .prepositionWithoutObject = 0 := by
  constructor
  · refine List.countP_eq_zero.mpr fun finding found equal => ?_
    exact (settled.code_en found).1 (beq_iff_eq.mp equal)
  · refine List.countP_eq_zero.mpr fun finding found equal => ?_
    exact (settled.code_en found).2 (beq_iff_eq.mp equal)

/-- Every sequence can be settled: while it is not, there is a step to take. -/
theorem exists_settled (grammar display : Locale) (start : Sequence) :
    ∃ length final, FixRun grammar display start length final ∧
      Settled grammar display final := by
  -- Induction along the steps themselves, with nothing said about which finding is picked.
  induction start using (wellFounded_fixStep grammar display).induction with
  | h start inductionHypothesis =>
    by_cases settled : Settled grammar display start
    · exact ⟨0, start, .done start, settled⟩
    · obtain ⟨finding, unsettled⟩ := Classical.not_forall.mp settled
      obtain ⟨found, offered⟩ := Classical.not_imp.mp unsettled
      obtain ⟨fix, offered⟩ := Option.ne_none_iff_exists'.mp offered
      have first : FixStep grammar display start ((Plan.forFix start fix).apply start) :=
        ⟨finding, found, fix, offered, rfl⟩
      obtain ⟨length, final, rest, settled⟩ := inductionHypothesis _ first
      exact ⟨length + 1, final, .step first rest, settled⟩

end Settled

/-- Fixes come to an end, whichever finding is picked each time.  Japanese runs are no longer than
the first report says and end without errors; English runs all have the length that the first report
says. -/
theorem fixes_converge (display : Locale) :
    (∀ grammar, WellFounded fun later earlier => FixStep grammar display earlier later) ∧
      (∀ grammar start, ∃ length final, FixRun grammar display start length final ∧
        Settled grammar display final) ∧
      (∀ start length final, FixRun .ja display start length final →
        length ≤
          ((check start .ja display).count .particleWithoutNoun +
              (check start .ja display).count .consecutiveParticles +
              (check start .ja display).count .consecutiveNouns) +
            2 * ((check start .ja display).count .missingSubject +
              (check start .ja display).count .missingObject)) ∧
      (∀ final, Settled .ja display final →
        (check final .ja display).isValid = true ∧
          ∀ finding ∈ (check final .ja display).findings,
            finding.code = .verbNotAtEnd ∧ finding.severity = .warning) ∧
      (∀ start length final, FixRun .en display start length final → Settled .en display final →
        length =
            (check start .en display).count .articleNotBeforeNoun +
              (check start .en display).count .prepositionWithoutObject ∧
          (check final .en display).count .articleNotBeforeNoun = 0 ∧
          (check final .en display).count .prepositionWithoutObject = 0) := by
  refine ⟨fun grammar => wellFounded_fixStep grammar display,
    fun grammar start => exists_settled grammar display start, ?_, ?_, ?_⟩
  · intro start length final run
    have bound := run.length_add_repairCost_le
    rw [repairCost_ja start display] at bound
    omega
  · intro final settled
    refine ⟨(isValid_check final .ja display).mpr fun finding found grave => ?_,
      fun finding found => settled.finding_ja found⟩
    rw [(settled.finding_ja found).2] at grave
    cases grave
  · intro start length final run settled
    have balance := run.length_add_repairCost_eq
    obtain ⟨noArticle, noPreposition⟩ := settled.count_en
    rw [repairCost_en start display, repairCost_en final display, noArticle, noPreposition] at balance
    exact ⟨balance, noArticle, noPreposition⟩

/-- A verb by itself takes the four Japanese fixes that its report allows, and a determiner by itself
takes the one English fix. -/
theorem fixes_converge_of_single :
    (FixRun .ja .ja ⟨[⟨.verb .analyze, none, 0⟩]⟩ 4
        ⟨[⟨.noun, some "", 0⟩, ⟨.particle .ga, none, 0⟩, ⟨.noun, some "", 0⟩,
          ⟨.particle .wo, none, 0⟩, ⟨.verb .analyze, none, 0⟩]⟩ ∧
      (check ⟨[⟨.noun, some "", 0⟩, ⟨.particle .ga, none, 0⟩, ⟨.noun, some "", 0⟩,
          ⟨.particle .wo, none, 0⟩, ⟨.verb .analyze, none, 0⟩]⟩ .ja .ja).isValid = true) ∧
      FixRun .en .ja ⟨[⟨.article .definite, none, 0⟩]⟩ 1
        ⟨[⟨.article .definite, none, 0⟩, ⟨.noun, some "", 0⟩]⟩ ∧
      1 = (check ⟨[⟨.article .definite, none, 0⟩]⟩ .en .ja).count .articleNotBeforeNoun +
          (check ⟨[⟨.article .definite, none, 0⟩]⟩ .en .ja).count .prepositionWithoutObject := by
  obtain ⟨-, -, -, japanese, english⟩ := fixes_converge .ja
  have fixVerb : FixRun .ja .ja ⟨[⟨.verb .analyze, none, 0⟩]⟩ 4
      ⟨[⟨.noun, some "", 0⟩, ⟨.particle .ga, none, 0⟩, ⟨.noun, some "", 0⟩,
        ⟨.particle .wo, none, 0⟩, ⟨.verb .analyze, none, 0⟩]⟩ := by
    refine .step (fixStep_iff.mpr ⟨⟨.missingObject, .warning, 0, "",
      some ⟨.insertBefore, .particle .wo, 0⟩⟩, by decide, _, rfl, rfl⟩) ?_
    refine .step (fixStep_iff.mpr ⟨⟨.particleWithoutNoun, .error, 0, "を",
      some ⟨.insertBefore, .noun, 0⟩⟩, by decide, _, rfl, rfl⟩) ?_
    refine .step (fixStep_iff.mpr ⟨⟨.missingSubject, .warning, 2, "",
      some ⟨.insertBefore, .particle .ga, 0⟩⟩, by decide, _, rfl, rfl⟩) ?_
    refine .step (fixStep_iff.mpr ⟨⟨.particleWithoutNoun, .error, 0, "が",
      some ⟨.insertBefore, .noun, 0⟩⟩, by decide, _, rfl, rfl⟩) ?_
    exact .done _
  have fixDeterminer : FixRun .en .ja ⟨[⟨.article .definite, none, 0⟩]⟩ 1
      ⟨[⟨.article .definite, none, 0⟩, ⟨.noun, some "", 0⟩]⟩ := by
    refine .step (fixStep_iff.mpr ⟨⟨.articleNotBeforeNoun, .error, 0, "the",
      some ⟨.insertAfter, .noun, 0⟩⟩, by decide, _, rfl, rfl⟩) ?_
    exact .done _
  have verbSettled : ∀ note ∈ notes .ja ⟨[⟨.noun, some "", 0⟩, ⟨.particle .ga, none, 0⟩,
      ⟨.noun, some "", 0⟩, ⟨.particle .wo, none, 0⟩, ⟨.verb .analyze, none, 0⟩]⟩,
      note.remedy = none := by decide
  have determinerSettled : ∀ note ∈ notes .en ⟨[⟨.article .definite, none, 0⟩, ⟨.noun, some "", 0⟩]⟩,
      note.remedy = none := by decide
  exact ⟨⟨fixVerb, (japanese _ (settled_iff.mpr verbSettled)).1⟩, fixDeterminer,
    (english _ _ _ fixDeterminer (settled_iff.mpr determinerSettled)).1⟩

end Grammar

end PromptBlocks
