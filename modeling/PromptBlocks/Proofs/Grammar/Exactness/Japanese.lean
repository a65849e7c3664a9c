import PromptBlocks.Proofs.Grammar.Exactness.Basic
import PromptBlocks.Proofs.Sequence.Neighbours

/-!
Contract: the Japanese profile reports what its rules say, position by position.

Owns:
- the rule table: which code a position deserves, read off the blocks and chains around it;
- the notes of the profile are those of the table;
- checks under the profile report exactly the table, and pass when every particle attaches.

Does not own: the wording of findings.
-/

namespace PromptBlocks.Grammar

namespace Japanese

/-- The rule table of the profile. -/
def Deserved (sequence : Sequence) : FindingCode → Nat → Prop
  | .particleWithoutNoun, position =>
    sequence.kindAt? position = some .particle ∧
      (sequence.kindInFront? position = none ∨ sequence.kindInFront? position = some .article ∨
        sequence.kindInFront? position = some .punctuation)
  | .consecutiveParticles, position =>
    sequence.kindAt? position = some .particle ∧ sequence.kindInFront? position = some .particle
  | .verbNotAtEnd, position =>
    sequence.kindAt? position = some .verb ∧
      ∃ later, position < later ∧ sequence.OneRun position later ∧
        (sequence.kindAt? later = some .noun ∨ sequence.kindAt? later = some .verb)
  | .consecutiveNouns, position =>
    sequence.kindAt? position = some .noun ∧ sequence.kindInFront? position = some .noun
  | .missingSubject, position =>
    sequence.IsFirstVerb position ∧ ∀ index, sequence.blockAt? index ≠ some (.particle .ga)
  | .missingObject, position =>
    sequence.IsFirstVerb position ∧
      ∀ earlier < position, sequence.blockAt? earlier ≠ some (.particle .wo)
  | _, _ => False

variable {sequence : Sequence} {note : Note} {code : FindingCode} {position : Nat}

/-! ### From the notes to the table -/

/-- What is wrong with a particle is read off the block in front of it. -/
theorem deserved_of_particleFault? (here : sequence.kindAt? position = some .particle)
    (fault : particleFault? (sequence.kindInFront? position) = some code) :
    Deserved sequence code position := by
  cases inFront : sequence.kindInFront? position with
  | none =>
    rw [inFront] at fault
    obtain rfl := Option.some.inj fault
    exact ⟨here, .inl inFront⟩
  | some kind =>
    rw [inFront] at fault
    cases kind <;> simp only [particleFault?, Option.some.injEq, reduceCtorEq] at fault <;>
      subst fault
    · exact ⟨here, inFront⟩
    · exact ⟨here, .inr (.inl inFront)⟩
    · exact ⟨here, .inr (.inr inFront)⟩

theorem isFirstVerb_of_split {earlier later : List Token} {verb : Token}
    (split : sequence.tokens = earlier ++ verb :: later) (isVerb : verb.kind = .verb)
    (first : ∀ token ∈ earlier, token.kind ≠ .verb) : sequence.IsFirstVerb earlier.length := by
  have here : sequence.blockAt? earlier.length = some verb.block := by
    rw [Sequence.blockAt?, split, List.getElem?_append_right (Nat.le_refl _), Nat.sub_self]
    rfl
  constructor
  · rw [Sequence.kindAt?, here]
    exact congrArg some isVerb
  · intro index inFront isVerbToo
    obtain ⟨block, found, kind⟩ := Option.map_eq_some_iff.mp isVerbToo
    exact (Sequence.forall_blockAt?_iff split fun block => block.kind ≠ .verb).mpr first
      index inFront block found kind

theorem deserved_of_reported (reported : Reported sequence note) :
    Deserved sequence note.code note.position := by
  cases reported with
  | @particle place word code member isParticle fault =>
    have here : sequence.kindAt? place.index = some .particle := by
      rw [Sequence.kindAt?_index member, Token.kind, isParticle]
      rfl
    rw [← Sequence.kindInFront?_index member] at fault
    exact deserved_of_particleFault? here fault
  | @verb place member isVerb content =>
    have here : sequence.kindAt? place.index = some .verb := by
      rw [Sequence.kindAt?_index member, isVerb]
    obtain ⟨later, behind, oneRun, block, found, isContent⟩ :=
      (Sequence.any_followers_iff member fun block =>
        block.kind == .noun || block.kind == .verb).mp content
    simp only [Bool.or_eq_true, beq_iff_eq] at isContent
    refine ⟨here, later, behind, oneRun, isContent.imp ?_ ?_⟩ <;> intro kind <;>
      rw [Sequence.kindAt?, found, Option.map_some, kind]
  | @noun place member isNoun behindNoun =>
    constructor
    · rw [Sequence.kindAt?_index member, isNoun]
    · rw [Sequence.kindInFront?_index member, behindNoun]
  | @subject earlier later verb split isVerb first unmarked =>
    refine ⟨isFirstVerb_of_split split isVerb first, fun index found => ?_⟩
    obtain ⟨token, isToken, block⟩ := Option.map_eq_some_iff.mp found
    exact unmarked token (List.mem_of_getElem? isToken) block
  | @object earlier later verb split isVerb first unmarked =>
    refine ⟨isFirstVerb_of_split split isVerb first, fun index inFront found => ?_⟩
    exact (Sequence.forall_blockAt?_iff split fun block => block ≠ .particle .wo).mpr
      unmarked index inFront _ found rfl

/-! ### From the table to the notes -/

theorem exists_reported_particle (here : sequence.kindAt? position = some .particle)
    (fault : particleFault? (sequence.kindInFront? position) = some code) :
    ∃ note, Reported sequence note ∧ note.code = code ∧ note.position = position := by
  obtain ⟨place, member, rfl, isParticle⟩ := Sequence.exists_place_of_kindAt? here
  rw [Sequence.kindInFront?_index member] at fault
  obtain ⟨word, isWord⟩ : ∃ word, place.token.block = .particle word := by
    cases block : place.token.block <;> simp [Token.kind, block, Block.kind] at isParticle ⊢
  exact ⟨_, .particle member isWord fault, rfl, rfl⟩

/-- The first verb splits the tokens. -/
theorem exists_split_of_isFirstVerb (verb : sequence.IsFirstVerb position) :
    ∃ earlier token later, sequence.tokens = earlier ++ token :: later ∧ token.kind = .verb ∧
      (∀ token ∈ earlier, token.kind ≠ .verb) ∧ position = earlier.length := by
  obtain ⟨here, first⟩ := verb
  obtain ⟨place, member, rfl, isVerb⟩ := Sequence.exists_place_of_kindAt? here
  obtain ⟨earlier, split, index, -⟩ := Sequence.mem_places.mp member
  refine ⟨earlier, place.token, place.later, split, isVerb, ?_, index⟩
  refine (Sequence.forall_blockAt?_iff split fun block => block.kind ≠ .verb).mp ?_
  intro other inFront block found kind
  refine first other (by omega) ?_
  rw [Sequence.kindAt?, found, Option.map_some, kind]

theorem exists_reported_of_deserved (deserved : Deserved sequence code position) :
    ∃ note, Reported sequence note ∧ note.code = code ∧ note.position = position := by
  cases code with
  | particleWithoutNoun =>
    obtain ⟨here, inFront⟩ := deserved
    refine exists_reported_particle here ?_
    rcases inFront with inFront | inFront | inFront <;> rw [inFront] <;> rfl
  | consecutiveParticles =>
    obtain ⟨here, inFront⟩ := deserved
    refine exists_reported_particle here ?_
    rw [inFront]
    rfl
  | verbNotAtEnd =>
    obtain ⟨here, later, behind, oneRun, content⟩ := deserved
    obtain ⟨place, member, rfl, isVerb⟩ := Sequence.exists_place_of_kindAt? here
    refine ⟨_, .verb member isVerb ?_, rfl, rfl⟩
    refine (Sequence.any_followers_iff member fun block =>
      block.kind == .noun || block.kind == .verb).mpr ⟨later, behind, oneRun, ?_⟩
    rcases content with isContent | isContent <;>
      obtain ⟨block, found, kind⟩ := Option.map_eq_some_iff.mp isContent <;>
        exact ⟨block, found, by simp [kind]⟩
  | consecutiveNouns =>
    obtain ⟨here, inFront⟩ := deserved
    obtain ⟨place, member, rfl, isNoun⟩ := Sequence.exists_place_of_kindAt? here
    rw [Sequence.kindInFront?_index member] at inFront
    exact ⟨_, .noun member isNoun inFront, rfl, rfl⟩
  | missingSubject =>
    obtain ⟨verb, unmarked⟩ := deserved
    obtain ⟨earlier, token, later, split, isVerb, first, rfl⟩ := exists_split_of_isFirstVerb verb
    refine ⟨_, .subject split isVerb first fun other member isMarker => ?_, rfl, rfl⟩
    obtain ⟨index, found⟩ := List.getElem?_of_mem member
    refine unmarked index ?_
    rw [Sequence.blockAt?, found, Option.map_some, isMarker]
  | missingObject =>
    obtain ⟨verb, unmarked⟩ := deserved
    obtain ⟨earlier, token, later, split, isVerb, first, rfl⟩ := exists_split_of_isFirstVerb verb
    refine ⟨_, .object split isVerb first ?_, rfl, rfl⟩
    refine (Sequence.forall_blockAt?_iff split fun block => block ≠ .particle .wo).mp ?_
    rintro index inFront block found rfl
    exact unmarked index inFront found
  | _ => exact absurd deserved not_false

/-- The notes of the profile are those of its rule table. -/
theorem exists_note_iff (sequence : Sequence) (code : FindingCode) (position : Nat) :
    (∃ note ∈ notes sequence, note.code = code ∧ note.position = position) ↔
      Deserved sequence code position :=
  noted_iff_of_reported mem_notes deserved_of_reported exists_reported_of_deserved code position

/-! ### Severities -/

/-- The rule for particles reports errors, all others warn. -/
theorem severity_of_reported (reported : Reported sequence note) :
    note.severity = .error ↔
      note.code = .particleWithoutNoun ∨ note.code = .consecutiveParticles := by
  cases reported with
  | particle _ _ fault => exact iff_of_true rfl (code_of_particleFault? fault)
  | _ => simp

/-- A particle has no fault when it stands behind a noun, a verb or a free word of its run. -/
theorem attached_iff (here : sequence.kindAt? position = some .particle) :
    (¬Deserved sequence .particleWithoutNoun position ∧
        ¬Deserved sequence .consecutiveParticles position) ↔
      sequence.kindInFront? position = some .noun ∨ sequence.kindInFront? position = some .verb ∨
        sequence.kindInFront? position = some .other := by
  simp only [Deserved, here, true_and]
  cases sequence.kindInFront? position with
  | none => simp
  | some kind => cases kind <;> simp

end Japanese

open Japanese

/-- The findings of a Japanese check are the worded notes in their ranking, none of them dropped. -/
theorem findings_eq_mergeSort_ja (sequence : Sequence) (display : Locale) :
    (check sequence .ja display).findings =
      ((notes .ja sequence).map (findingOf display)).mergeSort Finding.ranksBefore := by
  cases empty : sequence.isEmpty with
  | true =>
    obtain ⟨tokens⟩ := sequence
    obtain rfl := List.isEmpty_iff.mp empty
    have nothing : notes .ja ⟨[]⟩ = [] := rfl
    rw [nothing, List.map_nil, List.mergeSort_nil]
    rfl
  | false => exact findings_eq_mergeSort empty .ja display

/-- A Japanese check reports exactly what the rule table asks for, each finding once: all notes of the
rules are in the report, in their ranking.  A particle without its noun and a particle behind a particle
are errors, all else are warnings; so a sequence passes when each particle stands behind a noun, a verb
or a free word of its run. -/
theorem japanese_report_exact (sequence : Sequence) (display : Locale) :
    (check sequence .ja display).ReportsExactly (Japanese.Deserved sequence) ∧
      (check sequence .ja display).findings =
        ((notes .ja sequence).map (findingOf display)).mergeSort Finding.ranksBefore ∧
      (∀ finding ∈ (check sequence .ja display).findings,
        (finding.severity = .error ↔
          finding.code = .particleWithoutNoun ∨ finding.code = .consecutiveParticles)) ∧
      ((check sequence .ja display).isValid = true ↔
        ∀ position, sequence.kindAt? position = some .particle →
          sequence.kindInFront? position = some .noun ∨
            sequence.kindInFront? position = some .verb ∨
            sequence.kindInFront? position = some .other) := by
  have ranked := findings_eq_mergeSort_ja sequence display
  have worded : (check sequence .ja display).findings.Perm
      ((notes .ja sequence).map (findingOf display)) := ranked ▸ List.mergeSort_perm _ _
  have exactly : (check sequence .ja display).ReportsExactly (Deserved sequence) :=
    reportsExactly_check worded (exists_note_iff sequence)
  have severity : ∀ finding ∈ (check sequence .ja display).findings,
      (finding.severity = .error ↔
        finding.code = .particleWithoutNoun ∨ finding.code = .consecutiveParticles) := by
    intro finding found
    obtain ⟨-, note, noted, rfl⟩ := mem_findings.mp found
    exact severity_of_reported (mem_notes.mp noted)
  refine ⟨exactly, ranked, severity, ?_⟩
  rw [isValid_check]
  constructor
  · intro passed position here
    refine (attached_iff here).mp ⟨fun deserved => ?_, fun deserved => ?_⟩ <;>
      obtain ⟨finding, found, code, -⟩ := (exactly.found_iff _ _).mpr deserved
    · exact passed finding found ((severity finding found).mpr (.inl code))
    · exact passed finding found ((severity finding found).mpr (.inr code))
  · intro attached finding found grave
    have deserved := (exactly.found_iff _ _).mp ⟨finding, found, rfl, rfl⟩
    rcases (severity finding found).mp grave with code | code <;> rw [code] at deserved
    · exact ((attached_iff deserved.1).mpr (attached _ deserved.1)).1 deserved
    · exact ((attached_iff deserved.1).mpr (attached _ deserved.1)).2 deserved

end PromptBlocks.Grammar
