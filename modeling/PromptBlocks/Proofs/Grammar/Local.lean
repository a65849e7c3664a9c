import Mathlib.Data.List.Perm.Basic
import PromptBlocks.Grammar.Report
import PromptBlocks.Proofs.Grammar.English
import PromptBlocks.Proofs.Grammar.Japanese
import PromptBlocks.Proofs.Sequence.Stretches

/-!
Contract: the rules that look at one place within its run.

Owns:
- notes and findings moved along with the places they are about;
- which codes are about a whole sequence;
- the local rules of each profile, which see no further than a run;
- the notes of a profile as those of each place and those of the whole sequence.

Does not own: the order of the notes.
-/

namespace PromptBlocks

/-- The codes about a sequence as a whole; all others are about one place within its run. -/
def FindingCode.isGlobal : FindingCode → Bool
  | .missingSubject | .missingObject | .missingVerb => true
  | _ => false

/-! ### Moving along -/

def Remedy.shift (offset : Nat) (remedy : Remedy) : Remedy :=
  { remedy with target := remedy.target + offset }

def Note.shift (offset : Nat) (note : Note) : Note :=
  { note with position := note.position + offset, remedy := note.remedy.map (Remedy.shift offset) }

def Fix.shift (offset : Nat) (fix : Fix) : Fix :=
  { fix with target := fix.target + offset }

/-- The finding with as many more tokens in front of what it is about. -/
def Finding.shift (offset : Nat) (finding : Finding) : Finding :=
  { finding with
    position := finding.position + offset
    fix := finding.fix.map (Fix.shift offset) }

theorem Grammar.findingOf_shift (display : Locale) (offset : Nat) (note : Note) :
    findingOf display (note.shift offset) = (findingOf display note).shift offset := by
  unfold findingOf Finding.shift Note.shift
  cases note.remedy <;> rfl

/-! ### Rules that look at one place -/

/-- A rule that sees a place within its run, and reports at that place. -/
structure Note.RunLocal (rule : Place → Option Note) : Prop where
  inRun : ∀ place, rule place.inRun = rule place
  shift : ∀ offset place, rule (place.shift offset) = (rule place).map (Note.shift offset)
  located : ∀ place note, rule place = some note →
    note.position = place.index ∧ (∀ remedy ∈ note.remedy, remedy.target = place.index)
  notGlobal : ∀ place note, rule place = some note → note.code.isGlobal = false

namespace Grammar

namespace Japanese

theorem runLocal_particleNote? : Note.RunLocal particleNote? where
  inRun _ := rfl
  shift offset place := by
    unfold particleNote?
    simp only [Place.shift_token, Place.shift_before]
    split
    · rw [Option.map_map]
      rfl
    · rfl
  located place note rule := by
    obtain ⟨_, _, -, -, rfl⟩ := particleNote?_eq_some.mp rule
    simp
  notGlobal place note rule := by
    obtain ⟨_, _, -, fault, rfl⟩ := particleNote?_eq_some.mp rule
    rcases code_of_particleFault? fault with rfl | rfl <;> rfl

theorem runLocal_verbNote? : Note.RunLocal verbNote? where
  inRun place := by simp [verbNote?]
  shift offset place := by
    unfold verbNote?
    rw [apply_ite (Option.map (Note.shift offset))]
    rfl
  located place note rule := by
    obtain ⟨-, -, rfl⟩ := verbNote?_eq_some.mp rule
    simp
  notGlobal place note rule := by
    obtain ⟨-, -, rfl⟩ := verbNote?_eq_some.mp rule
    rfl

theorem runLocal_nounNote? : Note.RunLocal nounNote? where
  inRun _ := rfl
  shift offset place := by
    unfold nounNote?
    rw [apply_ite (Option.map (Note.shift offset))]
    rfl
  located place note rule := by
    obtain ⟨-, -, rfl⟩ := nounNote?_eq_some.mp rule
    simp
  notGlobal place note rule := by
    obtain ⟨-, -, rfl⟩ := nounNote?_eq_some.mp rule
    rfl

end Japanese

namespace English

theorem hasObject_inRun (place : Place) : hasObject place.inRun = hasObject place := by
  rw [hasObject, Place.inRun_next?, hasObject]

theorem runLocal_consecutiveNote? : Note.RunLocal consecutiveNote? where
  inRun _ := rfl
  shift offset place := by
    unfold consecutiveNote?
    rw [apply_ite (Option.map (Note.shift offset))]
    rfl
  located place note rule := by
    obtain ⟨-, -, rfl⟩ := consecutiveNote?_eq_some.mp rule
    simp
  notGlobal place note rule := by
    obtain ⟨-, -, rfl⟩ := consecutiveNote?_eq_some.mp rule
    rfl

theorem runLocal_articleNote? : Note.RunLocal articleNote? where
  inRun place := by
    unfold articleNote?
    rw [hasObject_inRun]
    rfl
  shift offset place := by
    unfold articleNote?
    rw [apply_ite (Option.map (Note.shift offset))]
    rfl
  located place note rule := by
    obtain ⟨-, -, rfl⟩ := articleNote?_eq_some.mp rule
    simp [nounAfter]
  notGlobal place note rule := by
    obtain ⟨-, -, rfl⟩ := articleNote?_eq_some.mp rule
    rfl

theorem runLocal_prepositionNote? : Note.RunLocal prepositionNote? where
  inRun place := by
    unfold prepositionNote?
    rw [hasObject_inRun]
    rfl
  shift offset place := by
    unfold prepositionNote?
    simp only [Place.shift_token]
    split
    · rw [apply_ite (Option.map (Note.shift offset))]
      rfl
    · rfl
  located place note rule := by
    obtain ⟨_, -, -, -, rfl⟩ := prepositionNote?_eq_some.mp rule
    simp [nounAfter]
  notGlobal place note rule := by
    obtain ⟨_, -, -, -, rfl⟩ := prepositionNote?_eq_some.mp rule
    rfl

theorem runLocal_pleaseNote? : Note.RunLocal pleaseNote? where
  inRun place := by simp [pleaseNote?]
  shift offset place := by
    unfold pleaseNote?
    rw [apply_ite (Option.map (Note.shift offset))]
    rfl
  located place note rule := by
    obtain ⟨-, -, -, rfl⟩ := pleaseNote?_eq_some.mp rule
    simp
  notGlobal place note rule := by
    obtain ⟨-, -, -, rfl⟩ := pleaseNote?_eq_some.mp rule
    rfl

theorem runLocal_terminalNote? : Note.RunLocal terminalNote? where
  inRun place := by simp [terminalNote?]
  shift offset place := by
    unfold terminalNote?
    simp only [Place.shift_token]
    split
    · rw [apply_ite (Option.map (Note.shift offset))]
      rfl
    · rfl
  located place note rule := by
    obtain ⟨_, -, -, -, rfl⟩ := terminalNote?_eq_some.mp rule
    simp
  notGlobal place note rule := by
    obtain ⟨_, -, -, -, rfl⟩ := terminalNote?_eq_some.mp rule
    rfl

end English

/-! ### The notes of a place -/

/-- The rules of a profile that look at one place. -/
def localRules : Locale → List (Place → Option Note)
  | .ja => [Japanese.particleNote?, Japanese.verbNote?, Japanese.nounNote?]
  | .en =>
    [English.consecutiveNote?, English.articleNote?, English.prepositionNote?,
      English.pleaseNote?, English.terminalNote?]

def notesAt (grammar : Locale) (place : Place) : List Note :=
  (localRules grammar).filterMap fun rule => rule place

/-- What a profile notes about a sequence as a whole. -/
def globalNotes : Locale → List Token → List Note
  | .ja => Japanese.sentenceNotes
  | .en => English.verbNotes

theorem runLocal_of_mem {grammar : Locale} {rule : Place → Option Note}
    (member : rule ∈ localRules grammar) : Note.RunLocal rule := by
  cases grammar with
  | ja =>
    simp only [localRules, List.mem_cons, List.not_mem_nil, or_false] at member
    rcases member with rfl | rfl | rfl
    · exact Japanese.runLocal_particleNote?
    · exact Japanese.runLocal_verbNote?
    · exact Japanese.runLocal_nounNote?
  | en =>
    simp only [localRules, List.mem_cons, List.not_mem_nil, or_false] at member
    rcases member with rfl | rfl | rfl | rfl | rfl
    · exact English.runLocal_consecutiveNote?
    · exact English.runLocal_articleNote?
    · exact English.runLocal_prepositionNote?
    · exact English.runLocal_pleaseNote?
    · exact English.runLocal_terminalNote?

section Notes

variable {grammar : Locale} {place : Place} {note : Note}

theorem notesAt_inRun (grammar : Locale) (place : Place) :
    notesAt grammar place.inRun = notesAt grammar place :=
  List.filterMap_congr fun _ member => (runLocal_of_mem member).inRun place

theorem notesAt_shift (grammar : Locale) (offset : Nat) (place : Place) :
    notesAt grammar (place.shift offset) = (notesAt grammar place).map (Note.shift offset) := by
  unfold notesAt
  rw [List.map_filterMap]
  exact List.filterMap_congr fun _ member => (runLocal_of_mem member).shift offset place

theorem located_of_mem_notesAt (member : note ∈ notesAt grammar place) :
    note.position = place.index ∧ (∀ remedy ∈ note.remedy, remedy.target = place.index) := by
  obtain ⟨rule, isRule, fired⟩ := List.mem_filterMap.mp member
  exact (runLocal_of_mem isRule).located place note fired

theorem isGlobal_of_mem_notesAt (member : note ∈ notesAt grammar place) :
    note.code.isGlobal = false := by
  obtain ⟨rule, isRule, fired⟩ := List.mem_filterMap.mp member
  exact (runLocal_of_mem isRule).notGlobal place note fired

theorem isGlobal_of_mem_globalNotes {tokens : List Token}
    (member : note ∈ globalNotes grammar tokens) : note.code.isGlobal = true := by
  cases grammar with
  | ja =>
    obtain ⟨_, -, rule | rule⟩ := Japanese.mem_sentenceNotes.mp member
    · obtain ⟨-, rfl⟩ := Japanese.subjectNote?_eq_some.mp rule
      rfl
    · obtain ⟨-, rfl⟩ := Japanese.objectNote?_eq_some.mp rule
      rfl
  | en =>
    obtain ⟨-, rfl⟩ := English.mem_verbNotes.mp member
    rfl

/-- Rule by rule or place by place, the notes are the same. -/
theorem flatMap_filterMap_perm (rules : List (Place → Option Note)) (places : List Place) :
    (rules.flatMap fun rule => places.filterMap rule).Perm
      (places.flatMap fun place => rules.filterMap fun rule => rule place) := by
  induction rules with
  | nil => simp
  | cons rule later inductionHypothesis =>
    have headFirst : (places.flatMap fun place =>
        (rule :: later).filterMap fun rule => rule place) =
          places.flatMap fun place => (rule place).toList ++ later.filterMap fun rule => rule place := by
      refine List.flatMap_congr fun place _ => ?_
      cases fired : rule place <;> simp [fired]
    rw [headFirst, List.flatMap_cons, List.filterMap_eq_flatMap_toList]
    exact (inductionHypothesis.append_left _).trans (List.flatMap_append_perm places _ _)

theorem notes_perm (grammar : Locale) (sequence : Sequence) :
    (notes grammar sequence).Perm
      (sequence.places.flatMap (notesAt grammar) ++ globalNotes grammar sequence.tokens) := by
  have byRule : (notes grammar sequence).Perm
      (((localRules grammar).flatMap fun rule => sequence.places.filterMap rule) ++
        globalNotes grammar sequence.tokens) := by
    cases grammar with
    | ja => simp [notes, Japanese.notes, localRules, globalNotes]
    | en =>
      -- The two determiner rules go over the places together.
      have determiners := (List.flatMap_append_perm sequence.places
        (fun place => (English.consecutiveNote? place).toList)
        (fun place => (English.articleNote? place).toList)).symm
      simp only [← List.filterMap_eq_flatMap_toList] at determiners
      simpa [notes, English.notes, localRules, globalNotes] using determiners.append_right _
  exact byRule.trans ((flatMap_filterMap_perm _ _).append_right _)

end Notes

end Grammar

end PromptBlocks
