import PromptBlocks.Proofs.Edit.Surroundings
import PromptBlocks.Proofs.Grammar.Local
import PromptBlocks.Proofs.Grammar.Ranking

/-!
Contract: reports before and after a fix, when the notes differ by that fix only.

Owns:
- the codes with fixes that are about neighbouring words;
- notes and findings where they are found again once a token is put in;
- the report after a fix, when its notes are the old ones without one, moved, and at most one more.

Does not own: the notes that a profile makes after a fix.
-/

namespace PromptBlocks

/-- The codes with a fix that puts a word between two neighbours. -/
def FindingCode.hasLocalFix : FindingCode → Bool
  | .particleWithoutNoun | .consecutiveParticles | .consecutiveNouns => true
  | .articleNotBeforeNoun | .prepositionWithoutObject => true
  | _ => false

/-- The codes about a particle that lacks a noun, whose fix puts one in. -/
def FindingCode.lacksNoun : FindingCode → Bool
  | .particleWithoutNoun | .consecutiveParticles => true
  | _ => false

/-- Where a position is found again when a token is put in at `landing`. -/
def pastInsertion (landing position : Nat) : Nat :=
  if landing ≤ position then position + 1 else position

/-- The finding after a fix: position and target move behind the new token.  A missing subject still
belongs at the front. -/
def Finding.pastFix (fix : Fix) (finding : Finding) : Finding :=
  { finding with
    position := fix.moved finding.position
    fix :=
      if finding.code = .missingSubject then finding.fix
      else finding.fix.map fun own => { own with target := fix.moved own.target } }

def Note.pastInsertion (landing : Nat) (note : Note) : Note :=
  { note with
    position := PromptBlocks.pastInsertion landing note.position
    remedy :=
      if note.code = .missingSubject then note.remedy
      else note.remedy.map fun remedy =>
        { remedy with target := PromptBlocks.pastInsertion landing remedy.target } }

/-- The note about a given position instead. -/
def Note.placedAt (index : Nat) (note : Note) : Note :=
  { note with
    position := index
    remedy := note.remedy.map fun remedy => { remedy with target := index } }

theorem pastInsertion_of_lt {landing position : Nat} (before : position < landing) :
    pastInsertion landing position = position :=
  if_neg (Nat.not_le.mpr before)

theorem pastInsertion_of_le {landing position : Nat} (behind : landing ≤ position) :
    pastInsertion landing position = position + 1 :=
  if_pos behind

namespace Finding

theorem ranksBefore_pastFix (fix : Fix) (left right : Finding) :
    (left.pastFix fix).ranksBefore (right.pastFix fix) = left.ranksBefore right := by
  rw [Bool.eq_iff_iff, ranksBefore_iff, ranksBefore_iff]
  simp only [pastFix, Fix.moved]
  split <;> split <;> omega

theorem Ranked.pastFix {findings : List Finding} (ranked : Ranked findings) (fix : Fix) :
    Ranked (findings.map (Finding.pastFix fix)) := by
  refine List.pairwise_map.mpr (ranked.imp fun behind => ?_)
  rw [ranksBefore_pastFix, behind]

end Finding

namespace Grammar

variable {grammar display : Locale}

theorem findingOf_pastInsertion (fix : Fix) (note : Note) :
    findingOf display (note.pastInsertion fix.landing) = (findingOf display note).pastFix fix := by
  unfold findingOf Finding.pastFix Note.pastInsertion
  by_cases atFront : note.code = .missingSubject
  · simp only [atFront, if_true]
    rfl
  · simp only [atFront, if_false]
    cases note.remedy <;> rfl

/-! ### Local notes -/

section Local

variable {landing : Nat} {place : Place} {places : List Place} {note : Note}

theorem placedAt_of_mem_notesAt (member : note ∈ notesAt grammar place) :
    note.placedAt place.index = note := by
  obtain ⟨position, targets⟩ := located_of_mem_notesAt member
  obtain ⟨code, _, _, subject, remedy⟩ := note
  obtain rfl : _ = place.index := position
  cases remedy with
  | none => rfl
  | some remedy =>
    have target : remedy.target = place.index := targets remedy rfl
    simp [Note.placedAt, ← target]

theorem pastInsertion_of_mem_notesAt (member : note ∈ notesAt grammar place) :
    note.pastInsertion landing = note.placedAt (pastInsertion landing place.index) := by
  have notAtFront : note.code ≠ .missingSubject := by
    intro equal
    have isLocal := isGlobal_of_mem_notesAt member
    rw [equal] at isLocal
    cases isLocal
  rw [← placedAt_of_mem_notesAt member]
  unfold Note.pastInsertion Note.placedAt
  simp only [if_neg notAtFront, Option.map_map]
  rfl

theorem shift_of_mem_notesAt (member : note ∈ notesAt grammar place) (offset : Nat) :
    note.shift offset = note.placedAt (place.index + offset) := by
  rw [← placedAt_of_mem_notesAt member]
  unfold Note.shift Note.placedAt
  simp only [Option.map_map]
  rfl

theorem pastInsertion_notesAt_of_lt (before : place.index < landing) :
    (notesAt grammar place).map (Note.pastInsertion landing) = notesAt grammar place := by
  refine (List.map_congr_left fun note member => ?_).trans (List.map_id _)
  rw [pastInsertion_of_mem_notesAt member, pastInsertion_of_lt before,
    placedAt_of_mem_notesAt member, id]

theorem pastInsertion_notesAt_of_le (behind : landing ≤ place.index) :
    (notesAt grammar place).map (Note.pastInsertion landing) =
      (notesAt grammar place).map (Note.shift 1) := by
  refine List.map_congr_left fun note member => ?_
  rw [pastInsertion_of_mem_notesAt member, shift_of_mem_notesAt member, pastInsertion_of_le behind]

theorem pastInsertion_flatMap_of_lt (before : ∀ place ∈ places, place.index < landing) :
    (places.flatMap (notesAt grammar)).map (Note.pastInsertion landing) =
      places.flatMap (notesAt grammar) := by
  rw [List.map_flatMap]
  exact List.flatMap_congr fun place member => pastInsertion_notesAt_of_lt (before place member)

theorem pastInsertion_flatMap_of_le (behind : ∀ place ∈ places, landing ≤ place.index) :
    (places.flatMap (notesAt grammar)).map (Note.pastInsertion landing) =
      (places.map (Place.shift 1)).flatMap (notesAt grammar) := by
  rw [List.map_flatMap, List.flatMap_map]
  refine List.flatMap_congr fun place member => ?_
  rw [pastInsertion_notesAt_of_le (behind place member), notesAt_shift]

end Local

/-! ### Reports -/

/-- Where the notes after a fix are the old ones without one, moved, and at most one more, so are the
findings, in the same order. -/
theorem exists_split_of_notes {sequence changed : Sequence} {fix : Fix} {note : Note}
    {others : List Note} {added : Option Note}
    (nonempty : sequence.isEmpty = false) (stillNonempty : changed.isEmpty = false)
    (earlier : (notes grammar sequence).Perm (note :: others))
    (later : (notes grammar changed).Perm
      (others.map (Note.pastInsertion fix.landing) ++ added.toList)) :
    ∃ front back,
      ((check sequence grammar display).findings.erase (findingOf display note)).map
          (Finding.pastFix fix) = front ++ back ∧
        (check changed grammar display).findings =
          front ++ (added.map (findingOf display)).toList ++ back := by
  have kept : ((check sequence grammar display).findings.erase (findingOf display note)).Perm
      (others.map (findingOf display)) := by
    have found := (findings_perm nonempty grammar display).trans (earlier.map (findingOf display))
    have erased := found.erase (findingOf display note)
    rwa [List.map_cons, List.erase_cons_head] at erased
  have moved : (others.map (Note.pastInsertion fix.landing)).map (findingOf display) =
      (others.map (findingOf display)).map (Finding.pastFix fix) := by
    rw [List.map_map, List.map_map]
    exact List.map_congr_left fun other _ => findingOf_pastInsertion fix other
  have same : (check changed grammar display).findings.Perm
      (((check sequence grammar display).findings.erase (findingOf display note)).map
        (Finding.pastFix fix) ++ (added.map (findingOf display)).toList) := by
    refine ((findings_perm stillNonempty grammar display).trans (later.map _)).trans ?_
    rw [List.map_append, moved, ← Option.toList_map]
    exact ((kept.map _).symm).append_right _
  have keptRanked : Finding.Ranked
      ((check sequence grammar display).findings.erase (findingOf display note)) :=
    (ranked_findings sequence grammar display).sublist List.erase_sublist
  exact (ranked_findings changed grammar display).exists_split (keptRanked.pastFix fix) same

end Grammar

end PromptBlocks
