import PromptBlocks.Grammar.Japanese
import PromptBlocks.Proofs.Grammar.Notes

/-!
Contract: the notes of the Japanese profile, one constructor a rule.

Owns:
- what each rule reports, as a relation between sequences and notes;
- the profile's list of notes holds exactly those, each once;
- a remedy at a position belongs to one code.

Does not own: the order of the notes and their wording.
-/

namespace PromptBlocks.Grammar.Japanese

/-- The rules of the profile: which notes a sequence deserves. -/
inductive Reported (sequence : Sequence) : Note → Prop
  /-- A particle without a noun or phrase in front of it. -/
  | particle {place : Place} {word : Particle} {code : FindingCode}
      (member : place ∈ sequence.places)
      (isParticle : place.token.block = .particle word)
      (fault : particleFault? (place.before.map Token.kind) = some code) :
      Reported sequence
        { code
          severity := .error
          position := place.index
          subject := place.token.surface .ja
          remedy := some { action := .insertBefore, block := .noun, target := place.index } }
  /-- A verb that a noun or verb follows in its run. -/
  | verb {place : Place}
      (member : place ∈ sequence.places)
      (isVerb : place.token.kind = .verb)
      (content : (place.followers.any fun token =>
        token.kind == .noun || token.kind == .verb) = true) :
      Reported sequence
        { code := .verbNotAtEnd
          severity := .warning
          position := place.index
          subject := ""
          remedy := none }
  /-- A noun right behind a noun. -/
  | noun {place : Place}
      (member : place ∈ sequence.places)
      (isNoun : place.token.kind = .noun)
      (behindNoun : place.before.map Token.kind = some .noun) :
      Reported sequence
        { code := .consecutiveNouns
          severity := .warning
          position := place.index
          subject := ""
          remedy :=
            some { action := .insertBefore, block := .particle .to, target := place.index } }
  /-- A first verb in a sequence without a subject marker. -/
  | subject {earlier later : List Token} {verb : Token}
      (split : sequence.tokens = earlier ++ verb :: later)
      (isVerb : verb.kind = .verb)
      (first : ∀ token ∈ earlier, token.kind ≠ .verb)
      (unmarked : ∀ token ∈ sequence.tokens, token.block ≠ .particle .ga) :
      Reported sequence
        { code := .missingSubject
          severity := .warning
          position := earlier.length
          subject := ""
          remedy := some { action := .insertBefore, block := .particle .ga, target := 0 } }
  /-- A first verb without an object marker in front of it. -/
  | object {earlier later : List Token} {verb : Token}
      (split : sequence.tokens = earlier ++ verb :: later)
      (isVerb : verb.kind = .verb)
      (first : ∀ token ∈ earlier, token.kind ≠ .verb)
      (unmarked : ∀ token ∈ earlier, token.block ≠ .particle .wo) :
      Reported sequence
        { code := .missingObject
          severity := .warning
          position := earlier.length
          subject := ""
          remedy :=
            some { action := .insertBefore, block := .particle .wo, target := earlier.length } }

section Rules

variable {sequence : Sequence} {place : Place} {note : Note} {tokens : List Token}

theorem particleNote?_eq_some :
    particleNote? place = some note ↔
      ∃ word code, place.token.block = .particle word ∧
        particleFault? (place.before.map Token.kind) = some code ∧
        { code
          severity := .error
          position := place.index
          subject := place.token.surface .ja
          remedy := some { action := .insertBefore, block := .noun, target := place.index } } =
          note := by
  unfold particleNote?
  cases place.token.block <;> simp

theorem verbNote?_eq_some :
    verbNote? place = some note ↔
      place.token.kind = .verb ∧
        (place.followers.any fun token => token.kind == .noun || token.kind == .verb) = true ∧
        { code := .verbNotAtEnd
          severity := .warning
          position := place.index
          subject := ""
          remedy := none } = note := by
  simp only [verbNote?, Option.ite_none_right_eq_some, Bool.and_eq_true, beq_iff_eq, and_assoc,
    Option.some.injEq]

theorem nounNote?_eq_some :
    nounNote? place = some note ↔
      place.token.kind = .noun ∧ place.before.map Token.kind = some .noun ∧
        { code := .consecutiveNouns
          severity := .warning
          position := place.index
          subject := ""
          remedy :=
            some { action := .insertBefore, block := .particle .to, target := place.index } } =
          note := by
  simp only [nounNote?, Option.ite_none_right_eq_some, Bool.and_eq_true, beq_iff_eq, and_assoc,
    Option.some.injEq]

/-- The first verb splits the tokens. -/
theorem findIdx?_verb_eq_some {firstVerb : Nat} :
    (tokens.findIdx? fun token => token.kind == .verb) = some firstVerb ↔
      ∃ earlier verb later, tokens = earlier ++ verb :: later ∧ verb.kind = .verb ∧
        (∀ token ∈ earlier, token.kind ≠ .verb) ∧ firstVerb = earlier.length := by
  constructor
  · intro found
    obtain ⟨inside, isVerb, first⟩ := List.findIdx?_eq_some_iff_getElem.mp found
    refine ⟨tokens.take firstVerb, tokens[firstVerb], tokens.drop (firstVerb + 1), ?_, ?_, ?_, ?_⟩
    · rw [← List.drop_eq_getElem_cons inside, List.take_append_drop]
    · exact beq_iff_eq.mp isVerb
    · intro token member
      obtain ⟨index, below, rfl⟩ := List.mem_take_iff_getElem.mp member
      have notVerb := first index (by omega)
      exact fun equal => notVerb (beq_iff_eq.mpr equal)
    · rw [List.length_take]
      omega
  · rintro ⟨earlier, verb, later, rfl, isVerb, first, rfl⟩
    have noneEarlier : (earlier.findIdx? fun token => token.kind == .verb) = none := by
      rw [List.findIdx?_eq_none_iff]
      exact fun token member => beq_false_of_ne (first token member)
    rw [List.findIdx?_append, noneEarlier, List.findIdx?_cons, isVerb]
    simp

theorem subjectNote?_eq_some {firstVerb : Nat} :
    subjectNote? tokens firstVerb = some note ↔
      (∀ token ∈ tokens, token.block ≠ .particle .ga) ∧
        { code := .missingSubject
          severity := .warning
          position := firstVerb
          subject := ""
          remedy := some { action := .insertBefore, block := .particle .ga, target := 0 } } =
          note := by
  simp only [subjectNote?, Option.ite_none_left_eq_some, List.any_eq_true, beq_iff_eq, not_exists,
    not_and, Option.some.injEq, ne_eq]

theorem objectNote?_eq_some {firstVerb : Nat} :
    objectNote? tokens firstVerb = some note ↔
      (∀ token ∈ tokens.take firstVerb, token.block ≠ .particle .wo) ∧
        { code := .missingObject
          severity := .warning
          position := firstVerb
          subject := ""
          remedy :=
            some { action := .insertBefore, block := .particle .wo, target := firstVerb } } =
          note := by
  simp only [objectNote?, Option.ite_none_left_eq_some, List.any_eq_true, beq_iff_eq, not_exists,
    not_and, Option.some.injEq, ne_eq]

theorem mem_sentenceNotes :
    note ∈ sentenceNotes tokens ↔
      ∃ firstVerb, (tokens.findIdx? fun token => token.kind == .verb) = some firstVerb ∧
        (subjectNote? tokens firstVerb = some note ∨ objectNote? tokens firstVerb = some note) := by
  unfold sentenceNotes
  cases tokens.findIdx? fun token => token.kind == .verb with
  | none => simp
  | some firstVerb => simp

theorem mem_notes : note ∈ notes sequence ↔ Reported sequence note := by
  simp only [notes, List.mem_append, List.mem_filterMap]
  constructor
  · rintro (((⟨place, member, rule⟩ | ⟨place, member, rule⟩) | ⟨place, member, rule⟩) | sentence)
    · obtain ⟨word, code, isParticle, fault, rfl⟩ := particleNote?_eq_some.mp rule
      exact .particle member isParticle fault
    · obtain ⟨isVerb, content, rfl⟩ := verbNote?_eq_some.mp rule
      exact .verb member isVerb content
    · obtain ⟨isNoun, behindNoun, rfl⟩ := nounNote?_eq_some.mp rule
      exact .noun member isNoun behindNoun
    · obtain ⟨firstVerb, found, rule⟩ := mem_sentenceNotes.mp sentence
      obtain ⟨earlier, verb, later, split, isVerb, first, rfl⟩ := findIdx?_verb_eq_some.mp found
      rcases rule with rule | rule
      · obtain ⟨unmarked, rfl⟩ := subjectNote?_eq_some.mp rule
        exact .subject split isVerb first unmarked
      · obtain ⟨unmarked, rfl⟩ := objectNote?_eq_some.mp rule
        rw [split, List.take_left] at unmarked
        exact .object split isVerb first unmarked
  · intro reported
    cases reported with
    | particle member isParticle fault =>
      exact .inl (.inl (.inl ⟨_, member,
        particleNote?_eq_some.mpr ⟨_, _, isParticle, fault, rfl⟩⟩))
    | verb member isVerb content =>
      exact .inl (.inl (.inr ⟨_, member, verbNote?_eq_some.mpr ⟨isVerb, content, rfl⟩⟩))
    | noun member isNoun behindNoun =>
      exact .inl (.inr ⟨_, member, nounNote?_eq_some.mpr ⟨isNoun, behindNoun, rfl⟩⟩)
    | subject split isVerb first unmarked =>
      have found := findIdx?_verb_eq_some.mpr ⟨_, _, _, split, isVerb, first, rfl⟩
      exact .inr (mem_sentenceNotes.mpr
        ⟨_, found, .inl (subjectNote?_eq_some.mpr ⟨unmarked, rfl⟩)⟩)
    | object split isVerb first unmarked =>
      have found := findIdx?_verb_eq_some.mpr ⟨_, _, _, split, isVerb, first, rfl⟩
      refine .inr (mem_sentenceNotes.mpr
        ⟨_, found, .inr (objectNote?_eq_some.mpr ⟨?_, rfl⟩)⟩)
      rw [split, List.take_left]
      exact unmarked

end Rules

/-! ### Notes and their remedies are told apart -/

theorem code_of_particleFault? {kind : Option BlockKind} {code : FindingCode}
    (fault : particleFault? kind = some code) :
    code = .particleWithoutNoun ∨ code = .consecutiveParticles := by
  cases kind with
  | none => exact .inl (Option.some.inj fault).symm
  | some kind => cases kind <;> simp_all [particleFault?]

theorem spread_sentenceNotes (tokens : List Token) : Note.Spread 4 6 (sentenceNotes tokens) where
  distinct := by
    unfold sentenceNotes
    split
    · exact List.Pairwise.nil
    · refine List.pairwise_append.mpr ⟨?_, ?_, ?_⟩
      · cases subjectNote? tokens _ <;> simp
      · cases objectNote? tokens _ <;> simp
      · intro left inSubject right inObject _
        obtain ⟨-, rfl⟩ := subjectNote?_eq_some.mp (Option.mem_toList.mp inSubject)
        obtain ⟨-, rfl⟩ := objectNote?_eq_some.mp (Option.mem_toList.mp inObject)
        simp
  ranked := by
    intro note member
    obtain ⟨firstVerb, -, rule | rule⟩ := mem_sentenceNotes.mp member
    · obtain ⟨-, rfl⟩ := subjectNote?_eq_some.mp rule
      simp [FindingCode.rank]
    · obtain ⟨-, rfl⟩ := objectNote?_eq_some.mp rule
      simp [FindingCode.rank]

/-- The rules stand in the order of their codes, and each looks at one place. -/
theorem spread_notes (sequence : Sequence) : Note.Spread 0 6 (notes sequence) := by
  have particles : Note.Spread 0 2 (sequence.places.filterMap particleNote?) := by
    refine Note.Spread.ofRule sequence _ fun place note rule => ?_
    obtain ⟨word, code, -, fault, rfl⟩ := particleNote?_eq_some.mp rule
    refine ⟨rfl, ?_⟩
    rcases code_of_particleFault? fault with rfl | rfl <;> simp [FindingCode.rank]
  have verbs : Note.Spread 2 3 (sequence.places.filterMap verbNote?) := by
    refine Note.Spread.ofRule sequence _ fun place note rule => ?_
    obtain ⟨-, -, rfl⟩ := verbNote?_eq_some.mp rule
    exact ⟨rfl, by simp [FindingCode.rank]⟩
  have nouns : Note.Spread 3 4 (sequence.places.filterMap nounNote?) := by
    refine Note.Spread.ofRule sequence _ fun place note rule => ?_
    obtain ⟨-, -, rfl⟩ := nounNote?_eq_some.mp rule
    exact ⟨rfl, by simp [FindingCode.rank]⟩
  exact ((particles.append verbs (by decide)).append nouns (by decide)).append
    (spread_sentenceNotes sequence.tokens) (by decide)

theorem Reported.code_eq {sequence : Sequence} {left right : Note} {remedy : Remedy}
    (leftReported : Reported sequence left) (rightReported : Reported sequence right)
    (position : left.position = right.position)
    (leftRemedy : left.remedy = some remedy) (rightRemedy : right.remedy = some remedy) :
    left.code = right.code := by
  have same := leftRemedy.trans rightRemedy.symm
  cases leftReported with
  | particle leftMember _ leftFault =>
    cases rightReported with
    | particle rightMember _ rightFault =>
      rw [Sequence.place_eq_of_index_eq leftMember rightMember position, rightFault] at leftFault
      exact (Option.some.inj leftFault).symm
    | _ => simp at same
  | verb => simp at leftRemedy
  | noun => cases rightReported <;> simp at same ⊢
  | subject => cases rightReported <;> simp at same ⊢
  | object => cases rightReported <;> simp at same ⊢

end PromptBlocks.Grammar.Japanese
