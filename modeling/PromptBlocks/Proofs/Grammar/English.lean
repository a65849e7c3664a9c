import PromptBlocks.Grammar.English
import PromptBlocks.Proofs.Grammar.Notes

/-!
Contract: the notes of the English profile, one constructor a rule.

Owns:
- what each rule reports, as a relation between sequences and notes;
- the profile's list of notes holds exactly those, each once;
- a remedy at a position belongs to one code.

Does not own: the order of the notes and their wording.
-/

namespace PromptBlocks.Grammar.English

/-- The rules of the profile: which notes a sequence deserves. -/
inductive Reported (sequence : Sequence) : Note → Prop
  /-- A determiner right behind a determiner. -/
  | consecutive {place : Place}
      (member : place ∈ sequence.places)
      (isDeterminer : place.token.block.isDeterminer = true)
      (repeated : (place.before.any fun token => token.block.isDeterminer) = true) :
      Reported sequence
        { code := .consecutiveArticles
          severity := .error
          position := place.index
          subject := place.token.surface .en
          remedy := none }
  /-- A determiner without a noun phrase behind it. -/
  | article {place : Place}
      (member : place ∈ sequence.places)
      (isDeterminer : place.token.block.isDeterminer = true)
      (lacking : hasObject place = false) :
      Reported sequence
        { code := .articleNotBeforeNoun
          severity := .error
          position := place.index
          subject := place.token.surface .en
          remedy := some (nounAfter place) }
  /-- A preposition without a noun phrase behind it. -/
  | preposition {place : Place} {word : Particle}
      (member : place ∈ sequence.places)
      (isParticle : place.token.block = .particle word)
      (isPreposition : word.isPreposition = true)
      (lacking : hasObject place = false) :
      Reported sequence
        { code := .prepositionWithoutObject
          severity := .error
          position := place.index
          subject := word.surface .en
          remedy := some (nounAfter place) }
  /-- The politeness marker inside a run and not before a verb. -/
  | please {place : Place}
      (member : place ∈ sequence.places)
      (isPlease : place.token.block = .article .please)
      (preceded : place.before.isSome = true)
      (noVerb : (place.next?.any fun token => token.kind == .verb) = false) :
      Reported sequence
        { code := .pleasePosition
          severity := .warning
          position := place.index
          subject := "please"
          remedy := none }
  /-- A terminal mark that more than punctuation follows in its run. -/
  | terminal {place : Place} {mark : Punctuation}
      (member : place ∈ sequence.places)
      (isMark : place.token.block = .punctuation mark)
      (isTerminal : mark.isTerminal = true)
      (content : (place.followers.any fun token => token.kind != .punctuation) = true) :
      Reported sequence
        { code := .periodNotAtEnd
          severity := .warning
          position := place.index
          subject := mark.surface .en
          remedy := none }
  /-- No verb at all. -/
  | verb (absent : ∀ token ∈ sequence.tokens, token.kind ≠ .verb) :
      Reported sequence
        { code := .missingVerb, severity := .warning, position := 0, subject := "", remedy := none }

section Rules

variable {sequence : Sequence} {place : Place} {note : Note} {tokens : List Token}

theorem consecutiveNote?_eq_some :
    consecutiveNote? place = some note ↔
      place.token.block.isDeterminer = true ∧
        (place.before.any fun token => token.block.isDeterminer) = true ∧
        { code := .consecutiveArticles
          severity := .error
          position := place.index
          subject := place.token.surface .en
          remedy := none } = note := by
  simp only [consecutiveNote?, Option.ite_none_right_eq_some, Bool.and_eq_true, and_assoc,
    Option.some.injEq]

theorem articleNote?_eq_some :
    articleNote? place = some note ↔
      place.token.block.isDeterminer = true ∧ hasObject place = false ∧
        { code := .articleNotBeforeNoun
          severity := .error
          position := place.index
          subject := place.token.surface .en
          remedy := some (nounAfter place) } = note := by
  simp only [articleNote?, Option.ite_none_right_eq_some, Bool.and_eq_true, Bool.not_eq_true',
    and_assoc, Option.some.injEq]

theorem prepositionNote?_eq_some :
    prepositionNote? place = some note ↔
      ∃ word, place.token.block = .particle word ∧ word.isPreposition = true ∧
        hasObject place = false ∧
        { code := .prepositionWithoutObject
          severity := .error
          position := place.index
          subject := word.surface .en
          remedy := some (nounAfter place) } = note := by
  unfold prepositionNote?
  cases place.token.block <;> simp [and_assoc]

theorem pleaseNote?_eq_some :
    pleaseNote? place = some note ↔
      place.token.block = .article .please ∧ place.before.isSome = true ∧
        (place.next?.any fun token => token.kind == .verb) = false ∧
        { code := .pleasePosition
          severity := .warning
          position := place.index
          subject := "please"
          remedy := none } = note := by
  simp only [pleaseNote?, Option.ite_none_right_eq_some, Bool.and_eq_true, beq_iff_eq,
    Bool.not_eq_true', and_assoc, Option.some.injEq]

theorem terminalNote?_eq_some :
    terminalNote? place = some note ↔
      ∃ mark, place.token.block = .punctuation mark ∧ mark.isTerminal = true ∧
        (place.followers.any fun token => token.kind != .punctuation) = true ∧
        { code := .periodNotAtEnd
          severity := .warning
          position := place.index
          subject := mark.surface .en
          remedy := none } = note := by
  unfold terminalNote?
  cases place.token.block <;> simp [and_assoc]

theorem mem_verbNotes :
    note ∈ verbNotes tokens ↔
      (∀ token ∈ tokens, token.kind ≠ .verb) ∧
        { code := .missingVerb
          severity := .warning
          position := 0
          subject := ""
          remedy := none } = note := by
  unfold verbNotes
  split
  · rename_i hasVerb
    obtain ⟨verb, member, isVerb⟩ := List.any_eq_true.mp hasVerb
    constructor
    · intro inNone
      cases inNone
    · rintro ⟨absent, -⟩
      exact absurd (beq_iff_eq.mp isVerb) (absent verb member)
  · rename_i noVerb
    simp only [List.any_eq_true, beq_iff_eq, not_exists, not_and] at noVerb
    rw [List.mem_singleton, eq_comm]
    exact (and_iff_right noVerb).symm

/-- The profile reports what its rules say. -/
theorem mem_notes : note ∈ notes sequence ↔ Reported sequence note := by
  simp only [notes, List.mem_append, List.mem_filterMap, List.mem_flatMap, Option.mem_toList]
  constructor
  · rintro ((((⟨place, member, rule | rule⟩ | ⟨place, member, rule⟩) | ⟨place, member, rule⟩) |
      ⟨place, member, rule⟩) | missing)
    · obtain ⟨isDeterminer, repeated, rfl⟩ := consecutiveNote?_eq_some.mp rule
      exact .consecutive member isDeterminer repeated
    · obtain ⟨isDeterminer, lacking, rfl⟩ := articleNote?_eq_some.mp rule
      exact .article member isDeterminer lacking
    · obtain ⟨word, isParticle, isPreposition, lacking, rfl⟩ := prepositionNote?_eq_some.mp rule
      exact .preposition member isParticle isPreposition lacking
    · obtain ⟨isPlease, preceded, noVerb, rfl⟩ := pleaseNote?_eq_some.mp rule
      exact .please member isPlease preceded noVerb
    · obtain ⟨mark, isMark, isTerminal, content, rfl⟩ := terminalNote?_eq_some.mp rule
      exact .terminal member isMark isTerminal content
    · obtain ⟨absent, rfl⟩ := mem_verbNotes.mp missing
      exact .verb absent
  · intro reported
    cases reported with
    | consecutive member isDeterminer repeated =>
      exact .inl (.inl (.inl (.inl ⟨_, member,
        .inl (consecutiveNote?_eq_some.mpr ⟨isDeterminer, repeated, rfl⟩)⟩)))
    | article member isDeterminer lacking =>
      exact .inl (.inl (.inl (.inl ⟨_, member,
        .inr (articleNote?_eq_some.mpr ⟨isDeterminer, lacking, rfl⟩)⟩)))
    | preposition member isParticle isPreposition lacking =>
      exact .inl (.inl (.inl (.inr ⟨_, member,
        prepositionNote?_eq_some.mpr ⟨_, isParticle, isPreposition, lacking, rfl⟩⟩)))
    | please member isPlease preceded noVerb =>
      exact .inl (.inl (.inr ⟨_, member,
        pleaseNote?_eq_some.mpr ⟨isPlease, preceded, noVerb, rfl⟩⟩))
    | terminal member isMark isTerminal content =>
      exact .inl (.inr ⟨_, member,
        terminalNote?_eq_some.mpr ⟨_, isMark, isTerminal, content, rfl⟩⟩)
    | verb absent => exact .inr (mem_verbNotes.mpr ⟨absent, rfl⟩)

end Rules

/-! ### Notes and their remedies are told apart -/

/-- The two rules for determiners may both report at one place, under different codes. -/
theorem spread_determinerNotes (sequence : Sequence) :
    Note.Spread 6 8 (sequence.places.flatMap fun place =>
      (consecutiveNote? place).toList ++ (articleNote? place).toList) := by
  refine Note.Spread.ofPlaces sequence _ ?_ fun place => ⟨?_, ?_⟩
  · intro place note member
    rcases List.mem_append.mp member with rule | rule
    · obtain ⟨-, -, rfl⟩ := consecutiveNote?_eq_some.mp (Option.mem_toList.mp rule)
      rfl
    · obtain ⟨-, -, rfl⟩ := articleNote?_eq_some.mp (Option.mem_toList.mp rule)
      rfl
  · refine List.pairwise_append.mpr ⟨?_, ?_, ?_⟩
    · cases consecutiveNote? place <;> simp
    · cases articleNote? place <;> simp
    · intro left inConsecutive right inArticle _
      obtain ⟨-, -, rfl⟩ := consecutiveNote?_eq_some.mp (Option.mem_toList.mp inConsecutive)
      obtain ⟨-, -, rfl⟩ := articleNote?_eq_some.mp (Option.mem_toList.mp inArticle)
      simp
  · intro note member
    rcases List.mem_append.mp member with rule | rule
    · obtain ⟨-, -, rfl⟩ := consecutiveNote?_eq_some.mp (Option.mem_toList.mp rule)
      simp [FindingCode.rank]
    · obtain ⟨-, -, rfl⟩ := articleNote?_eq_some.mp (Option.mem_toList.mp rule)
      simp [FindingCode.rank]

theorem spread_verbNotes (tokens : List Token) : Note.Spread 11 12 (verbNotes tokens) where
  distinct := by
    unfold verbNotes
    split <;> simp
  ranked := by
    intro note member
    obtain ⟨-, rfl⟩ := mem_verbNotes.mp member
    simp [FindingCode.rank]

/-- The rules stand in the order of their codes, and each looks at one place. -/
theorem spread_notes (sequence : Sequence) : Note.Spread 6 12 (notes sequence) := by
  have prepositions : Note.Spread 8 9 (sequence.places.filterMap prepositionNote?) := by
    refine Note.Spread.ofRule sequence _ fun place note rule => ?_
    obtain ⟨word, -, -, -, rfl⟩ := prepositionNote?_eq_some.mp rule
    exact ⟨rfl, by simp [FindingCode.rank]⟩
  have pleases : Note.Spread 9 10 (sequence.places.filterMap pleaseNote?) := by
    refine Note.Spread.ofRule sequence _ fun place note rule => ?_
    obtain ⟨-, -, -, rfl⟩ := pleaseNote?_eq_some.mp rule
    exact ⟨rfl, by simp [FindingCode.rank]⟩
  have terminals : Note.Spread 10 11 (sequence.places.filterMap terminalNote?) := by
    refine Note.Spread.ofRule sequence _ fun place note rule => ?_
    obtain ⟨mark, -, -, -, rfl⟩ := terminalNote?_eq_some.mp rule
    exact ⟨rfl, by simp [FindingCode.rank]⟩
  exact ((((spread_determinerNotes sequence).append prepositions (by decide)).append pleases
    (by decide)).append terminals (by decide)).append (spread_verbNotes sequence.tokens)
    (by decide)

/-- A remedy at a position belongs to one code: only a determiner and a preposition have one. -/
theorem Reported.code_eq {sequence : Sequence} {left right : Note} {remedy : Remedy}
    (leftReported : Reported sequence left) (rightReported : Reported sequence right)
    (position : left.position = right.position)
    (leftRemedy : left.remedy = some remedy) (rightRemedy : right.remedy = some remedy) :
    left.code = right.code := by
  cases leftReported with
  | article leftMember isDeterminer _ =>
    cases rightReported with
    | article => rfl
    | preposition rightMember isParticle _ _ =>
      rw [Sequence.place_eq_of_index_eq leftMember rightMember position, isParticle] at isDeterminer
      cases isDeterminer
    | _ => cases rightRemedy
  | preposition leftMember isParticle _ _ =>
    cases rightReported with
    | preposition => rfl
    | article rightMember isDeterminer _ =>
      rw [← Sequence.place_eq_of_index_eq leftMember rightMember position, isParticle]
        at isDeterminer
      cases isDeterminer
    | _ => cases rightRemedy
  | _ => cases leftRemedy

end PromptBlocks.Grammar.English
