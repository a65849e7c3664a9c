import PromptBlocks.Proofs.Grammar.Exactness.Basic
import PromptBlocks.Proofs.Sequence.Neighbours

/-!
Contract: the English profile reports what its rules say, position by position.

Owns:
- the rule table: which code a position deserves, read off the blocks and chains around it;
- the notes of the profile are those of the table;
- checks under the profile report exactly the table.

Does not own: the wording of findings.
-/

namespace PromptBlocks.Grammar

namespace English

/-- Any article but the politeness marker. -/
def IsDeterminer (block? : Option Block) : Prop :=
  ∃ word, block? = some (.article word) ∧ word ≠ .please

/-- A noun, a free word or a determiner. -/
def OpensNounPhrase (block? : Option Block) : Prop :=
  block? = some .noun ∨ block? = some .other ∨ IsDeterminer block?

/-- The rule table of the profile. -/
def Deserved (sequence : Sequence) : FindingCode → Nat → Prop
  | .consecutiveArticles, position =>
    IsDeterminer (sequence.blockAt? position) ∧ IsDeterminer (sequence.blockInFront? position)
  | .articleNotBeforeNoun, position =>
    IsDeterminer (sequence.blockAt? position) ∧ ¬OpensNounPhrase (sequence.blockBehind? position)
  | .prepositionWithoutObject, position =>
    (∃ word, sequence.blockAt? position = some (.particle word) ∧ word ≠ .ga ∧ word ≠ .wo) ∧
      ¬OpensNounPhrase (sequence.blockBehind? position)
  | .pleasePosition, position =>
    sequence.blockAt? position = some (.article .please) ∧
      sequence.blockInFront? position ≠ none ∧ sequence.kindBehind? position ≠ some .verb
  | .periodNotAtEnd, position =>
    (∃ mark, sequence.blockAt? position = some (.punctuation mark) ∧ mark.isTerminal = true) ∧
      ∃ later, position < later ∧ sequence.OneRun position later ∧
        sequence.kindAt? later ≠ some .punctuation
  | .missingVerb, position => position = 0 ∧ ∀ index, sequence.kindAt? index ≠ some .verb
  | _, _ => False

variable {sequence : Sequence} {place : Place} {note : Note} {code : FindingCode} {position : Nat}

/-! ### Words around a place -/

theorem isDeterminer_iff (block? : Option Block) :
    IsDeterminer block? ↔ block?.any Block.isDeterminer = true := by
  constructor
  · rintro ⟨word, rfl, notPlease⟩
    cases word <;> first | rfl | exact absurd rfl notPlease
  · intro determines
    cases block? with
    | none => cases determines
    | some block =>
      cases block <;> try cases determines
      case article word => exact ⟨word, rfl, by rintro rfl; cases determines⟩

theorem isDeterminer_here (member : place ∈ sequence.places) :
    IsDeterminer (sequence.blockAt? place.index) ↔ place.token.block.isDeterminer = true := by
  rw [isDeterminer_iff, Sequence.blockAt?_index member, Option.any_some]

theorem isDeterminer_inFront (member : place ∈ sequence.places) :
    IsDeterminer (sequence.blockInFront? place.index) ↔
      (place.before.any fun token => token.block.isDeterminer) = true := by
  rw [isDeterminer_iff, Sequence.blockInFront?_index member, Option.any_map]

theorem opensNounPhrase_iff (token : Token) :
    OpensNounPhrase (some token.block) ↔ opensNounPhrase token = true := by
  rw [OpensNounPhrase, isDeterminer_iff, Option.any_some, opensNounPhrase, Token.kind]
  cases token.block <;> simp [Block.kind, Block.isDeterminer]

theorem opensNounPhrase_behind (member : place ∈ sequence.places) :
    ¬OpensNounPhrase (sequence.blockBehind? place.index) ↔ hasObject place = false := by
  rw [Sequence.blockBehind?_index member, hasObject]
  cases place.next? with
  | none => simp [OpensNounPhrase, IsDeterminer]
  | some token => rw [Option.map_some, opensNounPhrase_iff, Option.any_some, Bool.not_eq_true]

theorem isPreposition_iff (word : Particle) :
    word.isPreposition = true ↔ word ≠ .ga ∧ word ≠ .wo := by
  cases word <;> simp [Particle.isPreposition]

theorem verb_behind (member : place ∈ sequence.places) :
    sequence.kindBehind? place.index ≠ some .verb ↔
      (place.next?.any fun token => token.kind == .verb) = false := by
  rw [Sequence.kindBehind?_index member]
  cases place.next? <;> simp

/-- More than punctuation follows a place in its run. -/
theorem words_behind (member : place ∈ sequence.places) :
    (place.followers.any fun token => token.kind != .punctuation) = true ↔
      ∃ later, place.index < later ∧ sequence.OneRun place.index later ∧
        sequence.kindAt? later ≠ some .punctuation := by
  refine (Sequence.any_followers_iff member fun block => block.kind != .punctuation).trans ?_
  constructor
  · rintro ⟨later, behind, oneRun, block, found, word⟩
    refine ⟨later, behind, oneRun, ?_⟩
    simpa [Sequence.kindAt?, found] using word
  · rintro ⟨later, behind, ⟨chain, inRun⟩, word⟩
    obtain ⟨token, found, -⟩ := Option.map_eq_some_iff.mp (inRun later (by omega) (Nat.le_refl _))
    have block : sequence.blockAt? later = some token.block := by
      rw [Sequence.blockAt?, found, Option.map_some]
    refine ⟨later, behind, ⟨chain, inRun⟩, token.block, block, ?_⟩
    simpa [Sequence.kindAt?, block] using word

/-- No verb among the tokens is no verb at any position. -/
theorem no_verb_iff :
    (∀ token ∈ sequence.tokens, token.kind ≠ .verb) ↔
      ∀ index, sequence.kindAt? index ≠ some .verb := by
  constructor
  · intro absent index found
    obtain ⟨place, member, -, isVerb⟩ := Sequence.exists_place_of_kindAt? found
    exact absent _ (Sequence.token_mem member) isVerb
  · intro absent token member isVerb
    obtain ⟨index, found⟩ := List.getElem?_of_mem member
    refine absent index ?_
    rw [Sequence.kindAt?, Sequence.blockAt?, found, Option.map_some, Option.map_some]
    exact congrArg some isVerb

/-! ### Notes and table -/

theorem deserved_of_reported (reported : Reported sequence note) :
    Deserved sequence note.code note.position := by
  cases reported with
  | consecutive member isDeterminer repeated =>
    exact ⟨(isDeterminer_here member).mpr isDeterminer, (isDeterminer_inFront member).mpr repeated⟩
  | article member isDeterminer lacking =>
    exact ⟨(isDeterminer_here member).mpr isDeterminer, (opensNounPhrase_behind member).mpr lacking⟩
  | preposition member isParticle isPreposition lacking =>
    refine ⟨⟨_, ?_, (isPreposition_iff _).mp isPreposition⟩,
      (opensNounPhrase_behind member).mpr lacking⟩
    rw [Sequence.blockAt?_index member, isParticle]
  | please member isPlease preceded noVerb =>
    refine ⟨?_, ?_, (verb_behind member).mpr noVerb⟩
    · rw [Sequence.blockAt?_index member, isPlease]
    · rw [Sequence.blockInFront?_index member]
      simpa [Option.isSome_iff_ne_none] using preceded
  | terminal member isMark isTerminal content =>
    refine ⟨⟨_, ?_, isTerminal⟩, (words_behind member).mp content⟩
    rw [Sequence.blockAt?_index member, isMark]
  | verb absent => exact ⟨rfl, no_verb_iff.mp absent⟩

theorem exists_place_of_isDeterminer (here : IsDeterminer (sequence.blockAt? position)) :
    ∃ place ∈ sequence.places, place.index = position ∧
      place.token.block.isDeterminer = true := by
  obtain ⟨word, isWord, notPlease⟩ := here
  obtain ⟨place, member, rfl, -⟩ := Sequence.exists_place_of_blockAt? isWord
  exact ⟨place, member, rfl, (isDeterminer_here member).mp ⟨word, isWord, notPlease⟩⟩

theorem exists_reported_of_deserved (deserved : Deserved sequence code position) :
    ∃ note, Reported sequence note ∧ note.code = code ∧ note.position = position := by
  cases code with
  | consecutiveArticles =>
    obtain ⟨here, inFront⟩ := deserved
    obtain ⟨place, member, rfl, isDeterminer⟩ := exists_place_of_isDeterminer here
    exact ⟨_, .consecutive member isDeterminer ((isDeterminer_inFront member).mp inFront), rfl, rfl⟩
  | articleNotBeforeNoun =>
    obtain ⟨here, lacking⟩ := deserved
    obtain ⟨place, member, rfl, isDeterminer⟩ := exists_place_of_isDeterminer here
    exact ⟨_, .article member isDeterminer ((opensNounPhrase_behind member).mp lacking), rfl, rfl⟩
  | prepositionWithoutObject =>
    obtain ⟨⟨word, isWord, isPreposition⟩, lacking⟩ := deserved
    obtain ⟨place, member, rfl, isParticle⟩ := Sequence.exists_place_of_blockAt? isWord
    exact ⟨_, .preposition member isParticle ((isPreposition_iff word).mpr isPreposition)
      ((opensNounPhrase_behind member).mp lacking), rfl, rfl⟩
  | pleasePosition =>
    obtain ⟨here, preceded, noVerb⟩ := deserved
    obtain ⟨place, member, rfl, isPlease⟩ := Sequence.exists_place_of_blockAt? here
    rw [Sequence.blockInFront?_index member] at preceded
    refine ⟨_, .please member isPlease ?_ ((verb_behind member).mp noVerb), rfl, rfl⟩
    simpa [Option.isSome_iff_ne_none] using preceded
  | periodNotAtEnd =>
    obtain ⟨⟨mark, isMark, isTerminal⟩, content⟩ := deserved
    obtain ⟨place, member, rfl, isPunctuation⟩ := Sequence.exists_place_of_blockAt? isMark
    exact ⟨_, .terminal member isPunctuation isTerminal ((words_behind member).mpr content), rfl, rfl⟩
  | missingVerb =>
    obtain ⟨rfl, absent⟩ := deserved
    exact ⟨_, .verb (no_verb_iff.mpr absent), rfl, rfl⟩
  | _ => exact absurd deserved not_false

/-- The notes of the profile are those of its rule table. -/
theorem exists_note_iff (sequence : Sequence) (code : FindingCode) (position : Nat) :
    (∃ note ∈ notes sequence, note.code = code ∧ note.position = position) ↔
      Deserved sequence code position :=
  noted_iff_of_reported mem_notes deserved_of_reported exists_reported_of_deserved code position

/-- The rules for articles and prepositions report errors, all others warn. -/
theorem severity_of_reported (reported : Reported sequence note) :
    note.severity = .error ↔
      note.code = .consecutiveArticles ∨ note.code = .articleNotBeforeNoun ∨
        note.code = .prepositionWithoutObject := by
  cases reported <;> simp

end English

open English

/-- An English check of a sequence with tokens reports exactly what the rule table asks for, each finding
once: all notes of the rules are in the report, in their ranking.  A repeated article, and an article or
preposition without its noun phrase, are errors, all else are warnings. -/
theorem english_report_exact (sequence : Sequence) (nonempty : sequence.isEmpty = false)
    (display : Locale) :
    (check sequence .en display).ReportsExactly (English.Deserved sequence) ∧
      (check sequence .en display).findings =
        ((notes .en sequence).map (findingOf display)).mergeSort Finding.ranksBefore ∧
      ∀ finding ∈ (check sequence .en display).findings,
        (finding.severity = .error ↔
          finding.code = .consecutiveArticles ∨ finding.code = .articleNotBeforeNoun ∨
            finding.code = .prepositionWithoutObject) := by
  have exactly : (check sequence .en display).ReportsExactly (Deserved sequence) :=
    reportsExactly_check (findings_perm nonempty .en display) (exists_note_iff sequence)
  refine ⟨exactly, findings_eq_mergeSort nonempty .en display, ?_⟩
  intro finding found
  obtain ⟨-, note, noted, rfl⟩ := mem_findings.mp found
  exact severity_of_reported (mem_notes.mp noted)

/-- Of two articles in front of a politeness marker, the second one deserves both findings for articles
and gets both, the first one neither; a missing verb is reported at the first one nevertheless. -/
theorem english_report_exact_of_stacked_articles :
    let sequence : Sequence :=
      ⟨[⟨.article .definite, none, 0⟩, ⟨.article .indefinite, none, 0⟩, ⟨.article .please, none, 0⟩]⟩
    sequence.isEmpty = false ∧
      (∃ finding ∈ (check sequence .en .ja).findings,
        finding.code = .consecutiveArticles ∧ finding.position = 1) ∧
      (∃ finding ∈ (check sequence .en .ja).findings,
        finding.code = .articleNotBeforeNoun ∧ finding.position = 1) ∧
      (∃ finding ∈ (check sequence .en .ja).findings,
        finding.code = .missingVerb ∧ finding.position = 0) ∧
      ¬∃ finding ∈ (check sequence .en .ja).findings,
        finding.code = .articleNotBeforeNoun ∧ finding.position = 0 := by
  intro sequence
  obtain ⟨exactly, -, -⟩ := english_report_exact sequence rfl .ja
  have first : sequence.blockAt? 0 = some (.article .definite) := rfl
  have second : sequence.blockAt? 1 = some (.article .indefinite) := rfl
  have inFront : sequence.blockInFront? 1 = some (.article .definite) := by decide
  have behindFirst : sequence.blockBehind? 0 = some (.article .indefinite) := by decide
  have behindSecond : sequence.blockBehind? 1 = some (.article .please) := by decide
  have noVerb : ∀ token ∈ sequence.tokens, token.kind ≠ .verb := by decide
  refine ⟨rfl, (exactly.found_iff _ _).mpr ?_, (exactly.found_iff _ _).mpr ?_,
    (exactly.found_iff _ _).mpr ⟨rfl, no_verb_iff.mp noVerb⟩,
    fun found => ((exactly.found_iff _ _).mp found).2 ?_⟩
  · simp [Deserved, IsDeterminer, second, inFront]
  · simp [Deserved, OpensNounPhrase, IsDeterminer, second, behindSecond]
  · simp [OpensNounPhrase, IsDeterminer, behindFirst]

end PromptBlocks.Grammar
