import PromptBlocks.Vocabulary.Block

/-!
Contract: the reading of ids undoes their writing.

Owns:
- enumerations whose values are found again by their ids;
- the vocabulary list holds every block, each found again by its id;
- a text is read as a block, mark by mark, exactly when it is the id of that block.

Does not own: what a text that is no id stands for.
-/

namespace PromptBlocks

theorem Enumerated.id_of_ofId? {Value : Type} [Enumerated Value] {text : String} {value : Value}
    (named : Enumerated.ofId? text = some value) : Enumerated.id value = text := by
  rw [Enumerated.ofId?] at named
  simpa using List.find?_some named

/-- Every value is found again by its id. -/
class Enumerated.Lawful (Value : Type) [Enumerated Value] : Prop where
  ofId?_id : ∀ value : Value, Enumerated.ofId? (Enumerated.id value) = some value

namespace Block

theorem mem_all (block : Block) : block ∈ all := by
  cases block with
  | particle word => cases word <;> decide
  | article word => cases word <;> decide
  | verb word => cases word <;> decide
  | punctuation word => cases word <;> decide
  | noun => decide
  | other => decide
  | customVerb => decide

/-- The mark of all ids and the mark of a list of words, joined in front of a word. -/
theorem append_marks {mark joined : String} (marks : idMark ++ mark = joined) (word : String) :
    joined ++ word = idMark ++ (mark ++ word) := by
  rw [← marks, String.append_assoc]

theorem id_particle (word : Particle) :
    (Block.particle word).id = idMark ++ ("particle_" ++ Enumerated.id word) :=
  append_marks (by decide) _

theorem id_article (word : Article) :
    (Block.article word).id = idMark ++ ("article_" ++ Enumerated.id word) :=
  append_marks (by decide) _

theorem id_verb (word : Verb) :
    (Block.verb word).id = idMark ++ ("verb_" ++ Enumerated.id word) :=
  append_marks (by decide) _

theorem id_punctuation (word : Punctuation) :
    (Block.punctuation word).id = idMark ++ ("punct_" ++ Enumerated.id word) :=
  append_marks (by decide) _

theorem ofId?_idMark (name : String) : ofId? (idMark ++ name) = ofName? name := by
  rw [ofId?, Text.behind?_append]
  rfl

theorem ofId?_id (block : Block) : ofId? block.id = some block := by
  cases block with
  | noun => exact ofId?_idMark "noun"
  | other => exact ofId?_idMark "other"
  | customVerb => exact ofId?_idMark "verb_custom"
  | particle word =>
    rw [id_particle, ofId?_idMark]
    cases word <;> rfl
  | article word =>
    rw [id_article, ofId?_idMark]
    cases word <;> rfl
  | verb word =>
    rw [id_verb, ofId?_idMark]
    cases word <;> rfl
  | punctuation word =>
    rw [id_punctuation, ofId?_idMark]
    cases word <;> rfl

/-- Behind a mark stands the id of the word that is read. -/
theorem name_of_ofWord? {Word : Type} [Enumerated Word] {make : Word → Block} {mark name : String}
    {block : Block} (read : ofWord? make mark name = some (some block)) :
    ∃ word, make word = block ∧ name = mark ++ Enumerated.id word := by
  obtain ⟨rest, behind, decided⟩ := Option.map_eq_some_iff.mp read
  obtain ⟨word, known, made⟩ := Option.map_eq_some_iff.mp decided
  refine ⟨word, made, ?_⟩
  rw [Text.behind?_eq_some_iff.mp behind, Enumerated.id_of_ofId? known]

theorem eq_some_of_getD {decision : Option (Option Block)} {block : Block}
    (decided : decision.getD none = some block) : decision = some (some block) := by
  cases decision with
  | none => cases decided
  | some found => exact congrArg some decided

theorem id_of_ofName? {name : String} {block : Block} (read : ofName? name = some block) :
    block.id = idMark ++ name := by
  rw [ofName?] at read
  split at read
  next isNoun =>
    rw [← Option.some.inj read, beq_iff_eq.mp isNoun]
    rfl
  split at read
  next isOther =>
    rw [← Option.some.inj read, beq_iff_eq.mp isOther]
    rfl
  split at read
  next isCustom =>
    rw [← Option.some.inj read, beq_iff_eq.mp isCustom]
    rfl
  -- The marks are tried in order, and the one that fits has decided.
  have decided := eq_some_of_getD read
  simp only [Option.or_eq_some_iff] at decided
  rcases decided with particle | ⟨-, article | ⟨-, verb | ⟨-, mark⟩⟩⟩
  · obtain ⟨word, rfl, rfl⟩ := name_of_ofWord? particle
    exact id_particle word
  · obtain ⟨word, rfl, rfl⟩ := name_of_ofWord? article
    exact id_article word
  · obtain ⟨word, rfl, rfl⟩ := name_of_ofWord? verb
    exact id_verb word
  · obtain ⟨word, rfl, rfl⟩ := name_of_ofWord? mark
    exact id_punctuation word

/-- A text is read as the block whose id it is. -/
theorem ofId?_eq_some_iff {text : String} {block : Block} :
    ofId? text = some block ↔ block.id = text := by
  constructor
  · intro known
    obtain ⟨name, behind, read⟩ := Option.bind_eq_some_iff.mp known
    rw [id_of_ofName? read, Text.behind?_eq_some_iff.mp behind]
  · rintro rfl
    exact ofId?_id block

/-- A text is read as a block exactly when it is the id of one. -/
theorem ofId?_eq_none_iff {text : String} : ofId? text = none ↔ ∀ block : Block, block.id ≠ text := by
  simp only [Option.eq_none_iff_forall_ne_some, ne_eq, ofId?_eq_some_iff]

theorem id_injective {left right : Block} (same : left.id = right.id) : left = right := by
  have found := ofId?_id left
  rw [same, ofId?_id right] at found
  exact (Option.some.inj found).symm

end Block

end PromptBlocks
