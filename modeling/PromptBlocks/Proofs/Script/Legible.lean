import PromptBlocks.Proofs.Text.Words
import PromptBlocks.Script

/-!
Contract: tokens that a script word can stand for, and how their words are read back.

Owns:
- legible tokens, by block and text;
- every word is read as a legible token;
- a legible token is written as a word, which is read back as the token in Japanese and as its
  English counterpart in English.

Does not own: lines and chains.
-/

namespace PromptBlocks.Script

open Text

/-- A word that no mark, fixed word or verb ending claims. -/
structure IsPlain (word : List Char) : Prop where
  notNoun : ¬ nounMark <+: word
  notVerb : ¬ verbMark <+: word
  notParticle : Particle.ofSurface? (String.ofList word) = none
  notArticle : Article.ofSurface? (String.ofList word) = none
  notPunctuation : Punctuation.ofSurface? (String.ofList word) = none
  notFixedVerb : Verb.ofSurface? (String.ofList word) = none
  notEnding : (verbEndings.any (·.isSuffixOf word)) = false

/-- The tokens that a script word can stand for. -/
inductive Legible : Token → Prop
  | noun {text : List Char} (unbroken : Unbroken text) :
      Legible (Token.ofBlock .noun (String.ofList text))
  | customVerb {text : List Char} (unbroken : Unbroken text)
      (notFixed : Verb.ofSurface? (String.ofList text) = none) :
      Legible (Token.ofBlock .customVerb (String.ofList text))
  | other {text : List Char} (isWord : IsWord text) (isPlain : IsPlain text) :
      Legible (Token.ofBlock .other (String.ofList text))
  | particle (word : Particle) : Legible (Token.ofBlock (.particle word) none)
  | article (word : Article) : Legible (Token.ofBlock (.article word) none)
  | verb (word : Verb) : Legible (Token.ofBlock (.verb word) none)
  | punctuation (mark : Punctuation) : Legible (Token.ofBlock (.punctuation mark) none)

/-! ### Reading -/

theorem classify_noun (text : List Char) :
    classify (nounMark ++ text) = Token.ofBlock .noun (String.ofList text) :=
  rfl

theorem classify_customVerb {text : List Char}
    (notFixed : Verb.ofSurface? (String.ofList text) = none) :
    classify (verbMark ++ text) = Token.ofBlock .customVerb (String.ofList text) := by
  show classify ('_' :: 'V' :: ':' :: text) = _
  rw [classify, notFixed]

theorem classify_verb {text : List Char} {verb : Verb}
    (isFixed : Verb.ofSurface? (String.ofList text) = some verb) :
    classify (verbMark ++ text) = Token.ofBlock (.verb verb) none := by
  show classify ('_' :: 'V' :: ':' :: text) = _
  rw [classify, isFixed]

theorem classify_unmarked {word : List Char} (notNoun : ¬ nounMark <+: word)
    (notVerb : ¬ verbMark <+: word) : classify word = classifyPlain word := by
  unfold classify
  split
  · next text => exact absurd ⟨text, rfl⟩ notNoun
  · next text => exact absurd ⟨text, rfl⟩ notVerb
  · rfl

theorem classify_plain {word : List Char} (isPlain : IsPlain word) :
    classify word = Token.ofBlock .other (String.ofList word) := by
  rw [classify_unmarked isPlain.notNoun isPlain.notVerb, classifyPlain, isPlain.notParticle,
    isPlain.notArticle, isPlain.notPunctuation, isPlain.notFixedVerb]
  simp [isPlain.notEnding]

theorem legible_classifyPlain {word : List Char} (isWord : IsWord word)
    (notNoun : ¬ nounMark <+: word) (notVerb : ¬ verbMark <+: word) :
    Legible (classifyPlain word) := by
  dsimp only [classifyPlain]
  split
  · next block isFixed =>
    simp only [Option.or_eq_some_iff, Option.map_eq_some_iff] at isFixed
    rcases isFixed with ⟨particle, -, rfl⟩ | ⟨-, ⟨article, -, rfl⟩ | ⟨-, isFixed⟩⟩
    · exact .particle particle
    · exact .article article
    · rcases isFixed with ⟨mark, -, rfl⟩ | ⟨-, verb, -, rfl⟩
      · exact .punctuation mark
      · exact .verb verb
  · next notFixed =>
    simp only [Option.or_eq_none_iff, Option.map_eq_none_iff] at notFixed
    obtain ⟨notParticle, notArticle, notPunctuation, notFixedVerb⟩ := notFixed
    split
    · exact .customVerb isWord.unbroken notFixedVerb
    · next notEnding =>
      exact .other isWord
        { notNoun, notVerb, notParticle, notArticle, notPunctuation, notFixedVerb
          notEnding := Bool.eq_false_iff.mpr notEnding }

theorem legible_classify {word : List Char} (isWord : IsWord word) : Legible (classify word) := by
  by_cases isNoun : nounMark <+: word
  · obtain ⟨text, rfl⟩ := isNoun
    exact .noun (unbroken_append.mp isWord.unbroken).2
  by_cases isVerb : verbMark <+: word
  · obtain ⟨text, rfl⟩ := isVerb
    cases fixed : Verb.ofSurface? (String.ofList text) with
    | none =>
      rw [classify_customVerb fixed]
      exact .customVerb (unbroken_append.mp isWord.unbroken).2 fixed
    | some verb =>
      rw [classify_verb fixed]
      exact .verb verb
  rw [classify_unmarked isNoun isVerb]
  exact legible_classifyPlain isWord isNoun isVerb

/-! ### Writing -/

/-- The token that the written form of a token is read as. -/
def reread? (locale : Locale) (token : Token) : Option Token :=
  (wordOf? locale token).map classify

theorem wordOf?_noun (locale : Locale) (text : List Char) :
    wordOf? locale (Token.ofBlock .noun (String.ofList text)) = some (nounMark ++ text) := by
  show some (nounMark ++ (String.ofList text).toList) = _
  rw [String.toList_ofList]

theorem wordOf?_customVerb (locale : Locale) (text : List Char) :
    wordOf? locale (Token.ofBlock .customVerb (String.ofList text)) = some (verbMark ++ text) := by
  show some (verbMark ++ (String.ofList text).toList) = _
  rw [String.toList_ofList]

theorem wordOf?_other (locale : Locale) {text : List Char} (nonempty : text ≠ []) :
    wordOf? locale (Token.ofBlock .other (String.ofList text)) = some text := by
  show (if (String.ofList text).toList.isEmpty then none else some (String.ofList text).toList) = _
  rw [String.toList_ofList]
  exact if_neg fun empty => nonempty (List.isEmpty_iff.mp empty)

/-- A legible token is written as a word, if at all. -/
theorem Legible.isWord {token : Token} {locale : Locale} {word : List Char}
    (legible : Legible token) (written : wordOf? locale token = some word) : IsWord word := by
  revert word
  show ∀ word ∈ wordOf? locale token, IsWord word
  cases legible with
  | @noun text unbroken =>
    rw [wordOf?_noun]
    rintro word ⟨⟩
    exact ⟨List.cons_ne_nil _ _, unbroken_append.mpr ⟨by decide, unbroken⟩⟩
  | @customVerb text unbroken =>
    rw [wordOf?_customVerb]
    rintro word ⟨⟩
    exact ⟨List.cons_ne_nil _ _, unbroken_append.mpr ⟨by decide, unbroken⟩⟩
  | other isWord =>
    rw [wordOf?_other locale isWord.nonempty]
    rintro word ⟨⟩
    exact isWord
  -- The fixed words are few, and no surface of theirs holds a blank.
  | particle word => cases locale <;> cases word <;> decide
  | article word => cases locale <;> cases word <;> decide
  | verb word => cases locale <;> cases word <;> decide
  | punctuation mark => cases locale <;> cases mark <;> decide

/-! ### Reading what was written -/

/-- The mark that the ASCII form of a mark is read as. -/
def narrowed : Punctuation → Punctuation
  | .touten => .comma
  | .kuten => .period
  | mark => mark

/-- What is left of a token in English: the subject and object markers are silent, and marks that
share an ASCII form fall together. -/
def english? (token : Token) : Option Token :=
  match token.block with
  | .particle word => if word.isPreposition then some token else none
  | .punctuation mark => some { token with block := .punctuation (narrowed mark) }
  | _ => some token

section Legible

variable {token counterpart : Token} {locale : Locale}

theorem reread?_of_word {word : List Char} (written : wordOf? locale token = some word)
    (understood : classify word = token) : reread? locale token = some token := by
  rw [reread?, written, Option.map_some, understood]

/-- Japanese words tell all legible tokens apart. -/
theorem Legible.reread_ja (legible : Legible token) : reread? .ja token = some token := by
  cases legible with
  | noun => exact reread?_of_word (wordOf?_noun .ja _) (classify_noun _)
  | customVerb _ notFixed =>
    exact reread?_of_word (wordOf?_customVerb .ja _) (classify_customVerb notFixed)
  | other isWord isPlain =>
    exact reread?_of_word (wordOf?_other .ja isWord.nonempty) (classify_plain isPlain)
  | particle word => cases word <;> decide
  | article word => cases word <;> decide
  | verb word => cases word <;> decide
  | punctuation mark => cases mark <;> decide

theorem Legible.reread_en (legible : Legible token) : reread? .en token = english? token := by
  cases legible with
  | noun => exact reread?_of_word (wordOf?_noun .en _) (classify_noun _)
  | customVerb _ notFixed =>
    exact reread?_of_word (wordOf?_customVerb .en _) (classify_customVerb notFixed)
  | other isWord isPlain =>
    exact reread?_of_word (wordOf?_other .en isWord.nonempty) (classify_plain isPlain)
  | particle word => cases word <;> decide
  | article word => cases word <;> decide
  | verb word => cases word <;> decide
  | punctuation mark => cases mark <;> decide

/-- The English counterpart of a legible token is legible, and its own counterpart. -/
theorem Legible.english (legible : Legible token) (left : english? token = some counterpart) :
    Legible counterpart ∧ english? counterpart = some counterpart := by
  cases legible with
  | noun unbroken =>
    obtain rfl := Option.some.inj left
    exact ⟨.noun unbroken, rfl⟩
  | customVerb unbroken notFixed =>
    obtain rfl := Option.some.inj left
    exact ⟨.customVerb unbroken notFixed, rfl⟩
  | other isWord isPlain =>
    obtain rfl := Option.some.inj left
    exact ⟨.other isWord isPlain, rfl⟩
  | particle word =>
    obtain ⟨heard, same⟩ := Option.ite_none_right_eq_some.mp left
    obtain rfl := Option.some.inj same
    exact ⟨.particle word, if_pos heard⟩
  | article word =>
    obtain rfl := Option.some.inj left
    exact ⟨.article word, rfl⟩
  | verb word =>
    obtain rfl := Option.some.inj left
    exact ⟨.verb word, rfl⟩
  | punctuation mark =>
    obtain rfl := Option.some.inj left
    refine ⟨.punctuation (narrowed mark), ?_⟩
    cases mark <;> rfl

end Legible

end PromptBlocks.Script
