import PromptBlocks.Text.Basic

/-!
Contract: cutting a text at its blanks, and what the cut gives back.

Owns:
- words as non-empty texts without blanks;
- every piece that the cut gives is a word;
- blanks at the ends of a text do not matter, and a text without blanks has none to trim;
- words with blanks between them are cut back into those words.

Does not own: the cut into sentences.
-/

namespace PromptBlocks.Text

/-- No character of the text is blank. -/
def Unbroken (text : List Char) : Prop :=
  ∀ c ∈ text, isBlank c = false

/-- A word: some characters, none of them blank. -/
structure IsWord (text : List Char) : Prop where
  nonempty : text ≠ []
  unbroken : Unbroken text

instance (text : List Char) : Decidable (Unbroken text) :=
  List.decidableBAll _ text

instance (text : List Char) : Decidable (IsWord text) :=
  decidable_of_iff (text ≠ [] ∧ Unbroken text)
    ⟨fun ⟨nonempty, unbroken⟩ => { nonempty, unbroken },
      fun isWord => ⟨isWord.nonempty, isWord.unbroken⟩⟩

section Unbroken

variable {c : Char} {front back text : List Char}

theorem unbroken_nil : Unbroken [] :=
  List.forall_mem_nil _

theorem unbroken_cons : Unbroken (c :: text) ↔ isBlank c = false ∧ Unbroken text :=
  List.forall_mem_cons

theorem unbroken_append : Unbroken (front ++ back) ↔ Unbroken front ∧ Unbroken back :=
  List.forall_mem_append

theorem dropWhile_of_unbroken (unbroken : Unbroken text) : text.dropWhile isBlank = text := by
  cases text with
  | nil => rfl
  | cons first rest =>
    exact List.dropWhile_cons_of_neg (Bool.eq_false_iff.mp (unbroken_cons.mp unbroken).1)

theorem trim_of_unbroken (unbroken : Unbroken text) : trim text = text := by
  have reversed : Unbroken text.reverse := fun c member => unbroken c (List.mem_reverse.mp member)
  rw [trim, dropWhile_of_unbroken unbroken, dropWhile_of_unbroken reversed, List.reverse_reverse]

end Unbroken

section Words

variable {c : Char} {word text : List Char}

theorem firstWord_of_blank (blank : isBlank c = true) :
    firstWord (c :: text) = ([], words text) := by
  simp only [firstWord, blank, if_true]
  rfl

theorem words_cons_of_blank (blank : isBlank c = true) (text : List Char) :
    words (c :: text) = words text := by
  rw [words, firstWord_of_blank blank]
  rfl

theorem firstWord_append_blank (blank : isBlank c = true) (text : List Char) :
    firstWord (text ++ [c]) = firstWord text := by
  induction text with
  | nil => exact firstWord_of_blank blank
  | cons first rest inductionHypothesis =>
    rw [List.cons_append, firstWord, firstWord, inductionHypothesis]

theorem words_append_blank (blank : isBlank c = true) (text : List Char) :
    words (text ++ [c]) = words text := by
  rw [words, firstWord_append_blank blank, words]

theorem firstWord_unbroken_append (unbroken : Unbroken word) (text : List Char) :
    firstWord (word ++ text) = (word ++ (firstWord text).1, (firstWord text).2) := by
  induction word with
  | nil => rfl
  | cons first rest inductionHypothesis =>
    obtain ⟨notBlank, restUnbroken⟩ := unbroken_cons.mp unbroken
    rw [List.cons_append, firstWord, inductionHypothesis restUnbroken]
    simp only [notBlank, Bool.false_eq_true, if_false, List.cons_append]

theorem words_of_firstWord {later : List (List Char)} (nonempty : word ≠ [])
    (cut : firstWord text = (word, later)) : words text = word :: later := by
  have filled : ¬ word.isEmpty = true := fun empty => nonempty (List.isEmpty_iff.mp empty)
  rw [words, cut]
  exact if_neg filled

theorem words_of_isWord (isWord : IsWord word) : words word = [word] := by
  refine words_of_firstWord isWord.nonempty ?_
  have cut := firstWord_unbroken_append isWord.unbroken []
  rw [List.append_nil] at cut
  rw [cut, firstWord, List.append_nil]

/-- A blank ends the word in front of it. -/
theorem words_append_of_blank (isWord : IsWord word) (blank : isBlank c = true) (text : List Char) :
    words (word ++ c :: text) = word :: words text := by
  refine words_of_firstWord isWord.nonempty ?_
  rw [firstWord_unbroken_append isWord.unbroken, firstWord_of_blank blank, List.append_nil]

theorem words_intercalate {words : List (List Char)} (areWords : ∀ word ∈ words, IsWord word) :
    Text.words (List.intercalate [' '] words) = words := by
  induction words with
  | nil => rfl
  | cons word later inductionHypothesis =>
    obtain ⟨isWord, laterWords⟩ := List.forall_mem_cons.mp areWords
    cases later with
    | nil => rw [List.intercalate_singleton, words_of_isWord isWord]
    | cons next others =>
      rw [List.intercalate_cons_cons, List.append_assoc, List.singleton_append,
        words_append_of_blank isWord (by decide), inductionHypothesis laterWords]

/-- The first piece holds no blank, and the later pieces are words. -/
theorem firstWord_spec (text : List Char) :
    Unbroken (firstWord text).1 ∧ ∀ word ∈ (firstWord text).2, IsWord word := by
  induction text with
  | nil => exact ⟨unbroken_nil, List.forall_mem_nil _⟩
  | cons first rest inductionHypothesis =>
    obtain ⟨unbroken, areWords⟩ := inductionHypothesis
    cases blank : isBlank first with
    | false =>
      simp only [firstWord, blank, Bool.false_eq_true, if_false]
      exact ⟨unbroken_cons.mpr ⟨blank, unbroken⟩, areWords⟩
    | true =>
      rw [firstWord_of_blank blank]
      refine ⟨unbroken_nil, fun word member => ?_⟩
      change word ∈ if (firstWord rest).1.isEmpty then (firstWord rest).2
        else (firstWord rest).1 :: (firstWord rest).2 at member
      split at member
      · exact areWords word member
      · next filled =>
        rcases List.mem_cons.mp member with rfl | inLater
        · exact ⟨fun empty => filled (List.isEmpty_iff.mpr empty), unbroken⟩
        · exact areWords word inLater

theorem isWord_of_mem_words (member : word ∈ words text) : IsWord word := by
  have blank : isBlank ' ' = true := by decide
  have pieces := (firstWord_spec (' ' :: text)).2
  rw [firstWord_of_blank blank] at pieces
  exact pieces word member

end Words

end PromptBlocks.Text
