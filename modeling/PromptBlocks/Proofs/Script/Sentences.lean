import PromptBlocks.Proofs.Text.Words
import PromptBlocks.Script

/-!
Contract: cutting a script text into sentences, and what the cut gives back.

Owns:
- line breaks cut a text wherever they stand;
- two spaces cut a text too, at most one space earlier, and into the same sentences;
- a line of words, with a space between two of them, is not cut;
- lines of words are cut back into those words, the empty lines left out.

Does not own: what the words mean.
-/

namespace PromptBlocks.Script

open Text

variable {c : Char} {word text : List Char} {words : List (List Char)}

theorem stretches_ne_nil (text : List Char) : stretches text ≠ [] := by
  unfold stretches
  split
  · exact List.cons_ne_nil _ _
  · exact List.cons_ne_nil _ _
  · exact List.cons_ne_nil _ _
  · split <;> exact List.cons_ne_nil _ _

/-- Where nothing is cut, the character goes to the first stretch. -/
theorem stretches_cons (notBreak : c ≠ '\n') (notPair : ∀ rest, c = ' ' → text ≠ ' ' :: rest) :
    stretches (c :: text) = (stretches text).modifyHead (c :: ·) := by
  rw [stretches.eq_4 c text notBreak notPair]
  cases cut : stretches text with
  | nil => exact absurd cut (stretches_ne_nil text)
  | cons stretch later => rfl

/-- Whether a text starts with a space is settled by what stands in front, if anything does. -/
theorem append_ne_space_cons {front back : List Char} (notFront : ∀ tail, front ≠ ' ' :: tail)
    (notBack : front = [] → ∀ tail, back ≠ ' ' :: tail) (tail : List Char) :
    front ++ back ≠ ' ' :: tail := by
  cases front with
  | nil => exact notBack rfl tail
  | cons first others =>
    intro startsWithSpace
    rw [List.cons_append] at startsWithSpace
    exact notFront others (congrArg (· :: others) (List.cons.inj startsWithSpace).1)

/-- A line break cuts a text, whatever stands beside it. -/
theorem stretches_append_break (front back : List Char) :
    stretches (front ++ '\n' :: back) = stretches front ++ stretches back := by
  induction front using stretches.induct with
  | case1 => rfl
  | case2 rest inductionHypothesis =>
    rw [List.cons_append, stretches, inductionHypothesis, stretches, List.cons_append]
  | case3 rest inductionHypothesis =>
    rw [List.cons_append, List.cons_append, stretches, inductionHypothesis, stretches,
      List.cons_append]
  | case4 c rest notBreak notPair cut => exact absurd cut (stretches_ne_nil rest)
  | case5 c rest notBreak notPair stretch later cut inductionHypothesis =>
    -- A space in front of the line break makes no pair with it.
    have noSpace : ∀ tail, '\n' :: back ≠ ' ' :: tail := fun tail startsWithSpace =>
      absurd (List.cons.inj startsWithSpace).1 (by decide)
    have stillNoPair : ∀ tail, c = ' ' → rest ++ '\n' :: back ≠ ' ' :: tail :=
      fun tail isSpace =>
        append_ne_space_cons (fun others => notPair others isSpace) (fun _ => noSpace) tail
    rw [List.cons_append, stretches_cons notBreak stillNoPair, inductionHypothesis,
      stretches_cons notBreak notPair, cut]
    rfl

/-- Two spaces cut a text, too.  When the text in front ends in a space that makes no pair yet, the cut
comes one space earlier, and the space that is left over goes to the text behind. -/
theorem exists_stretches_append_pair (front back : List Char) :
    ∃ earlier last space, (space = [] ∨ space = [' ']) ∧
      stretches front = earlier ++ [last ++ space] ∧
      stretches (front ++ ' ' :: ' ' :: back) = earlier ++ last :: stretches (space ++ back) := by
  induction front using stretches.induct with
  | case1 => exact ⟨[], [], [], .inl rfl, rfl, rfl⟩
  | case2 rest inductionHypothesis =>
    obtain ⟨earlier, last, space, few, cut, cutLonger⟩ := inductionHypothesis
    refine ⟨[] :: earlier, last, space, few, ?_, ?_⟩
    · rw [stretches, cut, List.cons_append]
    · rw [List.cons_append, stretches, cutLonger, List.cons_append]
  | case3 rest inductionHypothesis =>
    obtain ⟨earlier, last, space, few, cut, cutLonger⟩ := inductionHypothesis
    refine ⟨[] :: earlier, last, space, few, ?_, ?_⟩
    · rw [stretches, cut, List.cons_append]
    · rw [List.cons_append, List.cons_append, stretches, cutLonger, List.cons_append]
  | case4 c rest notBreak notPair cut => exact absurd cut (stretches_ne_nil rest)
  | case5 c rest notBreak notPair _ _ _ inductionHypothesis =>
    by_cases lastSpace : c = ' ' ∧ rest = []
    · obtain ⟨rfl, rfl⟩ := lastSpace
      exact ⟨[], [], [' '], .inr rfl, rfl, rfl⟩
    · obtain ⟨earlier, last, space, few, cut, cutLonger⟩ := inductionHypothesis
      have stillNoPair : ∀ tail, c = ' ' → rest ++ ' ' :: ' ' :: back ≠ ' ' :: tail :=
        fun tail isSpace =>
          append_ne_space_cons (fun others => notPair others isSpace)
            (fun atEnd => absurd ⟨isSpace, atEnd⟩ lastSpace) tail
      rw [List.cons_append, stretches_cons notBreak stillNoPair, stretches_cons notBreak notPair, cut,
        cutLonger]
      cases earlier with
      | nil => exact ⟨[], c :: last, space, few, rfl, rfl⟩
      | cons first others => exact ⟨(c :: first) :: others, last, space, few, rfl, rfl⟩

theorem ne_of_not_isBlank {d : Char} (notBlank : isBlank c = false) (blank : isBlank d = true) :
    c ≠ d := by
  intro equal
  rw [equal, blank] at notBlank
  cases notBlank

theorem stretches_unbroken_append (unbroken : Unbroken word) (text : List Char) :
    stretches (word ++ text) = (stretches text).modifyHead (word ++ ·) := by
  induction word with
  | nil => exact (congrFun List.modifyHead_id (stretches text)).symm
  | cons first rest inductionHypothesis =>
    obtain ⟨notBlank, restUnbroken⟩ := unbroken_cons.mp unbroken
    have notBreak : first ≠ '\n' := ne_of_not_isBlank notBlank (by decide)
    have notSpace : first ≠ ' ' := ne_of_not_isBlank notBlank (by decide)
    rw [List.cons_append, stretches_cons notBreak fun _ isSpace => absurd isSpace notSpace,
      inductionHypothesis restUnbroken, List.modifyHead_modifyHead]
    rfl

theorem intercalate_ne_space_cons (isWord : IsWord word) (later : List (List Char))
    (tail : List Char) : List.intercalate [' '] (word :: later) ≠ ' ' :: tail := by
  cases word with
  | nil => exact absurd rfl isWord.nonempty
  | cons first rest =>
    have notBlank := (unbroken_cons.mp isWord.unbroken).1
    intro startsWithSpace
    rw [List.intercalate_cons_cons_left] at startsWithSpace
    exact ne_of_not_isBlank notBlank (by decide) (List.cons.inj startsWithSpace).1

/-- Words with one space between them make one stretch. -/
theorem stretches_intercalate (areWords : ∀ word ∈ words, IsWord word) :
    stretches (List.intercalate [' '] words) = [List.intercalate [' '] words] := by
  induction words with
  | nil => rfl
  | cons word later inductionHypothesis =>
    obtain ⟨isWord, laterWords⟩ := List.forall_mem_cons.mp areWords
    cases later with
    | nil =>
      have uncut := stretches_unbroken_append isWord.unbroken []
      rw [List.append_nil] at uncut
      rw [List.intercalate_singleton, uncut, stretches]
      simp
    | cons next others =>
      have notPair := intercalate_ne_space_cons (laterWords next List.mem_cons_self) others
      rw [List.intercalate_cons_cons, List.append_assoc, List.singleton_append,
        stretches_unbroken_append isWord.unbroken,
        stretches_cons (by decide) fun tail _ => notPair tail, inductionHypothesis laterWords]
      rfl

/-! ### Sentences -/

theorem sentences_append_break (front back : List Char) :
    sentences (front ++ '\n' :: back) = sentences front ++ sentences back := by
  rw [sentences, stretches_append_break, List.map_append, List.filter_append]
  rfl

theorem sentences_space_cons (text : List Char) : sentences (' ' :: text) = sentences text := by
  induction text with
  | nil => rfl
  | cons c rest inductionHypothesis =>
    by_cases isSpace : c = ' '
    · subst isSpace
      rw [inductionHypothesis, sentences, stretches]
      rfl
    · have notPair : ∀ tail, ' ' = ' ' → c :: rest ≠ ' ' :: tail :=
        fun tail _ startsWithSpace => isSpace (List.cons.inj startsWithSpace).1
      rw [sentences, stretches_cons (by decide) notPair, sentences]
      cases cut : stretches (c :: rest) with
      | nil => exact absurd cut (stretches_ne_nil (c :: rest))
      | cons stretch later =>
        rw [List.modifyHead_cons, List.map_cons, words_cons_of_blank (by decide), List.map_cons]

/-- Where exactly two spaces cut does not matter to the sentences, which do not hold blanks. -/
theorem sentences_append_pair (front back : List Char) :
    sentences (front ++ ' ' :: ' ' :: back) = sentences front ++ sentences back := by
  obtain ⟨earlier, last, space, few, cut, cutLonger⟩ := exists_stretches_append_pair front back
  have sameWords : Text.words (last ++ space) = Text.words last := by
    rcases few with rfl | rfl
    · rw [List.append_nil]
    · exact words_append_blank (by decide) last
  have sameFront : (earlier ++ [last ++ space]).map Text.words = (earlier ++ [last]).map Text.words := by
    rw [List.map_append, List.map_append, List.map_singleton, List.map_singleton, sameWords]
  have sameBack : sentences (space ++ back) = sentences back := by
    rcases few with rfl | rfl
    · rfl
    · exact sentences_space_cons back
  rw [← sameBack, sentences, cutLonger, sentences, cut, sentences, sameFront, List.append_cons,
    List.map_append, List.filter_append]

theorem sentences_line (areWords : ∀ word ∈ words, IsWord word) :
    sentences (List.intercalate [' '] words) = [words].filter fun sentence => !sentence.isEmpty := by
  rw [sentences, stretches_intercalate areWords, List.map_singleton, words_intercalate areWords]

/-- Lines of words are read back as those words, the empty lines left out. -/
theorem sentences_lines {lines : List (List (List Char))}
    (areWords : ∀ line ∈ lines, ∀ word ∈ line, IsWord word) :
    sentences (List.intercalate ['\n'] (lines.map (List.intercalate [' ']))) =
      lines.filter fun sentence => !sentence.isEmpty := by
  induction lines with
  | nil => rfl
  | cons line later inductionHypothesis =>
    obtain ⟨lineWords, laterWords⟩ := List.forall_mem_cons.mp areWords
    cases later with
    | nil => rw [List.map_singleton, List.intercalate_singleton, sentences_line lineWords]
    | cons next others =>
      rw [List.map_cons, List.map_cons, List.intercalate_cons_cons, List.append_assoc,
        List.singleton_append, sentences_append_break, sentences_line lineWords,
        ← List.map_cons, inductionHypothesis laterWords, ← List.filter_append,
        List.singleton_append]

/-- A sentence holds at least one word, and nothing but words. -/
theorem sentence_spec {sentence : List (List Char)} (member : sentence ∈ sentences text) :
    sentence ≠ [] ∧ ∀ word ∈ sentence, IsWord word := by
  obtain ⟨inside, filled⟩ := List.mem_filter.mp member
  obtain ⟨stretch, -, rfl⟩ := List.mem_map.mp inside
  refine ⟨fun empty => ?_, fun word => isWord_of_mem_words⟩
  rw [empty] at filled
  cases filled

end PromptBlocks.Script
