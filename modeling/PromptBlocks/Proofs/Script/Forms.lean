import PromptBlocks.Prompt
import PromptBlocks.Proofs.Script.RoundTrip

/-!
Contract: the text forms of a sequence side by side.

Owns:
- scripts without their marks, words and lines left empty dropped;
- legible tokens, whose script words without marks are their surfaces;
- the rendered prompt of a text that was read, which is its script without marks;
- the annotated prompt, which holds the sentences of the rendered one.

Does not own: what a script is read as.
-/

namespace PromptBlocks.Script

open Text Sequence

/-- A word without one leading mark. -/
def unmark : List Char → List Char
  | '_' :: 'N' :: ':' :: word => word
  | '_' :: 'V' :: ':' :: word => word
  | word => word

/-- A line with its words unmarked, words left empty dropped. -/
def unmarkedLine (line : List Char) : List Char :=
  List.intercalate [' '] (((words line).map unmark).filter fun word => !word.isEmpty)

/-- A script with its lines unmarked, lines left empty dropped. -/
def unmarked (script : String) : String :=
  let lines := (script.toList.splitOn '\n').map unmarkedLine
  String.ofList (List.intercalate ['\n'] (lines.filter fun line => !line.isEmpty))

/-! ### Words and surfaces -/

section Surfaces

variable {token : Token} {run : List Token} {locale : Locale}

theorem unmark_of_unmarked {word : List Char} (notNoun : ¬ nounMark <+: word)
    (notVerb : ¬ verbMark <+: word) : unmark word = word := by
  unfold unmark
  split
  · next text => exact absurd ⟨text, rfl⟩ notNoun
  · next text => exact absurd ⟨text, rfl⟩ notVerb
  · rfl

theorem surface_ofBlock {block : Block} (isFreeText : block.isFreeText = true)
    (written : block.surface? locale = none) (text : List Char) :
    ((Token.ofBlock block (String.ofList text)).surface locale).toList = text := by
  rw [Token.surface, Token.ofBlock, written, isFreeText]
  exact String.toList_ofList

/-- Without its mark, the word of a legible token is its surface; where there is no word, the surface is
empty. -/
theorem Legible.unmark_wordOf? (legible : Legible token) (locale : Locale) :
    ((wordOf? locale token).map unmark).getD [] = (token.surface locale).toList := by
  cases legible with
  | noun =>
    rw [wordOf?_noun, surface_ofBlock rfl rfl]
    rfl
  | customVerb =>
    rw [wordOf?_customVerb, surface_ofBlock rfl rfl]
    rfl
  | other isWord isPlain =>
    rw [wordOf?_other locale isWord.nonempty, surface_ofBlock rfl rfl]
    exact unmark_of_unmarked isPlain.notNoun isPlain.notVerb
  | particle word => cases locale <;> cases word <;> rfl
  | article word => cases locale <;> cases word <;> rfl
  | verb word => cases locale <;> cases word <;> rfl
  | punctuation mark => cases locale <;> cases mark <;> rfl

theorem unbroken_unmark {word : List Char} (unbroken : Unbroken word) : Unbroken (unmark word) := by
  unfold unmark
  split
  · next text =>
    have marked : Unbroken (nounMark ++ text) := unbroken
    exact (unbroken_append.mp marked).2
  · next text =>
    have marked : Unbroken (verbMark ++ text) := unbroken
    exact (unbroken_append.mp marked).2
  · exact unbroken

theorem Legible.unbroken_surface (legible : Legible token) (locale : Locale) :
    Unbroken (token.surface locale).toList := by
  rw [← legible.unmark_wordOf? locale]
  cases written : wordOf? locale token with
  | none => exact unbroken_nil
  | some word => exact unbroken_unmark (legible.isWord written).unbroken

/-- The words of a run without their marks are its surfaces, which have no blanks to trim. -/
theorem unmarked_words (legible : ∀ token ∈ run, Legible token) :
    ((run.filterMap (wordOf? locale)).map unmark).filter (fun word => !word.isEmpty) =
      (run.map fun token => trim (token.surface locale).toList).filter fun word => !word.isEmpty := by
  induction run with
  | nil => rfl
  | cons token later inductionHypothesis =>
    obtain ⟨tokenLegible, laterLegible⟩ := List.forall_mem_cons.mp legible
    have surface := tokenLegible.unmark_wordOf? locale
    rw [List.map_cons, trim_of_unbroken (tokenLegible.unbroken_surface locale), ← surface,
      List.filter_cons, ← inductionHypothesis laterLegible]
    cases written : wordOf? locale token with
    | none =>
      rw [List.filterMap_cons_none written]
      rfl
    | some word =>
      rw [List.filterMap_cons_some written, List.map_cons, List.filter_cons]
      rfl

theorem unmarkedLine_line (legible : ∀ token ∈ run, Legible token) :
    unmarkedLine (line locale run) = Prompt.sentence locale run := by
  rw [unmarkedLine, line, words_intercalate (isWord_of_mem_line legible), unmarked_words legible]
  rfl

end Surfaces

/-! ### Lines and sentences -/

theorem break_not_mem_intercalate {words : List (List Char)} (areWords : ∀ word ∈ words, IsWord word) :
    '\n' ∉ List.intercalate [' '] words := by
  induction words with
  | nil => exact List.not_mem_nil
  | cons word later inductionHypothesis =>
    obtain ⟨isWord, laterWords⟩ := List.forall_mem_cons.mp areWords
    have notInWord : '\n' ∉ word := fun member =>
      ne_of_not_isBlank (isWord.unbroken _ member) (by decide) rfl
    cases later with
    | nil => rwa [List.intercalate_singleton]
    | cons next others =>
      rw [List.intercalate_cons_cons, List.append_assoc, List.singleton_append, List.mem_append,
        List.mem_cons]
      rintro (inWord | isSpace | behind)
      · exact notInWord inWord
      · exact absurd isSpace (by decide)
      · exact inductionHypothesis laterWords behind

theorem sentence_inChain (locale : Locale) (chain : Nat) (run : List Token) :
    Prompt.sentence locale (run.map (·.inChain chain)) = Prompt.sentence locale run := by
  rw [Prompt.sentence, List.map_map]
  rfl

/-- The script of legible runs without its marks is their rendered prompt. -/
theorem unmarked_write_ofRuns {runs : List (List Token)} (legible : LegibleRuns runs)
    (locale : Locale) : unmarked (write (ofRuns runs) locale) = Prompt.render (ofRuns runs) locale := by
  cases runs with
  | nil => rfl
  | cons run later =>
    have noBreak : ∀ text ∈ (run :: later).map (line locale), '\n' ∉ text := by
      intro text member
      obtain ⟨source, inside, rfl⟩ := List.mem_map.mp member
      exact break_not_mem_intercalate (isWord_of_mem_line (legible source inside).2)
    have sameLines : ((run :: later).map (line locale)).map unmarkedLine =
        (run :: later).map (Prompt.sentence locale) := by
      rw [List.map_map]
      exact List.map_congr_left fun source inside => unmarkedLine_line (legible source inside).2
    rw [unmarked, write, Prompt.render, runs_ofRuns legible.ne_nil, lines_numbered,
      map_numbered (sentence_inChain locale), String.toList_ofList,
      List.splitOn_intercalate '\n' noBreak (List.cons_ne_nil _ _), sameLines]

end PromptBlocks.Script

namespace PromptBlocks.Prompt

/-- The runs that hold a word to be written. -/
def spoken (sequence : Sequence) (locale : Locale) : List (List Token) :=
  sequence.runs.filter fun run => !(sentence locale run).isEmpty

theorem render_eq_spoken (sequence : Sequence) (locale : Locale) :
    render sequence locale =
      String.ofList (List.intercalate ['\n'] ((spoken sequence locale).map (sentence locale))) := by
  rw [render, List.filter_map]
  rfl

/-- Silent runs have no line in the annotated prompt. -/
theorem flatMap_annotatedLine (locale : Locale) (runs : List (List Token)) :
    runs.flatMap (annotatedLine locale) =
      (runs.filter fun run => !(sentence locale run).isEmpty).flatMap fun run =>
        sentence locale run ++ (if ∃ token ∈ run, token.kind = .noun then nounAnnotation else []) ++
          ['\n'] := by
  induction runs with
  | nil => rfl
  | cons run later inductionHypothesis =>
    rw [List.flatMap_cons, inductionHypothesis, List.filter_cons, annotatedLine]
    cases silent : (sentence locale run).isEmpty with
    | true => simp
    | false => simp

end PromptBlocks.Prompt

namespace PromptBlocks

/-- The text forms of a sequence agree.  The script of a text that was read is its rendered prompt once the
marks and what they leave empty are gone; the annotated prompt has the same sentences as the rendered one,
each with its own line break and those with a noun annotated. -/
theorem text_forms_agree :
    (∀ (text : String) (locale : Locale),
        Script.unmarked (Script.write (Script.read text) locale) =
          Prompt.render (Script.read text) locale) ∧
      ∀ (sequence : Sequence) (locale : Locale),
        Prompt.render sequence locale =
            String.ofList (List.intercalate ['\n']
              ((Prompt.spoken sequence locale).map (Prompt.sentence locale))) ∧
          Prompt.annotated sequence locale =
            String.ofList ((Prompt.spoken sequence locale).flatMap fun run =>
              Prompt.sentence locale run ++
                (if ∃ token ∈ run, token.kind = .noun then Prompt.nounAnnotation else []) ++ ['\n']) := by
  refine ⟨fun text locale => ?_, fun sequence locale => ⟨Prompt.render_eq_spoken sequence locale, ?_⟩⟩
  · obtain ⟨runs, legible, reading⟩ := Script.exists_legibleRuns text
    rw [reading, Script.unmarked_write_ofRuns legible]
  · rw [Prompt.annotated, Prompt.flatMap_annotatedLine]
    rfl

/-- A mark inside a word stays, and a line of marks without words goes, noun or not. -/
example :
    let sequence := Script.read "_N:_V:x が\n_N: _V:\nお願いする"
    Script.write sequence .en = "_N:_V:x\n_N: _V:\n_V:お願いする" ∧
      Prompt.render sequence .en = "_V:x\nお願いする" ∧
      Prompt.annotated sequence .en = "_V:x (NOUN)\nお願いする\n" := by
  decide +kernel

end PromptBlocks
