import Mathlib.Data.List.Basic
import PromptBlocks.Proofs.Script.Legible
import PromptBlocks.Proofs.Script.Sentences
import PromptBlocks.Proofs.Sequence.Runs

/-!
Contract: reading back the script of a sequence.

Owns:
- every text is read as runs of legible tokens;
- the script of such runs is read back token by token, runs that fall silent left out;
- Japanese scripts are read back without loss, and English scripts after one pass.

Does not own: the words of single tokens.
-/

namespace PromptBlocks.Script

open Text Sequence

/-- Runs that hold tokens, all of them legible. -/
def LegibleRuns (runs : List (List Token)) : Prop :=
  ∀ run ∈ runs, run ≠ [] ∧ ∀ token ∈ run, Legible token

theorem LegibleRuns.ne_nil {runs : List (List Token)} (legible : LegibleRuns runs) :
    ∀ run ∈ runs, run ≠ [] :=
  fun run member => (legible run member).1

/-- What reading finds in the script of runs: each token as it is read back, silent tokens and
silent runs left out. -/
def rereadRuns (locale : Locale) (runs : List (List Token)) : List (List Token) :=
  (runs.map (·.filterMap (reread? locale))).filter fun run => !run.isEmpty

theorem ofSentences_eq_ofRuns (sentences : List (List (List Char))) :
    ofSentences sentences = ofRuns (sentences.map (·.map classify)) := by
  rw [ofSentences, ofRuns, numbered, List.zipIdx_map, List.map_map, List.flatMap_def]
  refine congrArg (fun runs => Sequence.mk (List.flatten runs)) (List.map_congr_left ?_)
  rintro ⟨sentence, chain⟩ -
  show sentence.map (fun word => (classify word).inChain chain) =
    (sentence.map classify).map (·.inChain chain)
  rw [List.map_map]
  rfl

/-- The sentences of a text, each word classified, are runs of legible tokens. -/
theorem legibleRuns_sentences (text : List Char) :
    LegibleRuns ((sentences text).map (·.map classify)) := by
  intro run member
  obtain ⟨sentence, inside, rfl⟩ := List.mem_map.mp member
  obtain ⟨nonempty, areWords⟩ := sentence_spec inside
  refine ⟨fun empty => nonempty (List.map_eq_nil_iff.mp empty), fun token inRun => ?_⟩
  obtain ⟨word, inSentence, rfl⟩ := List.mem_map.mp inRun
  exact legible_classify (areWords word inSentence)

theorem read_eq_ofRuns (text : String) :
    read text = ofRuns ((sentences text.toList).map (·.map classify)) :=
  ofSentences_eq_ofRuns _

theorem exists_legibleRuns (text : String) : ∃ runs, LegibleRuns runs ∧ read text = ofRuns runs :=
  ⟨_, legibleRuns_sentences text.toList, read_eq_ofRuns text⟩

/-- A line of legible tokens is made of words. -/
theorem isWord_of_mem_line {run : List Token} {locale : Locale}
    (legible : ∀ token ∈ run, Legible token) : ∀ word ∈ run.filterMap (wordOf? locale), IsWord word := by
  intro word member
  obtain ⟨token, inRun, written⟩ := List.mem_filterMap.mp member
  exact (legible token inRun).isWord written

theorem line_inChain (locale : Locale) (run : List Token) (chain : Nat) :
    line locale (run.map (·.inChain chain)) = line locale run := by
  rw [line, List.filterMap_map]
  rfl

theorem lines_numbered (locale : Locale) (first : Nat) (runs : List (List Token)) :
    (numbered first runs).map (line locale) = runs.map (line locale) :=
  map_numbered (fun chain run => line_inChain locale run chain) first runs

/-- The script of runs has a line for each of them, whatever its number. -/
theorem write_ofRuns {runs : List (List Token)} (nonempty : ∀ run ∈ runs, run ≠ [])
    (locale : Locale) :
    write (ofRuns runs) locale =
      String.ofList (List.intercalate ['\n']
        ((runs.map (·.filterMap (wordOf? locale))).map (List.intercalate [' ']))) := by
  rw [write, runs_ofRuns nonempty, lines_numbered, List.map_map]
  rfl

/-- Reading the script of legible runs reads each token back. -/
theorem read_write_ofRuns {runs : List (List Token)} (legible : LegibleRuns runs)
    (locale : Locale) :
    read (write (ofRuns runs) locale) = ofRuns (rereadRuns locale runs) := by
  have areWords : ∀ line ∈ runs.map (·.filterMap (wordOf? locale)), ∀ word ∈ line, IsWord word := by
    intro line member
    obtain ⟨run, inside, rfl⟩ := List.mem_map.mp member
    exact isWord_of_mem_line (legible run inside).2
  have reread : (runs.map (·.filterMap (wordOf? locale))).map (·.map classify) =
      runs.map (·.filterMap (reread? locale)) := by
    rw [List.map_map]
    refine List.map_congr_left fun run _ => ?_
    exact List.map_filterMap
  have sameFilled : (fun sentence : List (List Char) => !sentence.isEmpty) =
      (fun run : List Token => !run.isEmpty) ∘ (·.map classify) := by
    funext sentence
    cases sentence <;> rfl
  -- Runs without a word make empty lines, which reading leaves out.
  rw [read, write_ofRuns legible.ne_nil, String.toList_ofList,
    sentences_lines areWords, ofSentences_eq_ofRuns, sameFilled, ← List.filter_map, reread]
  rfl

theorem read_write_of_reread {runs : List (List Token)} {locale : Locale}
    (legible : LegibleRuns runs)
    (same : ∀ run ∈ runs, ∀ token ∈ run, reread? locale token = some token) :
    read (write (ofRuns runs) locale) = ofRuns runs := by
  have sameRuns : runs.map (·.filterMap (reread? locale)) = runs := by
    rw [List.map_congr_left fun run member => List.filterMap_congr (same run member)]
    simp
  rw [read_write_ofRuns legible, rereadRuns, sameRuns, List.filter_eq_self.mpr]
  intro run member
  rw [List.isEmpty_eq_false_iff.mpr (legible.ne_nil run member)]
  rfl

/-- Read back from an English script, runs are legible, and every token is its own counterpart. -/
theorem rereadRuns_en {runs : List (List Token)} (legible : LegibleRuns runs) :
    LegibleRuns (rereadRuns .en runs) ∧
      ∀ run ∈ rereadRuns .en runs, ∀ token ∈ run, reread? .en token = some token := by
  have counterpart : ∀ run ∈ rereadRuns .en runs, ∀ token ∈ run,
      Legible token ∧ english? token = some token := by
    intro run member token inRun
    obtain ⟨source, inside, rfl⟩ := List.mem_map.mp (List.mem_filter.mp member).1
    obtain ⟨original, inSource, reread⟩ := List.mem_filterMap.mp inRun
    have legible := (legible source inside).2 original inSource
    rw [legible.reread_en] at reread
    exact legible.english reread
  refine ⟨fun run member => ⟨fun empty => ?_, fun token inRun => ?_⟩, fun run member token inRun => ?_⟩
  · rw [empty] at member
    cases (List.mem_filter.mp member).2
  · exact (counterpart run member token inRun).1
  · obtain ⟨legible, left⟩ := counterpart run member token inRun
    rw [legible.reread_en, left]

/-- Any text becomes stable as a script.  A Japanese script is read back as the very sequence that it
was written from, so writing normalises the text; an English script loses the silent markers and the
marks without an ASCII form of their own once, and nothing more. -/
theorem read_write_read (text : String) :
    read (write (read text) .ja) = read text ∧
      write (read (write (read text) .ja)) .ja = write (read text) .ja ∧
      read (write (read (write (read text) .en)) .en) = read (write (read text) .en) := by
  obtain ⟨runs, legible, reading⟩ := exists_legibleRuns text
  have japanese : read (write (read text) .ja) = read text := by
    rw [reading]
    exact read_write_of_reread legible fun run member token inRun =>
      ((legible run member).2 token inRun).reread_ja
  refine ⟨japanese, by rw [japanese], ?_⟩
  obtain ⟨englishLegible, same⟩ := rereadRuns_en legible
  rw [reading, read_write_ofRuns legible]
  exact read_write_of_reread englishLegible same

end PromptBlocks.Script
