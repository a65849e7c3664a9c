import PromptBlocks.Sequence.Basic
import PromptBlocks.Text.Basic

/-!
Contract: plain prompt text.

Owns:
- the sentence of a run: trimmed surfaces, blank ones dropped;
- the rendered prompt, and the annotated prompt that marks sentences with a noun.

Does not own: script text.
-/

namespace PromptBlocks.Prompt

def sentence (locale : Locale) (run : List Token) : List Char :=
  let surfaces := run.map fun token => Text.trim (token.surface locale).toList
  List.intercalate [' '] (surfaces.filter fun surface => !surface.isEmpty)

/-- The sentences that hold a word, one a line. -/
def render (sequence : Sequence) (locale : Locale) : String :=
  let sentences := sequence.runs.map (sentence locale)
  String.ofList (List.intercalate ['\n'] (sentences.filter fun text => !text.isEmpty))

def nounAnnotation : List Char :=
  [' ', '(', 'N', 'O', 'U', 'N', ')']

/-- The annotated line of one run; a run without a word has none. -/
def annotatedLine (locale : Locale) (run : List Token) : List Char :=
  let text := sentence locale run
  if text.isEmpty then []
  else
    text ++ (if run.any fun token => token.kind == .noun then nounAnnotation else []) ++ ['\n']

/-- The prompt with its noun sentences marked, every sentence closed by a line break. -/
def annotated (sequence : Sequence) (locale : Locale) : String :=
  String.ofList (sequence.runs.flatMap (annotatedLine locale))

end PromptBlocks.Prompt
