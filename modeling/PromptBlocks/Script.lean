import PromptBlocks.Sequence.Basic
import PromptBlocks.Text.Basic

/-!
Contract: the text form of sequences, one word for each token.

Owns:
- the writing of a sequence as script text: a line for each run, marked nouns and verbs;
- the reading of any text as a sequence: each line, and each stretch between two spaces, is a chain.

Does not own: rendered prompts, which carry no marks.
-/

namespace PromptBlocks.Script

def nounMark : List Char :=
  ['_', 'N', ':']

def verbMark : List Char :=
  ['_', 'V', ':']

/-- The script word of a token; words without a surface are left out unless they are marked. -/
def wordOf? (locale : Locale) (token : Token) : Option (List Char) :=
  let surface := (token.surface locale).toList
  match token.kind with
  | .noun => some (nounMark ++ surface)
  | .verb => some (verbMark ++ surface)
  | _ => if surface.isEmpty then none else some surface

def line (locale : Locale) (run : List Token) : List Char :=
  List.intercalate [' '] (run.filterMap (wordOf? locale))

/-- The script text of a sequence, one line for each run. -/
def write (sequence : Sequence) (locale : Locale) : String :=
  String.ofList (List.intercalate ['\n'] (sequence.runs.map (line locale)))

/-- The endings that make an unmarked word a verb. -/
def verbEndings : List (List Char) :=
  [['し', 'て'], ['す', 'る']]

/-- A word without a mark: a fixed word where its surface is one, then a verb by its ending, and
else any other word. -/
def classifyPlain (word : List Char) : Token :=
  let text := String.ofList word
  let fixed :=
    ((Particle.ofSurface? text).map Block.particle).or <|
    ((Article.ofSurface? text).map Block.article).or <|
    ((Punctuation.ofSurface? text).map Block.punctuation).or <|
    (Verb.ofSurface? text).map Block.verb
  match fixed with
  | some block => Token.ofBlock block none
  | none =>
    if verbEndings.any (·.isSuffixOf word) then Token.ofBlock .customVerb text
    else Token.ofBlock .other text

def classify : List Char → Token
  | '_' :: 'N' :: ':' :: text => Token.ofBlock .noun (String.ofList text)
  | '_' :: 'V' :: ':' :: text =>
    match Verb.ofSurface? (String.ofList text) with
    | some verb => Token.ofBlock (.verb verb) none
    | none => Token.ofBlock .customVerb (String.ofList text)
  | word => classifyPlain word

/-- The stretches between line breaks and pairs of spaces. -/
def stretches : List Char → List (List Char)
  | [] => [[]]
  | '\n' :: rest => [] :: stretches rest
  | ' ' :: ' ' :: rest => [] :: stretches rest
  | c :: rest =>
    match stretches rest with
    | [] => [[c]]
    | stretch :: later => (c :: stretch) :: later

/-- The sentences of a text: the words of each stretch that holds any. -/
def sentences (text : List Char) : List (List (List Char)) :=
  ((stretches text).map Text.words).filter fun sentence => !sentence.isEmpty

/-- The tokens of the sentences, each sentence a chain of its own, numbered from zero. -/
def ofSentences (sentences : List (List (List Char))) : Sequence :=
  ⟨sentences.zipIdx.flatMap fun (sentence, chain) =>
    sentence.map fun word => (classify word).inChain chain⟩

def read (text : String) : Sequence :=
  ofSentences (sentences text.toList)

end PromptBlocks.Script
