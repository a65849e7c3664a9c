import PromptBlocks.Text.Basic
import PromptBlocks.Vocabulary.Word

/-!
Contract: the closed vocabulary of editor blocks.

Owns:
- block types, their kinds and ids;
- the reading of an id by its marks.

Does not own: the text that a user enters into a free-text block.
-/

namespace PromptBlocks

inductive BlockKind
  | noun | particle | article | verb | punctuation | other
  deriving DecidableEq, Repr

instance : Enumerated BlockKind where
  all := [.noun, .particle, .article, .verb, .punctuation, .other]
  id
    | .noun => "Noun"
    | .particle => "Particle"
    | .article => "Article"
    | .verb => "Verb"
    | .punctuation => "Punctuation"
    | .other => "Other"

inductive Block
  | noun
  | other
  | particle (word : Particle)
  | article (word : Article)
  | verb (word : Verb)
  | customVerb
  | punctuation (word : Punctuation)
  deriving DecidableEq, Repr

namespace Block

/-- The category of a block; fixed and custom verbs share one. -/
def kind : Block → BlockKind
  | .noun => .noun
  | .other => .other
  | .particle _ => .particle
  | .article _ => .article
  | .verb _ => .verb
  | .customVerb => .verb
  | .punctuation _ => .punctuation

/-- The id of the fixed word; free-text blocks have none. -/
def subkind? : Block → Option String
  | .noun => none
  | .other => none
  | .customVerb => none
  | .particle word => some (Enumerated.id word)
  | .article word => some (Enumerated.id word)
  | .verb word => some (Enumerated.id word)
  | .punctuation word => some (Enumerated.id word)

/-- The blocks that carry a text of the user's. -/
def isFreeText : Block → Bool
  | .noun | .other | .customVerb => true
  | _ => false

/-- The surface of a fixed word; free-text blocks have none. -/
def surface? (block : Block) (locale : Locale) : Option String :=
  match block with
  | .noun => none
  | .other => none
  | .customVerb => none
  | .particle word => some (word.surface locale)
  | .article word => some word.surface
  | .verb word => some (word.surface locale)
  | .punctuation word => some (word.surface locale)

/-- The articles that introduce a noun phrase. -/
def isDeterminer : Block → Bool
  | .article word => word.isDeterminer
  | _ => false

def id : Block → String
  | .noun => "promps_noun"
  | .other => "promps_other"
  | .particle word => "promps_particle_" ++ Enumerated.id word
  | .article word => "promps_article_" ++ Enumerated.id word
  | .verb word => "promps_verb_" ++ Enumerated.id word
  | .customVerb => "promps_verb_custom"
  | .punctuation word => "promps_punct_" ++ Enumerated.id word

/-- Every block: free nouns and words, particles, articles, verbs, the custom verb, punctuation. -/
def all : List Block :=
  [.noun, .other] ++ (Enumerated.all : List Particle).map .particle ++
    (Enumerated.all : List Article).map .article ++ (Enumerated.all : List Verb).map .verb ++
    [.customVerb] ++ (Enumerated.all : List Punctuation).map .punctuation

instance : Enumerated Block where
  all := all
  id := id

/-- What every block id starts with. -/
def idMark : String :=
  "promps_"

/-- The block of the word behind a mark.  A name with the mark is decided here, also when no word of
the list stands behind it; any other name is left to other marks. -/
def ofWord? {α : Type} [Enumerated α] (make : α → Block) (mark name : String) :
    Option (Option Block) :=
  (Text.behind? mark name).map fun word => (Enumerated.ofId? word).map make

/-- The block with a name, which is an id without the mark of all ids.  The free-text blocks have
names of their own; for every other name the first mark that fits decides. -/
def ofName? (name : String) : Option Block :=
  if name == "noun" then some .noun
  else if name == "other" then some .other
  else if name == "verb_custom" then some .customVerb
  else
    let marked :=
      (ofWord? .particle "particle_" name).or <| (ofWord? .article "article_" name).or <|
        (ofWord? .verb "verb_" name).or <| ofWord? .punctuation "punct_" name
    marked.getD none

def ofId? (text : String) : Option Block :=
  (Text.behind? idMark text).bind ofName?

end Block

end PromptBlocks
