import PromptBlocks.Grammar.Finding
import PromptBlocks.Sequence.Place

/-!
Contract: the English grammar profile.

Owns: the six rules for sentences with articles and prepositions.

Does not own: the wording and the order of the findings.
-/

namespace PromptBlocks.Grammar.English

/-- A word that can open the noun phrase behind a determiner or preposition. -/
def opensNounPhrase (token : Token) : Bool :=
  token.kind == .noun || token.kind == .other || token.block.isDeterminer

/-- The next word of the run opens a noun phrase. -/
def hasObject (place : Place) : Bool :=
  place.next?.any opensNounPhrase

/-- The remedy for a word without its object: a noun behind it. -/
def nounAfter (place : Place) : Remedy :=
  { action := .insertAfter, block := .noun, target := place.index }

def consecutiveNote? (place : Place) : Option Note :=
  if place.token.block.isDeterminer && place.before.any fun token => token.block.isDeterminer then
    some
      { code := .consecutiveArticles
        severity := .error
        position := place.index
        subject := place.token.surface .en
        remedy := none }
  else none

/-- A determiner stands before a noun phrase. -/
def articleNote? (place : Place) : Option Note :=
  if place.token.block.isDeterminer && !hasObject place then
    some
      { code := .articleNotBeforeNoun
        severity := .error
        position := place.index
        subject := place.token.surface .en
        remedy := some (nounAfter place) }
  else none

/-- A preposition stands before a noun phrase; the subject and object markers are silent. -/
def prepositionNote? (place : Place) : Option Note :=
  match place.token.block with
  | .particle word =>
    if word.isPreposition && !hasObject place then
      some
        { code := .prepositionWithoutObject
          severity := .error
          position := place.index
          subject := word.surface .en
          remedy := some (nounAfter place) }
    else none
  | _ => none

/-- The politeness marker opens its run or stands before a verb. -/
def pleaseNote? (place : Place) : Option Note :=
  let beforeVerb := place.next?.any fun token => token.kind == .verb
  if place.token.block == .article .please && place.before.isSome && !beforeVerb then
    some
      { code := .pleasePosition
        severity := .warning
        position := place.index
        subject := "please"
        remedy := none }
  else none

/-- Only punctuation follows a terminal mark in its run. -/
def terminalNote? (place : Place) : Option Note :=
  match place.token.block with
  | .punctuation mark =>
    if mark.isTerminal && place.followers.any fun token => token.kind != .punctuation then
      some
        { code := .periodNotAtEnd
          severity := .warning
          position := place.index
          subject := mark.surface .en
          remedy := none }
    else none
  | _ => none

def verbNotes (tokens : List Token) : List Note :=
  if tokens.any fun token => token.kind == .verb then []
  else
    [{ code := .missingVerb, severity := .warning, position := 0, subject := "", remedy := none }]

/-- The notes of all rules, rule by rule. -/
def notes (sequence : Sequence) : List Note :=
  let places := sequence.places
  (places.flatMap fun place => (consecutiveNote? place).toList ++ (articleNote? place).toList) ++
    places.filterMap prepositionNote? ++ places.filterMap pleaseNote? ++
    places.filterMap terminalNote? ++ verbNotes sequence.tokens

end PromptBlocks.Grammar.English
