import PromptBlocks.Grammar.Finding
import PromptBlocks.Sequence.Place

/-!
Contract: the Japanese grammar profile.

Owns: the six rules for sentences with the verb last and case particles.

Does not own: the wording and the order of the findings.
-/

namespace PromptBlocks.Grammar.Japanese

/-- What is wrong with a particle behind a word of the given kind: it needs a noun or a phrase to
attach to. -/
def particleFault? : Option BlockKind → Option FindingCode
  | none => some .particleWithoutNoun
  | some .article => some .particleWithoutNoun
  | some .punctuation => some .particleWithoutNoun
  | some .particle => some .consecutiveParticles
  | some .noun => none
  | some .verb => none
  | some .other => none

/-- A particle attaches to the noun or phrase in front of it. -/
def particleNote? (place : Place) : Option Note :=
  match place.token.block with
  | .particle _ =>
    (particleFault? (place.before.map Token.kind)).map fun code =>
      { code
        severity := .error
        position := place.index
        subject := place.token.surface .ja
        remedy := some { action := .insertBefore, block := .noun, target := place.index } }
  | _ => none

/-- A verb closes its run: no noun or verb follows it there. -/
def verbNote? (place : Place) : Option Note :=
  let hasContentAfter := place.followers.any fun token =>
    token.kind == .noun || token.kind == .verb
  if place.token.kind == .verb && hasContentAfter then
    some
      { code := .verbNotAtEnd
        severity := .warning
        position := place.index
        subject := ""
        remedy := none }
  else none

def nounNote? (place : Place) : Option Note :=
  if place.token.kind == .noun && place.before.map Token.kind == some .noun then
    some
      { code := .consecutiveNouns
        severity := .warning
        position := place.index
        subject := ""
        remedy := some { action := .insertBefore, block := .particle .to, target := place.index } }
  else none

/-- The first verb needs a subject somewhere. -/
def subjectNote? (tokens : List Token) (firstVerb : Nat) : Option Note :=
  if tokens.any fun token => token.block == .particle .ga then none
  else
    some
      { code := .missingSubject
        severity := .warning
        position := firstVerb
        subject := ""
        remedy := some { action := .insertBefore, block := .particle .ga, target := 0 } }

/-- The first verb needs an object before it. -/
def objectNote? (tokens : List Token) (firstVerb : Nat) : Option Note :=
  if (tokens.take firstVerb).any fun token => token.block == .particle .wo then none
  else
    some
      { code := .missingObject
        severity := .warning
        position := firstVerb
        subject := ""
        remedy := some { action := .insertBefore, block := .particle .wo, target := firstVerb } }

/-- A sequence with a verb names its subject and its object. -/
def sentenceNotes (tokens : List Token) : List Note :=
  match tokens.findIdx? fun token => token.kind == .verb with
  | none => []
  | some firstVerb => (subjectNote? tokens firstVerb).toList ++ (objectNote? tokens firstVerb).toList

/-- The notes of all rules, rule by rule. -/
def notes (sequence : Sequence) : List Note :=
  let places := sequence.places
  places.filterMap particleNote? ++ places.filterMap verbNote? ++ places.filterMap nounNote? ++
    sentenceNotes sequence.tokens

end PromptBlocks.Grammar.Japanese
