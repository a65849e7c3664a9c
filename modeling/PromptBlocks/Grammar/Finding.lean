import PromptBlocks.Vocabulary.Block

/-!
Contract: what a grammar check can report.

Owns:
- severities, and finding codes in their ranking order;
- fixes: single insertions that resolve a finding;
- notes, which say what was found and where, and findings, which also word it.

Does not own: the rules that produce notes, the wording, and the order of a report.
-/

namespace PromptBlocks

inductive Severity
  | error
  | warning
  deriving DecidableEq, Repr

namespace Severity

instance : Enumerated Severity where
  all := [.error, .warning]
  id
    | .error => "error"
    | .warning => "warning"

def rank : Severity → Nat
  | .error => 0
  | .warning => 1

end Severity

/-- The kinds of finding; the order of declaration ranks findings of one position and severity. -/
inductive FindingCode
  | particleWithoutNoun
  | consecutiveParticles
  | verbNotAtEnd
  | consecutiveNouns
  | missingSubject
  | missingObject
  | articleNotBeforeNoun
  | consecutiveArticles
  | prepositionWithoutObject
  | pleasePosition
  | periodNotAtEnd
  | missingVerb
  deriving DecidableEq, Repr

namespace FindingCode

instance : Enumerated FindingCode where
  all := [.particleWithoutNoun, .consecutiveParticles, .verbNotAtEnd, .consecutiveNouns,
    .missingSubject, .missingObject, .articleNotBeforeNoun, .consecutiveArticles,
    .prepositionWithoutObject, .pleasePosition, .periodNotAtEnd, .missingVerb]
  id
    | .particleWithoutNoun => "ParticleWithoutNoun"
    | .consecutiveParticles => "ConsecutiveParticles"
    | .verbNotAtEnd => "VerbNotAtEnd"
    | .consecutiveNouns => "ConsecutiveNouns"
    | .missingSubject => "MissingSubject"
    | .missingObject => "MissingObject"
    | .articleNotBeforeNoun => "ArticleNotBeforeNoun"
    | .consecutiveArticles => "ConsecutiveArticles"
    | .prepositionWithoutObject => "PrepositionWithoutObject"
    | .pleasePosition => "PleasePosition"
    | .periodNotAtEnd => "PeriodNotAtEnd"
    | .missingVerb => "MissingVerb"

def rank : FindingCode → Nat
  | .particleWithoutNoun => 0
  | .consecutiveParticles => 1
  | .verbNotAtEnd => 2
  | .consecutiveNouns => 3
  | .missingSubject => 4
  | .missingObject => 5
  | .articleNotBeforeNoun => 6
  | .consecutiveArticles => 7
  | .prepositionWithoutObject => 8
  | .pleasePosition => 9
  | .periodNotAtEnd => 10
  | .missingVerb => 11

end FindingCode

/-- On which side of its target a fix inserts. -/
inductive FixAction
  | insertBefore
  | insertAfter
  deriving DecidableEq, Repr

instance : Enumerated FixAction where
  all := [.insertBefore, .insertAfter]
  id
    | .insertBefore => "insert_before"
    | .insertAfter => "insert_after"

structure Fix where
  action : FixAction
  /-- The id of the block to insert, as the editor names it. -/
  blockType : String
  /-- The position that the insertion is anchored to. -/
  target : Nat
  label : String
  deriving DecidableEq, Repr

namespace Fix

/-- The block to insert, when it is in the vocabulary. -/
def block? (fix : Fix) : Option Block :=
  Block.ofId? fix.blockType

/-- Two fixes are one remedy when they insert the same block at the same place, however labelled. -/
def sameRemedy (left right : Fix) : Bool :=
  left.action == right.action && left.blockType == right.blockType && left.target == right.target

end Fix

structure Remedy where
  action : FixAction
  block : Block
  target : Nat
  deriving DecidableEq, Repr

/-- The remedy as a fix with the label of its button. -/
def Remedy.toFix (remedy : Remedy) (label : String) : Fix :=
  { action := remedy.action, blockType := remedy.block.id, target := remedy.target, label }

/-- What a rule found, before it is worded. -/
structure Note where
  code : FindingCode
  /-- The severity that the rule gives. -/
  severity : Severity
  position : Nat
  /-- The surface that the message quotes, where it quotes one. -/
  subject : String
  remedy : Option Remedy
  deriving DecidableEq, Repr

structure Finding where
  code : FindingCode
  message : String
  /-- The offending token, or the place where something is missing. -/
  position : Nat
  severity : Severity
  suggestion : Option String
  fix : Option Fix
  deriving DecidableEq, Repr

end PromptBlocks
