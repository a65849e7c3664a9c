import PromptBlocks.Sequence.Basic

/-!
Contract: sentence patterns.

Owns:
- slots and which tokens fill them;
- templates and their literal instantiation.

Does not own: catalogs, and how well a sequence matches a template.
-/

namespace PromptBlocks

structure Slot where
  block : Block
  label : String
  isPlaceholder : Bool
  preset : Option String
  deriving DecidableEq, Repr

namespace Slot

def token (slot : Slot) : Token :=
  Token.ofBlock slot.block (some (slot.preset.getD ""))

/-- The token fills the slot.  Nouns and verbs match by kind, fixed words by the exact block, and a
free word that is no placeholder by its preset text where it has one. -/
def accepts (slot : Slot) (token : Token) : Bool :=
  match slot.block with
  | .noun => token.kind == .noun
  | .verb _ => token.kind == .verb
  | .customVerb => token.kind == .verb
  | .other =>
    token.kind == .other &&
      (slot.isPlaceholder || slot.preset.isNone || token.text == slot.preset)
  | .particle _ => token.block == slot.block
  | .article _ => token.block == slot.block
  | .punctuation _ => token.block == slot.block

end Slot

structure Template where
  id : String
  name : String
  description : String
  outline : String
  sample : String
  slots : List Slot
  deriving DecidableEq, Repr

namespace Template

def length (template : Template) : Nat :=
  template.slots.length

/-- The token of every slot in order, as one chain. -/
def instantiate (template : Template) : Sequence :=
  ⟨template.slots.map Slot.token⟩

end Template

end PromptBlocks
