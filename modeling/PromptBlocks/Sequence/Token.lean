import PromptBlocks.Vocabulary.Block

/-!
Contract: one tagged unit of a linear prompt.

Owns:
- tokens, their text payload and the chain they came from;
- the surface of a token in a language.

Does not own: positions, which belong to the sequence that holds the token.
-/

namespace PromptBlocks

structure Token where
  block : Block
  /-- The user's text; a token made by `Token.ofBlock` has one on free-text blocks only. -/
  text : Option String
  /-- The number of the editor chain that the token came from. -/
  chain : Nat
  deriving DecidableEq, Repr

namespace Token

/-- A new token in chain zero; fixed words drop the text. -/
def ofBlock (block : Block) (text : Option String) : Token :=
  { block, text := if block.isFreeText then text else none, chain := 0 }

def inChain (token : Token) (chain : Nat) : Token :=
  { token with chain }

def kind (token : Token) : BlockKind :=
  token.block.kind

/-- The written form: the fixed word, or else the user's text. -/
def surface (token : Token) (locale : Locale) : String :=
  (token.block.surface? locale).getD (token.text.getD "")

/-- Fixed words of one block have one surface, whatever text they carry. -/
theorem surface_congr {left right : Token} (same : left.block = right.block)
    (isFixed : right.block.isFreeText = false) (locale : Locale) :
    left.surface locale = right.surface locale := by
  rw [surface, surface, same]
  cases block : right.block with
  | noun | other | customVerb =>
    rw [block] at isFixed
    cases isFixed
  | particle | article | verb | punctuation => rfl

def sameChain (left right : Token) : Bool :=
  left.chain == right.chain

end Token

/-- A token together with a position, as records carry it. -/
structure PlacedToken where
  token : Token
  position : Nat
  deriving DecidableEq, Repr

end PromptBlocks
