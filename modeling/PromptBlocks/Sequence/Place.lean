import PromptBlocks.Sequence.Basic

/-!
Contract: tokens in their surroundings.

Owns:
- places: a token with its index, its neighbour in front and what follows it;
- neighbours and followers within the same chain run.

Does not own: any rule about what may stand beside what.
-/

namespace PromptBlocks

structure Place where
  index : Nat
  /-- The token in front, when it is of the same chain. -/
  before : Option Token
  token : Token
  later : List Token
  deriving Repr

namespace Place

/-- The next token, when it is of the same chain. -/
def next? (place : Place) : Option Token :=
  place.later.head?.filter place.token.sameChain

def followers (place : Place) : List Token :=
  place.later.takeWhile place.token.sameChain

/-- The places of a list of tokens that starts at an index behind another token. -/
def listFrom (index : Nat) (previous : Option Token) : List Token → List Place
  | [] => []
  | token :: later =>
    { index, before := previous.filter token.sameChain, token, later } ::
      listFrom (index + 1) (some token) later

end Place

def Sequence.places (sequence : Sequence) : List Place :=
  Place.listFrom 0 none sequence.tokens

end PromptBlocks
