import PromptBlocks.Sequence.Token

/-!
Contract: ordered token sequences and their edits.

Owns:
- sequences, whose positions are the places of their tokens and never stored;
- appending, inserting, and the chain that an inserted token joins;
- the runs: maximal stretches of tokens of one chain.

Does not own: records with positions of their own, which a sequence forgets.
-/

namespace PromptBlocks

structure Sequence where
  tokens : List Token
  deriving DecidableEq, Repr

namespace Sequence

def empty : Sequence :=
  ⟨[]⟩

def length (sequence : Sequence) : Nat :=
  sequence.tokens.length

def isEmpty (sequence : Sequence) : Bool :=
  sequence.tokens.isEmpty

/-- The tokens with their positions, counted from zero. -/
def placed (sequence : Sequence) : List PlacedToken :=
  sequence.tokens.zipIdx.map fun (token, position) => { token, position }

/-- A sequence from tokens with any positions: the order counts, the positions are forgotten. -/
def ofPlaced (tokens : List PlacedToken) : Sequence :=
  ⟨tokens.map PlacedToken.token⟩

def get? (sequence : Sequence) (position : Nat) : Option PlacedToken :=
  sequence.tokens[position]?.map fun token => { token, position }

/-- The chain that a token placed in front of `tokens` joins: that of the token it lands before. -/
def chainBefore : List Token → Option Nat
  | [] => none
  | token :: _ => some token.chain

/-- The chain of the last token; zero when there is none. -/
def lastChain (sequence : Sequence) : Nat :=
  (sequence.tokens.getLast?.map Token.chain).getD 0

def pushInChain (sequence : Sequence) (token : Token) (chain : Nat) : Sequence :=
  ⟨sequence.tokens ++ [token.inChain chain]⟩

def push (sequence : Sequence) (token : Token) : Sequence :=
  sequence.pushInChain token sequence.lastChain

/-- Insert a token before an index, at the end when the index is past it.  The token joins the chain
of the token it lands before, or the last chain at the end. -/
def insert (sequence : Sequence) (index : Nat) (token : Token) : Sequence :=
  let after := sequence.tokens.drop index
  let chain := (chainBefore after).getD sequence.lastChain
  ⟨sequence.tokens.take index ++ token.inChain chain :: after⟩

/-- Insert a token after the token at an index and in its chain; append it when there is no such
token. -/
def insertAfter (sequence : Sequence) (index : Nat) (token : Token) : Sequence :=
  match sequence.tokens[index]? with
  | some anchor =>
    ⟨sequence.tokens.take (index + 1) ++
      token.inChain anchor.chain :: sequence.tokens.drop (index + 1)⟩
  | none => sequence.push token

/-- Put a token in front of runs: it joins the first run when the chains agree. -/
def extendRuns (token : Token) : List (List Token) → List (List Token)
  | (next :: run) :: later =>
    if token.sameChain next then (token :: next :: run) :: later
    else [token] :: (next :: run) :: later
  | later => [token] :: later

/-- The maximal stretches of adjacent tokens of one chain. -/
def runsOf : List Token → List (List Token)
  | [] => []
  | token :: rest => extendRuns token (runsOf rest)

def runs (sequence : Sequence) : List (List Token) :=
  runsOf sequence.tokens

end Sequence

end PromptBlocks
