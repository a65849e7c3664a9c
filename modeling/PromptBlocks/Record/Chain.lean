import PromptBlocks.Chain.Basic
import PromptBlocks.Record.Codec

/-!
Contract: sequences and editor chains as JSON.

Owns:
- the fields of a placed token, and sequences as arrays of placed tokens;
- the writing of a chain, each block holding its successor, and the strict reading of its documents;
- the lenient reading of chain heads from any value, which never fails.

Does not own: the flattening of chains, and the text that a token of a fixed word may carry, which is
kept as it is read.
-/

namespace PromptBlocks

open Json (Document Items Members Fault)

/-! ### Sequences -/

/-- The fields of a placed token; position and chain are zero where they are absent. -/
def PlacedToken.codec : RecordCodec PlacedToken PlacedToken :=
  (RecordCodec.build fun block text position chain =>
      ({ token := { block, text, chain }, position } : PlacedToken))
    |>.required "blockType" (fun placed => placed.token.block)
    |>.optional "text" (fun placed => placed.token.text)
    |>.defaulted "position" 0 (fun placed => placed.position)
    |>.defaulted "chain" 0 (fun placed => placed.token.chain)

instance : Wire PlacedToken := PlacedToken.codec.wire

/-- A sequence travels as its placed tokens; positions that come with them are forgotten. -/
instance : Wire Sequence where
  write sequence := Wire.write sequence.placed
  read document := (Wire.read document).map Sequence.ofPlaced

/-! ### Chains -/

namespace HeadPolicy

instance : Wire HeadPolicy := Wire.named HeadPolicy

end HeadPolicy

namespace BlockChain

/-- The value of a block in front of the value of its successor. -/
def blockJson (raw : ChainBlock) (next : Option Json) : Json :=
  .object <|
    [("type", .string raw.blockType)] ++
      (raw.text.map fun text => ("text", Json.string text)).toList ++
      (next.map fun value => ("next", value)).toList

/-- The value of blocks linked in order; no blocks have none. -/
def linkedJson : List ChainBlock → Option Json
  | [] => none
  | raw :: later => some (blockJson raw (linkedJson later))

def toJson (chain : BlockChain) : Json :=
  blockJson chain.head (linkedJson chain.successors)

/-- The fields of a block while its object is read; a field that was found holds its value. -/
structure BlockDraft where
  blockType : Option String
  text : Option (Option String)
  next : Option (Option BlockChain)

def BlockDraft.finish (draft : BlockDraft) : Except Fault BlockChain :=
  match draft.blockType with
  | none => .error (.missingField "type")
  | some blockType =>
    .ok
      { head := { blockType, text := draft.text.getD none }
        successors := ((draft.next.getD none).map BlockChain.blocks).getD [] }

mutual

/-- Read the chain from a block on: a block is an object, or the array of its fields in order, and
null is no chain. -/
def readLinked : Document → Except Fault (Option BlockChain)
  | .null => .ok none
  | .object origin members =>
    if origin.isRefused then .error .malformed
    else (readBlock { blockType := none, text := none, next := none } members).map some
  | .array origin (.item blockType later) =>
    if origin.isRefused then .error .malformed
    else do
      let blockType ← Wire.read blockType
      (readBehindType blockType later).map some
  | _ => .error .malformed

/-- Read the members of a block in order from a draft on. -/
def readBlock : BlockDraft → Members → Except Fault BlockChain
  | draft, .closed => draft.finish
  | _, .broken => .error .malformed
  | _, .member none _ _ => .error .malformed
  | draft, .member (some key) value later =>
    if key == "type" then
      match draft.blockType with
      | some _ => .error (.duplicateField "type")
      | none => do
        let blockType ← Wire.read value
        readBlock { draft with blockType := some blockType } later
    else if key == "text" then
      match draft.text with
      | some _ => .error (.duplicateField "text")
      | none => do
        let text ← Wire.read value
        readBlock { draft with text := some text } later
    else if key == "next" then
      match draft.next with
      | some _ => .error (.duplicateField "next")
      | none => do
        let next ← readLinked value
        readBlock { draft with next := some next } later
    else if value.isWhole then readBlock draft later
    else .error .malformed

/-- Read the items of a block behind its type: the text and the successor, which may be absent. -/
def readBehindType (blockType : String) : Items → Except Fault BlockChain
  | .closed => .ok { head := { blockType, text := none }, successors := [] }
  | .broken => .error .malformed
  | .item text .closed => do
    let text ← Wire.read text
    .ok { head := { blockType, text }, successors := [] }
  | .item text .broken => do
    let _ ← (Wire.read text : Except Fault (Option String))
    .error .malformed
  | .item text (.item next later) => do
    let text ← Wire.read text
    let next ← readLinked next
    match later with
    | .closed =>
      .ok { head := { blockType, text }, successors := (next.map BlockChain.blocks).getD [] }
    | _ => .error .malformed

end

def readStrictly (document : Document) : Except Fault BlockChain := do
  match ← readLinked document with
  | some chain => .ok chain
  | none => .error .malformed

instance : Wire BlockChain where
  write := toJson
  read := readStrictly

/-- The block that an object's members describe, leniently: a type that is no text is empty, a text
that is none is absent. -/
def lenientBlock (members : List (String × Json)) : ChainBlock :=
  { blockType := ((Json.find? "type" members).bind Json.string?).getD ""
    text := (Json.find? "text" members).bind Json.string? }

mutual

/-- The blocks linked from a value on, for as long as the links lead to objects. -/
def lenientBlocks : Json → List ChainBlock
  | .object members => lenientBlock members :: lenientNext members
  | _ => []

/-- The blocks linked from the first link among members. -/
def lenientNext : List (String × Json) → List ChainBlock
  | [] => []
  | (key, value) :: later => if key == "next" then lenientBlocks value else lenientNext later

end

/-- The chain linked from a value; only an object heads one. -/
def ofJson? (value : Json) : Option BlockChain :=
  ofBlocks? (lenientBlocks value)

/-- The chain heads in any value: those among the items of an array, or the value itself. -/
def headsOf : Json → List BlockChain
  | .array items => items.filterMap ofJson?
  | value => (ofJson? value).toList

end BlockChain

end PromptBlocks
