import PromptBlocks.Proofs.Record.Extent
import PromptBlocks.Record.Chain

/-!
Contract: chains that are written are read back, as far as texts may nest.

Owns:
- the strict reading of a block as the reading of a record with three fields;
- chains that are read back, however their members are arranged;
- how deep a written chain nests, and texts of chains that nest deeper than texts may.

Does not own: the lenient reading of heads.
-/

namespace PromptBlocks.BlockChain

open Json (Document Members Fault Arrangement Origin documentIn documentAt)

/-! ### Blocks as records -/

/-- A block as a record, as far as it does not say what follows it. -/
def headCodec : RecordCodec BlockChain (Option BlockChain → BlockChain) :=
  (RecordCodec.build fun blockType text next =>
      ({ head := { blockType, text }, successors := (next.map BlockChain.blocks).getD [] } :
        BlockChain))
    |>.required "type" (fun chain => chain.head.blockType)
    |>.optional "text" (fun chain => chain.head.text)

/-- A block as a record: its type, its text, and the chain behind it. -/
def codec : RecordCodec BlockChain BlockChain :=
  headCodec.field "next" readLinked (some none) (fun chain => linkedJson chain.successors)

/-- The draft of the record from the draft of a block. -/
def BlockDraft.toRecord (draft : BlockDraft) : codec.Draft :=
  ((((), draft.blockType), draft.text), draft.next)

theorem finish_toRecord (draft : BlockDraft) : codec.finish draft.toRecord = draft.finish := by
  obtain ⟨blockType, text, next⟩ := draft
  cases blockType <;> cases text <;> cases next <;> rfl

theorem accept_type (draft : BlockDraft) :
    codec.accept "type" draft.toRecord = some fun document =>
      match draft.blockType with
      | some _ => .error (.duplicateField "type")
      | none => (Wire.read document).map fun blockType =>
        { draft with blockType := some blockType }.toRecord := by
  obtain ⟨blockType, text, next⟩ := draft
  refine congrArg some (funext fun document => ?_)
  cases blockType with
  | some earlier => rfl
  | none =>
    show ((((Wire.read document).map _).map _).map _) = _
    cases (Wire.read document : Except Fault String) <;> rfl

theorem accept_text (draft : BlockDraft) :
    codec.accept "text" draft.toRecord = some fun document =>
      match draft.text with
      | some _ => .error (.duplicateField "text")
      | none => (Wire.read document).map fun text => { draft with text := some text }.toRecord := by
  obtain ⟨blockType, text, next⟩ := draft
  refine congrArg some (funext fun document => ?_)
  cases text with
  | some earlier => rfl
  | none =>
    show (((Wire.read document).map _).map _) = _
    cases (Wire.read document : Except Fault (Option String)) <;> rfl

theorem accept_next (draft : BlockDraft) :
    codec.accept "next" draft.toRecord = some fun document =>
      match draft.next with
      | some _ => .error (.duplicateField "next")
      | none => (readLinked document).map fun next => { draft with next := some next }.toRecord := by
  obtain ⟨blockType, text, next⟩ := draft
  refine congrArg some (funext fun document => ?_)
  cases next with
  | some earlier => rfl
  | none => rfl

theorem accept_of_ne {key : String} (notType : key ≠ "type") (notText : key ≠ "text")
    (notNext : key ≠ "next") (draft : BlockDraft) : codec.accept key draft.toRecord = none := by
  simp [codec, headCodec, RecordCodec.required, RecordCodec.optional, RecordCodec.field, RecordCodec.build,
    notType, notText, notNext]

/-- The strict reading of a block is that of a record, member by member. -/
theorem readBlock_eq (draft : BlockDraft) (members : Members) :
    readBlock draft members = codec.readMembers draft.toRecord members := by
  match members with
  | .closed => exact (finish_toRecord draft).symm
  | .broken => rfl
  | .member none _ _ => rfl
  | .member (some key) value later =>
    rw [readBlock, RecordCodec.readMembers]
    by_cases isType : key = "type"
    · rw [isType, accept_type, if_pos (beq_self_eq_true _)]
      cases draft.blockType with
      | some earlier => rfl
      | none =>
        show (Wire.read value : Except Fault String).bind _ = ((Wire.read value).map _).bind _
        cases (Wire.read value : Except Fault String) with
        | error fault => rfl
        | ok blockType => exact readBlock_eq { draft with blockType := some blockType } later
    rw [if_neg (by simpa using isType)]
    by_cases isText : key = "text"
    · rw [isText, accept_text, if_pos (beq_self_eq_true _)]
      cases draft.text with
      | some earlier => rfl
      | none =>
        show (Wire.read value : Except Fault (Option String)).bind _ =
          ((Wire.read value).map _).bind _
        cases (Wire.read value : Except Fault (Option String)) with
        | error fault => rfl
        | ok text => exact readBlock_eq { draft with text := some text } later
    rw [if_neg (by simpa using isText)]
    by_cases isNext : key = "next"
    · rw [isNext, accept_next, if_pos (beq_self_eq_true _)]
      cases draft.next with
      | some earlier => rfl
      | none =>
        show (readLinked value).bind _ = ((readLinked value).map _).bind _
        cases readLinked value with
        | error fault => rfl
        | ok next => exact readBlock_eq { draft with next := some next } later
    · rw [if_neg (by simpa using isNext), accept_of_ne isType isText isNext,
        readBlock_eq draft later]

theorem readLinked_object (origin : Origin) (members : Members) :
    readLinked (.object origin members) = (codec.read (.object origin members)).map some := by
  rw [readLinked, RecordCodec.read, readBlock_eq]
  cases origin.isRefused <;> rfl

/-! ### Chains that are read back -/

theorem toJson_eq (chain : BlockChain) : toJson chain = codec.write chain := by
  obtain ⟨⟨blockType, text⟩, successors⟩ := chain
  cases text <;> rfl

theorem readLinked_of_restores {names : List String} {chain : BlockChain}
    (restores : codec.Restores names chain chain) (arrangement : Arrangement) {origin : Origin}
    (held : origin.isRefused = false) :
    readLinked (documentIn origin (arrangement.place (toJson chain))) = .ok (some chain) := by
  have read := restores.read arrangement held
  rw [toJson_eq]
  obtain ⟨moved, placed, -⟩ := arrangement.object (codec.members chain)
  rw [RecordCodec.write, placed] at read ⊢
  rw [documentIn, readLinked_object]
  exact congrArg (Except.map some) read

theorem restores_head (chain : BlockChain) :
    headCodec.Restores ["text", "type"] chain fun next =>
      { head := chain.head, successors := (next.map BlockChain.blocks).getD [] } :=
  (RecordCodec.restores_build chain _)
    |>.required (by decide) (Wire.returns_text chain.head.blockType)
    |>.optional (by decide) (fun text _ => ⟨Json.noConfusion, Wire.returns_text text⟩)

/-- A block is read back with what follows it, by induction on the blocks behind it. -/
theorem restores (head : ChainBlock) :
    ∀ successors, codec.Restores ["next", "text", "type"] { head, successors } { head, successors }
  | [] => (restores_head { head, successors := [] }).field_of_eq_none (by decide) rfl rfl
  | raw :: later =>
    (restores_head { head, successors := raw :: later }).field_of_eq_some (by decide) rfl
      fun arrangement _ held => readLinked_of_restores (restores raw later) arrangement held

theorem returns (chain : BlockChain) : Wire.Returns chain := by
  intro arrangement origin held
  have linked := readLinked_of_restores (restores chain.head chain.successors) arrangement held
  show readStrictly _ = _
  rw [readStrictly]
  show (readLinked (documentIn origin (arrangement.place (toJson chain)))).bind _ = _
  rw [linked]
  rfl

/-! ### Texts of chains -/

theorem nesting_blockJson (raw : ChainBlock) (next : Option Json) :
    (blockJson raw next).nesting = (next.map Json.nesting).getD 0 + 1 := by
  cases text : raw.text <;> cases next <;>
    simp [blockJson, text, Json.nesting, Json.membersNesting]

theorem fitsWords_blockJson (raw : ChainBlock) (next : Option Json) :
    (blockJson raw next).fitsWords = (next.map Json.fitsWords).getD true := by
  cases text : raw.text <;> cases next <;>
    simp [blockJson, text, Json.fitsWords, Json.membersFitWords]

theorem nesting_linkedJson (blocks : List ChainBlock) :
    ((linkedJson blocks).map Json.nesting).getD 0 = blocks.length := by
  induction blocks with
  | nil => rfl
  | cons raw later inductionHypothesis =>
    rw [linkedJson, Option.map_some, Option.getD_some, nesting_blockJson, inductionHypothesis,
      List.length_cons]

/-- Every block is a container inside the one before it. -/
theorem nesting_toJson (chain : BlockChain) : chain.toJson.nesting = chain.length := by
  rw [toJson, nesting_blockJson, nesting_linkedJson]
  rfl

theorem fitsWords_linkedJson (blocks : List ChainBlock) :
    ((linkedJson blocks).map Json.fitsWords).getD true = true := by
  induction blocks with
  | nil => rfl
  | cons raw later inductionHypothesis =>
    rw [linkedJson, Option.map_some, Option.getD_some, fitsWords_blockJson, inductionHypothesis]

theorem fitsWords_toJson (chain : BlockChain) : chain.toJson.fitsWords = true := by
  rw [toJson, fitsWords_blockJson, fitsWords_linkedJson]

/-- A block is refused when what follows it is. -/
theorem readBlock_of_refused {outer : Nat} (head : ChainBlock) {next : Json}
    (refused : readLinked (documentAt outer next) = .error .malformed) :
    readBlock { blockType := none, text := none, next := none }
      (Json.membersAt outer ([("type", .string head.blockType)] ++
        (head.text.map fun text => ("text", Json.string text)).toList ++ [("next", next)])) =
      .error .malformed := by
  obtain ⟨blockType, text⟩ := head
  cases text with
  | none =>
    show (readLinked (documentAt outer next)).bind _ = _
    rw [refused]
    rfl
  | some text =>
    show (readLinked (documentAt outer next)).bind _ = _
    rw [refused]
    rfl

theorem readLinked_documentAt_of_full {outer : Nat} (full : Json.Reading.depthLimit ≤ outer)
    (head : ChainBlock) (next : Option Json) :
    readLinked (documentAt outer (blockJson head next)) = .error .malformed := by
  have refused : (Json.Reading.originAt outer).isRefused = true := decide_eq_true full
  rw [blockJson, documentAt, readLinked, if_pos refused]

/-- A chain whose last block nests too deep is refused as a whole. -/
theorem readLinked_documentAt_of_deep (head : ChainBlock) (successors : List ChainBlock)
    {outer : Nat} (deep : Json.Reading.depthLimit < outer + (successors.length + 1)) :
    readLinked (documentAt outer (blockJson head (linkedJson successors))) = .error .malformed := by
  induction successors generalizing head outer with
  | nil => exact readLinked_documentAt_of_full (by simpa [Nat.lt_succ_iff] using deep) head none
  | cons raw later inductionHypothesis =>
    by_cases full : Json.Reading.depthLimit ≤ outer
    · exact readLinked_documentAt_of_full full head _
    have refused : readLinked (documentAt (outer + 1) (blockJson raw (linkedJson later))) =
        .error .malformed := by
      apply inductionHypothesis
      rw [List.length_cons] at deep
      omega
    rw [linkedJson, blockJson, documentAt, readLinked, Json.originAt_of_lt (by omega),
      if_neg (by decide)]
    exact congrArg (Except.map some) (readBlock_of_refused head refused)

/-- The text of a chain is read back as far as texts nest; a longer chain is refused. -/
theorem readText_of_spelled {chain : BlockChain} {text : String}
    (spelled : Json.readText (Wire.read : Document → Except Fault BlockChain) text =
      readStrictly (documentAt 0 chain.toJson)) :
    Json.readText Wire.read text =
      if chain.length ≤ Json.Reading.depthLimit then .ok chain else .error .malformed := by
  rw [spelled]
  split_ifs with shallow
  · rw [Json.documentAt_eq chain.toJson (by rw [nesting_toJson]; omega)]
    exact returns chain .written (.text false) rfl
  · have refused : readLinked (documentAt 0 chain.toJson) = .error .malformed := by
      apply readLinked_documentAt_of_deep
      show _ < 0 + chain.length
      omega
    rw [readStrictly, refused]
    rfl

theorem readText_compact (chain : BlockChain) :
    Json.readText Wire.read (Wire.write chain).compact =
      if chain.length ≤ Json.Reading.depthLimit then .ok chain else .error .malformed :=
  readText_of_spelled (Json.readText_compact Wire.read (fitsWords_toJson chain))

/-- A chain of one block more than texts may nest does not come back from its text. -/
theorem readText_compact_ne_of_long_chain :
    Json.readText Wire.read (Wire.write (BlockChain.mk ⟨"promps_noun", none⟩
      (List.replicate 127 ⟨"promps_noun", none⟩))).compact ≠
        .ok (BlockChain.mk ⟨"promps_noun", none⟩ (List.replicate 127 ⟨"promps_noun", none⟩)) := by
  rw [readText_compact, if_neg (by decide +kernel)]
  intro same
  cases same

theorem readText_pretty (chain : BlockChain) :
    Json.readText Wire.read (Wire.write chain).pretty =
      if chain.length ≤ Json.Reading.depthLimit then .ok chain else .error .malformed :=
  readText_of_spelled (Json.readText_pretty Wire.read (fitsWords_toJson chain))

end PromptBlocks.BlockChain
