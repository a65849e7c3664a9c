import Mathlib.Data.List.Basic
import PromptBlocks.Edit.Plan
import PromptBlocks.Pattern.Template
import PromptBlocks.Proofs.Chain.Flattening
import PromptBlocks.Proofs.Sequence.Positions
import PromptBlocks.Script

/-!
Contract: sequences with stored positions, from where they start through any edits.

Owns:
- where a sequence comes from, and the single edits, with positions stored and without;
- the slot that an edit fills, and the chain that its token joins;
- after every history, stored positions are those of the places, and the next edit fills its slot;
- plans, which do on stored positions what they do without them.

Does not own: how plans are chosen.
-/

namespace PromptBlocks

/-- Where a sequence comes from. -/
inductive SequenceOrigin
  | empty
  /-- Tokens with any positions. -/
  | tokens (supplied : List PlacedToken)
  | chains (heads : List BlockChain) (policy : HeadPolicy)
  | script (text : String)
  | template (pattern : Template)

namespace SequenceOrigin

def sequence : SequenceOrigin → Sequence
  | .empty => Sequence.empty
  | .tokens supplied => Sequence.ofPlaced supplied
  | .chains heads policy => Sequence.ofChains heads policy
  | .script text => Script.read text
  | .template pattern => pattern.instantiate

/-- Append the token of a raw block, when it has one. -/
def pushBlock (chain : Nat) (sequence : PlacedSequence) (raw : ChainBlock) : PlacedSequence :=
  match Block.ofId? raw.blockType with
  | some block =>
    sequence.pushInChain { token := Token.ofBlock block raw.text, position := 0 } chain
  | none => sequence

/-- Append the tokens of a numbered head, when the policy admits it. -/
def pushHead (policy : HeadPolicy) (sequence : PlacedSequence) (entry : BlockChain × Nat) :
    PlacedSequence :=
  if policy.admits entry.1 then entry.1.blocks.foldl (pushBlock entry.2) sequence else sequence

def pushWord (chain : Nat) (sequence : PlacedSequence) (word : List Char) : PlacedSequence :=
  sequence.pushInChain { token := Script.classify word, position := 0 } chain

/-- Append the tokens of a numbered sentence. -/
def pushSentence (sequence : PlacedSequence) (entry : List (List Char) × Nat) : PlacedSequence :=
  entry.1.foldl (pushWord entry.2) sequence

/-- The sequence with its positions stored as it is built up. -/
def placed : SequenceOrigin → PlacedSequence
  | .empty => PlacedSequence.empty
  | .tokens supplied => PlacedSequence.ofTokens supplied
  | .chains heads policy => heads.zipIdx.foldl (pushHead policy) PlacedSequence.empty
  | .script text => (Script.sentences text.toList).zipIdx.foldl pushSentence PlacedSequence.empty
  | .template pattern =>
    PlacedSequence.ofTokens
      (pattern.slots.map fun slot => { token := slot.token, position := 0 })

section Building

variable (sequence : Sequence)

theorem pushBlock_withPositions (chain : Nat) (raw : ChainBlock) :
    pushBlock chain sequence.withPositions raw =
      (Sequence.mk (sequence.tokens ++ (raw.token? chain).toList)).withPositions := by
  rw [pushBlock, ChainBlock.token?]
  cases Block.ofId? raw.blockType with
  | none =>
    show sequence.withPositions = (Sequence.mk (sequence.tokens ++ [])).withPositions
    rw [List.append_nil]
  | some block => exact PlacedSequence.pushInChain_withPositions sequence _ chain

theorem pushHead_withPositions (policy : HeadPolicy) (entry : BlockChain × Nat) :
    pushHead policy sequence.withPositions entry =
      (Sequence.mk
        (sequence.tokens ++ Sequence.tokensOfHead policy entry.1 entry.2)).withPositions := by
  rw [pushHead, Sequence.tokensOfHead]
  split
  · rw [PlacedSequence.foldl_append_withPositions fun sequence raw =>
        pushBlock_withPositions sequence entry.2 raw,
      List.filterMap_eq_flatMap_toList]
  · rw [List.append_nil]

theorem pushSentence_withPositions (entry : List (List Char) × Nat) :
    pushSentence sequence.withPositions entry =
      (Sequence.mk (sequence.tokens ++
        entry.1.map fun word => (Script.classify word).inChain entry.2)).withPositions := by
  have pushes : ∀ (sequence : Sequence) (word : List Char),
      pushWord entry.2 sequence.withPositions word =
        (Sequence.mk
          (sequence.tokens ++ [(Script.classify word).inChain entry.2])).withPositions :=
    fun sequence word => PlacedSequence.pushInChain_withPositions sequence _ entry.2
  rw [pushSentence, PlacedSequence.foldl_append_withPositions pushes, List.map_eq_flatMap]

end Building

/-- However a sequence is built up, its stored positions are those of the places. -/
theorem placed_eq (origin : SequenceOrigin) : origin.placed = origin.sequence.withPositions := by
  cases origin with
  | empty => rfl
  | tokens supplied => exact PlacedSequence.ofTokens_eq supplied
  | chains heads policy =>
    exact PlacedSequence.foldl_append_withPositions
      (fun sequence entry => pushHead_withPositions sequence policy entry) heads.zipIdx Sequence.empty
  | script text =>
    exact PlacedSequence.foldl_append_withPositions pushSentence_withPositions
      (Script.sentences text.toList).zipIdx Sequence.empty
  | template pattern =>
    rw [placed, PlacedSequence.ofTokens_eq, Sequence.ofPlaced, List.map_map]
    rfl

end SequenceOrigin

/-- One edit of a sequence; the position that comes with its token is of no account. -/
inductive SequenceEdit
  | push (placed : PlacedToken)
  | pushInChain (placed : PlacedToken) (chain : Nat)
  | insert (index : Nat) (placed : PlacedToken)
  | insertAfter (index : Nat) (placed : PlacedToken)

namespace SequenceEdit

/-- The token that the edit puts in. -/
def token : SequenceEdit → Token
  | .push placed => placed.token
  | .pushInChain placed _ => placed.token
  | .insert _ placed => placed.token
  | .insertAfter _ placed => placed.token

def apply (edit : SequenceEdit) (sequence : Sequence) : Sequence :=
  match edit with
  | .push placed => sequence.push placed.token
  | .pushInChain placed chain => sequence.pushInChain placed.token chain
  | .insert index placed => sequence.insert index placed.token
  | .insertAfter index placed => sequence.insertAfter index placed.token

def applyPlaced (edit : SequenceEdit) (sequence : PlacedSequence) : PlacedSequence :=
  match edit with
  | .push placed => sequence.push placed
  | .pushInChain placed chain => sequence.pushInChain placed chain
  | .insert index placed => sequence.insert index placed
  | .insertAfter index placed => sequence.insertAfter index placed

/-- How many of the tokens that are there stand in front of the new one. -/
def slot (edit : SequenceEdit) (length : Nat) : Nat :=
  match edit with
  | .push _ => length
  | .pushInChain _ _ => length
  | .insert index _ => min index length
  | .insertAfter index _ => if index < length then index + 1 else length

/-- The chain that the new token joins: that of the token at the index, or else of the last token. -/
def chain (edit : SequenceEdit) (sequence : Sequence) : Nat :=
  match edit with
  | .push _ => sequence.lastChain
  | .pushInChain _ chain => chain
  | .insert index _ => sequence.chainNear index
  | .insertAfter index _ => sequence.chainNear index

theorem applyPlaced_withPositions (edit : SequenceEdit) (sequence : Sequence) :
    edit.applyPlaced sequence.withPositions = (edit.apply sequence).withPositions := by
  cases edit with
  | push placed => exact PlacedSequence.push_withPositions sequence placed
  | pushInChain placed chain =>
    exact PlacedSequence.pushInChain_withPositions sequence placed chain
  | insert index placed => exact PlacedSequence.insert_withPositions sequence placed index
  | insertAfter index placed => exact PlacedSequence.insertAfter_withPositions sequence placed index

theorem foldl_applyPlaced_withPositions (edits : List SequenceEdit) (sequence : Sequence) :
    edits.foldl (fun edited edit => edit.applyPlaced edited) sequence.withPositions =
      (edits.foldl (fun edited edit => edit.apply edited) sequence).withPositions :=
  PlacedSequence.foldl_withPositions
    (fun sequence edit => applyPlaced_withPositions edit sequence) edits sequence

/-- A history leaves the stored form of what it leaves without stored positions. -/
theorem foldl_applyPlaced_placed (edits : List SequenceEdit) (origin : SequenceOrigin) :
    edits.foldl (fun edited edit => edit.applyPlaced edited) origin.placed =
      (edits.foldl (fun edited edit => edit.apply edited) origin.sequence).withPositions := by
  rw [origin.placed_eq, foldl_applyPlaced_withPositions]

/-- An edit fills its slot and leaves the tokens around it as they are. -/
theorem tokens_apply (edit : SequenceEdit) (sequence : Sequence) :
    (edit.apply sequence).tokens =
      sequence.tokens.take (edit.slot sequence.length) ++
        edit.token.inChain (edit.chain sequence) ::
          sequence.tokens.drop (edit.slot sequence.length) := by
  have atEnd : ∀ token : Token,
      sequence.tokens ++ [token] =
        sequence.tokens.take sequence.length ++ token :: sequence.tokens.drop sequence.length := by
    intro token
    rw [Sequence.length, List.take_length, List.drop_length]
  cases edit with
  | push placed => exact atEnd _
  | pushInChain placed chain => exact atEnd _
  | insert index placed =>
    show (sequence.insert index placed.token).tokens =
      sequence.tokens.take (min index sequence.length) ++
        placed.token.inChain (sequence.chainNear index) ::
          sequence.tokens.drop (min index sequence.length)
    rw [Sequence.insert_eq, Sequence.length, ← List.take_eq_take_min, ← List.drop_eq_drop_min]
  | insertAfter index placed =>
    rw [slot, apply, chain]
    rcases Nat.lt_or_ge index sequence.length with inside | outside
    · rw [if_pos inside, Sequence.insertAfter_eq_of_lt sequence placed.token index inside]
      rfl
    · rw [if_neg (Nat.not_lt.mpr outside),
        Sequence.insertAfter_eq_of_le sequence placed.token index outside,
        sequence.chainNear_of_le index outside]
      exact atEnd _

theorem slot_le (edit : SequenceEdit) (length : Nat) : edit.slot length ≤ length := by
  cases edit with
  | push placed => exact Nat.le_refl length
  | pushInChain placed chain => exact Nat.le_refl length
  | insert index placed => exact Nat.min_le_right index length
  | insertAfter index placed =>
    rw [slot]
    split <;> omega

/-- Through every history, stored positions are those of the places, and every edit fills its slot.
Wherever a sequence comes from and whatever edits it has been through, its tokens are numbered from zero
on, and they are those of the same history without stored positions.  The next edit puts in its one token,
in the chain that it joins, and leaves the blocks, texts and chains of all others as they are: those in
front of the slot stay in front of it, and the rest follow it. -/
theorem histories_fill_slots (origin : SequenceOrigin) (edits : List SequenceEdit)
    (edit : SequenceEdit) :
    let sequence := edits.foldl (fun edited edit => edit.apply edited) origin.sequence
    let stored := edits.foldl (fun edited edit => edit.applyPlaced edited) origin.placed
    let slot := edit.slot stored.tokens.length
    stored.tokens.map PlacedToken.position = List.range stored.tokens.length ∧
      stored.tokens = sequence.placed ∧
      (edit.applyPlaced stored).tokens = (edit.apply sequence).placed ∧
      slot ≤ stored.tokens.length ∧
      (edit.applyPlaced stored).tokens.map PlacedToken.token =
        (stored.tokens.map PlacedToken.token).take slot ++
          edit.token.inChain (edit.chain sequence) ::
            (stored.tokens.map PlacedToken.token).drop slot := by
  intro sequence stored slot
  -- The stored form is the image of the plain one, at the start and under every edit.
  have kept : stored = sequence.withPositions := foldl_applyPlaced_placed edits origin
  have edited : edit.applyPlaced stored = (edit.apply sequence).withPositions := by
    rw [kept, applyPlaced_withPositions]
  have tokens : stored.tokens.map PlacedToken.token = sequence.tokens := by
    rw [kept]
    exact sequence.map_token_placed
  have length : stored.tokens.length = sequence.length := by
    rw [kept]
    exact sequence.length_placed
  refine ⟨?_, congrArg PlacedSequence.tokens kept, congrArg PlacedSequence.tokens edited,
    edit.slot_le _, ?_⟩
  · rw [length, kept]
    exact sequence.map_position_placed
  · have slotOf : slot = edit.slot sequence.length := congrArg edit.slot length
    rw [edited, tokens, slotOf, ← edit.tokens_apply sequence]
    exact (edit.apply sequence).map_token_placed

/-- An index past the end appends, and positions that come with tokens are of no account. -/
example :
    [SequenceEdit.insert 1 ⟨⟨.particle .to, none, 5⟩, 9⟩,
        .insert 99 ⟨⟨.verb .create, none, 5⟩, 9⟩].foldl
        (fun edited edit => edit.applyPlaced edited)
        (SequenceOrigin.tokens [⟨⟨.noun, some "A", 0⟩, 9⟩, ⟨⟨.noun, some "B", 1⟩, 9⟩]).placed =
      ⟨[⟨⟨.noun, some "A", 0⟩, 0⟩, ⟨⟨.particle .to, none, 1⟩, 1⟩, ⟨⟨.noun, some "B", 1⟩, 2⟩,
        ⟨⟨.verb .create, none, 1⟩, 3⟩]⟩ := by
  decide

end SequenceEdit

/-! ### Plans -/

/-- Carry out a step; its token comes with no position of its own. -/
def Step.applyPlaced (step : Step) (sequence : PlacedSequence) : PlacedSequence :=
  let placed : PlacedToken := { token := step.token, position := 0 }
  match step.operation with
  | .replaceAll => PlacedSequence.empty.pushInChain placed 0
  | .insertBefore => sequence.insert step.anchor placed
  | .insertAfter => sequence.insertAfter step.anchor placed

theorem Step.applyPlaced_withPositions (step : Step) (sequence : Sequence) :
    step.applyPlaced sequence.withPositions = (step.apply sequence).withPositions := by
  rw [applyPlaced, apply]
  cases step.operation with
  | replaceAll => exact PlacedSequence.pushInChain_withPositions Sequence.empty _ 0
  | insertBefore => exact PlacedSequence.insert_withPositions sequence _ step.anchor
  | insertAfter => exact PlacedSequence.insertAfter_withPositions sequence _ step.anchor

namespace Plan

def applyPlaced (plan : Plan) (sequence : PlacedSequence) : PlacedSequence :=
  plan.steps.foldl (fun edited step => step.applyPlaced edited) sequence

theorem applyPlaced_withPositions (plan : Plan) (sequence : Sequence) :
    plan.applyPlaced sequence.withPositions = (plan.apply sequence).withPositions :=
  PlacedSequence.foldl_withPositions
    (fun sequence step => step.applyPlaced_withPositions sequence) plan.steps sequence

/-- Wherever a sequence comes from and whatever edits it has been through, a plan leaves stored positions
that are those of the places, and the tokens that it leaves without them. -/
theorem applyPlaced_history (plan : Plan) (origin : SequenceOrigin) (edits : List SequenceEdit) :
    let sequence := edits.foldl (fun edited edit => edit.apply edited) origin.sequence
    let stored := edits.foldl (fun edited edit => edit.applyPlaced edited) origin.placed
    (plan.applyPlaced stored).tokens = (plan.apply sequence).placed := by
  intro sequence stored
  have kept : stored = sequence.withPositions :=
    SequenceEdit.foldl_applyPlaced_placed edits origin
  rw [kept, applyPlaced_withPositions]
  rfl

end Plan

end PromptBlocks
