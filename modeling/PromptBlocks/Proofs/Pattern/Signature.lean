import PromptBlocks.Edit.Planner
import PromptBlocks.Proofs.Pattern.Exchange
import PromptBlocks.Proofs.Pattern.Share

/-!
Contract: pattern analysis sees the signatures of tokens, all of them and nothing else.

Owns:
- the signature of a token: its kind for nouns and verbs, its block for fixed words, its text for others;
- a slot accepts a token exactly when it accepts the plainest token of that signature;
- sequences are analysed alike exactly when their tokens have the same signatures.

Does not own: what an analysis finds.
-/

namespace PromptBlocks

/-- What a slot can know of a token. -/
inductive Signature
  | noun
  /-- Any verb, fixed or of the user's. -/
  | verb
  | particle (word : Particle)
  | article (word : Article)
  | punctuation (mark : Punctuation)
  | other (text : Option String)
  deriving DecidableEq, Repr

def Token.signature (token : Token) : Signature :=
  match token.block with
  | .noun => .noun
  | .verb _ => .verb
  | .customVerb => .verb
  | .particle word => .particle word
  | .article word => .article word
  | .punctuation mark => .punctuation mark
  | .other => .other token.text

namespace Signature

def block : Signature → Block
  | noun => .noun
  | verb => .customVerb
  | particle word => .particle word
  | article word => .article word
  | punctuation mark => .punctuation mark
  | other _ => .other

def text? : Signature → Option String
  | other text => text
  | _ => none

/-- The plainest token of a signature. -/
def token (signature : Signature) : Token :=
  { block := signature.block, text := signature.text?, chain := 0 }

/-- A slot that asks for a signature.  It takes other words, too, where it asks for one without a text. -/
def slot (signature : Signature) : Slot :=
  { block := signature.block, label := "", isPlaceholder := false, preset := signature.text? }

end Signature

theorem Slot.accepts_token_signature (slot : Slot) (token : Token) :
    slot.accepts token.signature.token = slot.accepts token := by
  obtain ⟨wanted, label, isPlaceholder, preset⟩ := slot
  obtain ⟨block, text, chain⟩ := token
  cases wanted <;> cases block <;> rfl

/-- Every token gives way to the plainest one of its signature. -/
def Exchange.bySignature : Exchange where
  slot := id
  token := fun token => token.signature.token
  accepts_eq := Slot.accepts_token_signature

theorem Exchange.inTemplate_bySignature (template : Template) :
    bySignature.inTemplate template = template := by
  rw [inTemplate]
  exact congrArg (fun slots => { template with slots }) (List.map_id _)

/-! ### Alike analyses -/

namespace Sequence

/-- Two sequences cannot be told apart by any analysis: they match every template alike, in the same
window, rank and suggest alike in every catalog, and are completed by the same plans. -/
structure AnalysedAlike (left right : Sequence) : Prop where
  matchOf_eq : ∀ template : Template, template.matchOf left = template.matchOf right
  window?_eq : ∀ template : Template, template.window? left = template.window? right
  rank_eq : ∀ catalog : Catalog, catalog.rank left = catalog.rank right
  suggest_eq : ∀ (catalog : Catalog) (limit : Nat), catalog.suggest left limit = catalog.suggest right limit
  forCompletion_eq : ∀ template : Template,
    Plan.forCompletion left template = Plan.forCompletion right template

variable {left right : Sequence}

def signatures (sequence : Sequence) : List Signature :=
  sequence.tokens.map Token.signature

theorem inSequence_bySignature (sequence : Sequence) :
    Exchange.bySignature.inSequence sequence = ⟨sequence.signatures.map Signature.token⟩ := by
  rw [signatures, List.map_map]
  rfl

section SameSignatures

variable (same : left.signatures = right.signatures)
include same

theorem length_eq_of_signatures : left.length = right.length := by
  have counted := congrArg List.length same
  rwa [signatures, signatures, List.length_map, List.length_map] at counted

theorem window?_eq_of_signatures (template : Template) :
    template.window? left = template.window? right := by
  have exchanged := Exchange.bySignature.window?_exchange template
  simp only [Exchange.inTemplate_bySignature, inSequence_bySignature] at exchanged
  rw [← exchanged left, same, exchanged right]

theorem filled_eq_of_signatures (template : Template) :
    Slot.filled template.slots left.tokens = Slot.filled template.slots right.tokens := by
  have exchanged (sequence : Sequence) :
      Slot.filled template.slots (Exchange.bySignature.inSequence sequence).tokens =
        Slot.filled template.slots sequence.tokens := by
    have kept := Slot.filled_exchange Exchange.bySignature template.slots sequence.tokens
    rwa [show template.slots.map Exchange.bySignature.slot = template.slots from List.map_id _] at kept
  rw [← exchanged left, inSequence_bySignature, same, ← inSequence_bySignature, exchanged]

theorem openSlots_eq_of_signatures (template : Template) :
    template.openSlots left = template.openSlots right := by
  have exchanged := Exchange.bySignature.openSlots_exchange template
  simp only [Exchange.inTemplate_bySignature, inSequence_bySignature] at exchanged
  have kept (sequence : Sequence) :
      (template.openSlots sequence).map Exchange.bySignature.slot = template.openSlots sequence :=
    List.map_id _
  rw [← kept left, ← kept right, ← exchanged left, same, exchanged right]

theorem analysedAlike_of_signatures : left.AnalysedAlike right := by
  have sameLength := length_eq_of_signatures same
  have sameWindow := window?_eq_of_signatures same
  have sameOpen := openSlots_eq_of_signatures same
  have sameFilled := filled_eq_of_signatures same
  have sameMatch (template : Template) : template.matchOf left = template.matchOf right := by
    unfold Template.matchOf
    rw [sameLength, sameWindow, sameFilled]
  have sameRank (catalog : Catalog) : catalog.rank left = catalog.rank right := by
    rw [Catalog.rank, Catalog.rank, funext sameMatch]
  exact
    { matchOf_eq := sameMatch
      window?_eq := sameWindow
      rank_eq := sameRank
      suggest_eq := fun catalog limit => by rw [Catalog.suggest, Catalog.suggest, sameRank]
      forCompletion_eq := fun template => by
        unfold Plan.forCompletion
        rw [sameLength, sameWindow, sameOpen] }

end SameSignatures

end Sequence

/-! ### Telling signatures apart -/

theorem Signature.accepts_slot_signature (token : Token) : token.signature.slot.accepts token = true := by
  obtain ⟨block, text, chain⟩ := token
  cases block <;>
    simp [Token.signature, slot, Signature.block, text?, Slot.accepts, Token.kind, Block.kind]

/-- The slot of a signature asks for it, but a word without a text may be any other word. -/
theorem Signature.eq_or_other_of_accepts {signature : Signature} {token : Token}
    (accepted : signature.slot.accepts token = true) :
    token.signature = signature ∨ signature = .other none ∧ ∃ text, token.signature = .other text := by
  obtain ⟨block, text, chain⟩ := token
  cases signature with
  | noun =>
    cases block with
    | noun => exact .inl rfl
    | _ => cases accepted
  | verb =>
    cases block with
    | verb => exact .inl rfl
    | customVerb => exact .inl rfl
    | _ => cases accepted
  | particle word =>
    obtain rfl : block = .particle word := beq_iff_eq.mp accepted
    exact .inl rfl
  | article word =>
    obtain rfl : block = .article word := beq_iff_eq.mp accepted
    exact .inl rfl
  | punctuation mark =>
    obtain rfl : block = .punctuation mark := beq_iff_eq.mp accepted
    exact .inl rfl
  | other wanted =>
    cases block with
    | other =>
      cases wanted with
      | none => exact .inr ⟨rfl, text, rfl⟩
      | some wanted =>
        obtain rfl : text = some wanted := beq_iff_eq.mp accepted
        exact .inl rfl
    | _ => cases accepted

/-- Tokens that the slots of each other's signatures accept have the same one. -/
theorem Signature.eq_of_accepts {left right : Token}
    (acceptsRight : left.signature.slot.accepts right = true)
    (acceptsLeft : right.signature.slot.accepts left = true) : left.signature = right.signature := by
  rcases eq_or_other_of_accepts acceptsRight with same | ⟨leftPlain, -⟩
  · exact same.symm
  · rcases eq_or_other_of_accepts acceptsLeft with same | ⟨rightPlain, -⟩
    · exact same
    · rw [leftPlain, rightPlain]

/-- Tokens that spell out the slots of each other's signatures have the same ones, position by position. -/
theorem Signature.map_eq_of_spelled {left right : List Token}
    (spelledRight : Slot.Spelled (left.map fun token => token.signature.slot) right)
    (spelledLeft : Slot.Spelled (right.map fun token => token.signature.slot) left) :
    left.map Token.signature = right.map Token.signature := by
  induction left generalizing right with
  | nil =>
    cases spelledRight
    rfl
  | cons token rest inductionHypothesis =>
    cases spelledRight with
    | cons acceptsRight restRight =>
      cases spelledLeft with
      | cons acceptsLeft restLeft =>
        rw [List.map_cons, List.map_cons, eq_of_accepts acceptsRight acceptsLeft,
          inductionHypothesis restRight restLeft]

namespace Sequence

variable {left right : Sequence}

/-- The template that asks for the signatures of a sequence. -/
def skeleton (sequence : Sequence) : Template :=
  { id := "", name := "", description := "", outline := "", sample := ""
    slots := sequence.tokens.map fun token => token.signature.slot }

theorem spelledBy_skeleton (sequence : Sequence) : sequence.skeleton.SpelledBy sequence := by
  rw [Template.SpelledBy, skeleton, Slot.Spelled, List.forall₂_map_left_iff, List.forall₂_same]
  exact fun token _ => Signature.accepts_slot_signature token

namespace AnalysedAlike

theorem symm (alike : left.AnalysedAlike right) : right.AnalysedAlike left where
  matchOf_eq template := (alike.matchOf_eq template).symm
  window?_eq template := (alike.window?_eq template).symm
  rank_eq catalog := (alike.rank_eq catalog).symm
  suggest_eq catalog limit := (alike.suggest_eq catalog limit).symm
  forCompletion_eq template := (alike.forCompletion_eq template).symm

/-- What cannot be told apart from a sequence that holds tokens spells out its skeleton, too. -/
theorem spelledBy_skeleton (alike : left.AnalysedAlike right) (tokens : 1 ≤ left.length) :
    left.skeleton.SpelledBy right := by
  have slots : 1 ≤ left.skeleton.length := by
    rwa [Template.length, skeleton, List.length_map]
  have complete := Template.isComplete_iff.mpr ⟨slots, left.spelledBy_skeleton⟩
  rw [alike.matchOf_eq] at complete
  exact (Template.isComplete_iff.mp complete).2

theorem length_eq (alike : left.AnalysedAlike right) (tokens : 1 ≤ left.length) :
    left.length = right.length := by
  have counted := (alike.spelledBy_skeleton tokens).length_eq
  rwa [skeleton, List.length_map] at counted

theorem signatures_eq (alike : left.AnalysedAlike right) : left.signatures = right.signatures := by
  by_cases inLeft : 1 ≤ left.length
  · have inRight : 1 ≤ right.length := alike.length_eq inLeft ▸ inLeft
    exact Signature.map_eq_of_spelled (alike.spelledBy_skeleton inLeft)
      (alike.symm.spelledBy_skeleton inRight)
  · -- A sequence with tokens would not be told apart from one without.
    by_cases inRight : 1 ≤ right.length
    · exact absurd (alike.symm.length_eq inRight ▸ inRight) inLeft
    · have leftEmpty : left.tokens = [] := List.length_eq_zero_iff.mp (Nat.lt_one_iff.mp (not_le.mp inLeft))
      have rightEmpty : right.tokens = [] :=
        List.length_eq_zero_iff.mp (Nat.lt_one_iff.mp (not_le.mp inRight))
      rw [signatures, signatures, leftEmpty, rightEmpty]

end AnalysedAlike

/-- Pattern analysis sees the signatures of the tokens and nothing else.  Two sequences have the same
signatures, position by position, exactly when no analysis tells them apart: whatever texts their nouns and
verbs carry, whichever verbs these are, and however the chains are numbered, they have the same match and
window in every template, the same ranking and suggestions in every catalog, and the same completion. -/
theorem analysis_sees_signatures (left right : Sequence) :
    left.signatures = right.signatures ↔ left.AnalysedAlike right :=
  ⟨analysedAlike_of_signatures, AnalysedAlike.signatures_eq⟩

/-- Another noun, a verb of the user's for a fixed one, and a run cut in two are not seen; another word
is. -/
example :
    let sentence : Sequence := ⟨[⟨.noun, some "Doc", 0⟩, ⟨.other, some "について", 0⟩, ⟨.verb .analyze, none, 0⟩]⟩
    sentence.signatures =
        signatures ⟨[⟨.noun, none, 3⟩, ⟨.other, some "について", 4⟩, ⟨.customVerb, some "調べて", 4⟩]⟩ ∧
      sentence.signatures ≠
        signatures ⟨[⟨.noun, some "Doc", 0⟩, ⟨.other, some "about", 0⟩, ⟨.verb .analyze, none, 0⟩]⟩ := by
  decide

end Sequence

end PromptBlocks
