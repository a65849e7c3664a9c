import Mathlib.Logic.Function.Basic
import PromptBlocks.Grammar.Report
import PromptBlocks.Proofs.Sequence.Alike

/-!
Contract: a check sees the blocks of a sequence and where its runs end, and nothing else.

Owns:
- the rules of each profile read off the sight from a place, or off the blocks of a sequence;
- the same report for alike sequences.

Does not own: what the rules find.
-/

namespace PromptBlocks.Grammar

open Function (FactorsThrough)

/-- A rule that reads off sights finds the same where the same is in sight. -/
theorem filterMap_congr_of_sight {rule : Place → Option Note} (factors : FactorsThrough rule Place.sight)
    {left right : List Place} (same : left.map Place.sight = right.map Place.sight) :
    left.filterMap rule = right.filterMap rule := by
  obtain ⟨read, rfl⟩ := (Function.factorsThrough_iff rule).mp factors
  rw [← List.filterMap_map, ← List.filterMap_map, same]

theorem kind_before_congr {left right : Place} (same : left.sight = right.sight) :
    left.before.map Token.kind = right.before.map Token.kind := by
  have kinds := congrArg (Option.map Block.kind) (Place.before_congr same)
  rw [Option.map_map, Option.map_map] at kinds
  exact kinds

theorem surface_congr {left right : Place} (same : left.sight = right.sight)
    (isFixed : right.token.block.isFreeText = false) (locale : Locale) :
    left.token.surface locale = right.token.surface locale :=
  Token.surface_congr (Place.block_congr same) isFixed locale

namespace Japanese

theorem particleNote?_factors : FactorsThrough particleNote? Place.sight := by
  intro left right same
  rw [particleNote?, particleNote?, Place.index_congr same, Place.block_congr same,
    kind_before_congr same]
  cases block : right.token.block with
  | particle word =>
    rw [surface_congr same (by rw [block]; rfl) .ja]
  | _ => rfl

theorem verbNote?_factors : FactorsThrough verbNote? Place.sight := by
  intro left right same
  have sameContent := Place.any_followers_congr same fun block =>
    block.kind == .noun || block.kind == .verb
  unfold verbNote?
  rw [Place.index_congr same, Place.kind_congr same]
  exact congrArg (fun content : Bool => if right.token.kind == .verb && content then _ else _)
    sameContent

theorem nounNote?_factors : FactorsThrough nounNote? Place.sight := by
  intro left right same
  rw [nounNote?, nounNote?, Place.index_congr same, Place.kind_congr same, kind_before_congr same]

end Japanese

namespace English

theorem hasObject_congr {left right : Place} (same : left.sight = right.sight) :
    hasObject left = hasObject right :=
  Place.any_next?_congr same fun block =>
    block.kind == .noun || block.kind == .other || block.isDeterminer

theorem isFreeText_of_isDeterminer {block : Block} (isDeterminer : block.isDeterminer = true) :
    block.isFreeText = false := by
  cases block with
  | article => rfl
  | _ => cases isDeterminer

theorem consecutiveNote?_factors : FactorsThrough consecutiveNote? Place.sight := by
  intro left right same
  rw [consecutiveNote?, consecutiveNote?, Place.index_congr same, Place.block_congr same,
    Place.any_before_congr same Block.isDeterminer]
  cases isDeterminer : right.token.block.isDeterminer with
  | false => rfl
  | true => rw [surface_congr same (isFreeText_of_isDeterminer isDeterminer)]

theorem articleNote?_factors : FactorsThrough articleNote? Place.sight := by
  intro left right same
  rw [articleNote?, articleNote?, nounAfter, nounAfter, Place.index_congr same,
    Place.block_congr same, hasObject_congr same]
  cases isDeterminer : right.token.block.isDeterminer with
  | false => rfl
  | true => rw [surface_congr same (isFreeText_of_isDeterminer isDeterminer)]

theorem prepositionNote?_factors : FactorsThrough prepositionNote? Place.sight := by
  intro left right same
  rw [prepositionNote?, prepositionNote?, nounAfter, nounAfter, Place.index_congr same,
    Place.block_congr same, hasObject_congr same]

theorem pleaseNote?_factors : FactorsThrough pleaseNote? Place.sight := by
  intro left right same
  have samePreceded : left.before.isSome = right.before.isSome := by
    simpa only [Option.isSome_map] using congrArg Option.isSome (Place.before_congr same)
  have sameVerb := Place.any_next?_congr same fun block => block.kind == .verb
  unfold pleaseNote?
  rw [Place.index_congr same, Place.block_congr same, samePreceded]
  exact congrArg (fun beforeVerb : Bool =>
    if right.token.block == .article .please && right.before.isSome && !beforeVerb then _ else _)
    sameVerb

theorem terminalNote?_factors : FactorsThrough terminalNote? Place.sight := by
  intro left right same
  have sameContent := Place.any_followers_congr same fun block => block.kind != .punctuation
  unfold terminalNote?
  rw [Place.index_congr same, Place.block_congr same]
  split
  · exact congrArg (fun content : Bool => if _ && content then _ else _) sameContent
  · rfl

end English

/-! ### Whole sequences -/

section Blocks

variable {left right : List Token}

theorem any_congr_of_block (same : left.map Token.block = right.map Token.block)
    (holds : Block → Bool) :
    (left.any fun token => holds token.block) = right.any fun token => holds token.block := by
  have counted := congrArg (List.any · holds) same
  rw [List.any_map, List.any_map] at counted
  exact counted

theorem Japanese.sentenceNotes_congr (same : left.map Token.block = right.map Token.block) :
    sentenceNotes left = sentenceNotes right := by
  have sameVerb : (left.findIdx? fun token => token.kind == .verb) =
      right.findIdx? fun token => token.kind == .verb := by
    have found := congrArg (List.findIdx? (fun block : Block => block.kind == .verb)) same
    rw [List.findIdx?_map, List.findIdx?_map] at found
    exact found
  have sameSubject : ∀ position, subjectNote? left position = subjectNote? right position := by
    intro position
    rw [subjectNote?, subjectNote?, any_congr_of_block same (· == .particle .ga)]
  have sameObject : ∀ position, objectNote? left position = objectNote? right position := by
    intro position
    have sameFront : (left.take position).map Token.block = (right.take position).map Token.block := by
      rw [List.map_take, List.map_take, same]
    rw [objectNote?, objectNote?, any_congr_of_block sameFront (· == .particle .wo)]
  unfold sentenceNotes
  rw [sameVerb]
  split
  · rfl
  · rw [sameSubject, sameObject]

theorem English.verbNotes_congr (same : left.map Token.block = right.map Token.block) :
    verbNotes left = verbNotes right := by
  have sameVerb := any_congr_of_block same fun block => block.kind == .verb
  unfold verbNotes
  exact congrArg (fun hasVerb : Bool => if hasVerb then [] else _) sameVerb

end Blocks

section Alike

variable {left right : Sequence}

theorem notes_congr (alike : Alike left.tokens right.tokens) (grammar : Locale) :
    notes grammar left = notes grammar right := by
  have places := Sequence.map_sight_places alike
  have same : ∀ {rule : Place → Option Note}, FactorsThrough rule Place.sight →
      left.places.filterMap rule = right.places.filterMap rule :=
    fun factors => filterMap_congr_of_sight factors places
  cases grammar with
  | ja =>
    show Japanese.notes left = Japanese.notes right
    rw [Japanese.notes, Japanese.notes, same Japanese.particleNote?_factors,
      same Japanese.verbNote?_factors, same Japanese.nounNote?_factors,
      Japanese.sentenceNotes_congr alike.map_block]
  | en =>
    obtain ⟨repeated, repeats⟩ :=
      (Function.factorsThrough_iff English.consecutiveNote?).mp English.consecutiveNote?_factors
    obtain ⟨lacking, lacks⟩ :=
      (Function.factorsThrough_iff English.articleNote?).mp English.articleNote?_factors
    have sameDeterminers :
        (left.places.flatMap fun place =>
          (English.consecutiveNote? place).toList ++ (English.articleNote? place).toList) =
        right.places.flatMap fun place =>
          (English.consecutiveNote? place).toList ++ (English.articleNote? place).toList := by
      have read := congrArg
        (List.flatMap fun sight => (repeated sight).toList ++ (lacking sight).toList) places
      rw [List.flatMap_map, List.flatMap_map] at read
      rw [repeats, lacks]
      exact read
    show English.notes left = English.notes right
    rw [English.notes, English.notes, sameDeterminers, same English.prepositionNote?_factors,
      same English.pleaseNote?_factors, same English.terminalNote?_factors,
      English.verbNotes_congr alike.map_block]

/-- A check reports the same of alike sequences, in any language. -/
theorem check_congr (alike : Alike left.tokens right.tokens) (grammar display : Locale) :
    check left grammar display = check right grammar display := by
  have sameEmpty : left.isEmpty = right.isEmpty := alike.isEmpty_eq
  rw [check, check, sameEmpty, notes_congr alike]

end Alike

end PromptBlocks.Grammar
